import Fabric.Catalog.Model
import Fabric.Library.Fallible
import Mathlib.Data.String.Basic

/-! The strict validator of catalog documents. -/

namespace Fabric.Catalog
open Rust Std

inductive CatalogSchema where
  | v1
  | v2
  deriving DecidableEq, Repr

namespace CatalogSchema

def fromVersion (version : UInt8) : Except CatalogError CatalogSchema :=
  if version = catalogV1 then .ok v1
  else if version = catalogV2 then .ok v2
  else .error ⟨"unsupported Catalog schema version: " ++ toString version.toNat⟩

def label : CatalogSchema → String
  | v1 => "v1"
  | v2 => "v2"

def invalidStructure (schema : CatalogSchema) (detail : String) : CatalogError :=
  ⟨"invalid Catalog " ++ schema.label ++ " structure: " ++ detail⟩

end CatalogSchema

structure PathClassification where
  kind : ArtifactKind
  category : Option String
  deriving DecidableEq, Repr

def classifyCatalogPath (schema : CatalogSchema) (path : String) : Except CatalogError PathClassification :=
  if path.isEmpty || startsWith path '/' || endsWith path '/' || contains path '\\' ||
      (split path '/').any (fun segment => segment.isEmpty || segment == "." || segment == "..") then
    .error ⟨"invalid Catalog " ++ schema.label ++ " path: " ++ path⟩
  else
    let unsupported : CatalogError := ⟨"invalid Catalog " ++ schema.label ++ " topology: " ++ path⟩
    match split path '/' with
    | ["packages", category, _] => .ok ⟨.package, some category⟩
    | ["hosts", _] => .ok ⟨.host, none⟩
    | ["compositions", category, _] => .ok ⟨.composition, some category⟩
    | ["instances", category, _] => if schema = .v2 then .ok ⟨.instance_, some category⟩ else .error unsupported
    | ["examples", _] => .ok ⟨.example_, none⟩
    | _ => .error unsupported

section
variable (schema : CatalogSchema)

/-- The `match` on the implied and the declared category in `validate_artifact`. -/
def validateCategory (artifact : CatalogArtifact) (expected : Option String) : Except CatalogError Unit :=
  match expected, artifact.category with
  | some expected, some actual =>
    rejectIf (actual ≠ expected) (schema.invalidStructure ("category/path mismatch for " ++ artifact.path ++
      ": declared " ++ actual ++ " but path implies " ++ expected))
  | some _, none =>
    .error (schema.invalidStructure (artifactKindLabel artifact.kind ++ " requires category: " ++ artifact.path))
  | none, some _ =>
    .error (schema.invalidStructure (artifactKindLabel artifact.kind ++ " must not have category: " ++ artifact.path))
  | none, none => .ok ()

def validateReadme (artifact : CatalogArtifact) : Except CatalogError Unit :=
  match artifact.readme with
  | some readme =>
    let expected := artifact.path ++ "/README.md"
    rejectIf (readme ≠ expected) (schema.invalidStructure ("README path for " ++ artifact.path ++
      " must be " ++ expected))
  | none => .ok ()

def validateArtifact (artifact : CatalogArtifact) : Except CatalogError Unit := do
  let path ← classifyCatalogPath schema artifact.path
  rejectIf (path.kind ≠ artifact.kind) (schema.invalidStructure ("kind/path mismatch for " ++ artifact.path ++
    ": declared " ++ artifactKindLabel artifact.kind ++ " but path implies " ++ artifactKindLabel path.kind))
  validateCategory schema artifact path.category
  rejectIf (artifact.cargoPackage.isEmpty) (schema.invalidStructure
    ("cargoPackage must be non-empty: " ++ artifact.path))
  rejectIf (artifact.version.isEmpty) (schema.invalidStructure ("version must be non-empty: " ++ artifact.path))
  rejectIf ((trim artifact.description).isEmpty) (schema.invalidStructure
    ("description must contain non-whitespace content: " ++ artifact.path))
  validateReadme schema artifact

/-- The comparison with the `previous` cursor, which the loops over artifacts and over dependencies share. -/
def checkOrder (previous : Option String) (current : String) (duplicate : CatalogError)
    (unsorted : String → CatalogError) : Except CatalogError Unit :=
  match previous with
  | some previous =>
    if previous = current then .error duplicate
    else rejectIf (current < previous) (unsorted previous)
  | none => .ok ()

/-- What the first loop of `validate_catalog_index` carries from one artifact to the next. -/
structure ArtifactScan where
  previousPath : Option String := none
  artifactPaths : TreeSet String := ∅
  cargoPackages : TreeSet String := ∅

def ArtifactScan.push (scan : ArtifactScan) (artifact : CatalogArtifact) : ArtifactScan where
  previousPath := some artifact.path
  artifactPaths := scan.artifactPaths.insert artifact.path
  cargoPackages := scan.cargoPackages.insert artifact.cargoPackage

def scanArtifact (scan : ArtifactScan) (artifact : CatalogArtifact) : Except CatalogError ArtifactScan := do
  checkOrder scan.previousPath artifact.path
    (schema.invalidStructure ("duplicate artifact path: " ++ artifact.path))
    fun previous => schema.invalidStructure ("artifacts must be sorted by path: " ++ previous ++ " before " ++
      artifact.path)
  validateArtifact schema artifact
  rejectIf (artifact.cargoPackage ∈ scan.cargoPackages)
    (schema.invalidStructure ("duplicate Cargo package: " ++ artifact.cargoPackage))
  return scan.push artifact

variable (artifact : CatalogArtifact) (kind : DependencyKind) (artifactPaths : TreeSet String)

def checkDependency (previous : Option String) (dependency : String) : Except CatalogError (Option String) := do
  checkOrder previous dependency
    (schema.invalidStructure ("duplicate " ++ kind.label ++ " Cargo dependency reference in " ++ artifact.path ++
      ": " ++ dependency))
    fun _ => schema.invalidStructure (kind.label ++ " Cargo dependencies in " ++ artifact.path ++
      " must be sorted lexicographically")
  rejectIf (dependency ∉ artifactPaths) (schema.invalidStructure ("dangling " ++ kind.label ++
    " Cargo dependency reference in " ++ artifact.path ++ ": " ++ dependency))
  return some dependency

def validateDependencyGroup : Except CatalogError Unit := do
  let _ ← (kind.dependencies artifact.dependencies).foldlM (checkDependency schema artifact kind artifactPaths) none
  return ()

end

def validateCatalogIndex (index : CatalogIndex) : Except CatalogError Unit := do
  let schema ← CatalogSchema.fromVersion index.schemaVersion
  let scan ← index.artifacts.foldlM (scanArtifact schema) ({} : ArtifactScan)
  forM index.artifacts fun artifact =>
    forM DependencyKind.all fun kind => validateDependencyGroup schema artifact kind scan.artifactPaths

end Fabric.Catalog
