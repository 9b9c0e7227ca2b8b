import Fabric.Catalog.Reader
import Mathlib.Data.List.Sort

/-! The queries over a catalog that has been read. -/

set_option linter.dupNamespace false

namespace Fabric.Catalog

/-- How a query, or a run of the tool, ends without a value: it returns an error, or it panics, as an index out of the
    range of the artifacts does. -/
inductive QueryFault where
  | error (error : CatalogError)
  | panic
  deriving DecidableEq, Repr

structure CargoDependent where
  artifact : CatalogArtifact
  kind : DependencyKind
  deriving DecidableEq, Repr

/-- The derived order of `DependencyKind`, as the positions of its variants. -/
def DependencyKind.rank : DependencyKind → Nat
  | .normal => 0
  | .development => 1
  | .build => 2

/-- The comparison of `direct_dependents`: by path, then by kind. -/
def CargoDependent.Le (left right : CargoDependent) : Prop :=
  left.artifact.path < right.artifact.path ∨
    (left.artifact.path = right.artifact.path ∧ left.kind.rank ≤ right.kind.rank)

instance : DecidableRel CargoDependent.Le := fun _ _ => inferInstanceAs (Decidable (_ ∨ _))

namespace Catalog
variable (catalog : Catalog)

/-- The artifact at a position that one of the two maps gives. -/
def artifactAt (position : Option Nat) (notFound : CatalogError) : Except QueryFault CatalogArtifact :=
  match position with
  | none => .error (.error notFound)
  | some position =>
    match catalog.index.artifacts[position]? with
    | none => .error .panic
    | some artifact => .ok artifact

def artifactByPath (path : String) : Except QueryFault CatalogArtifact :=
  catalog.artifactAt catalog.byPath[path]? ⟨"artifact path not found: " ++ path⟩

def artifactByCargoPackage (cargoPackage : String) : Except QueryFault CatalogArtifact :=
  catalog.artifactAt catalog.byPackage[cargoPackage]? ⟨"Cargo package not found: " ++ cargoPackage⟩

def artifactsByKind (kind : ArtifactKind) : List CatalogArtifact :=
  catalog.index.artifacts.filter (·.kind = kind)

def artifactsByCategory (category : String) : List CatalogArtifact :=
  catalog.index.artifacts.filter (·.category = some category)

def directDependencies (path : String) : Except QueryFault CatalogDependencies :=
  (·.dependencies) <$> catalog.artifactByPath path

/-- The nested loop of `direct_dependents`. -/
def scanDependents (path : String) : List CargoDependent :=
  catalog.index.artifacts.flatMap fun artifact =>
    (DependencyKind.all.filter fun kind => (kind.dependencies artifact.dependencies).any (· == path)).map
      fun kind => ⟨artifact, kind⟩

def directDependents (path : String) : Except QueryFault (List CargoDependent) := do
  let _ ← catalog.artifactByPath path
  return (catalog.scanDependents path).insertionSort CargoDependent.Le

end Catalog

def parseArtifactKind (value : String) : Except CatalogError ArtifactKind :=
  match value with
  | "package" => .ok .package
  | "host" => .ok .host
  | "composition" => .ok .composition
  | "instance" => .ok .instance_
  | "example" => .ok .example_
  | other => .error ⟨"unsupported artifact kind: " ++ other⟩

end Fabric.Catalog
