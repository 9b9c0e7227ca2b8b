import Fabric.Catalog.Serde
import Fabric.Catalog.Validation

/-! The strict reader of a committed catalog. -/

set_option linter.dupNamespace false

namespace Fabric.Catalog
open Std (TreeMap)

/-- A catalog that has been read, with the positions of its artifacts by path and by package name. -/
structure Catalog where
  index : CatalogIndex
  byPath : TreeMap String Nat
  byPackage : TreeMap String Nat

namespace Catalog

def fromValidated (index : CatalogIndex) : Catalog where
  index := index
  byPath := index.artifacts.zipIdx.foldl (fun byPath (artifact, position) => byPath.insert artifact.path position) ∅
  byPackage := index.artifacts.zipIdx.foldl
    (fun byPackage (artifact, position) => byPackage.insert artifact.cargoPackage position) ∅

def artifacts (catalog : Catalog) : List CatalogArtifact := catalog.index.artifacts

def schemaVersion (catalog : Catalog) : UInt8 := catalog.index.schemaVersion

end Catalog

def jsonPath : String := "catalog/index.json"

def readCatalogStr (serde : SerdeJson) (content : String) : Except CatalogError Catalog := do
  let invalid (error : String) : CatalogError := ⟨"invalid JSON in " ++ jsonPath ++ ": " ++ error⟩
  let index ← match serde.fromStr content with
    | .error error => .error (invalid error)
    | .ok value => match Serde.deserializeIndex value with
      | .error error => .error (invalid (serde.showDataError content error))
      | .ok index => .ok index
  validateCatalogIndex index
  return Catalog.fromValidated index

end Fabric.Catalog
