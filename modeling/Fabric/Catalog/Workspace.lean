import Fabric.Library.Path
import Mathlib.Data.String.Basic

/-! The Cargo workspace that a catalog is generated from. -/

namespace Fabric.Catalog
open Rust
open Std (TreeSet)

structure CargoDependency where
  name : String
  kind : Option String
  deriving DecidableEq, Repr

structure CargoPackage where
  name : String
  version : String
  id : String
  description : Option String
  publish : Option (List String)
  manifestPath : PathBuf
  dependencies : List CargoDependency
  deriving DecidableEq, Repr

structure CargoMetadata where
  packages : List CargoPackage
  workspaceMembers : List String
  workspaceRoot : PathBuf

structure Workspace where
  root : PathBuf
  packages : List CargoPackage

/-- `Workspace::discover`, from the metadata that Cargo has printed. -/
def Workspace.ofMetadata (metadata : CargoMetadata) : Workspace where
  root := metadata.workspaceRoot
  packages := metadata.packages.filter fun package => package.id ∈ TreeSet.ofList metadata.workspaceMembers

end Fabric.Catalog
