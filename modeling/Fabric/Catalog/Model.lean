import Fabric.Library.Rust

/-! The catalog document, its artifacts and their dependency groups. -/

namespace Fabric.Catalog

structure CatalogError where
  message : String
  deriving DecidableEq, Repr

def catalogV1 : UInt8 := 1
def catalogV2 : UInt8 := 2
def currentSchemaVersion : UInt8 := catalogV2

inductive ArtifactKind where
  | package
  | host
  | composition
  | instance_
  | example_
  deriving DecidableEq, Repr

def ArtifactKind.heading : ArtifactKind → String
  | .package => "Packages"
  | .host => "Hosts"
  | .composition => "Compositions"
  | .instance_ => "Instances"
  | .example_ => "Examples"

def artifactKindLabel : ArtifactKind → String
  | .package => "package"
  | .host => "host"
  | .composition => "composition"
  | .instance_ => "instance"
  | .example_ => "example"

structure CatalogDependencies where
  normal : List String := []
  development : List String := []
  build : List String := []
  deriving DecidableEq, Repr

structure CatalogArtifact where
  kind : ArtifactKind
  category : Option String
  path : String
  cargoPackage : String
  version : String
  description : String
  publishable : Bool
  readme : Option String
  dependencies : CatalogDependencies
  deriving DecidableEq, Repr

structure CatalogIndex where
  schemaVersion : UInt8
  artifacts : List CatalogArtifact
  deriving DecidableEq, Repr

inductive DependencyKind where
  | normal
  | development
  | build
  deriving DecidableEq, Repr

namespace DependencyKind

def label : DependencyKind → String
  | normal => "normal"
  | development => "development"
  | build => "build"

def dependencies (kind : DependencyKind) (dependencies : CatalogDependencies) : List String :=
  match kind with
  | normal => dependencies.normal
  | development => dependencies.development
  | build => dependencies.build

def all : List DependencyKind := [normal, development, build]

theorem mem_all (kind : DependencyKind) : kind ∈ all := by cases kind <;> decide

end DependencyKind

end Fabric.Catalog
