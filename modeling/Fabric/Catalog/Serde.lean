import Fabric.Catalog.Model
import Fabric.Library.Fallible
import Fabric.Library.Json

/-! The JSON form of the catalog document, as the serde attributes of its types fix it. -/

namespace Fabric.Catalog

/-- A JSON value that is not the form of the type asked for. -/
inductive DataError where
  | invalidType (expected : String)
  | invalidValue (expected : String)
  | invalidLength (length : Nat) (expected : String)
  | unknownField (field : String) (expected : List String)
  | unknownVariant (variant : String) (expected : List String)
  | duplicateField (field : String)
  | missingField (field : String)
  deriving DecidableEq, Repr

/-- The JSON library. A text with a number that is no unsigned 64-bit integer is an error: no field takes another one.
    The tool sees a document as text only, so a data error is shown with its place in the text. -/
structure SerdeJson where
  toStringPretty : Json → Except String String
  fromStr : String → Except String Json
  showDataError : String → DataError → String

/-- Printing never fails, and a text that has been printed reads back, also with white space after it. Deeper values run
    into the recursion limit of the parser. -/
structure SerdeJson.Inverse (serde : SerdeJson) : Prop where
  prints : ∀ v, ∃ text, serde.toStringPretty v = .ok text
  readsBack : ∀ v text, v.depth < 128 → serde.toStringPretty v = .ok text →
    ∀ blanks : String, blanks.toList.all Json.isBlank = true → serde.fromStr (text ++ blanks) = .ok v

namespace Serde

/-! ### Serialization -/

def variantName : ArtifactKind → String
  | .package => "package"
  | .host => "host"
  | .composition => "composition"
  | .instance_ => "instance"
  | .example_ => "example"

def strings (values : List String) : Json := .arr (values.map .str)

/-- A field with `skip_serializing_if = "Option::is_none"`. -/
def optionalMember (field : String) (value : Option String) : List (String × Json) :=
  match value with
  | some value => [(field, .str value)]
  | none => []

def serializeDependencies (dependencies : CatalogDependencies) : Json :=
  .obj [("normal", strings dependencies.normal), ("development", strings dependencies.development),
    ("build", strings dependencies.build)]

def serializeArtifact (artifact : CatalogArtifact) : Json :=
  .obj (("kind", .str (variantName artifact.kind)) :: optionalMember "category" artifact.category ++
    [("path", .str artifact.path), ("cargoPackage", .str artifact.cargoPackage), ("version", .str artifact.version),
      ("description", .str artifact.description), ("publishable", .bool artifact.publishable)] ++
    optionalMember "readme" artifact.readme ++ [("dependencies", serializeDependencies artifact.dependencies)])

def serializeIndex (index : CatalogIndex) : Json :=
  .obj [("schemaVersion", .num index.schemaVersion.toUInt64),
    ("artifacts", .arr (index.artifacts.map serializeArtifact))]

/-! ### Deserialization -/

abbrev Read (α : Type) := Json → Except DataError α

def string : Read String
  | .str s => .ok s
  | _ => .error (.invalidType "a string")

def boolean : Read Bool
  | .bool b => .ok b
  | _ => .error (.invalidType "a boolean")

def u8 : Read UInt8
  | .num n => if n.toNat ≤ 255 then .ok n.toUInt8 else .error (.invalidValue "u8")
  | _ => .error (.invalidType "u8")

def list {α : Type} (item : Read α) : Read (List α)
  | .arr items => items.mapM item
  | _ => .error (.invalidType "a sequence")

def optional {α : Type} (item : Read α) : Read (Option α)
  | .null => .ok none
  | value => some <$> item value

def variantNames : List String := ["package", "host", "composition", "instance", "example"]

def variant (name : String) : Except DataError ArtifactKind :=
  match name with
  | "package" => .ok .package
  | "host" => .ok .host
  | "composition" => .ok .composition
  | "instance" => .ok .instance_
  | "example" => .ok .example_
  | _ => .error (.unknownVariant name variantNames)

/-- A unit variant is its name, or an object with its name and `null`. -/
def artifactKind : Read ArtifactKind
  | .str name => variant name
  | .obj [(name, .null)] => variant name
  | _ => .error (.invalidType "enum ArtifactKind")

/-- The members of a struct. A sequence gives the fields in the order of their declaration. -/
def structMembers (struct : String) (fields : List String) : Read (List (String × Json))
  | .obj members => .ok members
  | .arr items =>
    if items.length = fields.length then .ok (fields.zip items) else .error (.invalidLength items.length struct)
  | _ => .error (.invalidType struct)

section
variable {α : Type} (field : String) (slot : Option α)

def setField (read : Read α) (value : Json) : Except DataError (Option α) :=
  match slot with
  | some _ => .error (.duplicateField field)
  | none => some <$> read value

def required : Except DataError α :=
  match slot with
  | some value => .ok value
  | none => .error (.missingField field)

end

structure DependencyFields where
  normal : Option (List String) := none
  development : Option (List String) := none
  build : Option (List String) := none

def dependencyFields : List String := ["normal", "development", "build"]

def setDependencyField (fields : DependencyFields) (member : String × Json) : Except DataError DependencyFields := do
  match member.1 with
  | "normal" => return { fields with normal := ← setField "normal" fields.normal (list string) member.2 }
  | "development" =>
    return { fields with development := ← setField "development" fields.development (list string) member.2 }
  | "build" => return { fields with build := ← setField "build" fields.build (list string) member.2 }
  | field => .error (.unknownField field dependencyFields)

def deserializeDependencies : Read CatalogDependencies := fun value => do
  let members ← structMembers "struct CatalogDependencies" dependencyFields value
  let fields ← members.foldlM setDependencyField {}
  return {
    normal := ← required "normal" fields.normal
    development := ← required "development" fields.development
    build := ← required "build" fields.build }

structure ArtifactFields where
  kind : Option ArtifactKind := none
  category : Option (Option String) := none
  path : Option String := none
  cargoPackage : Option String := none
  version : Option String := none
  description : Option String := none
  publishable : Option Bool := none
  readme : Option (Option String) := none
  dependencies : Option CatalogDependencies := none

def artifactFields : List String :=
  ["kind", "category", "path", "cargoPackage", "version", "description", "publishable", "readme", "dependencies"]

def setArtifactField (fields : ArtifactFields) (member : String × Json) : Except DataError ArtifactFields := do
  match member.1 with
  | "kind" => return { fields with kind := ← setField "kind" fields.kind artifactKind member.2 }
  | "category" => return { fields with category := ← setField "category" fields.category (optional string) member.2 }
  | "path" => return { fields with path := ← setField "path" fields.path string member.2 }
  | "cargoPackage" =>
    return { fields with cargoPackage := ← setField "cargoPackage" fields.cargoPackage string member.2 }
  | "version" => return { fields with version := ← setField "version" fields.version string member.2 }
  | "description" => return { fields with description := ← setField "description" fields.description string member.2 }
  | "publishable" => return { fields with publishable := ← setField "publishable" fields.publishable boolean member.2 }
  | "readme" => return { fields with readme := ← setField "readme" fields.readme (optional string) member.2 }
  | "dependencies" =>
    return { fields with
      dependencies := ← setField "dependencies" fields.dependencies deserializeDependencies member.2 }
  | field => .error (.unknownField field artifactFields)

def deserializeArtifact : Read CatalogArtifact := fun value => do
  let members ← structMembers "struct CatalogArtifact" artifactFields value
  let fields ← members.foldlM setArtifactField {}
  return {
    kind := ← required "kind" fields.kind
    category := fields.category.getD none
    path := ← required "path" fields.path
    cargoPackage := ← required "cargoPackage" fields.cargoPackage
    version := ← required "version" fields.version
    description := ← required "description" fields.description
    publishable := ← required "publishable" fields.publishable
    readme := fields.readme.getD none
    dependencies := ← required "dependencies" fields.dependencies }

structure IndexFields where
  schemaVersion : Option UInt8 := none
  artifacts : Option (List CatalogArtifact) := none

def indexFields : List String := ["schemaVersion", "artifacts"]

def setIndexField (fields : IndexFields) (member : String × Json) : Except DataError IndexFields := do
  match member.1 with
  | "schemaVersion" =>
    return { fields with schemaVersion := ← setField "schemaVersion" fields.schemaVersion u8 member.2 }
  | "artifacts" =>
    return { fields with artifacts := ← setField "artifacts" fields.artifacts (list deserializeArtifact) member.2 }
  | field => .error (.unknownField field indexFields)

def deserializeIndex : Read CatalogIndex := fun value => do
  let members ← structMembers "struct CatalogIndex" indexFields value
  let fields ← members.foldlM setIndexField {}
  return {
    schemaVersion := ← required "schemaVersion" fields.schemaVersion
    artifacts := ← required "artifacts" fields.artifacts }

end Serde

end Fabric.Catalog
