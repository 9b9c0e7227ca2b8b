import Fabric.Catalog.Discovery
import Fabric.Catalog.Query
import Fabric.Catalog.Render
import Mathlib.Logic.Function.Basic

/-! The catalog tool: its arguments and commands, the two files that it writes and checks, and what it prints. -/

namespace Fabric.Catalog
open Rust

/-! ### Commands -/

inductive Command where
  | write
  | check
  | validate
  | list
  | listKind (kind : ArtifactKind)
  | listCategory (category : String)
  | show_ (path : String)
  | showPackage (cargoPackage : String)
  | deps (path : String)
  | dependents (path : String)
  deriving DecidableEq, Repr

def expectNoArgs (args : List String) (command : Command) : Except CatalogError Command :=
  if args.length = 1 then .ok command
  else .error ⟨"`" ++ args.head?.getD "" ++ "` does not accept additional arguments"⟩

def requiredArgument (args : List String) (command argument : String) : Except CatalogError String :=
  match args with
  | [_, value] => .ok value
  | [_] => .error ⟨"`" ++ command ++ "` requires " ++ argument⟩
  | _ => .error ⟨"`" ++ command ++ "` expects exactly one " ++ argument⟩

namespace Command

def expected : String :=
  "expected `write`, `check`, `validate`, `list`, `list-kind`, `list-category`, `show`, `show-package`, `deps`, " ++
    "or `dependents`"

def parseArgs (input : Option String) (args : List String) : Except CatalogError Command :=
  match input with
  | some "write" => expectNoArgs args write
  | some "check" => expectNoArgs args check
  | some "validate" => expectNoArgs args validate
  | some "list" => expectNoArgs args list
  | some "list-kind" => do
    let value ← requiredArgument args "list-kind" "kind"
    return listKind (← parseArtifactKind value)
  | some "list-category" => listCategory <$> requiredArgument args "list-category" "category"
  | some "show" => show_ <$> requiredArgument args "show" "path"
  | some "show-package" => showPackage <$> requiredArgument args "show-package" "cargo package"
  | some "deps" => deps <$> requiredArgument args "deps" "path"
  | some "dependents" => dependents <$> requiredArgument args "dependents" "path"
  | some other => .error ⟨"unknown command `" ++ other ++ "`: " ++ expected⟩
  | none => .error ⟨"missing command: " ++ expected⟩

/-- `Command::parse`, of the arguments behind the name of the program. -/
def parse (args : List String) : Except CatalogError Command := parseArgs args.head? args

end Command

/-! ### Presentation -/

def artifactSummary (artifact : CatalogArtifact) : String :=
  artifactKindLabel artifact.kind ++ "  " ++ artifact.path ++ "  " ++ artifact.cargoPackage

def renderList (artifacts : List CatalogArtifact) : String :=
  String.join (artifacts.map fun artifact => artifactSummary artifact ++ "\n")

/-- `push_dependency_group`. -/
def dependencyGroup (label : String) (paths : List String) : String :=
  "  " ++ label ++ ":\n" ++ String.join (paths.map fun path => "    " ++ path ++ "\n")

/-- `push_dependency_groups`. -/
def dependencyGroups (dependencies : CatalogDependencies) : String :=
  dependencyGroup "normal" dependencies.normal ++ dependencyGroup "development" dependencies.development ++
    dependencyGroup "build" dependencies.build

def renderShow (artifact : CatalogArtifact) : String :=
  "kind: " ++ artifactKindLabel artifact.kind ++ "\n" ++
  (match artifact.category with
    | some category => "category: " ++ category ++ "\n"
    | none => "") ++
  "path: " ++ artifact.path ++ "\n" ++
  "cargo package: " ++ artifact.cargoPackage ++ "\n" ++
  "version: " ++ artifact.version ++ "\n" ++
  "description: " ++ artifact.description ++ "\n" ++
  "publishable: " ++ toString artifact.publishable ++ "\n" ++
  (match artifact.readme with
    | some readme => "README: " ++ readme ++ "\n"
    | none => "") ++
  "Cargo dependencies:\n" ++ dependencyGroups artifact.dependencies

def renderDependencies (dependencies : CatalogDependencies) : String := dependencyGroups dependencies

def renderDependents (dependents : List CargoDependent) : String :=
  String.join (DependencyKind.all.map fun kind =>
    kind.label ++ ":\n" ++
      String.join ((dependents.filter (·.kind = kind)).map fun dependent => "  " ++ dependent.artifact.path ++ "\n"))

/-! ### The two files -/

def markdownPath : String := "catalog/index.md"

/-- What `read_to_string` of a file in a directory returns now: its content, or the text of an error. -/
abbrev Disk (Dir : Type) := Dir → String → Except String String

/-- What becomes of a write to a file; one that fails leaves anything there. -/
inductive WriteAnswer where
  | done
  | failed (error : String) (left : Except String String)

section
variable {Dir : Type} [DecidableEq Dir]

def Disk.put (disk : Disk Dir) (root : Dir) (relative : String) (content : Except String String) : Disk Dir :=
  Function.update disk root (Function.update (disk root) relative content)

def readFile (disk : Disk Dir) (root : Dir) (relative : String) : Except CatalogError String :=
  (disk root relative).mapError fun error => ⟨"failed to read " ++ relative ++ ": " ++ error⟩

def writeFile (disk : Disk Dir) (root : Dir) (relative content : String) (answer : WriteAnswer) :
    Except CatalogError Unit × Disk Dir :=
  match answer with
  | .done => (.ok (), disk.put root relative (.ok content))
  | .failed error left =>
    (.error ⟨"failed to write " ++ relative ++ ": " ++ error⟩, disk.put root relative left)

def writeCatalog (disk : Disk Dir) (root : Dir) (rendered : RenderedCatalog) (json markdown : WriteAnswer) :
    Except CatalogError Unit × Disk Dir :=
  match writeFile disk root jsonPath rendered.json json with
  | (.ok (), disk) => writeFile disk root markdownPath rendered.markdown markdown
  | (.error error, disk) => (.error error, disk)

def checkCatalog (disk : Disk Dir) (root : Dir) (rendered : RenderedCatalog) : Except CatalogError Unit := do
  let committedJson ← readFile disk root jsonPath
  let committedMarkdown ← readFile disk root markdownPath
  let stale := (if committedJson ≠ rendered.json then [jsonPath] else []) ++
    if committedMarkdown ≠ rendered.markdown then [markdownPath] else []
  if stale.isEmpty then .ok () else .error ⟨"committed catalog output is stale: " ++ String.intercalate ", " stale⟩

def readCatalogFrom (serde : SerdeJson) (disk : Disk Dir) (root : Dir) : Except CatalogError Catalog := do
  readCatalogStr serde (← readFile disk root jsonPath)

/-! ### The process -/

/-- What becomes of the text of a `print!`: the standard output takes it, as a closed one also does, or refuses it
    behind the bytes that it has taken. -/
inductive PrintAnswer where
  | taken
  | refused (count : Nat)

/-- An invocation of the tool: its arguments, of which the first is the name of the program, and what becomes of what it
    writes and prints. -/
structure Invocation where
  argv : List OsString
  json : WriteAnswer
  markdown : WriteAnswer
  stdout : PrintAnswer

/-- `print!`, which panics if its output refuses the text. -/
def print (text : String) : PrintAnswer → Except QueryFault Unit × Bytes
  | .taken => (.ok (), asBytes text)
  | .refused count => if text = "" then (.ok (), []) else (.error .panic, (asBytes text).take count)

/-! ### The tool -/

/-- Where the tool runs. -/
structure Environment (Dir : Type) where
  serde : SerdeJson
  /-- What `cargo metadata` gives, with what lies below the root of the workspace. -/
  metadata : Except CatalogError (CargoMetadata × FileTree)
  root : Dir
  /-- The directory that `"."` names. -/
  current : Dir

/-- A run of the tool: its result, or a panic, what its output has taken, and the files after it. -/
structure Ran (Dir : Type) where
  result : Except QueryFault Unit
  stdout : Bytes
  disk : Disk Dir

def renderWorkspaceCatalog (serde : SerdeJson) (workspace : Workspace) (tree : FileTree) :
    Except CatalogError RenderedCatalog := do
  renderCatalog serde (← discoverCatalog workspace tree)

namespace Environment
variable (env : Environment Dir)

def rendered : Except CatalogError RenderedCatalog := do
  let (metadata, tree) ← env.metadata
  renderWorkspaceCatalog env.serde (.ofMetadata metadata) tree

def runWrite (disk : Disk Dir) (json markdown : WriteAnswer) : Except CatalogError Unit × Disk Dir :=
  match env.rendered with
  | .ok rendered => writeCatalog disk env.root rendered json markdown
  | .error error => (.error error, disk)

/-- `check`, which is also `check_committed_catalog`. -/
def runCheck (disk : Disk Dir) : Except CatalogError Unit := do
  checkCatalog disk env.root (← env.rendered)

/-- A command that reads the committed catalog and prints what it finds there. -/
def query (disk : Disk Dir) (stdout : PrintAnswer) (present : Catalog → Except QueryFault String) : Ran Dir :=
  match readCatalogFrom env.serde disk env.current with
  | .error error => ⟨.error (.error error), [], disk⟩
  | .ok catalog =>
    match present catalog with
    | .ok text => ⟨(print text stdout).1, (print text stdout).2, disk⟩
    | .error fault => ⟨.error fault, [], disk⟩

def run (disk : Disk Dir) (invocation : Invocation) : Command → Ran Dir
  | .write =>
    match env.runWrite disk invocation.json invocation.markdown with
    | (result, disk) => ⟨result.mapError .error, [], disk⟩
  | .check => ⟨(env.runCheck disk).mapError .error, [], disk⟩
  | .validate =>
    env.query disk invocation.stdout fun catalog => .ok ("Catalog v" ++ toString catalog.schemaVersion.toNat ++
      " valid: " ++ toString catalog.artifacts.length ++ " artifacts\n")
  | .list => env.query disk invocation.stdout fun catalog => .ok (renderList catalog.artifacts)
  | .listKind kind => env.query disk invocation.stdout fun catalog => .ok (renderList (catalog.artifactsByKind kind))
  | .listCategory category =>
    env.query disk invocation.stdout fun catalog => .ok (renderList (catalog.artifactsByCategory category))
  | .show_ path => env.query disk invocation.stdout fun catalog => renderShow <$> catalog.artifactByPath path
  | .showPackage cargoPackage =>
    env.query disk invocation.stdout fun catalog => renderShow <$> catalog.artifactByCargoPackage cargoPackage
  | .deps path =>
    env.query disk invocation.stdout fun catalog => renderDependencies <$> catalog.directDependencies path
  | .dependents path =>
    env.query disk invocation.stdout fun catalog => renderDependents <$> catalog.directDependents path

/-- `run_from_env`. `env::args` panics at an argument that is not Unicode, and the name of the program is one. -/
def runFromEnv (disk : Disk Dir) (invocation : Invocation) : Ran Dir :=
  match invocation.argv.mapM intoString with
  | none => ⟨.error .panic, [], disk⟩
  | some words =>
    match Command.parse words.tail with
    | .ok command => env.run disk invocation command
    | .error error => ⟨.error (.error error), [], disk⟩

/-- One run of the tool after another: the results and what is printed, and the files at the end. -/
def runAll (disk : Disk Dir) : List Invocation → List (Except QueryFault Unit × Bytes) × Disk Dir
  | [] => ([], disk)
  | invocation :: rest =>
    let ran := env.runFromEnv disk invocation
    let (outcomes, final) := runAll ran.disk rest
    ((ran.result, ran.stdout) :: outcomes, final)

end Environment

end

end Fabric.Catalog
