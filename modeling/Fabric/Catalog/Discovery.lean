import Fabric.Catalog.Model
import Fabric.Catalog.Workspace
import Fabric.Library.Fallible
import Mathlib.Data.List.Destutter
import Mathlib.Data.List.Sort

/-! Discovery of the catalog from a Cargo workspace and the directory tree at its root. -/

namespace Fabric.Catalog
open Rust
open Std (TreeMap TreeSet)

/-! ### Paths of artifacts -/

def pathToSlashString (path : List Component) : String :=
  join (path.filterMap fun
    | .normal value => some (toStringLossy value)
    | _ => none) '/'

def artifactPath (workspace : Workspace) (package : CargoPackage) : Except CatalogError String :=
  match parent (components package.manifestPath) with
  | none => .error ⟨"manifest has no parent: " ++ package.name⟩
  | some manifestDir =>
    match stripPrefix manifestDir (components workspace.root) with
    | none => .error ⟨"manifest path is outside workspace root: " ++ toStringLossy package.manifestPath⟩
    | some relative => .ok (pathToSlashString relative)

inductive Classification where
  | cataloged (kind : ArtifactKind) (category : Option String)
  | ignored
  deriving DecidableEq, Repr

def classifyPath (path : String) : Except CatalogError Classification :=
  let unsupported : CatalogError := ⟨"unsupported catalog artifact path: " ++ path⟩
  match split path '/' with
  | ["packages", category, _] => .ok (.cataloged .package (some category))
  | ["hosts", _] => .ok (.cataloged .host none)
  | ["compositions", category, _] => .ok (.cataloged .composition (some category))
  | ["instances", category, _] => .ok (.cataloged .instance_ (some category))
  | ["examples", _] => .ok (.cataloged .example_ none)
  | "tests" :: _ | "tools" :: _ => .ok .ignored
  | "packages" :: _ | "hosts" :: _ | "compositions" :: _ | "instances" :: _ | "examples" :: _ => .error unsupported
  | _ => .ok .ignored

/-! ### The packages of the workspace -/

/-- The first loop of `discover_catalog`. -/
def registerName (names : TreeSet String) (package : CargoPackage) : Except CatalogError (TreeSet String) := do
  rejectIf (package.name ∈ names) ⟨"duplicate Cargo package name in workspace: " ++ package.name⟩
  return names.insert package.name

/-- What the second loop collects: the packages by path, and the paths by package name. -/
structure Classified where
  artifacts : TreeMap String (CargoPackage × ArtifactKind × Option String) := ∅
  packagePathByName : TreeMap String String := ∅

def classifyPackage (workspace : Workspace) (classified : Classified) (package : CargoPackage) :
    Except CatalogError Classified := do
  let path ← artifactPath workspace package
  match ← classifyPath path with
  | .cataloged kind category =>
    rejectIf (path ∈ classified.artifacts) ⟨"duplicate catalog artifact path: " ++ path⟩
    return {
      artifacts := classified.artifacts.insert path (package, kind, category)
      packagePathByName := classified.packagePathByName.insert package.name path }
  | .ignored => return classified

/-! ### The manifests on disk -/

/-- The state of the loops in `find_cargo_tomls`. The top of the stack `pending` is the head of the list, and each
    pending path stands with the directory that it leads to. -/
structure ManifestSearch where
  manifests : List PathBuf
  pending : List (PathBuf × FileTree)

def visitEntry (path : PathBuf) (search : ManifestSearch) (entry : Except String (OsString × FileTree)) :
    Except CatalogError ManifestSearch :=
  match entry with
  | .error error => .error ⟨"failed to read catalog root entry in " ++ toStringLossy path ++ ": " ++ error⟩
  | .ok (name, tree) =>
    let entryPath := joinPath path name
    if tree.isDir then .ok { search with pending := (entryPath, tree) :: search.pending }
    else if fileName (components entryPath) = some (osString "Cargo.toml") then
      .ok { search with manifests := search.manifests ++ [entryPath] }
    else .ok search

/-- One round of the outer loop of `find_cargo_tomls`. -/
def visitDirectory (path : PathBuf) (tree : FileTree) (search : ManifestSearch) : Except CatalogError ManifestSearch :=
  match tree.readDir with
  | .error error => .error ⟨"failed to read catalog root " ++ toStringLossy path ++ ": " ++ error⟩
  | .ok entries => entries.foldlM (visitEntry path) search

theorem visitEntries_cut {path : PathBuf} {entries : List (Except String (OsString × FileTree))} {error : String}
    {search next : ManifestSearch} : (entries ++ [Except.error error]).foldlM (visitEntry path) search ≠ .ok next := by
  induction entries generalizing search with
  | nil => simp [visitEntry, bind, Except.bind]
  | cons entry rest ih =>
    rw [List.cons_append, Ne, foldlM_cons_eq_ok]
    rintro ⟨_, -, hrest⟩
    exact ih hrest

/-- Only a directory whose listing is complete can be visited. -/
theorem visitDirectory_eq_ok {path : PathBuf} {tree : FileTree} {search next : ManifestSearch} :
    visitDirectory path tree search = .ok next ↔ ∃ children, tree = .dir children .complete ∧
      (children.map Except.ok).foldlM (visitEntry path) search = .ok next := by
  unfold visitDirectory FileTree.readDir
  constructor
  · intro h
    match tree, h with
    | .dir children .complete, h => exact ⟨children, rfl, h⟩
    | .dir children (.cut count error), h => exact absurd h visitEntries_cut
  · rintro ⟨children, rfl, h⟩
    exact h

theorem sizeOf_visitEntry {path : PathBuf} {child : OsString × FileTree} {search next : ManifestSearch}
    (h : visitEntry path search (.ok child) = .ok next) :
    sizeOf (next.pending.map (·.2)) ≤ sizeOf (search.pending.map (·.2)) + (1 + sizeOf child) := by
  obtain ⟨name, tree⟩ := child
  simp only [visitEntry] at h
  split at h
  · cases h
    simp
    omega
  · split at h <;> cases h <;> exact Nat.le_add_right _ _

theorem sizeOf_visitEntries {path : PathBuf} {children : List (OsString × FileTree)} {search next : ManifestSearch}
    (h : (children.map Except.ok).foldlM (visitEntry path) search = .ok next) :
    sizeOf (next.pending.map (·.2)) ≤ sizeOf (search.pending.map (·.2)) + sizeOf children := by
  induction children generalizing search with
  | nil =>
    cases h
    exact Nat.le_add_right _ _
  | cons child rest ih =>
    obtain ⟨visited, hvisit, hrest⟩ := foldlM_cons_eq_ok.mp h
    have hvisited := sizeOf_visitEntry hvisit
    have hnext := ih hrest
    simp only [List.cons.sizeOf_spec]
    omega

/-- The outer loop of `find_cargo_tomls`. -/
def findCargoTomlsFrom (search : ManifestSearch) : Except CatalogError (List PathBuf) :=
  match _hpending : search.pending with
  | [] => .ok search.manifests
  | (path, tree) :: pending =>
    match _hvisit : visitDirectory path tree { search with pending } with
    | .error error => .error error
    | .ok next => findCargoTomlsFrom next
termination_by sizeOf (search.pending.map (·.2))
decreasing_by
  obtain ⟨children, rfl, hchildren⟩ := visitDirectory_eq_ok.mp _hvisit
  have hnext := sizeOf_visitEntries hchildren
  rw [_hpending]
  simp only [List.map_cons, List.cons.sizeOf_spec, FileTree.dir.sizeOf_spec] at hnext ⊢
  omega

def findCargoTomls (root : PathBuf) (tree : FileTree) : Except CatalogError (List PathBuf) :=
  findCargoTomlsFrom ⟨[], [(root, tree)]⟩

def checkManifest (workspace : Workspace) (represented : TreeSet String) (manifest : PathBuf) :
    Except CatalogError Unit := do
  -- A manifest has a file name, so the `expect` on its parent holds.
  let artifactDir := (parent (components manifest)).getD []
  let relative ← match stripPrefix artifactDir (components workspace.root) with
    | none => .error ⟨"manifest path is outside workspace root: " ++ toStringLossy manifest⟩
    | some relative => .ok (pathToSlashString relative)
  match ← classifyPath relative with
  | .cataloged _ _ =>
    rejectIf (relative ∉ represented) ⟨"catalog root artifact is not a workspace member: " ++ relative⟩
  | .ignored => return ()

def catalogRoots : List String := ["packages", "hosts", "compositions", "instances", "examples"]

def checkCatalogRoot (workspace : Workspace) (tree : FileTree) (represented : TreeSet String) (root : String) :
    Except CatalogError Unit :=
  match tree.lookup (components (osString root)) with
  | none => .ok ()
  | some below =>
    if below.pathExists then do
      let manifests ← findCargoTomls (joinPath workspace.root (osString root)) below
      forM manifests (checkManifest workspace represented)
    else .ok ()

def validateSupportedCargoTomlsAreWorkspaceMembers (workspace : Workspace) (tree : FileTree)
    (catalogedPaths : List String) : Except CatalogError Unit :=
  forM catalogRoots (checkCatalogRoot workspace tree (TreeSet.ofList catalogedPaths))

/-! ### The artifacts -/

/-- `Vec::sort` and `Vec::dedup`. -/
def sortDedup (paths : List String) : List String := (paths.insertionSort (· ≤ ·)).destutter (· ≠ ·)

/-- One round of the loop in `dependency_projection`. -/
def projectDependency (packagePathByName : TreeMap String String) (dependencies : CatalogDependencies)
    (dependency : CargoDependency) : CatalogDependencies :=
  match packagePathByName[dependency.name]? with
  | none => dependencies
  | some path =>
    match dependency.kind with
    | none => { dependencies with normal := dependencies.normal ++ [path] }
    | some "dev" => { dependencies with development := dependencies.development ++ [path] }
    | some "build" => { dependencies with build := dependencies.build ++ [path] }
    | some _ => dependencies

def dependencyProjection (package : CargoPackage) (packagePathByName : TreeMap String String) : CatalogDependencies :=
  let dependencies := package.dependencies.foldl (projectDependency packagePathByName) {}
  { normal := sortDedup dependencies.normal
    development := sortDedup dependencies.development
    build := sortDedup dependencies.build }

/-- The last loop of `discover_catalog`. -/
def catalogArtifact (tree : FileTree) (packagePathByName : TreeMap String String)
    (entry : String × CargoPackage × ArtifactKind × Option String) : Except CatalogError CatalogArtifact :=
  let (path, package, kind, category) := entry
  match package.description.filter fun description => !(trim description).isEmpty with
  | none => .error ⟨"cataloged artifact missing Cargo description: " ++ path⟩
  | some description =>
    let readmePath := tree.lookup (components (joinPath (osString path) (osString "README.md")))
    .ok {
      kind
      category
      path
      cargoPackage := package.name
      version := package.version
      description
      publishable := match package.publish with
        | none => true
        | some registries => !registries.isEmpty
      readme := if readmePath.any FileTree.isFile then some (path ++ "/README.md") else none
      dependencies := dependencyProjection package packagePathByName }

def discoverCatalog (workspace : Workspace) (tree : FileTree) : Except CatalogError CatalogIndex := do
  let _ ← workspace.packages.foldlM registerName ∅
  let classified ← workspace.packages.foldlM (classifyPackage workspace) {}
  validateSupportedCargoTomlsAreWorkspaceMembers workspace tree classified.artifacts.keys
  let artifacts ← classified.artifacts.toList.mapM (catalogArtifact tree classified.packagePathByName)
  return {
    schemaVersion := currentSchemaVersion
    artifacts := artifacts.insertionSort fun left right => left.path ≤ right.path }

end Fabric.Catalog
