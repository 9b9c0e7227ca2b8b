import Fabric.Catalog.Discovery
import Fabric.Theorems.Catalog.Canonical

/-! Discovery yields canonical documents: what each of its loops has established, and from that the clauses of the
    validator. -/

namespace Fabric.Catalog
open Rust
open Std (TreeMap TreeSet)

/-! ### Classification -/

theorem classifyPath_eq_cataloged {path : String} {kind : ArtifactKind} {category : Option String} :
    classifyPath path = .ok (.cataloged kind category) ↔ Topology 2 (split path '/') kind category := by
  unfold classifyPath
  generalize split path '/' = segments
  constructor
  · intro h
    split at h <;> cases h
    · exact .packages _ _
    · exact .hosts _
    · exact .compositions _ _
    · exact .instances _ _ rfl
    · exact .examples _
  · intro h
    cases h <;> rfl

/-- The directories from the workspace root down to the manifest of a package. -/
def artifactDirectories (workspace : Workspace) (package : CargoPackage) : List Component :=
  ((parent (components package.manifestPath)).bind fun dir => stripPrefix dir (components workspace.root)).getD []

def hasBackslash : Component → Bool
  | .normal name => name.contains (.char '\\')
  | _ => false

/-- No directory on the way from the workspace root to the manifest has a backslash in its name. -/
def NoBackslash (workspace : Workspace) (package : CargoPackage) : Prop :=
  ∀ component ∈ artifactDirectories workspace package, hasBackslash component = false

instance (workspace : Workspace) (package : CargoPackage) : Decidable (NoBackslash workspace package) :=
  inferInstanceAs (Decidable (∀ component ∈ _, _))

theorem mem_pathToSlashString {path : List Component} {piece : String}
    (h : piece ∈ path.filterMap fun | .normal value => some (toStringLossy value) | _ => none) :
    ∃ name, .normal name ∈ path ∧ piece = toStringLossy name := by
  obtain ⟨component, hc, hpiece⟩ := List.mem_filterMap.mp h
  cases component with
  | normal name =>
    cases hpiece
    exact ⟨name, hc, rfl⟩
  | _ => cases hpiece

/-- The segments of a path made of the components of a manifest path are names among these, unless it is empty. -/
theorem mem_split_pathToSlashString {manifest : PathBuf} {path : List Component} (hsub : path ⊆ components manifest)
    (hne : pathToSlashString path ≠ "") {segment : String} (hs : segment ∈ split (pathToSlashString path) '/') :
    ∃ name, .normal name ∈ path ∧ segment = toStringLossy name := by
  unfold pathToSlashString at hne hs
  generalize heq : (path.filterMap fun | .normal value => some (toStringLossy value) | _ => none) = pieces at hne hs
  have hname : ∀ piece ∈ pieces, ∃ name, .normal name ∈ path ∧ piece = toStringLossy name :=
    fun piece hp => mem_pathToSlashString (heq ▸ hp)
  have hpieces : pieces ≠ [] := by
    rintro rfl
    exact hne rfl
  have hslash : ∀ piece ∈ pieces, '/' ∉ piece.toList := fun piece hp => by
    obtain ⟨name, hn, rfl⟩ := hname piece hp
    exact (normal_of_mem_components (hsub hn)).lossy.2.2.2
  rw [split_join hpieces hslash] at hs
  exact hname segment hs

/-- A path made of the components of a manifest path is canonical, unless it is empty. -/
theorem canonicalPath_pathToSlashString {manifest : PathBuf} {path : List Component} (hsub : path ⊆ components manifest)
    (hback : ∀ component ∈ path, hasBackslash component = false) (hne : pathToSlashString path ≠ "") :
    CanonicalPath (pathToSlashString path) := by
  refine .of_segments (fun segment hs => ?_) fun hc => ?_
  · obtain ⟨name, hn, rfl⟩ := mem_split_pathToSlashString hsub hne hs
    obtain ⟨hempty, hdot, hdots, -⟩ := (normal_of_mem_components (hsub hn)).lossy
    exact ⟨hempty, hdot, hdots⟩
  · rcases mem_join hc with h | ⟨piece, hp, h⟩
    · revert h
      decide
    · obtain ⟨name, hn, rfl⟩ := mem_pathToSlashString hp
      have hname := hback _ hn
      rw [hasBackslash, List.contains_eq_mem, decide_eq_false_iff_not] at hname
      exact hname (mem_toStringLossy (by decide) h)

theorem artifactDirectories_eq {workspace : Workspace} {package : CargoPackage} {directories : List Component}
    (h : parent (components package.manifestPath) = some (components workspace.root ++ directories)) :
    artifactDirectories workspace package = directories := by
  rw [artifactDirectories, h, Option.bind_some, stripPrefix_eq_some.mpr rfl, Option.getD_some]

/-- A package has a path when its manifest lies below the root of the workspace. -/
theorem artifactPath_eq_ok {workspace : Workspace} {package : CargoPackage} {path : String} :
    artifactPath workspace package = .ok path ↔
      parent (components package.manifestPath) =
          some (components workspace.root ++ artifactDirectories workspace package) ∧
        path = pathToSlashString (artifactDirectories workspace package) := by
  constructor
  · intro h
    unfold artifactPath at h
    split at h
    · cases h
    · rename_i dir hdir
      split at h
      · cases h
      · rename_i relative hrelative
        cases h
        rw [stripPrefix_eq_some.mp hrelative] at hdir
        rw [artifactDirectories_eq hdir]
        exact ⟨hdir, rfl⟩
  · rintro ⟨hdir, rfl⟩
    rw [artifactPath, hdir]
    simp only [stripPrefix_eq_some.mpr rfl]

/-! ### The packages of the workspace -/

/-- The path of a package: the names between the root of the workspace and the manifest, joined by slashes. What is not
    UTF-8 in a name is replaced in it. -/
def LiesAt (workspace : Workspace) (package : CargoPackage) (path : String) : Prop :=
  ∃ directories : List Component,
    parent (components package.manifestPath) = some (components workspace.root ++ directories) ∧
      path = join (directories.filterMap fun
        | .normal name => some (toStringLossy name)
        | _ => none) '/'

theorem liesAt_iff {workspace : Workspace} {package : CargoPackage} {path : String} :
    LiesAt workspace package path ↔ artifactPath workspace package = .ok path := by
  rw [artifactPath_eq_ok]
  constructor
  · rintro ⟨directories, hdir, rfl⟩
    rw [artifactDirectories_eq hdir]
    exact ⟨hdir, rfl⟩
  · rintro ⟨hdir, rfl⟩
    exact ⟨_, hdir, rfl⟩

/-- A package of the workspace is cataloged at a path. -/
structure Cataloged (workspace : Workspace) (package : CargoPackage) (path : String) (kind : ArtifactKind)
    (category : Option String) : Prop where
  liesAt : LiesAt workspace package path
  topology : Topology 2 (split path '/') kind category

section
variable {workspace : Workspace} {package : CargoPackage} {path : String} {kind : ArtifactKind}
  {category : Option String}

theorem Cataloged.located (h : Cataloged workspace package path kind category) :
    artifactPath workspace package = .ok path :=
  liesAt_iff.mp h.liesAt

/-- The path, the kind and the category are functions of the package. -/
theorem Cataloged.unique {path' : String} {kind' : ArtifactKind} {category' : Option String}
    (h : Cataloged workspace package path kind category) (h' : Cataloged workspace package path' kind' category') :
    path = path' ∧ kind = kind' ∧ category = category' := by
  have hpath : path = path' := Except.ok.inj (h.located.symm.trans h'.located)
  subst hpath
  have hclass := (classifyPath_eq_cataloged.mpr h.topology).symm.trans (classifyPath_eq_cataloged.mpr h'.topology)
  obtain ⟨hkind, hcategory⟩ := Classification.cataloged.inj (Except.ok.inj hclass)
  exact ⟨rfl, hkind, hcategory⟩

theorem Cataloged.ne_empty (h : Cataloged workspace package path kind category) : path ≠ "" := by
  rintro rfl
  exact absurd h.topology.two_le_length (by decide)

theorem artifactDirectories_subset (hpath : artifactPath workspace package = .ok path) :
    artifactDirectories workspace package ⊆ components package.manifestPath := by
  obtain ⟨hdir, -⟩ := artifactPath_eq_ok.mp hpath
  exact fun component hc => parent_mem hdir (List.mem_append_right _ hc)

theorem Cataloged.canonicalPath (h : Cataloged workspace package path kind category)
    (hback : NoBackslash workspace package) : CanonicalPath path := by
  obtain ⟨-, rfl⟩ := artifactPath_eq_ok.mp h.located
  exact canonicalPath_pathToSlashString (artifactDirectories_subset h.located) hback h.ne_empty

/-- The segments of the path of an artifact are names. -/
theorem Cataloged.segments (h : Cataloged workspace package path kind category) :
    ∀ segment ∈ split path '/', segment ≠ "" ∧ segment ≠ "." ∧ segment ≠ ".." := by
  obtain ⟨-, rfl⟩ := artifactPath_eq_ok.mp h.located
  intro segment hs
  obtain ⟨name, hn, rfl⟩ := mem_split_pathToSlashString (artifactDirectories_subset h.located) h.ne_empty hs
  obtain ⟨hempty, hdot, hdots, -⟩ := (normal_of_mem_components (artifactDirectories_subset h.located hn)).lossy
  exact ⟨hempty, hdot, hdots⟩

end

theorem registerName_eq_ok {names names' : TreeSet String} {package : CargoPackage} :
    registerName names package = .ok names' ↔ package.name ∉ names ∧ names' = names.insert package.name := by
  rw [registerName, check_bind_eq_ok, rejectIf_eq_ok]
  simp [pure, Except.pure, eq_comm (a := names')]

theorem registerNames_eq_ok {packages : List CargoPackage} (names : TreeSet String) :
    (∃ names', packages.foldlM registerName names = .ok names') ↔
      (packages.map (·.name)).Nodup ∧ ∀ package ∈ packages, package.name ∉ names := by
  induction packages generalizing names with
  | nil => simp [pure, Except.pure]
  | cons package rest ih =>
    rw [List.map_cons, List.nodup_cons, List.forall_mem_cons]
    constructor
    · rintro ⟨names', hnames⟩
      obtain ⟨next, hnext, hrest⟩ := foldlM_cons_eq_ok.mp hnames
      obtain ⟨hfresh, rfl⟩ := registerName_eq_ok.mp hnext
      obtain ⟨hnodup, hunseen⟩ := (ih _).mp ⟨names', hrest⟩
      simp only [TreeSet.mem_insert, Std.compare_eq_iff_eq, not_or] at hunseen
      refine ⟨⟨fun hmem => ?_, hnodup⟩, hfresh, fun p hp => (hunseen p hp).2⟩
      obtain ⟨p, hp, heq⟩ := List.mem_map.mp hmem
      exact (hunseen p hp).1 heq.symm
    · rintro ⟨⟨hnew, hnodup⟩, hfresh, hunseen⟩
      obtain ⟨names', hrest⟩ := (ih (names.insert package.name)).mpr ⟨hnodup, fun p hp => by
        rw [TreeSet.mem_insert, Std.compare_eq_iff_eq, not_or]
        exact ⟨fun heq => hnew (heq ▸ List.mem_map_of_mem hp), hunseen p hp⟩⟩
      exact ⟨names', foldlM_cons_eq_ok.mpr ⟨_, registerName_eq_ok.mpr ⟨hfresh, rfl⟩, hrest⟩⟩

/-- What the second loop has collected from the packages so far. -/
structure ClassifiedFrom (workspace : Workspace) (packages : List CargoPackage) (classified : Classified) : Prop where
  artifacts : ∀ path package kind category, classified.artifacts[path]? = some (package, kind, category) ↔
    package ∈ packages ∧ Cataloged workspace package path kind category
  paths : ∀ name path, classified.packagePathByName[name]? = some path ↔
    ∃ package ∈ packages, package.name = name ∧ ∃ kind category, Cataloged workspace package path kind category

section
variable {workspace : Workspace} {packages : List CargoPackage} {classified : Classified} {package : CargoPackage}

theorem ClassifiedFrom.ignore (h : ClassifiedFrom workspace packages classified)
    (hnone : ∀ path kind category, ¬Cataloged workspace package path kind category) :
    ClassifiedFrom workspace (packages ++ [package]) classified where
  artifacts path p kind category := by
    rw [h.artifacts, List.mem_append, List.mem_singleton]
    refine ⟨fun ⟨hp, hc⟩ => ⟨.inl hp, hc⟩, fun ⟨hp, hc⟩ => ⟨hp.resolve_right ?_, hc⟩⟩
    rintro rfl
    exact hnone _ _ _ hc
  paths name path := by
    rw [h.paths]
    constructor
    · rintro ⟨p, hp, hname, hc⟩
      exact ⟨p, List.mem_append_left _ hp, hname, hc⟩
    · rintro ⟨p, hp, hname, kind, category, hc⟩
      rcases List.mem_append.mp hp with hp | hp
      · exact ⟨p, hp, hname, kind, category, hc⟩
      · cases List.mem_singleton.mp hp
        exact absurd hc (hnone _ _ _)

theorem ClassifiedFrom.insert {path : String} {kind : ArtifactKind} {category : Option String}
    (h : ClassifiedFrom workspace packages classified) (hnew : package.name ∉ packages.map (·.name))
    (hfresh : path ∉ classified.artifacts) (hcataloged : Cataloged workspace package path kind category) :
    ClassifiedFrom workspace (packages ++ [package]) {
      artifacts := classified.artifacts.insert path (package, kind, category)
      packagePathByName := classified.packagePathByName.insert package.name path } where
  artifacts path' p kind' category' := by
    rw [TreeMap.getElem?_insert, List.mem_append, List.mem_singleton]
    split
    · rename_i heq
      obtain rfl := Std.compare_eq_iff_eq.mp heq
      constructor
      · intro hsome
        cases hsome
        exact ⟨.inr rfl, hcataloged⟩
      · rintro ⟨hp | rfl, hc⟩
        · refine absurd ?_ hfresh
          rw [TreeMap.mem_iff_isSome_getElem?, (h.artifacts _ _ _ _).mpr ⟨hp, hc⟩]
          rfl
        · obtain ⟨-, rfl, rfl⟩ := hcataloged.unique hc
          rfl
    · rename_i hne
      rw [h.artifacts]
      refine ⟨fun ⟨hp, hc⟩ => ⟨.inl hp, hc⟩, fun ⟨hp, hc⟩ => ⟨hp.resolve_right ?_, hc⟩⟩
      rintro rfl
      exact hne (Std.compare_eq_iff_eq.mpr (hcataloged.unique hc).1)
  paths name path' := by
    rw [TreeMap.getElem?_insert]
    split
    · rename_i heq
      obtain rfl := Std.compare_eq_iff_eq.mp heq
      constructor
      · intro hsome
        cases hsome
        exact ⟨package, List.mem_append_right _ (List.mem_singleton_self _), rfl, kind, category, hcataloged⟩
      · rintro ⟨p, hp, hname, kind', category', hc⟩
        rcases List.mem_append.mp hp with hp | hp
        · exact absurd (hname ▸ List.mem_map_of_mem hp) hnew
        · cases List.mem_singleton.mp hp
          rw [(hcataloged.unique hc).1]
    · rename_i hne
      rw [h.paths]
      constructor
      · rintro ⟨p, hp, hname, hc⟩
        exact ⟨p, List.mem_append_left _ hp, hname, hc⟩
      · rintro ⟨p, hp, hname, hc⟩
        rcases List.mem_append.mp hp with hp | hp
        · exact ⟨p, hp, hname, hc⟩
        · cases List.mem_singleton.mp hp
          exact absurd (Std.compare_eq_iff_eq.mpr hname) hne

theorem ClassifiedFrom.step {next : Classified} (h : ClassifiedFrom workspace packages classified)
    (hnew : package.name ∉ packages.map (·.name)) (hs : classifyPackage workspace classified package = .ok next) :
    ClassifiedFrom workspace (packages ++ [package]) next := by
  obtain ⟨path, hpath, hs⟩ := bind_eq_ok.mp hs
  obtain ⟨classification, hclass, hs⟩ := bind_eq_ok.mp hs
  cases classification with
  | ignored =>
    cases hs
    refine h.ignore fun path' kind category hc => ?_
    cases hc.located.symm.trans hpath
    cases (classifyPath_eq_cataloged.mpr hc.topology).symm.trans hclass
  | cataloged kind category =>
    obtain ⟨hfresh, hs⟩ := check_bind_eq_ok.mp hs
    cases hs
    exact h.insert hnew (rejectIf_eq_ok.mp hfresh) ⟨liesAt_iff.mpr hpath, classifyPath_eq_cataloged.mp hclass⟩

theorem ClassifiedFrom.run {rest : List CargoPackage} {last : Classified}
    (h : ClassifiedFrom workspace packages classified) (hnodup : ((packages ++ rest).map (·.name)).Nodup)
    (hs : rest.foldlM (classifyPackage workspace) classified = .ok last) :
    ClassifiedFrom workspace (packages ++ rest) last := by
  induction rest generalizing packages classified with
  | nil =>
    cases hs
    rwa [List.append_nil]
  | cons package rest ih =>
    obtain ⟨next, hnext, hrest⟩ := foldlM_cons_eq_ok.mp hs
    have hnew : package.name ∉ packages.map (·.name) := by
      rw [List.map_append, List.map_cons, List.nodup_append] at hnodup
      exact fun hmem => hnodup.2.2 _ hmem _ List.mem_cons_self rfl
    rw [List.append_cons] at hnodup ⊢
    exact ih (h.step hnew hnext) hnodup hrest

end

theorem classifiedFrom_nil (workspace : Workspace) : ClassifiedFrom workspace [] {} where
  artifacts := by simp
  paths := by simp

/-! ### The manifests on disk -/

theorem findCargoTomlsFrom_nil {search : ManifestSearch} (h : search.pending = []) :
    findCargoTomlsFrom search = .ok search.manifests := by
  rw [findCargoTomlsFrom]
  split
  · rfl
  · rename_i hpending
    rw [h] at hpending
    cases hpending

theorem findCargoTomlsFrom_cons {search next : ManifestSearch} {path : PathBuf} {tree : FileTree}
    {pending : List (PathBuf × FileTree)} (hpending : search.pending = (path, tree) :: pending)
    (hvisit : visitDirectory path tree { search with pending } = .ok next) :
    findCargoTomlsFrom search = findCargoTomlsFrom next := by
  rw [findCargoTomlsFrom]
  split
  · rename_i hnil
    rw [hpending] at hnil
    cases hnil
  · rename_i hcons
    cases hpending.symm.trans hcons
    split
    · rename_i herror
      cases hvisit.symm.trans herror
    · rename_i hnext
      cases hvisit.symm.trans hnext
      rfl

/-! ### Dependencies -/

theorem isChain_lt {l : List String} (hle : l.IsChain (· ≤ ·)) (hne : l.IsChain (· ≠ ·)) : l.IsChain (· < ·) := by
  induction hle with
  | nil => exact .nil
  | singleton a => exact .singleton a
  | cons_cons hab _ ih =>
    obtain ⟨hab', hrest⟩ := List.isChain_cons_cons.mp hne
    exact .cons_cons (lt_of_le_of_ne hab hab') (ih hrest)

theorem sortDedup_pairwise (paths : List String) : (sortDedup paths).Pairwise (· < ·) := by
  have hsorted : (sortDedup paths).Pairwise (· ≤ ·) :=
    (List.pairwise_insertionSort (· ≤ ·) paths).sublist (List.destutter_sublist _ _)
  have hchain : (sortDedup paths).IsChain (· ≠ ·) := List.isChain_destutter _ _
  exact List.isChain_iff_pairwise.mp (isChain_lt hsorted.isChain hchain)

/-- The kind that Cargo gives to the dependency entries of a group. -/
def DependencyKind.cargoKind : DependencyKind → Option String
  | .normal => none
  | .development => some "dev"
  | .build => some "build"

theorem mem_sortDedup {paths : List String} {path : String} : path ∈ sortDedup paths ↔ path ∈ paths := by
  rw [sortDedup, (List.pairwise_insertionSort (· ≤ ·) paths).destutter_eq_dedup, List.mem_dedup,
    List.mem_insertionSort]

/-- The groups after one more dependency entry. -/
theorem mem_projectDependency {packagePathByName : TreeMap String String} {dependencies : CatalogDependencies}
    {dependency : CargoDependency} {kind : DependencyKind} {path : String} :
    path ∈ kind.dependencies (projectDependency packagePathByName dependencies dependency) ↔
      path ∈ kind.dependencies dependencies ∨
        (dependency.kind = kind.cargoKind ∧ packagePathByName[dependency.name]? = some path) := by
  unfold projectDependency
  split
  · rename_i hnone
    simp [hnone]
  · rename_i target htarget
    rw [htarget]
    split
    · rename_i hkind
      cases kind <;> simp [hkind, DependencyKind.cargoKind, DependencyKind.dependencies, eq_comm (a := path)]
    · rename_i hkind
      cases kind <;> simp [hkind, DependencyKind.cargoKind, DependencyKind.dependencies, eq_comm (a := path)]
    · rename_i hkind
      cases kind <;> simp [hkind, DependencyKind.cargoKind, DependencyKind.dependencies, eq_comm (a := path)]
    · rename_i other hdev hbuild hkind
      cases kind <;> simp_all [DependencyKind.cargoKind]

theorem mem_projectDependencies {packagePathByName : TreeMap String String} {dependencies : CatalogDependencies}
    {entries : List CargoDependency} {kind : DependencyKind} {path : String} :
    path ∈ kind.dependencies (entries.foldl (projectDependency packagePathByName) dependencies) ↔
      path ∈ kind.dependencies dependencies ∨
        ∃ dependency ∈ entries, dependency.kind = kind.cargoKind ∧ packagePathByName[dependency.name]? = some path := by
  induction entries generalizing dependencies with
  | nil => simp
  | cons dependency rest ih =>
    rw [List.foldl_cons, ih, mem_projectDependency, or_assoc]
    simp only [List.exists_mem_cons_iff]

theorem dependencies_dependencyProjection (kind : DependencyKind) (package : CargoPackage)
    (packagePathByName : TreeMap String String) :
    kind.dependencies (dependencyProjection package packagePathByName) =
      sortDedup (kind.dependencies (package.dependencies.foldl (projectDependency packagePathByName) {})) := by
  cases kind <;> rfl

theorem mem_dependencyProjection {package : CargoPackage} {packagePathByName : TreeMap String String}
    {kind : DependencyKind} {path : String} :
    path ∈ kind.dependencies (dependencyProjection package packagePathByName) ↔
      ∃ dependency ∈ package.dependencies,
        dependency.kind = kind.cargoKind ∧ packagePathByName[dependency.name]? = some path := by
  rw [dependencies_dependencyProjection, mem_sortDedup, mem_projectDependencies]
  have hnone : path ∉ kind.dependencies {} := by cases kind <;> exact List.not_mem_nil
  exact or_iff_right hnone

/-- Each path of a group is the path of a cataloged package. -/
def Resolved (packagePathByName : TreeMap String String) (dependencies : CatalogDependencies) : Prop :=
  ∀ (kind : DependencyKind), ∀ path ∈ kind.dependencies dependencies,
    ∃ name : String, packagePathByName[name]? = some path

theorem resolved_dependencyProjection (package : CargoPackage) (packagePathByName : TreeMap String String) :
    Resolved packagePathByName (dependencyProjection package packagePathByName) := by
  intro kind path hp
  obtain ⟨dependency, -, -, hpath⟩ := mem_dependencyProjection.mp hp
  exact ⟨dependency.name, hpath⟩

/-! ### Artifacts -/

/-- What the last loop makes of a cataloged package. -/
structure Describes (packagePathByName : TreeMap String String)
    (entry : String × CargoPackage × ArtifactKind × Option String) (artifact : CatalogArtifact) : Prop where
  path : artifact.path = entry.1
  cargoPackage : artifact.cargoPackage = entry.2.1.name
  version : artifact.version = entry.2.1.version
  kind : artifact.kind = entry.2.2.1
  category : artifact.category = entry.2.2.2
  description : ∃ c ∈ artifact.description.toList, isWhitespace c = false
  readme : ∀ readme, artifact.readme = some readme → readme = artifact.path ++ "/README.md"
  dependencies : artifact.dependencies = dependencyProjection entry.2.1 packagePathByName

theorem describes_of_catalogArtifact {tree : FileTree} {packagePathByName : TreeMap String String}
    {entry : String × CargoPackage × ArtifactKind × Option String} {artifact : CatalogArtifact}
    (h : catalogArtifact tree packagePathByName entry = .ok artifact) : Describes packagePathByName entry artifact := by
  obtain ⟨path, package, kind, category⟩ := entry
  unfold catalogArtifact at h
  simp only at h
  split at h
  · cases h
  · rename_i description hdescription
    cases h
    have hblank := (Option.filter_eq_some_iff.mp hdescription).2
    exact {
      path := rfl
      cargoPackage := rfl
      version := rfl
      kind := rfl
      category := rfl
      description := by
        by_contra hnone
        have hempty : trim description = "" := trim_eq_empty_iff.mpr (by simpa using hnone)
        rw [hempty] at hblank
        cases hblank
      readme := fun readme hreadme => by
        simp only at hreadme
        split at hreadme <;> cases hreadme
        rfl
      dependencies := rfl }

/-- What `discover_catalog` has established when it returns. -/
structure Discovered (workspace : Workspace) (index : CatalogIndex) (classified : Classified) : Prop where
  names : (workspace.packages.map (·.name)).Nodup
  collected : ClassifiedFrom workspace workspace.packages classified
  schemaVersion : index.schemaVersion = 2
  paths : index.artifacts.map (·.path) = classified.artifacts.keys
  described : ∀ artifact ∈ index.artifacts, ∃ entry ∈ classified.artifacts.toList,
    Describes classified.packagePathByName entry artifact

theorem keys_pairwise {α : Type} (m : TreeMap String α) : m.keys.Pairwise (· < ·) :=
  (TreeMap.ordered_keys (t := m)).imp compare_lt_iff_lt.mp

/-- The artifacts come in the order of the map, so sorting them by path changes nothing. -/
theorem paths_of_catalogArtifacts {tree : FileTree} {classified : Classified} {artifacts : List CatalogArtifact}
    (h : classified.artifacts.toList.mapM (catalogArtifact tree classified.packagePathByName) = .ok artifacts) :
    artifacts.map (·.path) = classified.artifacts.keys := by
  have hall := (mapM_eq_ok.mp h).imp fun _ _ hentry => (describes_of_catalogArtifact hentry).path.symm
  rw [← TreeMap.map_fst_toList_eq_keys, eq_comm, ← List.forall₂_eq_eq_eq, List.forall₂_map_left_iff,
    List.forall₂_map_right_iff]
  exact hall

theorem discoverCatalog_eq_ok {workspace : Workspace} {tree : FileTree} {index : CatalogIndex} :
    discoverCatalog workspace tree = .ok index ↔ (workspace.packages.map (·.name)).Nodup ∧ ∃ classified,
      workspace.packages.foldlM (classifyPackage workspace) {} = .ok classified ∧
      validateSupportedCargoTomlsAreWorkspaceMembers workspace tree classified.artifacts.keys = .ok () ∧
      index.schemaVersion = 2 ∧
      classified.artifacts.toList.mapM (catalogArtifact tree classified.packagePathByName) = .ok index.artifacts := by
  have hsorted : ∀ {classified : Classified} {artifacts : List CatalogArtifact},
      classified.artifacts.toList.mapM (catalogArtifact tree classified.packagePathByName) = .ok artifacts →
      artifacts.insertionSort (fun left right => left.path ≤ right.path) = artifacts := by
    intro classified artifacts hartifacts
    refine List.Pairwise.insertionSort_eq (List.pairwise_map.mp ?_)
    rw [paths_of_catalogArtifacts hartifacts]
    exact (keys_pairwise _).imp le_of_lt
  constructor
  · intro h
    obtain ⟨names, hnames, h⟩ := bind_eq_ok.mp h
    obtain ⟨classified, hclassified, h⟩ := bind_eq_ok.mp h
    obtain ⟨hmanifests, h⟩ := check_bind_eq_ok.mp h
    obtain ⟨artifacts, hartifacts, h⟩ := bind_eq_ok.mp h
    obtain ⟨hnodup, -⟩ := (registerNames_eq_ok ∅).mp ⟨names, hnames⟩
    cases h
    exact ⟨hnodup, classified, hclassified, hmanifests, rfl, (hsorted hartifacts).symm ▸ hartifacts⟩
  · rintro ⟨hnodup, classified, hclassified, hmanifests, hversion, hartifacts⟩
    obtain ⟨names, hnames⟩ := (registerNames_eq_ok ∅).mpr ⟨hnodup, fun _ _ => TreeSet.not_mem_emptyc⟩
    obtain ⟨version, artifacts⟩ := index
    cases hversion
    refine bind_eq_ok.mpr ⟨names, hnames, bind_eq_ok.mpr ⟨classified, hclassified, check_bind_eq_ok.mpr
      ⟨hmanifests, bind_eq_ok.mpr ⟨artifacts, hartifacts, ?_⟩⟩⟩⟩
    rw [hsorted hartifacts]
    rfl

theorem discovered_of_discoverCatalog {workspace : Workspace} {tree : FileTree} {index : CatalogIndex}
    (h : discoverCatalog workspace tree = .ok index) : ∃ classified, Discovered workspace index classified := by
  obtain ⟨hnodup, classified, hclassified, -, hversion, hartifacts⟩ := discoverCatalog_eq_ok.mp h
  refine ⟨classified, hnodup, (classifiedFrom_nil workspace).run hnodup hclassified, hversion,
    paths_of_catalogArtifacts hartifacts, fun artifact ha => ?_⟩
  obtain ⟨entry, hentry, hartifact⟩ := exists_of_mem_mapM hartifacts ha
  exact ⟨entry, hentry, describes_of_catalogArtifact hartifact⟩

/-! ### Canonical documents -/

section
variable {workspace : Workspace} {index : CatalogIndex} {classified : Classified}

/-- An artifact comes from a package of the workspace, which is cataloged at its path. -/
theorem Discovered.package (h : Discovered workspace index classified) {artifact : CatalogArtifact}
    (ha : artifact ∈ index.artifacts) : ∃ package ∈ workspace.packages,
      Cataloged workspace package artifact.path artifact.kind artifact.category ∧
      Describes classified.packagePathByName (artifact.path, package, artifact.kind, artifact.category) artifact := by
  obtain ⟨⟨path, package, kind, category⟩, hentry, hdescribes⟩ := h.described artifact ha
  obtain rfl := hdescribes.path
  obtain rfl := hdescribes.kind
  obtain rfl := hdescribes.category
  rw [TreeMap.mem_toList_iff_getElem?_eq_some] at hentry
  obtain ⟨hpackage, hcataloged⟩ := (h.collected.artifacts _ _ _ _).mp hentry
  exact ⟨package, hpackage, hcataloged, hdescribes⟩

theorem Discovered.paths_pairwise (h : Discovered workspace index classified) :
    (index.artifacts.map (·.path)).Pairwise (· < ·) := h.paths ▸ keys_pairwise _

theorem Discovered.packages_nodup (h : Discovered workspace index classified) :
    (index.artifacts.map (·.cargoPackage)).Nodup := by
  refine List.pairwise_map.mpr ((List.pairwise_map.mp h.paths_pairwise).imp_of_mem fun ha hb hlt heq => ?_)
  obtain ⟨p, hp, hcp, hdp⟩ := h.package ha
  obtain ⟨q, hq, hcq, hdq⟩ := h.package hb
  have hname : p.name = q.name := hdp.cargoPackage.symm.trans (heq.trans hdq.cargoPackage)
  cases List.inj_on_of_nodup_map h.names hp hq hname
  exact absurd (hcp.unique hcq).1 hlt.ne

theorem Discovered.resolved (h : Discovered workspace index classified) {artifact : CatalogArtifact}
    (ha : artifact ∈ index.artifacts) (kind : DependencyKind) :
    ∀ dependency ∈ kind.dependencies artifact.dependencies, dependency ∈ index.artifacts.map (·.path) := by
  intro dependency hd
  obtain ⟨package, -, -, hdescribes⟩ := h.package ha
  rw [hdescribes.dependencies] at hd
  obtain ⟨name, hname⟩ := resolved_dependencyProjection _ _ kind dependency hd
  obtain ⟨p, hp, -, kind', category, hcataloged⟩ := (h.collected.paths _ _).mp hname
  have hentry := (h.collected.artifacts _ _ _ _).mpr ⟨hp, hcataloged⟩
  rw [h.paths, TreeMap.mem_keys, TreeMap.mem_iff_isSome_getElem?, hentry]
  rfl

/-- The document that discovery yields is canonical. -/
theorem Discovered.canonical (h : Discovered workspace index classified)
    (hnames : ∀ package ∈ workspace.packages, package.name ≠ "" ∧ package.version ≠ "")
    (hback : ∀ package ∈ workspace.packages, NoBackslash workspace package) : Canonical index where
  schemaVersion := .inr h.schemaVersion
  paths := h.paths_pairwise
  artifacts artifact ha := by
    obtain ⟨package, hp, hcataloged, hdescribes⟩ := h.package ha
    obtain ⟨hname, hversion⟩ := hnames package hp
    exact {
      path := hcataloged.canonicalPath (hback package hp)
      topology := h.schemaVersion ▸ hcataloged.topology
      cargoPackage := hdescribes.cargoPackage ▸ hname
      version := hdescribes.version ▸ hversion
      description := hdescribes.description
      readme := hdescribes.readme }
  packages := h.packages_nodup
  sorted artifact ha kind := by
    obtain ⟨package, -, -, hdescribes⟩ := h.package ha
    rw [hdescribes.dependencies, dependencies_dependencyProjection]
    exact sortDedup_pairwise _
  resolved _ ha kind := h.resolved ha kind

end

end Fabric.Catalog
