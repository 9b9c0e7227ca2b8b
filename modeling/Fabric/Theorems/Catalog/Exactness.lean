import Fabric.Theorems.Catalog.RoundTrip
import Mathlib.Data.List.Perm.Basic

/-! Discovery is exact: when it succeeds, which artifacts it then yields, and that neither depends on the order in
    which Cargo reports the packages and their dependencies. -/

namespace Fabric.Catalog
open Rust
open Std (TreeMap TreeSet)

/-! ### What discovery computes -/

/-- The package is cataloged at the path. -/
def CatalogedAt (workspace : Workspace) (package : CargoPackage) (path : String) : Prop :=
  ∃ kind category, Cataloged workspace package path kind category

/-- A path below one of the catalog roots that has none of the supported topologies. -/
def Unsupported (path : String) : Prop :=
  (∃ root ∈ catalogRoots, (split path '/').head? = some root) ∧
    ∀ kind category, ¬Topology 2 (split path '/') kind category

/-- The directory of the manifest lies at or below the workspace root. -/
def UnderRoot (workspace : Workspace) (package : CargoPackage) : Prop :=
  ∃ dir relative, parent (components package.manifestPath) = some dir ∧ dir = components workspace.root ++ relative

/-- The manifest check passes with exactly the paths of the cataloged packages represented. -/
def ManifestsPass (workspace : Workspace) (tree : FileTree) : Prop :=
  ∀ paths : List String, (∀ path, path ∈ paths ↔ ∃ package ∈ workspace.packages, CatalogedAt workspace package path) →
    validateSupportedCargoTomlsAreWorkspaceMembers workspace tree paths = .ok ()

/-- Two packages are not cataloged at one path. -/
def Apart (workspace : Workspace) (p q : CargoPackage) : Prop :=
  ∀ path, CatalogedAt workspace p path → ¬CatalogedAt workspace q path

/-- When discovery succeeds. -/
structure Discoverable (workspace : Workspace) (tree : FileTree) : Prop where
  names : (workspace.packages.map (·.name)).Nodup
  underRoot : ∀ package ∈ workspace.packages, UnderRoot workspace package
  supported : ∀ package ∈ workspace.packages, ∀ path, LiesAt workspace package path → ¬Unsupported path
  paths : workspace.packages.Pairwise (Apart workspace)
  described : ∀ package ∈ workspace.packages, ∀ path, CatalogedAt workspace package path →
    ∃ description, package.description = some description ∧ ∃ c ∈ description.toList, isWhitespace c = false
  manifests : ManifestsPass workspace tree

/-- Some dependency entry of the kind names a package that is cataloged at the path. -/
def DependsOn (workspace : Workspace) (package : CargoPackage) (kind : DependencyKind) (path : String) : Prop :=
  ∃ dependency ∈ package.dependencies, dependency.kind = kind.cargoKind ∧
    ∃ target ∈ workspace.packages, target.name = dependency.name ∧ CatalogedAt workspace target path

/-- The README of the directory at the path is a file. -/
def readmeExists (tree : FileTree) (path : String) : Bool :=
  (tree.lookup (components (joinPath (osString path) (osString "README.md")))).any FileTree.isFile

/-- The artifact of a cataloged package. -/
structure Represents (workspace : Workspace) (tree : FileTree) (package : CargoPackage) (artifact : CatalogArtifact) :
    Prop where
  cataloged : Cataloged workspace package artifact.path artifact.kind artifact.category
  cargoPackage : artifact.cargoPackage = package.name
  version : artifact.version = package.version
  description : package.description = some artifact.description
  publishable : artifact.publishable = false ↔ package.publish = some []
  readme : artifact.readme = if readmeExists tree artifact.path then some (artifact.path ++ "/README.md") else none
  sorted : ∀ kind : DependencyKind, (kind.dependencies artifact.dependencies).Pairwise (· < ·)
  dependencies : ∀ (kind : DependencyKind) path,
    path ∈ kind.dependencies artifact.dependencies ↔ DependsOn workspace package kind path

/-- The artifacts are those of the cataloged packages, one for each, in increasing order of their paths. -/
structure Exact (workspace : Workspace) (tree : FileTree) (index : CatalogIndex) : Prop where
  schemaVersion : index.schemaVersion = 2
  paths : (index.artifacts.map (·.path)).Pairwise (· < ·)
  sound : ∀ artifact ∈ index.artifacts, ∃ package ∈ workspace.packages, Represents workspace tree package artifact
  complete : ∀ package ∈ workspace.packages, ∀ path, CatalogedAt workspace package path →
    ∃ artifact ∈ index.artifacts, artifact.path = path ∧ Represents workspace tree package artifact

/-- The same package, with its dependency entries in another order and repeated in another way. -/
structure SamePackage (p q : CargoPackage) : Prop where
  name : q.name = p.name
  version : q.version = p.version
  description : q.description = p.description
  publish : q.publish = p.publish
  manifestPath : q.manifestPath = p.manifestPath
  dependencies : ∀ dependency, dependency ∈ q.dependencies ↔ dependency ∈ p.dependencies

/-- The same workspace, reported in another order. -/
def Rearranged (workspace workspace' : Workspace) : Prop :=
  workspace'.root = workspace.root ∧
    ∃ packages, workspace.packages.Perm packages ∧ List.Forall₂ SamePackage packages workspace'.packages

/-! ### Classification -/

theorem Unsupported.not_topology {path : String} (h : Unsupported path) {kind : ArtifactKind}
    {category : Option String} : ¬Topology 2 (split path '/') kind category := h.2 kind category

theorem classifyPath_cases (path : String) :
    (∃ kind category, classifyPath path = .ok (.cataloged kind category) ∧ Topology 2 (split path '/') kind category) ∨
    (classifyPath path = .ok .ignored ∧ ¬Unsupported path ∧
      ∀ kind category, ¬Topology 2 (split path '/') kind category) ∨
    ((∃ error, classifyPath path = .error error) ∧ Unsupported path) := by
  have hnone : ∀ {result}, classifyPath path = result → (∀ kind category, result ≠ .ok (.cataloged kind category)) →
      ∀ kind category, ¬Topology 2 (split path '/') kind category := fun hresult hne kind category htopology =>
    hne kind category (hresult.symm.trans (classifyPath_eq_cataloged.mpr htopology))
  cases hclass : classifyPath path with
  | error error =>
    refine Or.inr (Or.inr ⟨⟨error, rfl⟩, ?_, hnone hclass (fun _ _ h => by cases h)⟩)
    unfold classifyPath at hclass
    split at hclass <;> first | cases hclass; done | skip
    all_goals
      rename_i hsplit
      rw [hsplit]
      exact ⟨_, by simp [catalogRoots], rfl⟩
  | ok classification =>
    cases classification with
    | cataloged kind category => exact Or.inl ⟨kind, category, rfl, classifyPath_eq_cataloged.mp hclass⟩
    | ignored =>
      have htopology := hnone hclass fun _ _ h => by cases h
      refine Or.inr (Or.inl ⟨rfl, ?_, htopology⟩)
      rintro ⟨⟨root, hroot, hhead⟩, -⟩
      unfold classifyPath at hclass
      split at hclass <;> first | cases hclass; done | skip
      · rename_i hsplit
        rw [hsplit] at hhead
        cases hhead
        simp [catalogRoots] at hroot
      · rename_i hsplit
        rw [hsplit] at hhead
        cases hhead
        simp [catalogRoots] at hroot
      · obtain ⟨rest, hrest⟩ := List.head?_eq_some_iff.mp hhead
        simp only [catalogRoots, List.mem_cons, List.not_mem_nil, or_false] at hroot
        obtain rfl | rfl | rfl | rfl | rfl := hroot <;> simp_all

/-! ### The packages -/

section
variable {workspace : Workspace} {package : CargoPackage}

theorem artifactPath_ok_iff : (∃ path, artifactPath workspace package = .ok path) ↔ UnderRoot workspace package := by
  simp only [artifactPath_eq_ok, UnderRoot]
  constructor
  · rintro ⟨path, hdir, -⟩
    exact ⟨_, _, hdir, rfl⟩
  · rintro ⟨_, relative, hdir, rfl⟩
    exact ⟨_, artifactDirectories_eq hdir ▸ hdir, rfl⟩

theorem CatalogedAt.located {path : String} (h : CatalogedAt workspace package path) :
    artifactPath workspace package = .ok path := by
  obtain ⟨kind, category, hcataloged⟩ := h
  exact hcataloged.located

theorem CatalogedAt.unique {path path' : String} (h : CatalogedAt workspace package path)
    (h' : CatalogedAt workspace package path') : path = path' :=
  Except.ok.inj (h.located.symm.trans h'.located)

theorem Apart.symm {p q : CargoPackage} (h : Apart workspace p q) : Apart workspace q p :=
  fun path hq hp => h path hp hq

/-- The package passes the second loop as far as it goes by itself. -/
def Classifiable (workspace : Workspace) (package : CargoPackage) : Prop :=
  UnderRoot workspace package ∧ ∀ path, LiesAt workspace package path → ¬Unsupported path

variable {packages : List CargoPackage} {classified : Classified}

theorem ClassifiedFrom.mem_artifacts (h : ClassifiedFrom workspace packages classified) {path : String} :
    path ∈ classified.artifacts ↔ ∃ p ∈ packages, CatalogedAt workspace p path := by
  rw [TreeMap.mem_iff_isSome_getElem?, Option.isSome_iff_exists]
  constructor
  · rintro ⟨⟨p, kind, category⟩, hentry⟩
    obtain ⟨hp, hcataloged⟩ := (h.artifacts _ _ _ _).mp hentry
    exact ⟨p, hp, kind, category, hcataloged⟩
  · rintro ⟨p, hp, kind, category, hcataloged⟩
    exact ⟨_, (h.artifacts _ _ _ _).mpr ⟨hp, hcataloged⟩⟩

theorem ClassifiedFrom.step_ok_iff (h : ClassifiedFrom workspace packages classified) :
    (∃ next, classifyPackage workspace classified package = .ok next) ↔
      Classifiable workspace package ∧ ∀ p ∈ packages, Apart workspace p package := by
  constructor
  · rintro ⟨next, hnext⟩
    obtain ⟨path, hpath, hnext⟩ := bind_eq_ok.mp hnext
    obtain ⟨classification, hclass, hnext⟩ := bind_eq_ok.mp hnext
    have hroot := artifactPath_ok_iff.mp ⟨path, hpath⟩
    obtain ⟨kind, category, hc, htopology⟩ | ⟨hc, hsupported, hnone⟩ | ⟨⟨error, hc⟩, -⟩ := classifyPath_cases path
    · cases hc.symm.trans hclass
      obtain ⟨hfresh, -⟩ := check_bind_eq_ok.mp hnext
      rw [rejectIf_eq_ok, h.mem_artifacts] at hfresh
      refine ⟨⟨hroot, fun path' hpath' hunsupported => ?_⟩, fun p hp path' hp' hpackage => hfresh ⟨p, hp, ?_⟩⟩
      · cases hpath.symm.trans (liesAt_iff.mp hpath')
        exact hunsupported.not_topology htopology
      · cases hpath.symm.trans hpackage.located
        exact hp'
    · refine ⟨⟨hroot, fun path' hpath' => ?_⟩, fun p hp path' hp' hpackage => ?_⟩
      · cases hpath.symm.trans (liesAt_iff.mp hpath')
        exact hsupported
      · obtain ⟨kind, category, hcataloged⟩ := hpackage
        cases hpath.symm.trans hcataloged.located
        exact hnone _ _ hcataloged.topology
    · cases hc.symm.trans hclass
  · rintro ⟨⟨hroot, hsupported⟩, hapart⟩
    obtain ⟨path, hpath⟩ := artifactPath_ok_iff.mpr hroot
    unfold classifyPackage
    simp only [bind_eq_ok]
    obtain ⟨kind, category, hc, htopology⟩ | ⟨hc, -, -⟩ | ⟨-, hunsupported⟩ := classifyPath_cases path
    · have hfresh : path ∉ classified.artifacts := by
        rw [h.mem_artifacts]
        rintro ⟨p, hp, hat⟩
        exact hapart p hp path hat ⟨kind, category, liesAt_iff.mpr hpath, htopology⟩
      exact ⟨_, path, hpath, _, hc, check_bind_eq_ok.mpr ⟨rejectIf_eq_ok.mpr hfresh, rfl⟩⟩
    · exact ⟨_, path, hpath, _, hc, rfl⟩
    · exact absurd hunsupported (hsupported path (liesAt_iff.mpr hpath))

theorem ClassifiedFrom.run_ok_iff {rest : List CargoPackage} (h : ClassifiedFrom workspace packages classified)
    (hnodup : ((packages ++ rest).map (·.name)).Nodup) :
    (∃ last, rest.foldlM (classifyPackage workspace) classified = .ok last) ↔
      (∀ package ∈ rest, Classifiable workspace package) ∧ rest.Pairwise (Apart workspace) ∧
        ∀ p ∈ packages, ∀ package ∈ rest, Apart workspace p package := by
  induction rest generalizing packages classified with
  | nil => simp [pure, Except.pure]
  | cons package rest ih =>
    have hnew : package.name ∉ packages.map (·.name) := by
      rw [List.map_append, List.map_cons, List.nodup_append] at hnodup
      exact fun hmem => hnodup.2.2 _ hmem _ List.mem_cons_self rfl
    rw [List.append_cons] at hnodup
    rw [List.forall_mem_cons, List.pairwise_cons]
    constructor
    · rintro ⟨last, hlast⟩
      obtain ⟨next, hnext, hrest⟩ := foldlM_cons_eq_ok.mp hlast
      obtain ⟨hclassifiable, hapart⟩ := h.step_ok_iff.mp ⟨next, hnext⟩
      obtain ⟨hall, hpairwise, hbefore⟩ := (ih (h.step hnew hnext) hnodup).mp ⟨last, hrest⟩
      refine ⟨⟨hclassifiable, hall⟩, ⟨fun q hq => ?_, hpairwise⟩, fun p hp => ?_⟩
      · exact hbefore package (List.mem_append_right _ (List.mem_singleton_self _)) q hq
      · exact List.forall_mem_cons.mpr ⟨hapart p hp, hbefore p (List.mem_append_left _ hp)⟩
    · rintro ⟨⟨hclassifiable, hall⟩, ⟨hfirst, hpairwise⟩, hbefore⟩
      obtain ⟨next, hnext⟩ := h.step_ok_iff.mpr ⟨hclassifiable, fun p hp => hbefore p hp _ List.mem_cons_self⟩
      obtain ⟨last, hlast⟩ := (ih (h.step hnew hnext) hnodup).mpr ⟨hall, hpairwise, fun p hp q hq => by
        rcases List.mem_append.mp hp with hp | hp
        · exact hbefore p hp q (List.mem_cons_of_mem _ hq)
        · exact List.mem_singleton.mp hp ▸ hfirst q hq⟩
      exact ⟨last, foldlM_cons_eq_ok.mpr ⟨next, hnext, hlast⟩⟩

end

/-! ### The manifests on disk -/

section
variable {workspace workspace' : Workspace} {tree : FileTree} (hroot : workspace'.root = workspace.root)
  {represented represented' : TreeSet String} (h : ∀ path : String, path ∈ represented' ↔ path ∈ represented)
include hroot h

theorem checkManifest_congr : checkManifest workspace' represented' = checkManifest workspace represented := by
  funext manifest
  simp only [checkManifest, rejectIf, hroot, h]

theorem checkCatalogRoot_congr :
    checkCatalogRoot workspace' tree represented' = checkCatalogRoot workspace tree represented := by
  funext root
  simp only [checkCatalogRoot, checkManifest_congr hroot h, hroot]

end

/-- The manifest check reads the root of the workspace, and the represented paths as a set. -/
theorem validateSupported_congr {workspace workspace' : Workspace} {tree : FileTree} {paths paths' : List String}
    (hroot : workspace'.root = workspace.root) (h : ∀ path, path ∈ paths' ↔ path ∈ paths) :
    validateSupportedCargoTomlsAreWorkspaceMembers workspace' tree paths' =
      validateSupportedCargoTomlsAreWorkspaceMembers workspace tree paths := by
  have hset : ∀ path : String, path ∈ TreeSet.ofList paths' ↔ path ∈ TreeSet.ofList paths := fun path => by
    simp [TreeSet.mem_ofList, h]
  simp only [validateSupportedCargoTomlsAreWorkspaceMembers, checkCatalogRoot_congr hroot hset]

theorem ClassifiedFrom.manifests_iff {workspace : Workspace} {tree : FileTree} {classified : Classified}
    (h : ClassifiedFrom workspace workspace.packages classified) :
    validateSupportedCargoTomlsAreWorkspaceMembers workspace tree classified.artifacts.keys = .ok () ↔
      ManifestsPass workspace tree := by
  have hkeys : ∀ path, path ∈ classified.artifacts.keys ↔
      ∃ package ∈ workspace.packages, CatalogedAt workspace package path := fun path => by
    rw [TreeMap.mem_keys, h.mem_artifacts]
  constructor
  · intro hok paths hpaths
    rw [validateSupported_congr rfl fun path => (hpaths path).trans (hkeys path).symm]
    exact hok
  · intro hpass
    exact hpass _ hkeys

/-! ### Artifacts -/

section
variable {workspace : Workspace} {tree : FileTree} {classified : Classified}

theorem catalogArtifact_ok_iff {packagePathByName : TreeMap String String}
    {entry : String × CargoPackage × ArtifactKind × Option String} :
    (∃ artifact, catalogArtifact tree packagePathByName entry = .ok artifact) ↔
      ∃ description, entry.2.1.description = some description ∧ ∃ c ∈ description.toList, isWhitespace c = false := by
  obtain ⟨path, package, kind, category⟩ := entry
  have hblank : ∀ description : String, (!(trim description).isEmpty) = true ↔
      ∃ c ∈ description.toList, isWhitespace c = false := fun description => by
    rw [Bool.not_eq_true', String.isEmpty_eq_false_iff, Ne, trim_eq_empty_iff]
    simp
  constructor
  · rintro ⟨artifact, hartifact⟩
    unfold catalogArtifact at hartifact
    simp only at hartifact
    split at hartifact
    · cases hartifact
    · rename_i description hdescription
      obtain ⟨hsome, htrim⟩ := Option.filter_eq_some_iff.mp hdescription
      exact ⟨description, hsome, (hblank description).mp htrim⟩
  · rintro ⟨description, hsome, hc⟩
    have hfilter : package.description.filter (fun description => !(trim description).isEmpty) = some description :=
      Option.filter_eq_some_iff.mpr ⟨hsome, (hblank description).mpr hc⟩
    unfold catalogArtifact
    simp only [hfilter]
    exact ⟨_, rfl⟩

theorem ClassifiedFrom.represents (h : ClassifiedFrom workspace workspace.packages classified)
    {entry : String × CargoPackage × ArtifactKind × Option String} (hentry : entry ∈ classified.artifacts.toList)
    {artifact : CatalogArtifact} (ha : catalogArtifact tree classified.packagePathByName entry = .ok artifact) :
    artifact.path = entry.1 ∧ entry.2.1 ∈ workspace.packages ∧ Represents workspace tree entry.2.1 artifact := by
  obtain ⟨path, package, kind, category⟩ := entry
  rw [TreeMap.mem_toList_iff_getElem?_eq_some] at hentry
  obtain ⟨hpackage, hcataloged⟩ := (h.artifacts _ _ _ _).mp hentry
  unfold catalogArtifact at ha
  simp only at ha
  split at ha
  · cases ha
  · rename_i description hdescription
    cases ha
    refine ⟨rfl, hpackage, hcataloged, rfl, rfl, (Option.filter_eq_some_iff.mp hdescription).1, ?_, rfl, fun kind => ?_,
      fun kind path => ?_⟩
    · cases hpublish : package.publish with
      | none => simp
      | some registries => simp [List.isEmpty_iff]
    · rw [dependencies_dependencyProjection]
      exact sortDedup_pairwise _
    · rw [mem_dependencyProjection]
      constructor
      · rintro ⟨dependency, hd, hkind, hpath⟩
        exact ⟨dependency, hd, hkind, (h.paths _ _).mp hpath⟩
      · rintro ⟨dependency, hd, hkind, htarget⟩
        exact ⟨dependency, hd, hkind, (h.paths _ _).mpr htarget⟩

end

/-! ### The whole run -/

section
variable {workspace : Workspace} {tree : FileTree} {index : CatalogIndex}

theorem ClassifiedFrom.described_iff {classified : Classified}
    (h : ClassifiedFrom workspace workspace.packages classified) :
    (∃ artifacts,
      classified.artifacts.toList.mapM (catalogArtifact tree classified.packagePathByName) = .ok artifacts) ↔
      ∀ package ∈ workspace.packages, ∀ path, CatalogedAt workspace package path →
        ∃ description, package.description = some description ∧ ∃ c ∈ description.toList, isWhitespace c = false := by
  simp only [mapM_ok_iff, catalogArtifact_ok_iff]
  constructor
  · rintro hall package hp path ⟨kind, category, hcataloged⟩
    refine hall (path, package, kind, category) ?_
    rw [TreeMap.mem_toList_iff_getElem?_eq_some]
    exact (h.artifacts _ _ _ _).mpr ⟨hp, hcataloged⟩
  · rintro hall ⟨path, package, kind, category⟩ hentry
    rw [TreeMap.mem_toList_iff_getElem?_eq_some] at hentry
    obtain ⟨hp, hcataloged⟩ := (h.artifacts _ _ _ _).mp hentry
    exact hall package hp path ⟨kind, category, hcataloged⟩

theorem discoverCatalog_ok_iff :
    (∃ index, discoverCatalog workspace tree = .ok index) ↔ Discoverable workspace tree := by
  constructor
  · rintro ⟨index, h⟩
    obtain ⟨hnodup, classified, hclassified, hmanifests, -, hartifacts⟩ := discoverCatalog_eq_ok.mp h
    have hcollected : ClassifiedFrom workspace workspace.packages classified :=
      (classifiedFrom_nil workspace).run hnodup hclassified
    obtain ⟨hclassifiable, hapart, -⟩ := ((classifiedFrom_nil workspace).run_ok_iff hnodup).mp ⟨classified, hclassified⟩
    exact {
      names := hnodup
      underRoot := fun package hp => (hclassifiable package hp).1
      supported := fun package hp => (hclassifiable package hp).2
      paths := hapart
      described := hcollected.described_iff.mp ⟨_, hartifacts⟩
      manifests := hcollected.manifests_iff.mp hmanifests }
  · intro h
    obtain ⟨classified, hclassified⟩ := ((classifiedFrom_nil workspace).run_ok_iff h.names).mpr
      ⟨fun package hp => ⟨h.underRoot package hp, h.supported package hp⟩, h.paths,
        fun p hp => absurd hp List.not_mem_nil⟩
    have hcollected : ClassifiedFrom workspace workspace.packages classified :=
      (classifiedFrom_nil workspace).run h.names hclassified
    obtain ⟨artifacts, hartifacts⟩ := hcollected.described_iff.mpr h.described
    exact ⟨⟨2, artifacts⟩, discoverCatalog_eq_ok.mpr
      ⟨h.names, classified, hclassified, hcollected.manifests_iff.mpr h.manifests, rfl, hartifacts⟩⟩

theorem exact_of_discoverCatalog (h : discoverCatalog workspace tree = .ok index) : Exact workspace tree index := by
  obtain ⟨hnodup, classified, hclassified, -, hversion, hartifacts⟩ := discoverCatalog_eq_ok.mp h
  have hcollected : ClassifiedFrom workspace workspace.packages classified :=
    (classifiedFrom_nil workspace).run hnodup hclassified
  refine ⟨hversion, paths_of_catalogArtifacts hartifacts ▸ keys_pairwise _, fun artifact ha => ?_,
    fun package hp path hat => ?_⟩
  · obtain ⟨entry, hentry, hartifact⟩ := exists_of_mem_mapM hartifacts ha
    obtain ⟨-, hpackage, hrepresents⟩ := hcollected.represents hentry hartifact
    exact ⟨entry.2.1, hpackage, hrepresents⟩
  · obtain ⟨kind, category, hcataloged⟩ := hat
    have hentry : (path, package, kind, category) ∈ classified.artifacts.toList := by
      rw [TreeMap.mem_toList_iff_getElem?_eq_some]
      exact (hcollected.artifacts _ _ _ _).mpr ⟨hp, hcataloged⟩
    obtain ⟨artifact, ha, hartifact⟩ := mem_of_mem_mapM hartifacts hentry
    obtain ⟨hpath, -, hrepresents⟩ := hcollected.represents hentry hartifact
    exact ⟨artifact, ha, hpath, hrepresents⟩

end

/-! ### Independence of the order -/

section
variable {workspace workspace' : Workspace} {tree : FileTree} {p q : CargoPackage}

theorem SamePackage.symm (h : SamePackage p q) : SamePackage q p where
  name := h.name.symm
  version := h.version.symm
  description := h.description.symm
  publish := h.publish.symm
  manifestPath := h.manifestPath.symm
  dependencies dependency := (h.dependencies dependency).symm

theorem Rearranged.symm (h : Rearranged workspace workspace') : Rearranged workspace' workspace := by
  obtain ⟨hroot, packages, hperm, hsame⟩ := h
  obtain ⟨packages', hsame', hperm'⟩ := List.perm_comp_forall₂ hperm hsame
  exact ⟨hroot.symm, packages', hperm'.symm, hsame'.flip.imp fun _ _ h => h.symm⟩

theorem Rearranged.exists_same (h : Rearranged workspace workspace') (hq : q ∈ workspace'.packages) :
    ∃ p ∈ workspace.packages, SamePackage p q := by
  obtain ⟨-, packages, hperm, hsame⟩ := h
  obtain ⟨p, hp, hpq⟩ := exists_of_mem_right hsame hq
  exact ⟨p, hperm.mem_iff.mpr hp, hpq⟩

theorem SamePackage.liesAt_iff (h : SamePackage p q) (hroot : workspace'.root = workspace.root) {path : String} :
    LiesAt workspace' q path ↔ LiesAt workspace p path := by
  simp only [LiesAt, h.manifestPath, hroot]

theorem SamePackage.catalogedAt_iff (h : SamePackage p q) (hroot : workspace'.root = workspace.root) {path : String} :
    CatalogedAt workspace' q path ↔ CatalogedAt workspace p path := by
  constructor
  · rintro ⟨kind, category, hliesAt, htopology⟩
    exact ⟨kind, category, (h.liesAt_iff hroot).mp hliesAt, htopology⟩
  · rintro ⟨kind, category, hliesAt, htopology⟩
    exact ⟨kind, category, (h.liesAt_iff hroot).mpr hliesAt, htopology⟩

/-- The cataloged paths, and the packages that are found at them by name, are those of the other order. -/
theorem Rearranged.catalogedAt (h : Rearranged workspace workspace') {path : String} {P : String → Prop}
    (hpath : ∃ package ∈ workspace.packages, P package.name ∧ CatalogedAt workspace package path) :
    ∃ package ∈ workspace'.packages, P package.name ∧ CatalogedAt workspace' package path := by
  obtain ⟨p, hp, hname, hat⟩ := hpath
  obtain ⟨q, hq, hsame⟩ := h.symm.exists_same hp
  exact ⟨q, hq, hsame.name ▸ hname, (hsame.symm.catalogedAt_iff h.1).mpr hat⟩

theorem pairwise_forall₂ {α : Type} {R S S' : α → α → Prop} {l l' : List α}
    (hS : ∀ {a b a' b'}, R a a' → R b b' → S a b → S' a' b') (h : List.Forall₂ R l l') (hl : l.Pairwise S) :
    l'.Pairwise S' := by
  induction h with
  | nil => exact .nil
  | cons hhead htail ih =>
    obtain ⟨hfirst, hrest⟩ := List.pairwise_cons.mp hl
    refine List.pairwise_cons.mpr ⟨fun b hb => ?_, ih hrest⟩
    obtain ⟨a, ha, hab⟩ := exists_of_mem_right htail hb
    exact hS hhead hab (hfirst a ha)

theorem Rearranged.names (h : Rearranged workspace workspace') (hnames : (workspace.packages.map (·.name)).Nodup) :
    (workspace'.packages.map (·.name)).Nodup := by
  obtain ⟨-, packages, hperm, hsame⟩ := h
  have heq : workspace'.packages.map (·.name) = packages.map (·.name) := by
    rw [← List.forall₂_eq_eq_eq, List.forall₂_map_left_iff, List.forall₂_map_right_iff]
    exact hsame.flip.imp fun _ _ h => h.name
  rw [heq]
  exact (hperm.map _).nodup_iff.mp hnames

theorem Rearranged.apart (h : Rearranged workspace workspace')
    (hapart : workspace.packages.Pairwise (Apart workspace)) :
    workspace'.packages.Pairwise (Apart workspace') := by
  obtain ⟨hroot, packages, hperm, hsame⟩ := h
  refine pairwise_forall₂ (fun hp hq hpq path hp' hq' => ?_) hsame (hperm.pairwise hapart fun h => h.symm)
  exact hpq path ((hp.catalogedAt_iff hroot).mp hp') ((hq.catalogedAt_iff hroot).mp hq')

theorem Rearranged.manifests (h : Rearranged workspace workspace') (hpass : ManifestsPass workspace tree) :
    ManifestsPass workspace' tree := by
  intro paths hpaths
  have hsame : ∀ path, path ∈ paths ↔ ∃ package ∈ workspace.packages, CatalogedAt workspace package path := by
    intro path
    rw [hpaths]
    constructor
    · rintro ⟨package, hp, hat⟩
      obtain ⟨p, hp, -, hat⟩ := h.symm.catalogedAt (P := fun _ => True) ⟨package, hp, trivial, hat⟩
      exact ⟨p, hp, hat⟩
    · rintro ⟨package, hp, hat⟩
      obtain ⟨p, hp, -, hat⟩ := h.catalogedAt (P := fun _ => True) ⟨package, hp, trivial, hat⟩
      exact ⟨p, hp, hat⟩
  rw [validateSupported_congr h.1 fun _ => Iff.rfl]
  exact hpass paths hsame

theorem Rearranged.discoverable (h : Rearranged workspace workspace') (hd : Discoverable workspace tree) :
    Discoverable workspace' tree where
  names := h.names hd.names
  underRoot q hq := by
    obtain ⟨p, hp, hsame⟩ := h.exists_same hq
    unfold UnderRoot
    rw [hsame.manifestPath, h.1]
    exact hd.underRoot p hp
  supported q hq path hpath := by
    obtain ⟨p, hp, hsame⟩ := h.exists_same hq
    exact hd.supported p hp path ((hsame.liesAt_iff h.1).mp hpath)
  paths := h.apart hd.paths
  described q hq path hat := by
    obtain ⟨p, hp, hsame⟩ := h.exists_same hq
    rw [hsame.description]
    exact hd.described p hp path ((hsame.catalogedAt_iff h.1).mp hat)
  manifests := h.manifests hd.manifests

theorem Rearranged.dependsOn (h : Rearranged workspace workspace') (hsame : SamePackage p q) {kind : DependencyKind}
    {path : String} (hd : DependsOn workspace p kind path) : DependsOn workspace' q kind path := by
  obtain ⟨dependency, hmem, hkind, htarget⟩ := hd
  exact ⟨dependency, (hsame.dependencies dependency).mpr hmem, hkind,
    h.catalogedAt (P := (· = dependency.name)) htarget⟩

theorem Rearranged.represents (h : Rearranged workspace workspace') (hsame : SamePackage p q)
    {artifact : CatalogArtifact} (hr : Represents workspace tree p artifact) :
    Represents workspace' tree q artifact where
  cataloged := ⟨(hsame.liesAt_iff h.1).mpr hr.cataloged.liesAt, hr.cataloged.topology⟩
  cargoPackage := hr.cargoPackage.trans hsame.name.symm
  version := hr.version.trans hsame.version.symm
  description := hsame.description.trans hr.description
  publishable := hsame.publish ▸ hr.publishable
  readme := hr.readme
  sorted := hr.sorted
  dependencies kind path := (hr.dependencies kind path).trans ⟨h.dependsOn hsame, h.symm.dependsOn hsame.symm⟩

theorem Rearranged.exact (h : Rearranged workspace workspace') {index : CatalogIndex}
    (he : Exact workspace tree index) : Exact workspace' tree index where
  schemaVersion := he.schemaVersion
  paths := he.paths
  sound artifact ha := by
    obtain ⟨p, hp, hr⟩ := he.sound artifact ha
    obtain ⟨q, hq, hsame⟩ := h.symm.exists_same hp
    exact ⟨q, hq, h.represents hsame.symm hr⟩
  complete q hq path hat := by
    obtain ⟨p, hp, hsame⟩ := h.exists_same hq
    obtain ⟨artifact, ha, hpath, hr⟩ := he.complete p hp path ((hsame.catalogedAt_iff h.1).mp hat)
    exact ⟨artifact, ha, hpath, h.represents hsame hr⟩

/-! ### One description, one document -/

/-- The artifact of a package is determined. -/
theorem Represents.unique {artifact artifact' : CatalogArtifact} (h : Represents workspace tree p artifact)
    (h' : Represents workspace tree p artifact') : artifact = artifact' := by
  obtain ⟨hpath, hkind, hcategory⟩ := h.cataloged.unique h'.cataloged
  have hgroup : ∀ kind : DependencyKind,
      kind.dependencies artifact.dependencies = kind.dependencies artifact'.dependencies := fun kind =>
    (h.sorted kind).eq_of_mem_iff (h'.sorted kind) fun path =>
      (h.dependencies kind path).trans (h'.dependencies kind path).symm
  have hdependencies : artifact.dependencies = artifact'.dependencies := by
    have hnormal := hgroup .normal
    have hdevelopment := hgroup .development
    have hbuild := hgroup .build
    cases hd : artifact.dependencies
    cases hd' : artifact'.dependencies
    simp_all [DependencyKind.dependencies]
  have hpublishable : artifact.publishable = artifact'.publishable := by
    rw [Bool.eq_iff_iff, ← not_iff_not, Bool.not_eq_true, Bool.not_eq_true]
    exact h.publishable.trans h'.publishable.symm
  have hreadme : artifact.readme = artifact'.readme := by rw [h.readme, h'.readme, hpath]
  have hdescription := Option.some.inj (h.description.symm.trans h'.description)
  have hname := h.cargoPackage.trans h'.cargoPackage.symm
  have hversion := h.version.trans h'.version.symm
  cases artifact
  cases artifact'
  simp_all

theorem Exact.subset {index index' : CatalogIndex} (h : Exact workspace tree index) (h' : Exact workspace tree index') :
    index.artifacts ⊆ index'.artifacts := by
  intro artifact ha
  obtain ⟨package, hp, hr⟩ := h.sound artifact ha
  obtain ⟨artifact', ha', -, hr'⟩ := h'.complete package hp artifact.path ⟨_, _, hr.cataloged⟩
  exact hr.unique hr' ▸ ha'

theorem Exact.unique {index index' : CatalogIndex} (h : Exact workspace tree index) (h' : Exact workspace tree index') :
    index = index' := by
  have hsorted : ∀ {i : CatalogIndex}, Exact workspace tree i →
      i.artifacts.Pairwise fun a b => a.path < b.path := fun h => List.pairwise_map.mp h.paths
  have hartifacts : index.artifacts = index'.artifacts := by
    have : Std.Irrefl fun a b : CatalogArtifact => a.path < b.path := ⟨fun a => lt_irrefl a.path⟩
    have : Std.Antisymm fun a b : CatalogArtifact => a.path < b.path := ⟨fun a b hab hba => absurd hba hab.not_gt⟩
    exact (hsorted h).eq_of_mem_iff (hsorted h') fun artifact =>
      ⟨fun ha => h.subset h' ha, fun ha => h'.subset h ha⟩
  cases index
  cases index'
  exact congrArg₂ CatalogIndex.mk (h.schemaVersion.trans h'.schemaVersion.symm) hartifacts

end

/-- Discovery succeeds exactly on the discoverable workspaces, it then yields exactly the artifacts of the cataloged
    packages, and the order in which packages and dependency entries are reported changes neither. -/
theorem discoverCatalog_exact (workspace : Workspace) (tree : FileTree) :
    ((∃ index, discoverCatalog workspace tree = .ok index) ↔ Discoverable workspace tree) ∧
      (∀ index, discoverCatalog workspace tree = .ok index → Exact workspace tree index) ∧
      ∀ workspace', Rearranged workspace workspace' → ∀ index,
        discoverCatalog workspace tree = .ok index ↔ discoverCatalog workspace' tree = .ok index := by
  have forward : ∀ {w w' : Workspace} {index : CatalogIndex}, Rearranged w w' →
      discoverCatalog w tree = .ok index → discoverCatalog w' tree = .ok index := by
    intro w w' index h hindex
    obtain ⟨index', hindex'⟩ := discoverCatalog_ok_iff.mpr (h.discoverable (discoverCatalog_ok_iff.mp ⟨index, hindex⟩))
    rw [(h.exact (exact_of_discoverCatalog hindex)).unique (exact_of_discoverCatalog hindex')]
    exact hindex'
  refine ⟨discoverCatalog_ok_iff, fun index => exact_of_discoverCatalog, fun workspace' h index => ?_⟩
  exact ⟨forward h, forward h.symm⟩

/-- The two packages of a workspace, in either order. -/
theorem discoverCatalog_exact_networking :
    Discoverable networkingWorkspace networkingTree ∧ Exact networkingWorkspace networkingTree networkingIndex ∧
      discoverCatalog ⟨networkingWorkspace.root, [httpPackage, tcpPackage]⟩ networkingTree = .ok networkingIndex := by
  obtain ⟨hdiscoverable, hexact, hrearranged⟩ := discoverCatalog_exact networkingWorkspace networkingTree
  have hswapped : Rearranged networkingWorkspace ⟨networkingWorkspace.root, [httpPackage, tcpPackage]⟩ :=
    ⟨rfl, [httpPackage, tcpPackage], .swap ..,
      List.forall₂_same.mpr fun _ _ => ⟨rfl, rfl, rfl, rfl, rfl, fun _ => .rfl⟩⟩
  exact ⟨hdiscoverable.mp ⟨_, discoverCatalog_networking⟩, hexact _ discoverCatalog_networking,
    (hrearranged _ hswapped _).mp discoverCatalog_networking⟩

end Fabric.Catalog
