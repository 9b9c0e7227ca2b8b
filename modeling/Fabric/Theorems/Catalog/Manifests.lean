import Fabric.Theorems.Catalog.Exactness
import Fabric.Theorems.Catalog.RoundTrip
import Fabric.Theorems.Catalog.Search
import Mathlib.Data.Set.List

/-! The manifests below the catalog roots, against the artifacts of an accepted catalog. -/

namespace Fabric.Catalog
open Rust
open Std (TreeMap TreeSet)

/-! ### Accounting for manifests -/

/-- A directory at or below a catalog root holds a manifest. It is given by the names that lead to it from the root of
    the workspace. -/
structure HoldsManifest (tree : FileTree) (directory : List OsString) : Prop where
  root : ∃ root ∈ catalogRoots, directory.head? = some (osString root)
  manifest : tree.lookup ((directory ++ [cargoToml]).map .normal) = some (.leaf .file)

/-- The directory is the path of exactly one artifact and belongs to the workspace, and no artifact lies on its way or
    below it. -/
structure Accounted (workspace : Workspace) (index : CatalogIndex) (directory : List OsString) : Prop where
  artifact : (index.artifacts.map fun artifact => components (osString artifact.path)).count (directory.map .normal) = 1
  member : ∃ package ∈ workspace.packages,
    parent (components package.manifestPath) = some (components workspace.root ++ directory.map .normal)
  level : ∀ artifact ∈ index.artifacts,
    components (osString artifact.path) <+: directory.map .normal ∨
      directory.map .normal <+: components (osString artifact.path) →
    components (osString artifact.path) = directory.map .normal

/-- The component is a name in UTF-8. -/
def isUtf8Name : Component → Bool
  | .normal name => isUtf8 name
  | _ => false

/-- The string that stands for the directory stands for no other: the directory has a UTF-8 path, and so has each
    package that is cataloged under the string. -/
structure Unmistakable (workspace : Workspace) (directory : List OsString) : Prop where
  utf8 : ∀ name ∈ directory, isUtf8 name = true
  packages : ∀ package ∈ workspace.packages,
    artifactPath workspace package = .ok (pathToSlashString (directory.map .normal)) →
    ∀ component ∈ artifactDirectories workspace package, isUtf8Name component = true

/-! ### Paths of directories -/

theorem pathToSlashString_normal (names : List OsString) :
    pathToSlashString (names.map .normal) = join (names.map toStringLossy) '/' := by
  rw [pathToSlashString, List.filterMap_map, ← List.filterMap_eq_map]
  rfl

theorem split_pathToSlashString {names : List OsString} (hne : names ≠ []) (h : ∀ name ∈ names, PlainName name) :
    split (pathToSlashString (names.map .normal)) '/' = names.map toStringLossy := by
  rw [pathToSlashString_normal]
  refine split_join (by simpa using hne) fun piece hpiece => ?_
  obtain ⟨name, hname, rfl⟩ := List.mem_map.mp hpiece
  exact (h name hname).lossy.2.2.2

/-- A path of UTF-8 names is what its string stands for. -/
theorem components_pathToSlashString {names : List OsString} (hne : names ≠ []) (h : ∀ name ∈ names, PlainName name)
    (hutf8 : ∀ name ∈ names, isUtf8 name = true) :
    components (osString (pathToSlashString (names.map .normal))) = names.map .normal := by
  have hsplit := split_pathToSlashString hne h
  rw [components_osString, hsplit, List.map_map]
  · refine List.map_congr_left fun name hname => ?_
    obtain ⟨s, rfl⟩ := isUtf8_iff.mp (hutf8 name hname)
    rw [Function.comp_apply, toStringLossy_osString]
  · rw [hsplit]
    intro piece hpiece
    obtain ⟨name, hname, rfl⟩ := List.mem_map.mp hpiece
    obtain ⟨hempty, hdot, hdots, -⟩ := (h name hname).lossy
    exact ⟨hempty, hdot, hdots⟩

theorem parent_append_normal (path : List Component) (name : OsString) :
    parent (path ++ [.normal name]) = some path := by
  rw [parent, List.getLast?_append, List.dropLast_concat]
  rfl

theorem HoldsManifest.ne_nil {tree : FileTree} {directory : List OsString} (h : HoldsManifest tree directory) :
    directory ≠ [] := by
  obtain ⟨root, -, hhead⟩ := h.root
  exact List.ne_nil_of_mem (List.mem_of_head? hhead)

theorem HoldsManifest.plain {tree : FileTree} {directory : List OsString} (h : HoldsManifest tree directory)
    (hwell : tree.WellFormed) : ∀ name ∈ directory, PlainName name := fun name hname =>
  hwell.plainName_of_lookup h.manifest name (List.mem_append_left _ hname)

/-! ### The check of a manifest -/

/-- The check of a manifest below a catalog root. -/
theorem topology_of_checkManifest {workspace : Workspace} {represented : TreeSet String} {manifest : PathBuf}
    {directory : List Component} {name : OsString}
    (hmanifest : components manifest = components workspace.root ++ directory ++ [.normal name])
    (hroot : ∃ root ∈ catalogRoots, (split (pathToSlashString directory) '/').head? = some root)
    (h : checkManifest workspace represented manifest = .ok ()) :
    (∃ kind category, Topology 2 (split (pathToSlashString directory) '/') kind category) ∧
      pathToSlashString directory ∈ represented := by
  unfold checkManifest at h
  simp only [hmanifest, parent_append_normal, Option.getD_some, stripPrefix_eq_some.mpr rfl] at h
  obtain ⟨relative, hrelative, h⟩ := bind_eq_ok.mp h
  cases hrelative
  obtain ⟨classification, hclass, h⟩ := bind_eq_ok.mp h
  obtain ⟨kind, category, hc, htopology⟩ | ⟨-, hsupported, hnone⟩ | ⟨⟨error, hc⟩, -⟩ :=
    classifyPath_cases (pathToSlashString directory)
  · cases hc.symm.trans hclass
    exact ⟨⟨kind, category, htopology⟩, not_not.mp (rejectIf_eq_ok.mp h)⟩
  · exact absurd ⟨hroot, hnone⟩ hsupported
  · cases hc.symm.trans hclass

theorem components_catalogRoot : ∀ root ∈ catalogRoots, components (osString root) = [.normal (osString root)] := by
  decide

theorem plainName_catalogRoot : ∀ root ∈ catalogRoots, PlainName (osString root) := fun root hroot =>
  normal_of_mem_components (components_catalogRoot root hroot ▸ List.mem_singleton_self _)

/-- The check finds each manifest below a catalog root. -/
theorem checkManifest_of_checkCatalogRoot {workspace : Workspace} {tree : FileTree} {represented : TreeSet String}
    {root : String} (hroot : root ∈ catalogRoots) (hwell : tree.WellFormed) {names : List OsString}
    (hfile : tree.lookup ((osString root :: names ++ [cargoToml]).map .normal) = some (.leaf .file))
    (h : checkCatalogRoot workspace tree represented root = .ok ()) :
    ∃ manifest, components manifest = components workspace.root ++ (osString root :: names).map .normal ++
      [.normal cargoToml] ∧ checkManifest workspace represented manifest = .ok () := by
  rw [List.cons_append, List.map_cons, FileTree.lookup_normal_eq_some] at hfile
  obtain ⟨below, hbelow, hfile⟩ := hfile
  unfold checkCatalogRoot at h
  rw [components_catalogRoot root hroot, hbelow] at h
  have hexists : below.pathExists = true := by
    cases below with
    | leaf kind =>
      obtain ⟨hnil, -⟩ := FileTree.lookup_leaf_eq_some.mp hfile
      simp at hnil
    | dir entries listing => rfl
  simp only [if_pos hexists] at h
  obtain ⟨manifests, hmanifests, hall⟩ := bind_eq_ok.mp h
  have hplace : tree.lookup ([osString root].map .normal) = some below := hbelow
  have hfound := (findsEach_findCargoTomls (hwell.of_lookup hplace) hmanifests).once _ hfile List.getLast?_concat
  have hmem := List.count_pos_iff.mp (hfound.symm ▸ Nat.one_pos)
  obtain ⟨manifest, hmanifest, hcomponents⟩ := List.mem_map.mp hmem
  refine ⟨manifest, ?_, forM_eq_ok.mp hall manifest hmanifest⟩
  rw [hcomponents, components_joinPath (plainName_catalogRoot root hroot)]
  simp

section
variable {workspace : Workspace} {tree : FileTree} {index : CatalogIndex} {directory : List OsString}

/-- A manifest below a catalog root has a supported topology, and its directory the path of an artifact. -/
theorem represented_of_discoverCatalog (hwell : tree.WellFormed) (h : discoverCatalog workspace tree = .ok index)
    (hd : HoldsManifest tree directory) :
    (∃ kind category, Topology 2 (directory.map toStringLossy) kind category) ∧
      ∃ artifact ∈ index.artifacts, artifact.path = pathToSlashString (directory.map .normal) := by
  obtain ⟨-, classified, -, hmanifests, -, hartifacts⟩ := discoverCatalog_eq_ok.mp h
  obtain ⟨root, hroot, hhead⟩ := hd.root
  have hsplit := split_pathToSlashString hd.ne_nil (hd.plain hwell)
  obtain ⟨names, rfl⟩ := List.head?_eq_some_iff.mp hhead
  obtain ⟨manifest, hmanifest, hcheck⟩ :=
    checkManifest_of_checkCatalogRoot hroot hwell hd.manifest (forM_eq_ok.mp hmanifests root hroot)
  have hsegment : (split (pathToSlashString ((osString root :: names).map .normal)) '/').head? = some root := by
    rw [hsplit, List.map_cons, List.head?_cons, toStringLossy_osString]
  obtain ⟨htopology, hmem⟩ := topology_of_checkManifest hmanifest ⟨root, hroot, hsegment⟩ hcheck
  rw [hsplit] at htopology
  rw [TreeSet.mem_ofList, List.contains_iff_mem, ← paths_of_catalogArtifacts hartifacts] at hmem
  obtain ⟨artifact, ha, hpath⟩ := List.mem_map.mp hmem
  exact ⟨htopology, artifact, ha, hpath⟩

/-! ### The artifacts of a directory -/

theorem Topology.length_eq {version : UInt8} {segments segments' : List String} {kind kind' : ArtifactKind}
    {category category' : Option String} (h : Topology version segments kind category)
    (h' : Topology version segments' kind' category') (hhead : segments.head? = segments'.head?) :
    segments.length = segments'.length := by
  cases h <;> cases h' <;> simp at hhead ⊢

theorem Exact.cataloged (h : Exact workspace tree index) {artifact : CatalogArtifact}
    (ha : artifact ∈ index.artifacts) :
    ∃ package ∈ workspace.packages, Cataloged workspace package artifact.path artifact.kind artifact.category := by
  obtain ⟨package, hp, hrepresents⟩ := h.sound artifact ha
  exact ⟨package, hp, hrepresents.cataloged⟩

theorem Exact.components_path (h : Exact workspace tree index) {artifact : CatalogArtifact}
    (ha : artifact ∈ index.artifacts) :
    components (osString artifact.path) = ((split artifact.path '/').map osString).map .normal := by
  obtain ⟨package, -, hcataloged⟩ := h.cataloged ha
  rw [components_osString hcataloged.segments, List.map_map]
  rfl

/-- Artifacts with other paths are in other directories. -/
theorem Exact.components_nodup (h : Exact workspace tree index) :
    (index.artifacts.map fun artifact => components (osString artifact.path)).Nodup := by
  refine List.pairwise_map.mpr ((List.pairwise_map.mp h.paths).imp_of_mem fun ha hb hlt heq => hlt.ne ?_)
  rw [h.components_path ha, h.components_path hb] at heq
  have hnormal : Function.Injective Component.normal := fun _ _ h => Component.normal.inj h
  have hsplit := osString_injective.list_map (hnormal.list_map heq)
  simpa using congrArg (join · '/') hsplit

theorem head?_eq_of_nested {α : Type} {l l' : List α} (hne : l ≠ []) (h : l <+: l') : l.head? = l'.head? := by
  obtain ⟨t, rfl⟩ := h
  exact (List.head?_append_of_ne_nil _ hne).symm

/-- The root of a directory decides at which level its artifact is. -/
theorem Exact.level (h : Exact workspace tree index) (hd : HoldsManifest tree directory)
    (htopology : ∃ kind category, Topology 2 (directory.map toStringLossy) kind category) {artifact : CatalogArtifact}
    (ha : artifact ∈ index.artifacts)
    (hnested : components (osString artifact.path) <+: directory.map .normal ∨
      directory.map .normal <+: components (osString artifact.path)) :
    components (osString artifact.path) = directory.map .normal := by
  obtain ⟨kind, category, htopology⟩ := htopology
  obtain ⟨root, -, hroot⟩ := hd.root
  obtain ⟨package, -, hcataloged⟩ := h.cataloged ha
  rw [h.components_path ha] at hnested ⊢
  have hartifact : ((split artifact.path '/').map osString).map Component.normal ≠ [] := by simp [split_ne_nil]
  have hdirectory : directory.map Component.normal ≠ [] := by simpa using hd.ne_nil
  have hhead : (((split artifact.path '/').map osString).map Component.normal).head? =
      (directory.map Component.normal).head? := by
    rcases hnested with hnested | hnested
    · exact head?_eq_of_nested hartifact hnested
    · exact (head?_eq_of_nested hdirectory hnested).symm
  have hsegment : (split artifact.path '/').head? = (directory.map toStringLossy).head? := by
    rw [List.map_map, List.head?_map, List.head?_map, hroot] at hhead
    obtain ⟨segment, hsegment, hname⟩ := Option.map_eq_some_iff.mp hhead
    rw [hsegment, List.head?_map, hroot, osString_injective (Component.normal.inj hname), Option.map_some,
      toStringLossy_osString]
  have hlength := hcataloged.topology.length_eq htopology hsegment
  rcases hnested with hnested | hnested
  · exact hnested.eq_of_length (by simpa using hlength)
  · exact (hnested.eq_of_length (by simpa using hlength.symm)).symm

/-! ### Directories that are accounted for -/

theorem CatalogedAt.package_eq (h : discoverCatalog workspace tree = .ok index) {path : String} {p q : CargoPackage}
    (hp : p ∈ workspace.packages) (hq : q ∈ workspace.packages) (hpath : CatalogedAt workspace p path)
    (hpath' : CatalogedAt workspace q path) : p = q := by
  have hdiscoverable := discoverCatalog_ok_iff.mp ⟨index, h⟩
  have : Std.Symm (Apart workspace) := ⟨fun _ _ => Apart.symm⟩
  by_contra hne
  exact hdiscoverable.paths.forall hp hq hne path hpath hpath'

theorem utf8_of_accounted (h : Exact workspace tree index) (haccounted : Accounted workspace index directory) :
    ∀ name ∈ directory, isUtf8 name = true := by
  have hmem := List.count_pos_iff.mp (haccounted.artifact.symm ▸ Nat.one_pos)
  obtain ⟨artifact, ha, hpath⟩ := List.mem_map.mp hmem
  rw [h.components_path ha] at hpath
  have hnormal : Function.Injective Component.normal := fun _ _ h => Component.normal.inj h
  have hnames : (split artifact.path '/').map osString = directory := hnormal.list_map hpath
  intro name hname
  obtain ⟨s, -, rfl⟩ := List.mem_map.mp (hnames.symm ▸ hname)
  exact isUtf8_iff.mpr ⟨s, rfl⟩

/-- The package that is cataloged under an unmistakable string is in that directory. -/
theorem Unmistakable.artifactDirectories_eq (hu : Unmistakable workspace directory) (hne : directory ≠ [])
    (hplain : ∀ name ∈ directory, PlainName name) {package : CargoPackage} (hp : package ∈ workspace.packages)
    (hat : CatalogedAt workspace package (pathToSlashString (directory.map .normal))) :
    artifactDirectories workspace package = directory.map .normal := by
  obtain ⟨kind, category, hcataloged⟩ := hat
  have hutf8 := hu.packages package hp hcataloged.located
  have hrange : artifactDirectories workspace package ∈ Set.range (List.map Component.normal) := by
    rw [Set.range_list_map]
    intro component hc
    cases component with
    | normal name => exact ⟨name, rfl⟩
    | _ => cases hutf8 _ hc
  obtain ⟨names, hnames⟩ := hrange
  have hsub := artifactDirectories_subset hcataloged.located
  obtain ⟨-, hpath⟩ := artifactPath_eq_ok.mp hcataloged.located
  rw [← hnames] at hsub hutf8 hpath ⊢
  rw [← components_pathToSlashString hne hplain hu.utf8, hpath]
  refine (components_pathToSlashString (fun hnil => ?_) (fun name hname => ?_) fun name hname => ?_).symm
  · rw [hnil] at hpath
    exact hcataloged.ne_empty hpath
  · exact normal_of_mem_components (hsub (List.mem_map_of_mem hname))
  · exact hutf8 _ (List.mem_map_of_mem hname)

/-- The directory of a manifest below a catalog root is accounted for exactly when it cannot be mistaken for another. -/
theorem accounted_iff_unmistakable (hwell : tree.WellFormed) (h : discoverCatalog workspace tree = .ok index)
    (hd : HoldsManifest tree directory) : Accounted workspace index directory ↔ Unmistakable workspace directory := by
  have hexact := exact_of_discoverCatalog h
  have hplain := hd.plain hwell
  obtain ⟨htopology, artifact, ha, hpath⟩ := represented_of_discoverCatalog hwell h hd
  have hcataloged : ∀ {package}, artifactPath workspace package = .ok (pathToSlashString (directory.map .normal)) →
      CatalogedAt workspace package (pathToSlashString (directory.map .normal)) := by
    intro package hlocated
    obtain ⟨kind, category, htopology⟩ := htopology
    exact ⟨kind, category, liesAt_iff.mpr hlocated, split_pathToSlashString hd.ne_nil hplain ▸ htopology⟩
  constructor
  · intro haccounted
    have hutf8 := utf8_of_accounted hexact haccounted
    obtain ⟨member, hmember, hparent⟩ := haccounted.member
    have hdirectories := artifactDirectories_eq hparent
    have hlocated : artifactPath workspace member = .ok (pathToSlashString (directory.map .normal)) :=
      artifactPath_eq_ok.mpr ⟨hdirectories.symm ▸ hparent, by rw [hdirectories]⟩
    refine ⟨hutf8, fun package hp hpackage component hc => ?_⟩
    cases CatalogedAt.package_eq h hp hmember (hcataloged hpackage) (hcataloged hlocated)
    rw [hdirectories] at hc
    obtain ⟨name, hname, rfl⟩ := List.mem_map.mp hc
    exact hutf8 name hname
  · intro hu
    refine ⟨List.count_eq_one_of_mem hexact.components_nodup (List.mem_map.mpr ⟨artifact, ha, ?_⟩), ?_,
      fun other hother hnested => hexact.level hd htopology hother hnested⟩
    · rw [hpath, components_pathToSlashString hd.ne_nil hplain hu.utf8]
    · obtain ⟨package, hp, hat⟩ := hexact.cataloged ha
      have hlocated := hpath ▸ hat.located
      obtain ⟨hparent, -⟩ := artifactPath_eq_ok.mp hlocated
      rw [hu.artifactDirectories_eq hd.ne_nil hplain hp (hcataloged hlocated)] at hparent
      exact ⟨package, hp, hparent⟩

end

/-- The search finds each manifest below its root once, and returns when it can read every directory. When discovery
    succeeds, the directory of a manifest below a catalog root is the path of exactly one artifact, and of a crate of
    the workspace on a level of its own, exactly when its string stands for no other directory. -/
theorem accounted_iff (workspace : Workspace) (tree : FileTree) (hwell : tree.WellFormed) :
    (∀ root manifests, findCargoTomls root tree = .ok manifests → FindsEach root tree manifests) ∧
      (tree.isDir = true → tree.Readable → ∀ root, ∃ manifests, findCargoTomls root tree = .ok manifests) ∧
      ∀ index, discoverCatalog workspace tree = .ok index → ∀ directory, HoldsManifest tree directory →
        (Accounted workspace index directory ↔ Unmistakable workspace directory) :=
  ⟨fun _ _ h => findsEach_findCargoTomls hwell h, fun hdir hread _ => findCargoTomls_ok hwell hdir hread,
    fun _ h _ hd => accounted_iff_unmistakable hwell h hd⟩

theorem wellFormed_directory {entries : List (String × FileTree)} (hdistinct : (entries.map (·.1)).Nodup)
    (hplain : ∀ entry ∈ entries, PlainName (osString entry.1)) (hchildren : ∀ entry ∈ entries, entry.2.WellFormed) :
    (Catalog.directory entries).WellFormed := by
  refine .dir ?_ (fun entry hentry => ?_) fun entry hentry => ?_
  · have hnames := hdistinct.map osString_injective
    rwa [List.map_map] at hnames ⊢
  · obtain ⟨source, hsource, rfl⟩ := List.mem_map.mp hentry
    exact hplain source hsource
  · obtain ⟨source, hsource, rfl⟩ := List.mem_map.mp hentry
    exact hchildren source hsource

theorem wellFormed_networkingTree : networkingTree.WellFormed := by
  refine wellFormed_directory (by decide) (by decide) (List.forall_mem_singleton.mpr ?_)
  refine wellFormed_directory (by decide) (by decide) (List.forall_mem_singleton.mpr ?_)
  refine wellFormed_directory (by decide) (by decide) (List.forall_mem_cons.mpr ⟨?_, List.forall_mem_singleton.mpr ?_⟩)
  · refine wellFormed_directory (by decide) (by decide) (List.forall_mem_cons.mpr ⟨.leaf _, ?_⟩)
    exact List.forall_mem_singleton.mpr (.leaf _)
  · exact wellFormed_directory (by decide) (by decide) (List.forall_mem_singleton.mpr (.leaf _))

theorem accounted_iff_networking :
    Accounted networkingWorkspace networkingIndex [osString "packages", osString "networking", osString "http"] := by
  have hd : HoldsManifest networkingTree [osString "packages", osString "networking", osString "http"] :=
    ⟨⟨"packages", by decide, rfl⟩, rfl⟩
  refine ((accounted_iff _ _ wellFormed_networkingTree).2.2 _ discoverCatalog_networking _ hd).mpr ?_
  exact ⟨by decide, by decide⟩

/-! ### A crate that is mistaken for another -/

/-- The only package has the replacement character for the name of its directory. -/
def replacementPackage : CargoPackage :=
  { tcpPackage with manifestPath := osString "/repo/packages/networking/\uFFFD/Cargo.toml" }

def replacementWorkspace : Workspace := ⟨osString "/repo", [replacementPackage]⟩

/-- A name that is not UTF-8. -/
def strayName : OsString := [.illFormed [0xFF]]

/-- Beside the directory of the package stands one that Cargo does not know. -/
def strayPackagesTree : FileTree :=
  directory [("networking", .dir [(osString "\uFFFD", directory [("Cargo.toml", .leaf .file)]),
    (strayName, directory [("Cargo.toml", .leaf .file)])] .complete)]

def strayTree : FileTree := directory [("packages", strayPackagesTree)]

def strayDirectory : List OsString := [osString "packages", osString "networking", strayName]

def replacementIndex : CatalogIndex where
  schemaVersion := 2
  artifacts := [
    { kind := .package
      category := some "networking"
      path := "packages/networking/\uFFFD"
      cargoPackage := "fabric-tcp"
      version := "0.1.0"
      description := "TCP"
      publishable := true
      readme := none
      dependencies := {} }]

theorem findCargoTomls_strayPackagesTree : findCargoTomls (osString "/repo/packages") strayPackagesTree =
    .ok [osString "/repo/packages/networking/" ++ strayName ++ osString "/Cargo.toml",
      osString "/repo/packages/networking/\uFFFD/Cargo.toml"] := by
  refine (findCargoTomlsFrom_cons rfl rfl).trans ?_
  refine (findCargoTomlsFrom_cons rfl rfl).trans ?_
  refine (findCargoTomlsFrom_cons rfl rfl).trans ?_
  refine (findCargoTomlsFrom_cons rfl rfl).trans ?_
  exact findCargoTomlsFrom_nil rfl

theorem checkCatalogRoot_strayTree : ∀ root ∈ catalogRoots,
    checkCatalogRoot replacementWorkspace strayTree (.ofList ["packages/networking/\uFFFD"]) root = .ok () :=
  checkCatalogRoots_of_packages rfl findCargoTomls_strayPackagesTree
    (List.forall_mem_cons.mpr ⟨rfl, List.forall_mem_singleton.mpr rfl⟩)

theorem discoverCatalog_strayTree : discoverCatalog replacementWorkspace strayTree = .ok replacementIndex := by
  refine bind_eq_ok.mpr ⟨_, rfl, bind_eq_ok.mpr ⟨_, rfl, check_bind_eq_ok.mpr ⟨?_, rfl⟩⟩⟩
  exact forM_eq_ok.mpr checkCatalogRoot_strayTree

/-- The check compares strings, so a crate outside the workspace passes for the crate whose string it shares. -/
theorem stray_crate_accepted : strayTree.WellFormed ∧
    discoverCatalog replacementWorkspace strayTree = .ok replacementIndex ∧ HoldsManifest strayTree strayDirectory ∧
      ¬Accounted replacementWorkspace replacementIndex strayDirectory := by
  refine ⟨?_, discoverCatalog_strayTree, ⟨⟨"packages", by decide, rfl⟩, rfl⟩, fun h => ?_⟩
  · refine wellFormed_directory (by decide) (by decide) (List.forall_mem_singleton.mpr ?_)
    refine wellFormed_directory (by decide) (by decide) (List.forall_mem_singleton.mpr ?_)
    have hcrate : (directory [("Cargo.toml", .leaf .file)]).WellFormed :=
      wellFormed_directory (by decide) (by decide) (List.forall_mem_singleton.mpr (.leaf _))
    exact .dir (by decide) (by decide) (List.forall_mem_cons.mpr ⟨hcrate, List.forall_mem_singleton.mpr hcrate⟩)
  · obtain ⟨package, hp, hparent⟩ := h.member
    cases List.mem_singleton.mp hp
    exact absurd hparent (by decide)

end Fabric.Catalog
