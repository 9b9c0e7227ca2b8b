import Fabric.Theorems.Catalog.Discovery
import Mathlib.Data.List.Perm.Basic

/-! The search for manifests: it visits every directory below its root, and finds each manifest once. -/

namespace Fabric.Catalog
open Rust
open Std (TreeMap TreeSet)

/-! ### The manifests below a directory -/

def cargoToml : OsString := osString "Cargo.toml"

/-- The manifests below a directory. -/
def manifestsBelow (path : PathBuf) : FileTree → List PathBuf
  | .leaf _ => []
  | .dir entries _ => entries.flatMap fun entry =>
    if entry.2.isDir then manifestsBelow (joinPath path entry.1) entry.2
    else if entry.1 = cargoToml then [joinPath path entry.1]
    else []
termination_by tree => sizeOf tree
decreasing_by
  rename_i hmem _
  have hsize := List.sizeOf_lt_of_mem hmem
  cases entry
  simp only [FileTree.dir.sizeOf_spec, Prod.mk.sizeOf_spec] at hsize ⊢
  omega

/-- The manifests that an entry of a directory leads to. -/
def entryManifests (path : PathBuf) (entry : OsString × FileTree) : List PathBuf :=
  if entry.2.isDir then manifestsBelow (joinPath path entry.1) entry.2
  else if entry.1 = cargoToml then [joinPath path entry.1]
  else []

theorem manifestsBelow_dir (path : PathBuf) (entries : List (OsString × FileTree)) (listing : Listing) :
    manifestsBelow path (.dir entries listing) = entries.flatMap (entryManifests path) := by
  rw [manifestsBelow.eq_2]
  rfl

theorem mem_entryManifests {path manifest : PathBuf} {entry : OsString × FileTree} :
    manifest ∈ entryManifests path entry ↔
      (entry.2.isDir = true ∧ manifest ∈ manifestsBelow (joinPath path entry.1) entry.2) ∨
        (entry.2.isDir = false ∧ entry.1 = cargoToml ∧ manifest = joinPath path entry.1) := by
  unfold entryManifests
  cases hdir : entry.2.isDir
  · by_cases hname : entry.1 = cargoToml <;> simp [hname]
  · simp

/-- The manifests below a directory are the leaves named `Cargo.toml`. -/
theorem mem_manifestsBelow {tree : FileTree} (h : tree.WellFormed) {path manifest : PathBuf} :
    manifest ∈ manifestsBelow path tree ↔ ∃ (names : List OsString) (kind : LeafKind),
      tree.lookup (names.map .normal) = some (.leaf kind) ∧ names.getLast? = some cargoToml ∧
        manifest = names.foldl joinPath path := by
  induction h generalizing path with
  | leaf kind =>
    rw [manifestsBelow.eq_1]
    constructor
    · intro hmem
      cases hmem
    · rintro ⟨names, kind', hfound, hlast, -⟩
      obtain ⟨rfl, -⟩ := FileTree.lookup_leaf_eq_some.mp hfound
      cases hlast
  | dir distinct hnames children ih =>
    rename_i entries listing
    have hdir : (FileTree.dir entries listing).WellFormed := .dir distinct hnames children
    rw [manifestsBelow_dir, List.mem_flatMap]
    constructor
    · rintro ⟨⟨name, child⟩, hentry, hmem⟩
      rcases mem_entryManifests.mp hmem with ⟨-, hbelow⟩ | ⟨hleaf, hname, rfl⟩
      · obtain ⟨names, kind, hfound, hlast, rfl⟩ := (ih _ hentry).mp hbelow
        refine ⟨name :: names, kind, hdir.lookup_cons.mpr ⟨child, hentry, hfound⟩, ?_, rfl⟩
        rw [List.getLast?_cons, hlast, Option.getD_some]
      · cases child with
        | leaf kind => exact ⟨[name], kind, hdir.lookup_cons.mpr ⟨_, hentry, rfl⟩, by rw [← hname]; rfl, rfl⟩
        | dir _ _ => cases hleaf
    · rintro ⟨names, kind, hfound, hlast, rfl⟩
      cases names with
      | nil => cases hlast
      | cons name rest =>
        obtain ⟨child, hentry, hchild⟩ := hdir.lookup_cons.mp hfound
        refine ⟨(name, child), hentry, mem_entryManifests.mpr ?_⟩
        cases child with
        | leaf kind' =>
          obtain ⟨rfl, -⟩ := FileTree.lookup_leaf_eq_some.mp hchild
          exact .inr ⟨rfl, Option.some.inj hlast, rfl⟩
        | dir below listing' =>
          refine .inl ⟨rfl, (ih _ hentry).mpr ⟨rest, kind, hchild, ?_, rfl⟩⟩
          cases rest with
          | nil => cases hchild
          | cons second rest => exact hlast

/-- The manifests that an entry leads to have paths through that entry. -/
theorem components_of_mem_entryManifests {path manifest : PathBuf} {entry : OsString × FileTree}
    (hname : PlainName entry.1) (htree : entry.2.WellFormed) (hmem : manifest ∈ entryManifests path entry) :
    ∃ rest, components manifest = components path ++ .normal entry.1 :: rest := by
  rcases mem_entryManifests.mp hmem with ⟨-, hbelow⟩ | ⟨-, -, rfl⟩
  · obtain ⟨names, kind, hfound, -, rfl⟩ := (mem_manifestsBelow htree).mp hbelow
    rw [components_foldl_joinPath (htree.plainName_of_lookup hfound), components_joinPath hname, List.append_assoc]
    exact ⟨_, rfl⟩
  · rw [components_joinPath hname]
    exact ⟨_, rfl⟩

theorem nodup_manifestsBelow {tree : FileTree} (h : tree.WellFormed) (path : PathBuf) :
    ((manifestsBelow path tree).map components).Nodup := by
  induction h generalizing path with
  | leaf kind =>
    rw [manifestsBelow.eq_1]
    exact List.nodup_nil
  | dir distinct hnames children ih =>
    rename_i entries listing
    rw [manifestsBelow_dir, List.map_flatMap, List.nodup_flatMap]
    constructor
    · intro entry hentry
      unfold entryManifests
      split
      · exact ih entry hentry _
      · split
        · exact List.nodup_singleton _
        · exact List.nodup_nil
    · refine List.Pairwise.imp_of_mem ?_ (List.pairwise_map.mp distinct)
      intro left right hleft hright hne manifest hmem hmem'
      obtain ⟨manifest, hl, rfl⟩ := List.mem_map.mp hmem
      obtain ⟨other, hr, heq⟩ := List.mem_map.mp hmem'
      obtain ⟨rest, hrest⟩ := components_of_mem_entryManifests (hnames _ hleft) (children _ hleft) hl
      obtain ⟨rest', hrest'⟩ := components_of_mem_entryManifests (hnames _ hright) (children _ hright) hr
      rw [hrest, hrest'] at heq
      obtain ⟨hname, -⟩ := List.cons.inj (List.append_cancel_left heq)
      exact hne (Component.normal.inj hname).symm

/-! ### The search -/

/-- What the search has found and what its stack still leads to. -/
def ManifestSearch.found (search : ManifestSearch) : List PathBuf :=
  search.manifests ++ search.pending.flatMap fun directory => manifestsBelow directory.1 directory.2

/-- The search after an entry that could be read. -/
def visited (path : PathBuf) (search : ManifestSearch) (entry : OsString × FileTree) : ManifestSearch :=
  if entry.2.isDir then { search with pending := (joinPath path entry.1, entry.2) :: search.pending }
  else if entry.1 = cargoToml then { search with manifests := search.manifests ++ [joinPath path entry.1] }
  else search

theorem visitEntry_eq {path : PathBuf} {search : ManifestSearch} {entry : OsString × FileTree}
    (hname : PlainName entry.1) : visitEntry path search (.ok entry) = .ok (visited path search entry) := by
  obtain ⟨name, tree⟩ := entry
  have hfile : fileName (components (joinPath path name)) = some name := by
    rw [components_joinPath hname, fileName, List.getLast?_append]
    rfl
  simp only [visitEntry, visited, hfile, Option.some.injEq, apply_ite Except.ok]
  rfl

theorem visitEntries_eq {path : PathBuf} {search : ManifestSearch} {entries : List (OsString × FileTree)}
    (hnames : ∀ entry ∈ entries, PlainName entry.1) :
    (entries.map Except.ok).foldlM (visitEntry path) search = .ok (entries.foldl (visited path) search) := by
  induction entries generalizing search with
  | nil => rfl
  | cons entry rest ih =>
    obtain ⟨hname, hrest⟩ := List.forall_mem_cons.mp hnames
    exact foldlM_cons_eq_ok.mpr ⟨_, visitEntry_eq hname, ih hrest⟩

theorem found_visited (path : PathBuf) (search : ManifestSearch) (entry : OsString × FileTree) :
    (visited path search entry).found.Perm (search.found ++ entryManifests path entry) := by
  unfold visited entryManifests ManifestSearch.found
  by_cases hdir : entry.2.isDir = true
  · simp only [if_pos hdir, List.flatMap_cons, List.append_assoc]
    exact List.Perm.append_left _ List.perm_append_comm
  · simp only [if_neg hdir]
    by_cases hname : entry.1 = cargoToml
    · simp only [if_pos hname, List.append_assoc]
      exact List.Perm.append_left _ List.perm_append_comm
    · simp only [if_neg hname, List.append_nil]
      exact .refl _

theorem found_foldl_visited (path : PathBuf) (search : ManifestSearch) (entries : List (OsString × FileTree)) :
    (entries.foldl (visited path) search).found.Perm (search.found ++ entries.flatMap (entryManifests path)) := by
  induction entries generalizing search with
  | nil => simp
  | cons entry rest ih =>
    rw [List.foldl_cons, List.flatMap_cons, ← List.append_assoc]
    exact (ih _).trans ((found_visited path search entry).append_right _)

/-- A round of the search adds the subdirectories of the directory that it visits. -/
theorem mem_pending_foldl {path : PathBuf} {search : ManifestSearch} {entries : List (OsString × FileTree)}
    {directory : PathBuf × FileTree} : directory ∈ (entries.foldl (visited path) search).pending ↔
      directory ∈ search.pending ∨
        ∃ entry ∈ entries, entry.2.isDir = true ∧ directory = (joinPath path entry.1, entry.2) := by
  induction entries generalizing search with
  | nil => simp
  | cons entry rest ih =>
    have hstep : directory ∈ (visited path search entry).pending ↔
        directory ∈ search.pending ∨ (entry.2.isDir = true ∧ directory = (joinPath path entry.1, entry.2)) := by
      unfold visited
      split
      · rename_i hdir
        simp [hdir, or_comm]
      · rename_i hdir
        split <;> simp [hdir]
    rw [List.foldl_cons, ih, hstep, or_assoc, List.exists_mem_cons_iff]

/-- A round of the search moves manifests from the stack to the result, and loses none. -/
theorem found_visitDirectory {search next : ManifestSearch} {path : PathBuf} {tree : FileTree}
    {pending : List (PathBuf × FileTree)} (hpending : search.pending = (path, tree) :: pending)
    (hwell : ∀ directory ∈ search.pending, directory.2.WellFormed)
    (hvisit : visitDirectory path tree { search with pending } = .ok next) :
    next.found.Perm search.found ∧ ∀ directory ∈ next.pending, directory.2.WellFormed := by
  obtain ⟨entries, rfl, hentries⟩ := visitDirectory_eq_ok.mp hvisit
  rw [hpending, List.forall_mem_cons] at hwell
  obtain ⟨hroot, hrest⟩ := hwell
  cases hroot with
  | dir distinct names children =>
    cases (visitEntries_eq names).symm.trans hentries
    constructor
    · refine (found_foldl_visited path _ entries).trans ?_
      simp only [ManifestSearch.found, hpending, List.flatMap_cons, manifestsBelow_dir, List.append_assoc]
      exact List.Perm.append_left _ List.perm_append_comm
    · intro directory hmem
      rcases mem_pending_foldl.mp hmem with hmem | ⟨entry, hentry, -, rfl⟩
      · exact hrest directory hmem
      · exact children entry hentry

theorem perm_findCargoTomlsFrom {search : ManifestSearch} {manifests : List PathBuf}
    (hwell : ∀ directory ∈ search.pending, directory.2.WellFormed)
    (h : findCargoTomlsFrom search = .ok manifests) : manifests.Perm search.found := by
  induction search using findCargoTomlsFrom.induct with
  | case1 search hpending =>
    rw [findCargoTomlsFrom_nil hpending] at h
    cases h
    simp [ManifestSearch.found, hpending]
  | case2 search path tree pending hpending error hvisit =>
    rw [findCargoTomlsFrom] at h
    split at h
    · rename_i hnil
      rw [hpending] at hnil
      cases hnil
    · rename_i hcons
      cases hpending.symm.trans hcons
      split at h
      · cases h
      · rename_i hnext
        cases hvisit.symm.trans hnext
  | case3 search path tree pending hpending next hvisit ih =>
    rw [findCargoTomlsFrom_cons hpending hvisit] at h
    obtain ⟨hfound, hnext⟩ := found_visitDirectory hpending hwell hvisit
    exact (ih hnext h).trans hfound

/-- A round of the search succeeds on a directory that can be read, and leads to directories that can be read. -/
theorem visitDirectory_ok {search : ManifestSearch} {path : PathBuf} {tree : FileTree}
    {pending : List (PathBuf × FileTree)} (hpending : search.pending = (path, tree) :: pending)
    (hwell : ∀ directory ∈ search.pending, directory.2.WellFormed)
    (hread : ∀ directory ∈ search.pending, directory.2.isDir = true ∧ directory.2.Readable) :
    ∃ next, visitDirectory path tree { search with pending } = .ok next ∧
      ∀ directory ∈ next.pending, directory.2.isDir = true ∧ directory.2.Readable := by
  rw [hpending, List.forall_mem_cons] at hread hwell
  obtain ⟨⟨hdir, hroot⟩, hrest⟩ := hread
  cases hroot with
  | leaf kind => cases hdir
  | dir children =>
    cases hwell.1 with
    | dir distinct names _ =>
      refine ⟨_, visitDirectory_eq_ok.mpr ⟨_, rfl, visitEntries_eq names⟩, fun directory hmem => ?_⟩
      rcases mem_pending_foldl.mp hmem with hmem | ⟨entry, hentry, hsub, rfl⟩
      · exact hrest directory hmem
      · exact ⟨hsub, children entry hentry⟩

theorem findCargoTomlsFrom_ok {search : ManifestSearch}
    (hwell : ∀ directory ∈ search.pending, directory.2.WellFormed)
    (hread : ∀ directory ∈ search.pending, directory.2.isDir = true ∧ directory.2.Readable) :
    ∃ manifests, findCargoTomlsFrom search = .ok manifests := by
  induction search using findCargoTomlsFrom.induct with
  | case1 search hpending => exact ⟨_, findCargoTomlsFrom_nil hpending⟩
  | case2 search path tree pending hpending error hvisit =>
    obtain ⟨next, hnext, -⟩ := visitDirectory_ok hpending hwell hread
    cases hvisit.symm.trans hnext
  | case3 search path tree pending hpending next hvisit ih =>
    obtain ⟨next', hnext, hread'⟩ := visitDirectory_ok hpending hwell hread
    cases hvisit.symm.trans hnext
    rw [findCargoTomlsFrom_cons hpending hvisit]
    exact ih (found_visitDirectory hpending hwell hvisit).2 hread'

/-- The search has found the manifests below a directory, each once, and nothing else. -/
structure FindsEach (root : PathBuf) (tree : FileTree) (manifests : List PathBuf) : Prop where
  once : ∀ names : List OsString, tree.lookup (names.map .normal) = some (.leaf .file) →
    names.getLast? = some cargoToml → (manifests.map components).count (components root ++ names.map .normal) = 1
  only : ∀ manifest ∈ manifests, ∃ (names : List OsString) (kind : LeafKind),
    tree.lookup (names.map .normal) = some (.leaf kind) ∧ names.getLast? = some cargoToml ∧
      components manifest = components root ++ names.map .normal

theorem findsEach_findCargoTomls {root : PathBuf} {tree : FileTree} {manifests : List PathBuf}
    (hwell : tree.WellFormed) (h : findCargoTomls root tree = .ok manifests) : FindsEach root tree manifests := by
  have hfound : manifests.Perm (manifestsBelow root tree) := by
    have hpending : ∀ directory ∈ [(root, tree)], directory.2.WellFormed := List.forall_mem_singleton.mpr hwell
    simpa [ManifestSearch.found] using perm_findCargoTomlsFrom hpending h
  constructor
  · intro names hfile hlast
    rw [(hfound.map components).count_eq]
    have hmem : names.foldl joinPath root ∈ manifestsBelow root tree :=
      (mem_manifestsBelow hwell).mpr ⟨names, .file, hfile, hlast, rfl⟩
    rw [← components_foldl_joinPath (hwell.plainName_of_lookup hfile) root]
    exact List.count_eq_one_of_mem (nodup_manifestsBelow hwell root) (List.mem_map_of_mem hmem)
  · intro manifest hmem
    obtain ⟨names, kind, hleaf, hlast, rfl⟩ := (mem_manifestsBelow hwell).mp (hfound.mem_iff.mp hmem)
    exact ⟨names, kind, hleaf, hlast, components_foldl_joinPath (hwell.plainName_of_lookup hleaf) root⟩

theorem findCargoTomls_ok {root : PathBuf} {tree : FileTree} (hwell : tree.WellFormed) (hdir : tree.isDir = true)
    (hread : tree.Readable) : ∃ manifests, findCargoTomls root tree = .ok manifests := by
  have hpending : ∀ directory ∈ [(root, tree)], directory.2.WellFormed := List.forall_mem_singleton.mpr hwell
  have hlisted : ∀ directory ∈ [(root, tree)], directory.2.isDir = true ∧ directory.2.Readable :=
    List.forall_mem_singleton.mpr ⟨hdir, hread⟩
  exact findCargoTomlsFrom_ok hpending hlisted

end Fabric.Catalog
