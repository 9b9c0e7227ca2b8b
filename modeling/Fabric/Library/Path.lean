import Fabric.Library.Rust
import Mathlib.Data.List.Nodup

/-! Paths of a Unix system as `std::path` reads them, and the directory trees that they lead into. -/

namespace Rust

/-- A unit of an OS string, decoded: a character, or a maximal byte sequence that is not UTF-8. -/
inductive OsUnit where
  | char (c : Char)
  | illFormed (bytes : Bytes)
  deriving DecidableEq, Repr

abbrev OsString := List OsUnit

def osString (s : String) : OsString := s.toList.map .char

def replacementCharacter : Char := Char.ofNat 0xFFFD

def OsUnit.lossy : OsUnit → Char
  | .char c => c
  | .illFormed _ => replacementCharacter

def OsUnit.isChar : OsUnit → Bool
  | .char _ => true
  | .illFormed _ => false

/-- `OsStr::to_str` succeeds. -/
def isUtf8 (s : OsString) : Bool := s.all OsUnit.isChar

/-- `OsStr::to_string_lossy`, and what `Path::display` shows. -/
def toStringLossy (s : OsString) : String := String.ofList (s.map OsUnit.lossy)

/-- `OsString::into_string`, where it succeeds. -/
def intoString (s : OsString) : Option String := if isUtf8 s then some (toStringLossy s) else none

abbrev PathBuf := OsString

inductive Component where
  | rootDir
  | curDir
  | parentDir
  | normal (name : OsString)
  deriving DecidableEq, Repr

def separator : OsUnit := .char '/'

def segmentComponent (segment : OsString) : Option Component :=
  if segment = [] ∨ segment = osString "." then none
  else if segment = osString ".." then some .parentDir
  else some (.normal segment)

/-- `Path::components`: empty segments are dropped, and so is `.` but at the start of a relative path. -/
def components (path : PathBuf) : List Component :=
  let segments := path.splitOn separator
  let front := if path.head? = some separator then [.rootDir]
    else if segments.head? = some (osString ".") then [.curDir]
    else []
  front ++ segments.filterMap segmentComponent

/-- `Path::parent`. The callers go on with the components only. -/
def parent (path : List Component) : Option (List Component) :=
  match path.getLast? with
  | none => none
  | some .rootDir => none
  | some _ => some path.dropLast

/-- `Path::strip_prefix`. -/
def stripPrefix (path base : List Component) : Option (List Component) :=
  if base.isPrefixOf path then some (path.drop base.length) else none

/-- `Path::file_name`. -/
def fileName (path : List Component) : Option OsString :=
  match path.getLast? with
  | some (.normal name) => some name
  | _ => none

/-- `Path::join`. -/
def joinPath (path child : PathBuf) : PathBuf :=
  if child.head? = some separator then child
  else if path.isEmpty || path.getLast? = some separator then path ++ child
  else path ++ separator :: child

/-! ### Directory trees -/

inductive LeafKind where
  | file
  /-- A socket, a pipe or a device. -/
  | special
  /-- A symbolic link that leads nowhere. -/
  | dangling
  deriving DecidableEq, Repr

/-- How the listing of a directory ends. -/
inductive Listing where
  | complete
  | denied (error : String)
  | cut (count : Nat) (error : String)
  deriving DecidableEq, Repr

/-- A directory tree as a process sees it, symbolic links followed. -/
inductive FileTree where
  | leaf (kind : LeafKind)
  | dir (entries : List (OsString × FileTree)) (listing : Listing)

namespace FileTree

/-- `Path::is_dir`. -/
def isDir : FileTree → Bool
  | leaf _ => false
  | dir _ _ => true

/-- `Path::is_file`. -/
def isFile : FileTree → Bool
  | leaf .file => true
  | _ => false

/-- `Path::exists`. -/
def pathExists : FileTree → Bool
  | leaf .dangling => false
  | _ => true

/-- What a relative path below the tree leads to. -/
def lookup : List Component → FileTree → Option FileTree
  | [], tree => some tree
  | .curDir :: rest, tree => lookup rest tree
  | .normal name :: rest, dir entries _ => (entries.find? (·.1 == name)).bind fun entry => lookup rest entry.2
  | _ :: _, _ => none

/-- `fs::read_dir`, and what the iteration over its result yields. -/
def readDir : FileTree → Except String (List (Except String (OsString × FileTree)))
  | leaf _ => .error "Not a directory (os error 20)"
  | dir _ (.denied error) => .error error
  | dir entries .complete => .ok (entries.map .ok)
  | dir entries (.cut count error) => .ok ((entries.take count).map .ok ++ [.error error])

end FileTree

/-! ### Components -/

/-- A name that a directory can list. -/
structure PlainName (name : OsString) : Prop where
  nonempty : name ≠ []
  notDot : name ≠ osString "."
  notDots : name ≠ osString ".."
  noSeparator : separator ∉ name

instance (name : OsString) : Decidable (PlainName name) :=
  decidable_of_iff (name ≠ [] ∧ name ≠ osString "." ∧ name ≠ osString ".." ∧ separator ∉ name)
    ⟨fun ⟨hne, hdot, hdots, hslash⟩ => ⟨hne, hdot, hdots, hslash⟩, fun ⟨hne, hdot, hdots, hslash⟩ =>
      ⟨hne, hdot, hdots, hslash⟩⟩

theorem normal_of_mem_components {path : PathBuf} {name : OsString} (h : .normal name ∈ components path) :
    PlainName name := by
  simp only [components] at h
  have hmem : .normal name ∈ (path.splitOn separator).filterMap segmentComponent := by
    rcases List.mem_append.mp h with h | h
    · split at h
      · simp at h
      · split at h <;> simp at h
    · exact h
  obtain ⟨segment, hsegment, hname⟩ := List.mem_filterMap.mp hmem
  unfold segmentComponent at hname
  split at hname
  · cases hname
  · rename_i hdot
    split at hname
    · cases hname
    · rename_i hdots
      cases hname
      rw [not_or] at hdot
      exact ⟨hdot.1, hdot.2, hdots, not_mem_of_mem_splitOn hsegment⟩

theorem PlainName.segmentComponent_eq {name : OsString} (h : PlainName name) :
    segmentComponent name = some (.normal name) := by
  rw [segmentComponent, if_neg (not_or.mpr ⟨h.nonempty, h.notDot⟩), if_neg h.notDots]

theorem PlainName.head?_ne {name : OsString} (h : PlainName name) : name.head? ≠ some separator := fun hhead =>
  h.noSeparator (List.mem_of_head? hhead)

theorem components_append_separator {path tail : OsString} (hpath : path ≠ []) (htail : separator ∉ tail) :
    components (path ++ separator :: tail) = components path ++ (segmentComponent tail).toList := by
  obtain ⟨first, rest, hsplit⟩ := List.exists_cons_of_ne_nil (List.splitOn_ne_nil separator path)
  have hhead : (path ++ separator :: tail).head? = path.head? := by
    rw [List.head?_append_of_ne_nil _ hpath]
  simp only [components, hhead, List.splitOn_append_cons_self, List.splitOn_eq_singleton htail, hsplit,
    List.cons_append, List.head?_cons, List.append_assoc]
  rw [← List.cons_append, List.filterMap_append]
  cases hname : segmentComponent tail <;> simp [hname]

/-- A path below a directory has the components of the directory and its own name. -/
theorem components_joinPath {name : OsString} (h : PlainName name) (path : PathBuf) :
    components (joinPath path name) = components path ++ [.normal name] := by
  have hrooted : components (separator :: name) = [.rootDir, .normal name] := by
    have hsplit : (separator :: name).splitOn separator = [[], name] := by
      have hcons := List.splitOn_append_cons_self (a := separator) [] name
      rwa [List.nil_append, List.splitOn_eq_singleton h.noSeparator] at hcons
    have hempty : segmentComponent [] = none := rfl
    simp [components, hsplit, h.segmentComponent_eq, hempty]
  rw [joinPath, if_neg h.head?_ne]
  rcases List.eq_nil_or_concat path with rfl | ⟨init, last, rfl⟩
  · have hbare : components name = [.normal name] := by
      simp [components, h.head?_ne, List.splitOn_eq_singleton h.noSeparator, h.notDot, h.segmentComponent_eq]
    exact hbare
  · rw [List.concat_eq_append]
    by_cases hlast : last = separator
    · subst hlast
      rw [if_pos (by simp), List.append_assoc, List.singleton_append]
      rcases List.eq_nil_or_concat init with rfl | ⟨front, back, rfl⟩
      · exact hrooted
      · rw [components_append_separator (by simp) h.noSeparator, components_append_separator (by simp) List.not_mem_nil,
          h.segmentComponent_eq, List.append_assoc]
        rfl
    · rw [if_neg (by simp [hlast]), components_append_separator (by simp) h.noSeparator, h.segmentComponent_eq]
      rfl

theorem stripPrefix_eq_some {path base rest : List Component} :
    stripPrefix path base = some rest ↔ path = base ++ rest := by
  unfold stripPrefix
  split
  · rename_i hprefix
    obtain ⟨t, rfl⟩ := List.isPrefixOf_iff_prefix.mp hprefix
    simp [eq_comm]
  · rename_i hprefix
    constructor
    · intro h
      cases h
    · rintro rfl
      exact absurd (List.isPrefixOf_iff_prefix.mpr (List.prefix_append base rest)) hprefix

theorem parent_mem {path dir : List Component} (h : parent path = some dir) {component : Component}
    (hc : component ∈ dir) : component ∈ path := by
  unfold parent at h
  split at h
  · cases h
  · cases h
  · cases h
    exact List.dropLast_subset path hc

/-! ### Trees -/

namespace FileTree

/-- A directory lists each of its names once, and none of them is a path of its own. -/
inductive WellFormed : FileTree → Prop where
  | leaf (kind : LeafKind) : WellFormed (leaf kind)
  | dir {entries : List (OsString × FileTree)} {listing : Listing} (distinct : (entries.map (·.1)).Nodup)
      (names : ∀ entry ∈ entries, PlainName entry.1) (children : ∀ entry ∈ entries, WellFormed entry.2) :
      WellFormed (dir entries listing)

/-- Every directory can be listed to its end. -/
inductive Readable : FileTree → Prop where
  | leaf (kind : LeafKind) : Readable (leaf kind)
  | dir {entries : List (OsString × FileTree)} (children : ∀ entry ∈ entries, Readable entry.2) :
      Readable (dir entries .complete)

theorem WellFormed.lookup_cons {entries : List (OsString × FileTree)} {listing : Listing}
    (h : (FileTree.dir entries listing).WellFormed) {name : OsString} {rest : List Component} {found : FileTree} :
    (FileTree.dir entries listing).lookup (.normal name :: rest) = some found ↔
      ∃ child, (name, child) ∈ entries ∧ child.lookup rest = some found := by
  have hdistinct : (entries.map (·.1)).Nodup := by
    cases h with
    | dir distinct names children => exact distinct
  rw [lookup, Option.bind_eq_some_iff]
  constructor
  · rintro ⟨⟨name', child⟩, hfind, hfound⟩
    have hname := List.find?_some hfind
    rw [beq_iff_eq] at hname
    subst hname
    exact ⟨child, List.mem_of_find?_eq_some hfind, hfound⟩
  · rintro ⟨child, hmem, hfound⟩
    refine ⟨(name, child), ?_, hfound⟩
    cases hfind : entries.find? (·.1 == name) with
    | none => simpa using List.find?_eq_none.mp hfind _ hmem
    | some entry =>
      have hname := List.find?_some hfind
      rw [beq_iff_eq] at hname
      rw [List.inj_on_of_nodup_map hdistinct (List.mem_of_find?_eq_some hfind) hmem hname]

theorem lookup_leaf_eq_some {kind : LeafKind} {names : List OsString} {found : FileTree} :
    (leaf kind).lookup (names.map .normal) = some found ↔ names = [] ∧ found = leaf kind := by
  cases names with
  | nil => simp [lookup, eq_comm]
  | cons name rest => simp [lookup]

theorem lookup_append (front rest : List Component) (tree : FileTree) (hfront : .curDir ∉ front) :
    tree.lookup (front ++ rest) = (tree.lookup front).bind (lookup rest) := by
  induction front generalizing tree with
  | nil => rw [List.nil_append, lookup, Option.bind_some]
  | cons component front ih =>
    rw [List.mem_cons, not_or] at hfront
    cases component with
    | curDir => exact absurd rfl hfront.1
    | rootDir => cases tree <;> rfl
    | parentDir => cases tree <;> rfl
    | normal name =>
      cases tree with
      | leaf kind => rfl
      | dir entries listing =>
        rw [List.cons_append, lookup, lookup, Option.bind_assoc]
        exact congrArg _ (funext fun entry => ih entry.2 hfront.2)

theorem lookup_normal_eq_some {name : OsString} {rest : List Component} {tree found : FileTree} :
    tree.lookup (.normal name :: rest) = some found ↔
      ∃ below, tree.lookup [.normal name] = some below ∧ below.lookup rest = some found := by
  have hname : Component.curDir ∉ [Component.normal name] := by simp
  rw [← List.singleton_append, lookup_append _ _ _ hname, Option.bind_eq_some_iff]

/-- What is looked up in a well-formed tree is well-formed. -/
theorem WellFormed.of_lookup {tree : FileTree} (h : tree.WellFormed) {names : List OsString} {found : FileTree}
    (hfound : tree.lookup (names.map .normal) = some found) : found.WellFormed := by
  induction h generalizing names with
  | leaf kind =>
    obtain ⟨-, rfl⟩ := lookup_leaf_eq_some.mp hfound
    exact .leaf kind
  | dir distinct hnames children ih =>
    cases names with
    | nil =>
      cases hfound
      exact .dir distinct hnames children
    | cons name rest =>
      obtain ⟨child, hmem, hchild⟩ := (WellFormed.dir distinct hnames children).lookup_cons.mp hfound
      exact ih _ hmem hchild

/-- What is looked up in a well-formed tree is named by plain names. -/
theorem WellFormed.plainName_of_lookup {tree : FileTree} (h : tree.WellFormed) {names : List OsString}
    {found : FileTree} (hfound : tree.lookup (names.map .normal) = some found) : ∀ name ∈ names, PlainName name := by
  induction h generalizing names with
  | leaf kind =>
    obtain ⟨rfl, -⟩ := lookup_leaf_eq_some.mp hfound
    simp
  | dir distinct hnames children ih =>
    cases names with
    | nil => simp
    | cons name rest =>
      obtain ⟨child, hmem, hchild⟩ := (WellFormed.dir distinct hnames children).lookup_cons.mp hfound
      exact List.forall_mem_cons.mpr ⟨hnames _ hmem, ih _ hmem hchild⟩

end FileTree

/-- The path that leads from a directory along names. -/
theorem components_foldl_joinPath {names : List OsString} (h : ∀ name ∈ names, PlainName name) (path : PathBuf) :
    components (names.foldl joinPath path) = components path ++ names.map .normal := by
  induction names generalizing path with
  | nil => simp
  | cons name rest ih =>
    obtain ⟨hname, hrest⟩ := List.forall_mem_cons.mp h
    rw [List.foldl_cons, ih hrest, components_joinPath hname, List.map_cons, List.append_assoc,
      List.singleton_append]

/-! ### Lossy strings -/

theorem eq_osString_of_toStringLossy {s : OsString} {t : String} (ht : replacementCharacter ∉ t.toList)
    (h : toStringLossy s = t) : s = osString t := by
  subst h
  rw [toStringLossy, String.toList_ofList] at ht
  rw [osString, toStringLossy, String.toList_ofList, List.map_map]
  refine (List.map_id s).symm.trans (List.map_congr_left fun u hu => ?_)
  cases u with
  | char c => rfl
  | illFormed bytes => exact absurd (List.mem_map.mpr ⟨_, hu, rfl⟩) ht

theorem mem_toStringLossy {s : OsString} {c : Char} (hne : c ≠ replacementCharacter)
    (h : c ∈ (toStringLossy s).toList) : .char c ∈ s := by
  rw [toStringLossy, String.toList_ofList] at h
  obtain ⟨u, hu, hc⟩ := List.mem_map.mp h
  cases u with
  | char d => exact hc ▸ hu
  | illFormed bytes => exact absurd hc.symm hne

/-- A plain name stays a name of its own when it is made a string. -/
theorem PlainName.lossy {name : OsString} (h : PlainName name) :
    toStringLossy name ≠ "" ∧ toStringLossy name ≠ "." ∧ toStringLossy name ≠ ".." ∧
      '/' ∉ (toStringLossy name).toList :=
  ⟨fun he => h.nonempty (eq_osString_of_toStringLossy (by decide) he),
    fun he => h.notDot (eq_osString_of_toStringLossy (by decide) he),
    fun he => h.notDots (eq_osString_of_toStringLossy (by decide) he),
    fun hc => h.noSeparator (mem_toStringLossy (by decide) hc)⟩

/-! ### Strings as paths -/

@[simp] theorem toStringLossy_osString (s : String) : toStringLossy (osString s) = s := by
  simp [toStringLossy, osString, Function.comp_def, OsUnit.lossy]

theorem isUtf8_iff {name : OsString} : isUtf8 name = true ↔ ∃ s, name = osString s := by
  rw [isUtf8, List.all_eq_true]
  constructor
  · intro h
    refine ⟨toStringLossy name, ?_⟩
    rw [osString, toStringLossy, String.toList_ofList, List.map_map]
    refine (List.map_id name).symm.trans (List.map_congr_left fun u hu => ?_)
    cases u with
    | char c => rfl
    | illFormed bytes => cases h _ hu
  · rintro ⟨s, rfl⟩ u hu
    obtain ⟨c, -, rfl⟩ := List.mem_map.mp hu
    rfl

theorem intoString_eq_some {s : OsString} {t : String} : intoString s = some t ↔ s = osString t := by
  rw [intoString]
  constructor
  · intro h
    split at h
    · rename_i hutf8
      obtain ⟨t', rfl⟩ := isUtf8_iff.mp hutf8
      rw [toStringLossy_osString] at h
      rw [Option.some.inj h]
    · cases h
  · rintro rfl
    rw [if_pos (isUtf8_iff.mpr ⟨t, rfl⟩), toStringLossy_osString]

theorem mapM_intoString {l : List OsString} {words : List String} :
    l.mapM intoString = some words ↔ l = words.map osString := by
  induction l generalizing words with
  | nil => simp [eq_comm]
  | cons s rest ih =>
    rw [List.mapM_cons]
    constructor
    · intro h
      obtain ⟨word, hword, h⟩ := Option.bind_eq_some_iff.mp h
      obtain ⟨later, hlater, h⟩ := Option.bind_eq_some_iff.mp h
      obtain rfl := Option.some.inj h
      rw [intoString_eq_some.mp hword, ih.mp hlater, List.map_cons]
    · intro h
      rcases words with _ | ⟨word, later⟩
      · cases h
      · obtain ⟨hword, hlater⟩ := List.cons.inj h
        rw [intoString_eq_some.mpr hword, ih.mpr hlater]
        rfl

theorem exists_of_mapM_intoString {l : List OsString} (h : l.mapM intoString = none) :
    ∃ s ∈ l, ∀ word, s ≠ osString word := by
  by_contra! hall
  have hwords : ∀ s ∈ l, s = osString (toStringLossy s) := fun s hs => by
    obtain ⟨word, rfl⟩ := hall s hs
    rw [toStringLossy_osString]
  have hsome := mapM_intoString.mpr (show l = (l.map toStringLossy).map osString by
    rw [List.map_map]
    exact (List.map_id l).symm.trans (List.map_congr_left hwords))
  rw [h] at hsome
  cases hsome

theorem osString_injective : Function.Injective osString :=
  Function.LeftInverse.injective toStringLossy_osString

theorem splitOn_map {α β : Type} [BEq α] [LawfulBEq α] [BEq β] [LawfulBEq β] {f : α → β}
    (hf : Function.Injective f) (a : α) (l : List α) :
    (l.map f).splitOn (f a) = (l.splitOn a).map (List.map f) := by
  induction l with
  | nil => simp
  | cons x l ih =>
    rw [List.map_cons, List.splitOn_cons_eq_if_modifyHead, List.splitOn_cons_eq_if_modifyHead, ih]
    by_cases hx : x = a
    · simp only [hx, beq_self_eq_true, if_true]
      rfl
    · have hfx : f x ≠ f a := fun h => hx (hf h)
      rw [if_neg (mt beq_iff_eq.mp hfx), if_neg (mt beq_iff_eq.mp hx)]
      cases l.splitOn a <;> rfl

theorem splitOn_osString (s : String) : (osString s).splitOn separator = (split s '/').map osString := by
  have hchar : Function.Injective OsUnit.char := fun _ _ h => OsUnit.char.inj h
  rw [osString, separator, splitOn_map hchar, split, List.map_map]
  exact List.map_congr_left fun piece _ => by rw [Function.comp_apply, osString, String.toList_ofList]

theorem mem_osString {c : Char} {s : String} : .char c ∈ osString s ↔ c ∈ s.toList :=
  List.mem_map_of_injective fun _ _ h => OsUnit.char.inj h

theorem plainName_osString {s : String} (h : s ≠ "" ∧ s ≠ "." ∧ s ≠ "..") (hslash : '/' ∉ s.toList) :
    PlainName (osString s) where
  nonempty he := h.1 (osString_injective he)
  notDot he := h.2.1 (osString_injective he)
  notDots he := h.2.2 (osString_injective he)
  noSeparator hmem := hslash (mem_osString.mp hmem)

/-- A string is the path of its pieces, when they are names. -/
theorem components_osString {s : String} (h : ∀ piece ∈ split s '/', piece ≠ "" ∧ piece ≠ "." ∧ piece ≠ "..") :
    components (osString s) = (split s '/').map fun piece => .normal (osString piece) := by
  have hrelative : (osString s).head? ≠ some separator := by
    intro hhead
    have hstart : startsWith s '/' = true := by
      rw [osString, List.head?_map, Option.map_eq_some_iff] at hhead
      obtain ⟨c, hc, hslash⟩ := hhead
      rw [startsWith, hc, OsUnit.char.inj hslash, beq_self_eq_true]
    exact (h "" (empty_mem_split_of_startsWith hstart)).1 rfl
  have hnoDot : ((split s '/').map osString).head? ≠ some (osString ".") := by
    intro hhead
    rw [List.head?_map, Option.map_eq_some_iff] at hhead
    obtain ⟨piece, hpiece, hdot⟩ := hhead
    exact (h piece (List.mem_of_head? hpiece)).2.1 (osString_injective hdot)
  have hnames : ∀ piece ∈ split s '/', segmentComponent (osString piece) = some (.normal (osString piece)) :=
    fun piece hp => (plainName_osString (h piece hp) (not_mem_of_mem_split hp)).segmentComponent_eq
  simp only [components, splitOn_osString, if_neg hrelative, if_neg hnoDot, List.nil_append, List.filterMap_map]
  rw [← List.filterMap_eq_map]
  exact List.filterMap_congr hnames

end Rust
