import Fabric.Catalog.Query
import Fabric.Theorems.Catalog.Canonical

set_option linter.dupNamespace false

/-! Queries over an accepted catalog are exact: lookups find the one artifact, and the dependents of a path are the
    dependencies on it. -/

namespace Fabric.Catalog
open Rust
open Std (TreeMap)

/-! ### Positions -/

section
variable {α : Type} {key : α → String}

/-- What a loop that inserts the position of each item under its key has collected. -/
theorem getElem?_positions {items : List α} {positions : TreeMap String Nat} {n : Nat} (hnodup : (items.map key).Nodup)
    {k : String} {i : Nat} :
    ((items.zipIdx n).foldl (fun positions (item, position) => positions.insert (key item) position) positions)[k]? =
        some i ↔
      (∃ item, (item, i) ∈ items.zipIdx n ∧ key item = k) ∨ (k ∉ items.map key ∧ positions[k]? = some i) := by
  induction items generalizing positions n with
  | nil => simp
  | cons item rest ih =>
    obtain ⟨hnew, hrest⟩ := List.nodup_cons.mp hnodup
    rw [List.zipIdx_cons, List.foldl_cons, ih hrest, TreeMap.getElem?_insert]
    by_cases hk : key item = k
    · subst hk
      have hnone : ∀ item', (item', i) ∈ rest.zipIdx (n + 1) → key item' ≠ key item := fun item' hmem heq =>
        hnew (heq ▸ List.mem_map_of_mem (List.fst_mem_of_mem_zipIdx hmem))
      simp only [Std.compare_self, if_pos, Option.some.injEq, List.map_cons, List.mem_cons, true_or, not_true,
        false_and, or_false]
      constructor
      · rintro (⟨item', hmem, heq⟩ | ⟨-, rfl⟩)
        · exact absurd heq (hnone item' hmem)
        · exact ⟨item, Or.inl rfl, rfl⟩
      · rintro ⟨item', hmem | hmem, heq⟩
        · cases hmem
          exact Or.inr ⟨hnew, rfl⟩
        · exact absurd heq (hnone item' hmem)
    · have hcompare : compare (key item) k ≠ .eq := fun h => hk (Std.compare_eq_iff_eq.mp h)
      rw [if_neg hcompare, List.map_cons, List.mem_cons, not_or]
      constructor
      · rintro (⟨item', hmem, heq⟩ | ⟨hk', hsome⟩)
        · exact Or.inl ⟨item', List.mem_cons_of_mem _ hmem, heq⟩
        · exact Or.inr ⟨⟨Ne.symm hk, hk'⟩, hsome⟩
      · rintro (⟨item', hmem, heq⟩ | ⟨⟨-, hk'⟩, hsome⟩)
        · rcases List.mem_cons.mp hmem with h | hmem
          · cases h
            exact absurd heq hk
          · exact Or.inl ⟨item', hmem, heq⟩
        · exact Or.inr ⟨hk', hsome⟩

theorem getElem?_index {items : List α} (hnodup : (items.map key).Nodup) {k : String} {i : Nat} :
    (items.zipIdx.foldl (fun positions (item, position) => positions.insert (key item) position)
        (∅ : TreeMap String Nat))[k]? = some i ↔ ∃ item, items[i]? = some item ∧ key item = k := by
  rw [getElem?_positions hnodup]
  simp [List.mem_zipIdx_iff_getElem?]

end

/-! ### Exact queries -/

/-- A lookup by `key` finds the one artifact with that key, and returns its error when there is none. -/
structure ExactLookup (artifacts : List CatalogArtifact) (lookup : String → Except QueryFault CatalogArtifact)
    (key : CatalogArtifact → String) (notFound : String → CatalogError) : Prop where
  unique : (artifacts.map key).Nodup
  found : ∀ k artifact, lookup k = .ok artifact ↔ artifact ∈ artifacts ∧ key artifact = k
  absent : ∀ k fault, lookup k = .error fault ↔ k ∉ artifacts.map key ∧ fault = .error (notFound k)

/-- The order of the dependents of a path: by artifact path, then by kind, and no two alike. -/
def CargoDependent.Lt (left right : CargoDependent) : Prop :=
  left.artifact.path < right.artifact.path ∨
    (left.artifact.path = right.artifact.path ∧ left.kind.rank < right.kind.rank)

structure Edge where
  source : String
  kind : DependencyKind
  target : String
  deriving DecidableEq

/-- The edges collected from `direct_dependencies` over all artifacts. -/
def Catalog.forwardEdges (catalog : Catalog) : List Edge :=
  catalog.artifacts.flatMap fun artifact =>
    match catalog.directDependencies artifact.path with
    | .ok dependencies =>
      DependencyKind.all.flatMap fun kind => (kind.dependencies dependencies).map (Edge.mk artifact.path kind)
    | .error _ => []

/-- The edges collected from `direct_dependents` over all paths. -/
def Catalog.reverseEdges (catalog : Catalog) : List Edge :=
  catalog.artifacts.flatMap fun artifact =>
    match catalog.directDependents artifact.path with
    | .ok dependents => dependents.map fun dependent => ⟨dependent.artifact.path, dependent.kind, artifact.path⟩
    | .error _ => []

structure ExactQueries (index : CatalogIndex) (catalog : Catalog) : Prop where
  artifacts : catalog.artifacts = index.artifacts
  byPath : ExactLookup index.artifacts catalog.artifactByPath (·.path) fun path =>
    ⟨"artifact path not found: " ++ path⟩
  byCargoPackage : ExactLookup index.artifacts catalog.artifactByCargoPackage (·.cargoPackage) fun name =>
    ⟨"Cargo package not found: " ++ name⟩
  dependencies : ∀ path dependencies, catalog.directDependencies path = .ok dependencies ↔
    ∃ artifact ∈ index.artifacts, artifact.path = path ∧ artifact.dependencies = dependencies
  dependents_fails : ∀ path fault, catalog.directDependents path = .error fault ↔
    path ∉ index.artifacts.map (·.path) ∧ fault = .error ⟨"artifact path not found: " ++ path⟩
  dependents_sorted : ∀ path dependents, catalog.directDependents path = .ok dependents →
    dependents.Pairwise CargoDependent.Lt
  dependents_mem : ∀ path dependents, catalog.directDependents path = .ok dependents → ∀ artifact kind,
    ⟨artifact, kind⟩ ∈ dependents ↔ artifact ∈ index.artifacts ∧
      ∃ dependencies, catalog.directDependencies artifact.path = .ok dependencies ∧
        path ∈ kind.dependencies dependencies
  dependents_count : ∀ path dependents, catalog.directDependents path = .ok dependents → ∀ dependent ∈ dependents,
    dependents.count dependent = 1
  edges : catalog.forwardEdges.Perm catalog.reverseEdges
  resolved : ∀ edge ∈ catalog.forwardEdges, edge.target ∈ index.artifacts.map (·.path)

section
variable {index : CatalogIndex}

theorem exactLookup_artifactAt (catalog : Catalog) {key : CatalogArtifact → String}
    {notFound : String → CatalogError} {positions : TreeMap String Nat}
    (hunique : (catalog.index.artifacts.map key).Nodup)
    (hpositions : ∀ k i, positions[k]? = some i ↔
      ∃ artifact, catalog.index.artifacts[i]? = some artifact ∧ key artifact = k) :
    ExactLookup catalog.index.artifacts (fun k => catalog.artifactAt positions[k]? (notFound k)) key notFound := by
  have hnone : ∀ k, positions[k]? = none ↔ k ∉ catalog.index.artifacts.map key := by
    intro k
    rw [Option.eq_none_iff_forall_ne_some]
    constructor
    · intro h hk
      obtain ⟨artifact, hmem, hkey⟩ := List.mem_map.mp hk
      obtain ⟨i, hi⟩ := List.mem_iff_getElem?.mp hmem
      exact h i ((hpositions k i).mpr ⟨artifact, hi, hkey⟩)
    · intro hk i hsome
      obtain ⟨artifact, hi, hkey⟩ := (hpositions k i).mp hsome
      exact hk (hkey ▸ List.mem_map_of_mem (List.mem_of_getElem? hi))
  -- A position that a map holds is in range, so the third branch is never taken.
  have hsome : ∀ {k i}, positions[k]? = some i → ∃ artifact ∈ catalog.index.artifacts, key artifact = k ∧
      ∀ error, catalog.artifactAt (some i) error = .ok artifact := by
    intro k i h
    obtain ⟨artifact, hi, hkey⟩ := (hpositions k i).mp h
    exact ⟨artifact, List.mem_of_getElem? hi, hkey, fun error => by simp [Catalog.artifactAt, hi]⟩
  refine ⟨hunique, fun k artifact => ?_, fun k fault => ?_⟩
  · rcases hlookup : positions[k]? with _ | i
    · have habsent := (hnone k).mp hlookup
      refine iff_of_false (by simp [Catalog.artifactAt]) ?_
      rintro ⟨hmem, hkey⟩
      exact habsent (hkey ▸ List.mem_map_of_mem hmem)
    · obtain ⟨found, hfound, hkey, hok⟩ := hsome hlookup
      simp only [hok, Except.ok.injEq]
      constructor
      · rintro rfl
        exact ⟨hfound, hkey⟩
      · rintro ⟨hmem, hkey'⟩
        exact List.inj_on_of_nodup_map hunique hfound hmem (hkey.trans hkey'.symm)
  · rcases hlookup : positions[k]? with _ | i
    · simp [Catalog.artifactAt, (hnone k).mp hlookup, eq_comm (a := fault)]
    · obtain ⟨found, hfound, hkey, hok⟩ := hsome hlookup
      simp only [hok, reduceCtorEq, false_iff]
      rintro ⟨habsent, -⟩
      exact habsent (hkey ▸ List.mem_map_of_mem hfound)

theorem exactLookup_byPath (h : Canonical index) :
    ExactLookup index.artifacts (Catalog.fromValidated index).artifactByPath (·.path) fun path =>
      ⟨"artifact path not found: " ++ path⟩ := by
  have hunique : (index.artifacts.map (·.path)).Nodup := h.paths.imp fun hlt => ne_of_lt hlt
  exact exactLookup_artifactAt (Catalog.fromValidated index) hunique fun _ _ => getElem?_index hunique

theorem exactLookup_byCargoPackage (h : Canonical index) :
    ExactLookup index.artifacts (Catalog.fromValidated index).artifactByCargoPackage (·.cargoPackage) fun name =>
      ⟨"Cargo package not found: " ++ name⟩ :=
  exactLookup_artifactAt (Catalog.fromValidated index) h.packages fun _ _ => getElem?_index h.packages

end

/-! ### Edges -/

section
variable {index : CatalogIndex}

theorem CargoDependent.Lt.le {left right : CargoDependent} (h : left.Lt right) : left.Le right := by
  rcases h with hpath | ⟨hpath, hkind⟩
  · exact .inl hpath
  · exact .inr ⟨hpath, hkind.le⟩

theorem CargoDependent.Lt.ne {left right : CargoDependent} (h : left.Lt right) : left ≠ right := by
  rintro rfl
  rcases h with hpath | ⟨-, hkind⟩
  · exact lt_irrefl _ hpath
  · exact lt_irrefl _ hkind

theorem mem_scanDependents {catalog : Catalog} {path : String} {artifact : CatalogArtifact} {kind : DependencyKind} :
    ⟨artifact, kind⟩ ∈ catalog.scanDependents path ↔
      artifact ∈ catalog.index.artifacts ∧ path ∈ kind.dependencies artifact.dependencies := by
  simp [Catalog.scanDependents, DependencyKind.mem_all]

/-- The nested loop meets artifacts in path order and kinds in their own order. -/
theorem pairwise_scanDependents (h : Canonical index) (path : String) :
    ((Catalog.fromValidated index).scanDependents path).Pairwise CargoDependent.Lt := by
  have hkinds : DependencyKind.all.Pairwise fun left right => left.rank < right.rank := by decide
  rw [Catalog.scanDependents, List.pairwise_flatMap]
  constructor
  · intro artifact _
    rw [List.pairwise_map]
    exact (hkinds.filter _).imp fun hlt => .inr ⟨rfl, hlt⟩
  · refine (List.pairwise_map.mp h.paths).imp fun hlt left hleft right hright => .inl ?_
    obtain ⟨_, -, rfl⟩ := List.mem_map.mp hleft
    obtain ⟨_, -, rfl⟩ := List.mem_map.mp hright
    exact hlt

/-- On an accepted document the sort finds the dependents sorted. -/
theorem directDependents_eq_ok (h : Canonical index) {path : String} {dependents : List CargoDependent} :
    (Catalog.fromValidated index).directDependents path = .ok dependents ↔
      path ∈ index.artifacts.map (·.path) ∧ dependents = (Catalog.fromValidated index).scanDependents path := by
  have hsort := ((pairwise_scanDependents h path).imp CargoDependent.Lt.le).insertionSort_eq
  rw [Catalog.directDependents, bind_eq_ok, hsort]
  constructor
  · rintro ⟨artifact, hlookup, hreturn⟩
    obtain ⟨hmem, hpath⟩ := ((exactLookup_byPath h).found path artifact).mp hlookup
    cases hreturn
    exact ⟨hpath ▸ List.mem_map_of_mem hmem, rfl⟩
  · rintro ⟨hpath, rfl⟩
    obtain ⟨artifact, hmem, hkey⟩ := List.mem_map.mp hpath
    exact ⟨artifact, ((exactLookup_byPath h).found path artifact).mpr ⟨hmem, hkey⟩, rfl⟩

theorem directDependents_eq_error (h : Canonical index) {path : String} {fault : QueryFault} :
    (Catalog.fromValidated index).directDependents path = .error fault ↔
      path ∉ index.artifacts.map (·.path) ∧ fault = .error ⟨"artifact path not found: " ++ path⟩ := by
  rw [← (exactLookup_byPath h).absent, Catalog.directDependents]
  cases (Catalog.fromValidated index).artifactByPath path <;> simp [bind, Except.bind, pure, Except.pure]

theorem directDependencies_eq_ok (h : Canonical index) {path : String} {dependencies : CatalogDependencies} :
    (Catalog.fromValidated index).directDependencies path = .ok dependencies ↔
      ∃ artifact ∈ index.artifacts, artifact.path = path ∧ artifact.dependencies = dependencies := by
  rw [Catalog.directDependencies]
  constructor
  · intro hlookup
    rcases hfound : (Catalog.fromValidated index).artifactByPath path with fault | artifact
    · simp [hfound, Functor.map, Except.map] at hlookup
    · obtain ⟨hmem, hpath⟩ := ((exactLookup_byPath h).found path artifact).mp hfound
      rw [hfound] at hlookup
      cases hlookup
      exact ⟨artifact, hmem, hpath, rfl⟩
  · rintro ⟨artifact, hmem, hpath, rfl⟩
    rw [((exactLookup_byPath h).found path artifact).mpr ⟨hmem, hpath⟩]
    rfl

theorem directDependencies_of_mem (h : Canonical index) {artifact : CatalogArtifact}
    (hmem : artifact ∈ index.artifacts) :
    (Catalog.fromValidated index).directDependencies artifact.path = .ok artifact.dependencies :=
  (directDependencies_eq_ok h).mpr ⟨artifact, hmem, rfl, rfl⟩

theorem directDependents_of_mem (h : Canonical index) {artifact : CatalogArtifact}
    (hmem : artifact ∈ index.artifacts) :
    (Catalog.fromValidated index).directDependents artifact.path =
      .ok ((Catalog.fromValidated index).scanDependents artifact.path) :=
  (directDependents_eq_ok h).mpr ⟨List.mem_map_of_mem hmem, rfl⟩

theorem forwardEdges_eq (h : Canonical index) :
    (Catalog.fromValidated index).forwardEdges = index.artifacts.flatMap fun artifact =>
      DependencyKind.all.flatMap fun kind =>
        (kind.dependencies artifact.dependencies).map (Edge.mk artifact.path kind) := by
  refine List.flatMap_congr fun artifact hmem => ?_
  rw [directDependencies_of_mem h hmem]

theorem reverseEdges_eq (h : Canonical index) :
    (Catalog.fromValidated index).reverseEdges = index.artifacts.flatMap fun artifact =>
      ((Catalog.fromValidated index).scanDependents artifact.path).map fun dependent =>
        ⟨dependent.artifact.path, dependent.kind, artifact.path⟩ := by
  refine List.flatMap_congr fun artifact hmem => ?_
  rw [directDependents_of_mem h hmem]

theorem nodup_forwardEdges (h : Canonical index) : (Catalog.fromValidated index).forwardEdges.Nodup := by
  rw [forwardEdges_eq h, List.nodup_flatMap]
  constructor
  · intro artifact hmem
    rw [List.nodup_flatMap]
    constructor
    · intro kind _
      have hnodup : (kind.dependencies artifact.dependencies).Nodup :=
        (h.sorted artifact hmem kind).imp fun hlt => ne_of_lt hlt
      exact hnodup.map fun _ _ heq => congrArg Edge.target heq
    · have hkinds : DependencyKind.all.Nodup := by decide
      refine hkinds.imp fun hne edge hleft hright => hne ?_
      obtain ⟨_, -, rfl⟩ := List.mem_map.mp hleft
      obtain ⟨_, -, heq⟩ := List.mem_map.mp hright
      exact (congrArg Edge.kind heq).symm
  · refine (List.pairwise_map.mp h.paths).imp fun hlt edge hleft hright => ne_of_lt hlt ?_
    simp only [List.mem_flatMap, List.mem_map] at hleft hright
    obtain ⟨_, -, _, -, rfl⟩ := hleft
    obtain ⟨_, -, _, -, heq⟩ := hright
    exact (congrArg Edge.source heq).symm

/-- Two artifacts on one path are the same artifact, so a dependent is known by the source and the kind of its edge. -/
theorem nodup_reverseEdges (h : Canonical index) : (Catalog.fromValidated index).reverseEdges.Nodup := by
  have hunique := (exactLookup_byPath h).unique
  rw [reverseEdges_eq h, List.nodup_flatMap]
  constructor
  · intro artifact _
    have hnodup : ((Catalog.fromValidated index).scanDependents artifact.path).Nodup :=
      (pairwise_scanDependents h artifact.path).imp CargoDependent.Lt.ne
    refine hnodup.map_on fun left hleft right hright heq => ?_
    obtain ⟨left, kind⟩ := left
    obtain ⟨right, kind'⟩ := right
    obtain ⟨hpath, hkind, -⟩ := Edge.mk.inj heq
    cases hkind
    rw [List.inj_on_of_nodup_map hunique (mem_scanDependents.mp hleft).1 (mem_scanDependents.mp hright).1 hpath]
  · refine (List.pairwise_map.mp h.paths).imp fun hlt edge hleft hright => ne_of_lt hlt ?_
    obtain ⟨_, -, rfl⟩ := List.mem_map.mp hleft
    obtain ⟨_, -, heq⟩ := List.mem_map.mp hright
    exact (congrArg Edge.target heq).symm

theorem mem_forwardEdges (h : Canonical index) {edge : Edge} :
    edge ∈ (Catalog.fromValidated index).forwardEdges ↔
      ∃ artifact ∈ index.artifacts, artifact.path = edge.source ∧
        edge.target ∈ edge.kind.dependencies artifact.dependencies := by
  rw [forwardEdges_eq h]
  simp only [List.mem_flatMap, List.mem_map]
  constructor
  · rintro ⟨artifact, hmem, kind, -, target, htarget, rfl⟩
    exact ⟨artifact, hmem, rfl, htarget⟩
  · rintro ⟨artifact, hmem, hsource, htarget⟩
    exact ⟨artifact, hmem, edge.kind, DependencyKind.mem_all _, edge.target, htarget, by rw [hsource]⟩

/-- No dependency dangles, so each edge is found again under its target. -/
theorem mem_reverseEdges (h : Canonical index) {edge : Edge} :
    edge ∈ (Catalog.fromValidated index).reverseEdges ↔
      ∃ artifact ∈ index.artifacts, artifact.path = edge.source ∧
        edge.target ∈ edge.kind.dependencies artifact.dependencies := by
  rw [reverseEdges_eq h]
  simp only [List.mem_flatMap, List.mem_map]
  constructor
  · rintro ⟨target, -, ⟨artifact, kind⟩, hdependent, rfl⟩
    obtain ⟨hmem, htarget⟩ := mem_scanDependents.mp hdependent
    exact ⟨artifact, hmem, rfl, htarget⟩
  · rintro ⟨artifact, hmem, hsource, htarget⟩
    obtain ⟨target, hmem', hpath⟩ := List.mem_map.mp (h.resolved artifact hmem edge.kind edge.target htarget)
    refine ⟨target, hmem', ⟨artifact, edge.kind⟩, mem_scanDependents.mpr ⟨hmem, hpath ▸ htarget⟩, ?_⟩
    rw [hsource, hpath]

end

theorem exactQueries_of_canonical {index : CatalogIndex} (h : Canonical index) :
    ExactQueries index (Catalog.fromValidated index) where
  artifacts := rfl
  byPath := exactLookup_byPath h
  byCargoPackage := exactLookup_byCargoPackage h
  dependencies path dependencies := directDependencies_eq_ok h
  dependents_fails path fault := directDependents_eq_error h
  dependents_sorted path dependents hdependents := by
    obtain ⟨-, rfl⟩ := (directDependents_eq_ok h).mp hdependents
    exact pairwise_scanDependents h path
  dependents_mem path dependents hdependents artifact kind := by
    obtain ⟨-, rfl⟩ := (directDependents_eq_ok h).mp hdependents
    rw [mem_scanDependents]
    constructor
    · rintro ⟨hmem, htarget⟩
      exact ⟨hmem, _, directDependencies_of_mem h hmem, htarget⟩
    · rintro ⟨hmem, dependencies, hlookup, htarget⟩
      rw [directDependencies_of_mem h hmem] at hlookup
      cases hlookup
      exact ⟨hmem, htarget⟩
  dependents_count path dependents hdependents dependent hmem := by
    obtain ⟨-, rfl⟩ := (directDependents_eq_ok h).mp hdependents
    exact List.count_eq_one_of_mem ((pairwise_scanDependents h path).imp CargoDependent.Lt.ne) hmem
  edges := (List.perm_ext_iff_of_nodup (nodup_forwardEdges h) (nodup_reverseEdges h)).mpr fun edge =>
    (mem_forwardEdges h).trans (mem_reverseEdges h).symm
  resolved edge hedge := by
    obtain ⟨artifact, hmem, -, htarget⟩ := (mem_forwardEdges h).mp hedge
    exact h.resolved artifact hmem edge.kind edge.target htarget

/-- The queries over an accepted document are exact. -/
theorem queries_exact (index : CatalogIndex) (h : validateCatalogIndex index = .ok ()) :
    ExactQueries index (Catalog.fromValidated index) :=
  exactQueries_of_canonical (canonical_of_validateCatalogIndex h)

/-- Two artifacts, the first of which depends on the second in two groups. -/
def pairIndex : CatalogIndex where
  schemaVersion := 2
  artifacts := [
    { kind := .host
      category := none
      path := "hosts/local"
      cargoPackage := "fabric-host-local"
      version := "0.1.0"
      description := "Local host"
      publishable := false
      readme := none
      dependencies := { normal := ["packages/messaging/queue"], build := ["packages/messaging/queue"] } },
    { kind := .package
      category := some "messaging"
      path := "packages/messaging/queue"
      cargoPackage := "fabric-queue"
      version := "0.1.0"
      description := "Queue"
      publishable := false
      readme := some "packages/messaging/queue/README.md"
      dependencies := {} }]

theorem queries_exact_pair : validateCatalogIndex pairIndex = .ok () ∧
    ExactQueries pairIndex (Catalog.fromValidated pairIndex) := by
  have hvalid : validateCatalogIndex pairIndex = .ok () := rfl
  exact ⟨hvalid, queries_exact pairIndex hvalid⟩

end Fabric.Catalog
