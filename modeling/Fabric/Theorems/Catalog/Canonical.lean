import Fabric.Catalog.Validation

/-! The validator accepts exactly the canonical documents. -/

namespace Fabric.Catalog
open Rust
open Std (TreeSet)

/-! ### Canonical documents -/

structure CanonicalPath (path : String) : Prop where
  relative : path.toList.head? ≠ some '/'
  noBackslash : '\\' ∉ path.toList
  segments : ∀ segment ∈ split path '/', segment ≠ "" ∧ segment ≠ "." ∧ segment ≠ ".."

/-- The supported topologies, by the segments of a path, with the kind and the category that each implies. -/
inductive Topology (version : UInt8) : List String → ArtifactKind → Option String → Prop where
  | packages (category artifact : String) :
    Topology version ["packages", category, artifact] .package (some category)
  | hosts (artifact : String) : Topology version ["hosts", artifact] .host none
  | compositions (category artifact : String) :
    Topology version ["compositions", category, artifact] .composition (some category)
  | instances (category artifact : String) (hv : version = 2) :
    Topology version ["instances", category, artifact] .instance_ (some category)
  | examples (artifact : String) : Topology version ["examples", artifact] .example_ none

structure CanonicalArtifact (version : UInt8) (artifact : CatalogArtifact) : Prop where
  path : CanonicalPath artifact.path
  topology : Topology version (split artifact.path '/') artifact.kind artifact.category
  cargoPackage : artifact.cargoPackage ≠ ""
  version : artifact.version ≠ ""
  description : ∃ c ∈ artifact.description.toList, isWhitespace c = false
  readme : ∀ readme, artifact.readme = some readme → readme = artifact.path ++ "/README.md"

structure Canonical (index : CatalogIndex) : Prop where
  schemaVersion : index.schemaVersion = 1 ∨ index.schemaVersion = 2
  paths : (index.artifacts.map (·.path)).Pairwise (· < ·)
  artifacts : ∀ artifact ∈ index.artifacts, CanonicalArtifact index.schemaVersion artifact
  packages : (index.artifacts.map (·.cargoPackage)).Nodup
  sorted : ∀ artifact ∈ index.artifacts, ∀ kind : DependencyKind,
    (kind.dependencies artifact.dependencies).Pairwise (· < ·)
  resolved : ∀ artifact ∈ index.artifacts, ∀ kind : DependencyKind,
    ∀ dependency ∈ kind.dependencies artifact.dependencies, dependency ∈ index.artifacts.map (·.path)

theorem Topology.two_le_length {version : UInt8} {segments : List String} {kind : ArtifactKind}
    {category : Option String} (h : Topology version segments kind category) : 2 ≤ segments.length := by
  cases h <;> simp

/-! ### Paths -/

theorem CanonicalPath.of_segments {path : String}
    (segments : ∀ segment ∈ split path '/', segment ≠ "" ∧ segment ≠ "." ∧ segment ≠ "..")
    (noBackslash : '\\' ∉ path.toList) : CanonicalPath path := by
  refine ⟨fun hrelative => ?_, noBackslash, segments⟩
  exact (segments "" (empty_mem_split_of_startsWith (beq_iff_eq.mpr hrelative))).1 rfl

/-- The guard of `classify_catalog_path`. A path that ends with a slash, or is empty, has an empty segment. -/
theorem not_rejected_iff {path : String} :
    (path.isEmpty || startsWith path '/' || endsWith path '/' || contains path '\\' ||
      (split path '/').any (fun segment => segment.isEmpty || segment == "." || segment == "..")) = false ↔
    CanonicalPath path := by
  simp only [Bool.or_eq_false_iff, List.any_eq_false, Bool.or_eq_true, not_or, String.isEmpty_iff, beq_iff_eq]
  constructor
  · rintro ⟨⟨⟨⟨-, hstart⟩, -⟩, hback⟩, hsegments⟩
    refine ⟨?_, ?_, fun segment hs => ?_⟩
    · simpa [startsWith] using hstart
    · simpa [contains] using hback
    · obtain ⟨⟨hempty, hdot⟩, hdots⟩ := hsegments segment hs
      exact ⟨hempty, hdot, hdots⟩
  · intro h
    refine ⟨⟨⟨⟨?_, ?_⟩, ?_⟩, ?_⟩, fun segment hs => ?_⟩
    · rw [String.isEmpty_eq_false_iff]
      rintro rfl
      exact (h.segments "" (by decide)).1 rfl
    · simpa [startsWith] using h.relative
    · by_contra hend
      exact (h.segments "" (empty_mem_split_of_endsWith (by simpa using hend))).1 rfl
    · simpa [contains] using h.noBackslash
    · obtain ⟨hempty, hdot, hdots⟩ := h.segments segment hs
      exact ⟨⟨hempty, hdot⟩, hdots⟩

/-! ### Classification -/

def CatalogSchema.version : CatalogSchema → UInt8
  | .v1 => 1
  | .v2 => 2

theorem fromVersion_eq_ok {version : UInt8} {schema : CatalogSchema} :
    CatalogSchema.fromVersion version = .ok schema ↔ version = schema.version := by
  unfold CatalogSchema.fromVersion catalogV1 catalogV2
  split
  · rename_i h
    subst h
    cases schema <;> simp [CatalogSchema.version]
  · rename_i h₁
    split
    · rename_i h
      subst h
      cases schema <;> simp [CatalogSchema.version]
    · rename_i h₂
      cases schema <;> simp [CatalogSchema.version, h₁, h₂]

theorem classifyCatalogPath_eq_ok {schema : CatalogSchema} {path : String} {classified : PathClassification} :
    classifyCatalogPath schema path = .ok classified ↔
      CanonicalPath path ∧ Topology schema.version (split path '/') classified.kind classified.category := by
  unfold classifyCatalogPath
  split
  · rename_i hguard
    have hpath : ¬CanonicalPath path := fun h => by simp [not_rejected_iff.mpr h] at hguard
    simp [hpath]
  · rename_i hguard
    have hpath : CanonicalPath path := not_rejected_iff.mp (by simpa using hguard)
    obtain ⟨kind, category⟩ := classified
    simp only [hpath, true_and]
    generalize split path '/' = segments
    constructor
    · intro h
      split at h
      · cases h
        exact .packages _ _
      · cases h
        exact .hosts _
      · cases h
        exact .compositions _ _
      · split at h
        · rename_i hv
          cases h
          exact .instances _ _ (hv ▸ rfl)
        · cases h
      · cases h
        exact .examples _
      · cases h
    · intro h
      cases h with
      | instances category artifact hv =>
        cases schema with
        | v1 => cases hv
        | v2 => rfl
      | _ => rfl

/-! ### One artifact -/

theorem trim_eq_empty_iff {s : String} : trim s = "" ↔ ∀ c ∈ s.toList, isWhitespace c = true := by
  rw [trim, ← String.toList_inj, String.toList_ofList, String.toList_empty,
    List.rdropWhile_eq_nil_iff]
  constructor
  · intro h
    by_contra hsome
    have hne : s.toList.dropWhile isWhitespace ≠ [] := fun hnil => hsome (List.dropWhile_eq_nil_iff.mp hnil)
    have hhead := List.head_dropWhile_not isWhitespace hne
    rw [h _ (List.head_mem hne)] at hhead
    cases hhead
  · exact fun h c hc => h c (List.dropWhile_suffix isWhitespace |>.subset hc)

theorem validateCategory_eq_ok {schema : CatalogSchema} {artifact : CatalogArtifact} {expected : Option String} :
    validateCategory schema artifact expected = .ok () ↔ expected = artifact.category := by
  unfold validateCategory
  split
  · rename_i e actual hcategory
    rw [rejectIf_eq_ok, hcategory, not_not, Option.some.injEq, eq_comm]
  · simp [*]
  · simp [*]
  · simp [*]

theorem validateReadme_eq_ok {schema : CatalogSchema} {artifact : CatalogArtifact} :
    validateReadme schema artifact = .ok () ↔
      ∀ readme, artifact.readme = some readme → readme = artifact.path ++ "/README.md" := by
  unfold validateReadme
  split <;> simp [*]

theorem validateArtifact_eq_ok {schema : CatalogSchema} {artifact : CatalogArtifact} :
    validateArtifact schema artifact = .ok () ↔ CanonicalArtifact schema.version artifact := by
  rw [validateArtifact, bind_eq_ok]
  simp only [check_bind_eq_ok, rejectIf_eq_ok, not_not, validateCategory_eq_ok, validateReadme_eq_ok,
    classifyCatalogPath_eq_ok, String.isEmpty_iff, trim_eq_empty_iff]
  constructor
  · rintro ⟨⟨kind, category⟩, ⟨hpath, htopology⟩, hkind, hcategory, hpackage, hversion, hdescription, hreadme⟩
    cases hkind
    cases hcategory
    exact ⟨hpath, htopology, hpackage, hversion, by simpa using hdescription, hreadme⟩
  · intro h
    exact ⟨⟨artifact.kind, artifact.category⟩, ⟨h.path, h.topology⟩, rfl, rfl, h.cargoPackage, h.version,
      by simpa using h.description, h.readme⟩

/-! ### The loops -/

theorem checkOrder_eq_ok {previous : Option String} {current : String} {duplicate : CatalogError}
    {unsorted : String → CatalogError} :
    checkOrder previous current duplicate unsorted = .ok () ↔ ∀ p, previous = some p → p < current := by
  unfold checkOrder
  split
  · rename_i p
    split
    · rename_i heq
      subst heq
      exact iff_of_false (fun h => by cases h) fun h => lt_irrefl p (h p rfl)
    · rename_i hne
      rw [rejectIf_eq_ok, not_lt]
      constructor
      · rintro hle q ⟨⟩
        exact lt_of_le_of_ne hle hne
      · exact fun h => (h p rfl).le
  · simp

/-- A cursor that each new item must exceed is the last item of an increasing list. -/
theorem isChain_cursor {previous : Option String} {current : String} {rest : List String} :
    (previous.toList ++ current :: rest).IsChain (· < ·) ↔
      (∀ p, previous = some p → p < current) ∧ (current :: rest).IsChain (· < ·) := by
  cases previous with
  | none => simp
  | some p => simp [List.isChain_cons_cons]

theorem checkDependency_eq_ok {schema : CatalogSchema} {artifact : CatalogArtifact} {kind : DependencyKind}
    {artifactPaths : TreeSet String} {previous next : Option String} {dependency : String} :
    checkDependency schema artifact kind artifactPaths previous dependency = .ok next ↔
      (∀ p, previous = some p → p < dependency) ∧ dependency ∈ artifactPaths ∧ next = some dependency := by
  rw [checkDependency, check_bind_eq_ok, check_bind_eq_ok, checkOrder_eq_ok, rejectIf_eq_ok, not_not]
  simp [pure, Except.pure, eq_comm (a := next)]

theorem checkDependencies_eq_ok {schema : CatalogSchema} {artifact : CatalogArtifact} {kind : DependencyKind}
    {artifactPaths : TreeSet String} (dependencies : List String) (previous : Option String) :
    (∃ last, dependencies.foldlM (checkDependency schema artifact kind artifactPaths) previous = .ok last) ↔
      (previous.toList ++ dependencies).IsChain (· < ·) ∧ ∀ dependency ∈ dependencies, dependency ∈ artifactPaths := by
  induction dependencies generalizing previous with
  | nil => cases previous <;> simp [pure, Except.pure]
  | cons dependency rest ih =>
    rw [isChain_cursor, List.forall_mem_cons]
    constructor
    · rintro ⟨last, hlast⟩
      obtain ⟨next, hnext, hrest⟩ := foldlM_cons_eq_ok.mp hlast
      obtain ⟨horder, hmem, rfl⟩ := checkDependency_eq_ok.mp hnext
      obtain ⟨hchain, hall⟩ := (ih _).mp ⟨last, hrest⟩
      exact ⟨⟨horder, hchain⟩, hmem, hall⟩
    · rintro ⟨⟨horder, hchain⟩, hmem, hall⟩
      obtain ⟨last, hlast⟩ := (ih (some dependency)).mpr ⟨hchain, hall⟩
      exact ⟨last, foldlM_cons_eq_ok.mpr ⟨_, checkDependency_eq_ok.mpr ⟨horder, hmem, rfl⟩, hlast⟩⟩

theorem validateDependencyGroup_eq_ok {schema : CatalogSchema} {artifact : CatalogArtifact} {kind : DependencyKind}
    {artifactPaths : TreeSet String} :
    validateDependencyGroup schema artifact kind artifactPaths = .ok () ↔
      (kind.dependencies artifact.dependencies).Pairwise (· < ·) ∧
        ∀ dependency ∈ kind.dependencies artifact.dependencies, dependency ∈ artifactPaths := by
  rw [validateDependencyGroup, bind_eq_ok, ← List.isChain_iff_pairwise]
  simpa [-String.lt_iff_ltb, pure, Except.pure] using
    checkDependencies_eq_ok (kind.dependencies artifact.dependencies) none

theorem scanArtifact_eq_ok {schema : CatalogSchema} {scan next : ArtifactScan} {artifact : CatalogArtifact} :
    scanArtifact schema scan artifact = .ok next ↔
      (∀ p, scan.previousPath = some p → p < artifact.path) ∧ CanonicalArtifact schema.version artifact ∧
        artifact.cargoPackage ∉ scan.cargoPackages ∧ next = scan.push artifact := by
  rw [scanArtifact, check_bind_eq_ok, check_bind_eq_ok, check_bind_eq_ok, checkOrder_eq_ok, validateArtifact_eq_ok,
    rejectIf_eq_ok]
  simp [pure, Except.pure, eq_comm (a := next)]

theorem mem_cargoPackages_push {scan : ArtifactScan} {artifact : CatalogArtifact} {name : String} :
    name ∈ (scan.push artifact).cargoPackages ↔ name = artifact.cargoPackage ∨ name ∈ scan.cargoPackages := by
  simp [ArtifactScan.push, eq_comm (a := name)]

theorem mem_artifactPaths_foldl {artifacts : List CatalogArtifact} {scan : ArtifactScan} {path : String} :
    path ∈ (artifacts.foldl ArtifactScan.push scan).artifactPaths ↔
      path ∈ scan.artifactPaths ∨ path ∈ artifacts.map (·.path) := by
  induction artifacts generalizing scan with
  | nil => simp
  | cons artifact rest ih =>
    rw [List.foldl_cons, ih, List.map_cons, List.mem_cons, ArtifactScan.push]
    simp only [TreeSet.mem_insert, Std.compare_eq_iff_eq, eq_comm (a := path)]
    tauto

theorem scanArtifacts_eq_ok {schema : CatalogSchema} {artifacts : List CatalogArtifact} {scan last : ArtifactScan} :
    artifacts.foldlM (scanArtifact schema) scan = .ok last ↔
      (scan.previousPath.toList ++ artifacts.map (·.path)).IsChain (· < ·) ∧
        (∀ artifact ∈ artifacts, CanonicalArtifact schema.version artifact) ∧
        ((artifacts.map (·.cargoPackage)).Nodup ∧ ∀ artifact ∈ artifacts, artifact.cargoPackage ∉ scan.cargoPackages) ∧
        last = artifacts.foldl ArtifactScan.push scan := by
  induction artifacts generalizing scan with
  | nil =>
    have hchain : (scan.previousPath.toList ++ []).IsChain (· < ·) := by cases scan.previousPath <;> simp
    simp [-String.lt_iff_ltb, pure, Except.pure, eq_comm (a := last), -List.append_nil, hchain]
  | cons artifact rest ih =>
    simp only [foldlM_cons_eq_ok, scanArtifact_eq_ok, List.map_cons, isChain_cursor, List.forall_mem_cons,
      List.nodup_cons, List.foldl_cons]
    constructor
    · rintro ⟨next, ⟨horder, hartifact, hfresh, rfl⟩, hrest⟩
      obtain ⟨hchain, hall, ⟨hnodup, hunseen⟩, hlast⟩ := ih.mp hrest
      simp only [mem_cargoPackages_push, not_or] at hunseen
      refine ⟨⟨horder, hchain⟩, ⟨hartifact, hall⟩, ⟨⟨?_, hnodup⟩, hfresh, fun a ha => (hunseen a ha).2⟩, hlast⟩
      rw [List.mem_map]
      rintro ⟨a, ha, heq⟩
      exact (hunseen a ha).1 heq
    · rintro ⟨⟨horder, hchain⟩, ⟨hartifact, hall⟩, ⟨⟨hnew, hnodup⟩, hfresh, hunseen⟩, hlast⟩
      refine ⟨_, ⟨horder, hartifact, hfresh, rfl⟩, ih.mpr ⟨hchain, hall, ⟨hnodup, fun a ha => ?_⟩, hlast⟩⟩
      rw [mem_cargoPackages_push, not_or]
      exact ⟨fun heq => hnew (heq ▸ List.mem_map_of_mem ha), hunseen a ha⟩

/-! ### The whole document -/

theorem fromVersion_cases (version : UInt8) :
    (∃ schema, CatalogSchema.fromVersion version = .ok schema) ↔ version = 1 ∨ version = 2 := by
  simp only [fromVersion_eq_ok]
  constructor
  · rintro ⟨⟨⟩ | ⟨⟩, rfl⟩
    · exact .inl rfl
    · exact .inr rfl
  · rintro (rfl | rfl)
    · exact ⟨.v1, rfl⟩
    · exact ⟨.v2, rfl⟩

theorem mem_scannedPaths {index : CatalogIndex} {path : String} :
    path ∈ (index.artifacts.foldl ArtifactScan.push {}).artifactPaths ↔ path ∈ index.artifacts.map (·.path) := by
  rw [mem_artifactPaths_foldl]
  exact or_iff_right TreeSet.not_mem_emptyc

theorem canonical_of_validateCatalogIndex {index : CatalogIndex} (h : validateCatalogIndex index = .ok ()) :
    Canonical index := by
  rw [validateCatalogIndex] at h
  simp only [bind_eq_ok, fromVersion_eq_ok, scanArtifacts_eq_ok, forM_eq_ok, validateDependencyGroup_eq_ok,
    List.isChain_iff_pairwise] at h
  obtain ⟨schema, hversion, scan, ⟨hsorted, hartifacts, ⟨hnodup, -⟩, rfl⟩, hgroups⟩ := h
  have group := fun artifact ha kind => hgroups artifact ha kind (DependencyKind.mem_all kind)
  exact {
    schemaVersion := (fromVersion_cases _).mp ⟨schema, fromVersion_eq_ok.mpr hversion⟩
    paths := hsorted
    artifacts := hversion ▸ hartifacts
    packages := hnodup
    sorted := fun artifact ha kind => (group artifact ha kind).1
    resolved := fun artifact ha kind d hd => mem_scannedPaths.mp ((group artifact ha kind).2 d hd) }

theorem validateCatalogIndex_of_canonical {index : CatalogIndex} (h : Canonical index) :
    validateCatalogIndex index = .ok () := by
  obtain ⟨schema, hschema⟩ := (fromVersion_cases _).mpr h.schemaVersion
  have hversion := fromVersion_eq_ok.mp hschema
  rw [validateCatalogIndex]
  simp only [bind_eq_ok, fromVersion_eq_ok, scanArtifacts_eq_ok, forM_eq_ok, validateDependencyGroup_eq_ok,
    List.isChain_iff_pairwise]
  refine ⟨schema, hversion, _, ⟨h.paths, hversion ▸ h.artifacts, ⟨h.packages, fun _ _ => TreeSet.not_mem_emptyc⟩, rfl⟩,
    fun artifact ha kind _ => ⟨h.sorted artifact ha kind, fun d hd => ?_⟩⟩
  exact mem_scannedPaths.mpr (h.resolved artifact ha kind d hd)

/-- The validator accepts exactly the canonical documents. -/
theorem validateCatalogIndex_iff (index : CatalogIndex) : validateCatalogIndex index = .ok () ↔ Canonical index :=
  ⟨canonical_of_validateCatalogIndex, validateCatalogIndex_of_canonical⟩

end Fabric.Catalog
