import Fabric.Theorems.Catalog.Discovery

/-! The topology table against itself: the two schema versions of the validator, and the copies of the table in the
    generator and in the validator. -/

namespace Fabric.Catalog
open Rust

/-! ### Schema versions -/

theorem topology_one_iff {segments : List String} {kind : ArtifactKind} {category : Option String} :
    Topology 1 segments kind category ↔ Topology 2 segments kind category ∧ kind ≠ .instance_ := by
  constructor
  · intro h
    cases h with
    | instances category artifact hv => cases hv
    | packages category artifact => exact ⟨.packages _ _, by simp⟩
    | hosts artifact => exact ⟨.hosts _, by simp⟩
    | compositions category artifact => exact ⟨.compositions _ _, by simp⟩
    | examples artifact => exact ⟨.examples _, by simp⟩
  · rintro ⟨h, hkind⟩
    cases h with
    | instances category artifact hv => exact absurd rfl hkind
    | packages category artifact => exact .packages _ _
    | hosts artifact => exact .hosts _
    | compositions category artifact => exact .compositions _ _
    | examples artifact => exact .examples _

theorem canonicalArtifact_one_iff {artifact : CatalogArtifact} :
    CanonicalArtifact 1 artifact ↔ CanonicalArtifact 2 artifact ∧ artifact.kind ≠ .instance_ := by
  constructor
  · intro h
    obtain ⟨htopology, hkind⟩ := topology_one_iff.mp h.topology
    exact ⟨{ h with topology := htopology }, hkind⟩
  · rintro ⟨h, hkind⟩
    exact { h with topology := topology_one_iff.mpr ⟨h.topology, hkind⟩ }

/-- No clause but the topology of an artifact reads the schema version. -/
theorem canonical_one_iff {artifacts : List CatalogArtifact} :
    Canonical ⟨1, artifacts⟩ ↔ Canonical ⟨2, artifacts⟩ ∧ ∀ artifact ∈ artifacts, artifact.kind ≠ .instance_ := by
  constructor
  · intro h
    have hartifacts := fun artifact hmem => canonicalArtifact_one_iff.mp (h.artifacts artifact hmem)
    exact ⟨⟨.inr rfl, h.paths, fun artifact hmem => (hartifacts artifact hmem).1, h.packages, h.sorted, h.resolved⟩,
      fun artifact hmem => (hartifacts artifact hmem).2⟩
  · rintro ⟨h, hkinds⟩
    have hartifacts := fun artifact hmem =>
      canonicalArtifact_one_iff.mpr ⟨h.artifacts artifact hmem, hkinds artifact hmem⟩
    exact ⟨.inl rfl, h.paths, hartifacts, h.packages, h.sorted, h.resolved⟩

theorem unsupportedVersion {version : UInt8} {artifacts : List CatalogArtifact} (h₁ : version ≠ 1)
    (h₂ : version ≠ 2) : validateCatalogIndex ⟨version, artifacts⟩ =
      .error ⟨"unsupported Catalog schema version: " ++ toString version.toNat⟩ := by
  have hversion : CatalogSchema.fromVersion version =
      .error ⟨"unsupported Catalog schema version: " ++ toString version.toNat⟩ := by
    rw [CatalogSchema.fromVersion, catalogV1, catalogV2, if_neg h₁, if_neg h₂]
  rw [validateCatalogIndex, hversion]
  rfl

/-- Version 1 is the part of version 2 without instances, and there is no third version. -/
theorem v1_eq_v2_without_instances (artifacts : List CatalogArtifact) :
    (validateCatalogIndex ⟨1, artifacts⟩ = .ok () ↔
      validateCatalogIndex ⟨2, artifacts⟩ = .ok () ∧ ∀ artifact ∈ artifacts, artifact.kind ≠ .instance_) ∧
    ∀ version, version = 1 ∨ version = 2 ∨ validateCatalogIndex ⟨version, artifacts⟩ =
      .error ⟨"unsupported Catalog schema version: " ++ toString version.toNat⟩ := by
  refine ⟨⟨fun h => ?_, ?_⟩, fun version => ?_⟩
  · obtain ⟨hcanonical, hkinds⟩ := canonical_one_iff.mp (canonical_of_validateCatalogIndex h)
    exact ⟨validateCatalogIndex_of_canonical hcanonical, hkinds⟩
  · rintro ⟨h, hkinds⟩
    exact validateCatalogIndex_of_canonical
      (canonical_one_iff.mpr ⟨canonical_of_validateCatalogIndex h, hkinds⟩)
  · by_cases h₁ : version = 1
    · exact .inl h₁
    · by_cases h₂ : version = 2
      · exact .inr (.inl h₂)
      · exact .inr (.inr (unsupportedVersion h₁ h₂))

/-! ### Generator and validator -/

/-- The components that `path_to_slash_string` joins: arbitrary text but for what a path component cannot be. -/
structure PlainComponents (pieces : List String) : Prop where
  nonempty : pieces ≠ []
  names : ∀ piece ∈ pieces, piece ≠ "" ∧ piece ≠ "." ∧ piece ≠ ".."
  noSeparator : ∀ piece ∈ pieces, '/' ∉ piece.toList

/-- What `path_to_slash_string` makes of a part of a path that has names in it is such a list, joined. -/
theorem pathToSlashString_plain {path : PathBuf} {relative : List Component} (hsub : relative ⊆ components path)
    {name : OsString} (hname : .normal name ∈ relative) :
    ∃ pieces, PlainComponents pieces ∧ pathToSlashString relative = join pieces '/' := by
  refine ⟨_, ⟨?_, fun piece hpiece => ?_, fun piece hpiece => ?_⟩, rfl⟩
  · exact List.ne_nil_of_mem (List.mem_filterMap.mpr ⟨_, hname, rfl⟩)
  · obtain ⟨other, hmem, rfl⟩ := mem_pathToSlashString hpiece
    obtain ⟨hempty, hdot, hdots, -⟩ := (normal_of_mem_components (hsub hmem)).lossy
    exact ⟨hempty, hdot, hdots⟩
  · obtain ⟨other, hmem, rfl⟩ := mem_pathToSlashString hpiece
    exact (normal_of_mem_components (hsub hmem)).lossy.2.2.2

section
variable {pieces : List String}

theorem PlainComponents.split_join (h : PlainComponents pieces) : split (join pieces '/') '/' = pieces :=
  Rust.split_join h.nonempty h.noSeparator

/-- Of the syntactic checks of the validator only the one for a backslash can fail. -/
theorem PlainComponents.canonicalPath_iff (h : PlainComponents pieces) :
    CanonicalPath (join pieces '/') ↔ ∀ piece ∈ pieces, '\\' ∉ piece.toList := by
  constructor
  · intro hpath piece hpiece hback
    exact hpath.noBackslash (mem_join_of_mem hpiece hback)
  · intro hback
    refine .of_segments (fun segment hsegment => h.names segment (h.split_join ▸ hsegment)) fun hmem => ?_
    rcases mem_join hmem with hslash | ⟨piece, hpiece, hc⟩
    · exact absurd hslash (by decide)
    · exact hback piece hpiece hc

end

/-- Whether a path has one of the five shapes that the generator catalogs. -/
def HasTopology (pieces : List String) : Prop := ∃ kind category, Topology 2 pieces kind category

/-- The generator and the validator classify a path alike exactly when no component has a backslash in it, or the path
    has no topology. -/
theorem classifiedAlike_iff (pieces : List String) (h : PlainComponents pieces) :
    (∀ kind category, classifyPath (join pieces '/') = .ok (.cataloged kind category) ↔
      classifyCatalogPath .v2 (join pieces '/') = .ok ⟨kind, category⟩) ↔
    (∀ piece ∈ pieces, '\\' ∉ piece.toList) ∨ ¬HasTopology pieces := by
  simp only [classifyPath_eq_cataloged, classifyCatalogPath_eq_ok, h.split_join, h.canonicalPath_iff,
    CatalogSchema.version]
  constructor
  · intro halike
    rw [or_iff_not_imp_right, not_not]
    rintro ⟨kind, category, htopology⟩
    exact ((halike kind category).mp htopology).1
  · rintro (hback | hnone) kind category
    · exact ⟨fun htopology => ⟨hback, htopology⟩, fun hboth => hboth.2⟩
    · exact iff_of_false (fun htopology => hnone ⟨kind, category, htopology⟩)
        fun hboth => hnone ⟨kind, category, hboth.2⟩

theorem classifiedAlike_iff_queue : PlainComponents ["packages", "messaging", "queue"] ∧
    ∀ kind category, classifyPath "packages/messaging/queue" = .ok (.cataloged kind category) ↔
      classifyCatalogPath .v2 "packages/messaging/queue" = .ok ⟨kind, category⟩ := by
  have hplain : PlainComponents ["packages", "messaging", "queue"] := ⟨by decide, by decide, by decide⟩
  exact ⟨hplain, (classifiedAlike_iff _ hplain).mpr (.inl (by decide))⟩

/-- A directory on Unix may have a backslash in its name: the generator catalogs it, the validator refuses it. -/
theorem backslash_not_classifiedAlike :
    pathToSlashString (components (osString "packages/data\\v2/store")) = "packages/data\\v2/store" ∧
    PlainComponents ["packages", "data\\v2", "store"] ∧
    join ["packages", "data\\v2", "store"] '/' = "packages/data\\v2/store" ∧
    classifyPath "packages/data\\v2/store" = .ok (.cataloged .package (some "data\\v2")) ∧
    classifyCatalogPath .v2 "packages/data\\v2/store" =
      .error ⟨"invalid Catalog v2 path: packages/data\\v2/store"⟩ ∧
    ¬∀ kind category, classifyPath "packages/data\\v2/store" = .ok (.cataloged kind category) ↔
      classifyCatalogPath .v2 "packages/data\\v2/store" = .ok ⟨kind, category⟩ := by
  have hclassified : classifyPath "packages/data\\v2/store" = .ok (.cataloged .package (some "data\\v2")) := rfl
  have hrefused : classifyCatalogPath .v2 "packages/data\\v2/store" =
      .error ⟨"invalid Catalog v2 path: packages/data\\v2/store"⟩ := rfl
  refine ⟨rfl, ⟨by decide, by decide, by decide⟩, rfl, hclassified, hrefused, fun halike => ?_⟩
  have haccepted := (halike _ _).mp hclassified
  rw [hrefused] at haccepted
  cases haccepted

end Fabric.Catalog
