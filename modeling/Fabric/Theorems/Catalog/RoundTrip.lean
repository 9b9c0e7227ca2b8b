import Fabric.Catalog.Reader
import Fabric.Catalog.Render
import Fabric.Theorems.Catalog.Discovery

/-! What the generator writes, the strict reader accepts and reads back unchanged. -/

namespace Fabric.Catalog
open Rust

namespace Serde

/-! ### Deserialization inverts serialization -/

theorem list_map {α : Type} {item : Read α} (serialize : α → Json) (h : ∀ a, item (serialize a) = .ok a) (l : List α) :
    list item (.arr (l.map serialize)) = .ok l := by
  rw [list, mapM_eq_ok, List.forall₂_map_left_iff]
  exact List.forall₂_same.mpr fun a _ => h a

theorem list_strings (values : List String) : list string (strings values) = .ok values :=
  list_map .str (fun _ => rfl) values

theorem u8_toUInt64 (n : UInt8) : u8 (.num n.toUInt64) = .ok n := by
  have hle : n.toUInt64.toNat ≤ 255 := by
    rw [UInt8.toNat_toUInt64]
    exact Nat.le_of_lt_succ n.toNat_lt
  rw [u8, if_pos hle, UInt8.toUInt8_toUInt64]

theorem artifactKind_variantName (kind : ArtifactKind) : artifactKind (.str (variantName kind)) = .ok kind := by
  cases kind <;> rfl

theorem deserializeDependencies_serialize (dependencies : CatalogDependencies) :
    deserializeDependencies (serializeDependencies dependencies) = .ok dependencies := by
  simp [deserializeDependencies, serializeDependencies, structMembers, setDependencyField, setField, required,
    list_strings, bind, Except.bind, pure, Except.pure]

theorem deserializeArtifact_serialize (artifact : CatalogArtifact) :
    deserializeArtifact (serializeArtifact artifact) = .ok artifact := by
  obtain ⟨kind, category, path, cargoPackage, version, description, publishable, readme, dependencies⟩ := artifact
  cases category <;> cases readme <;>
    simp [deserializeArtifact, serializeArtifact, structMembers, setArtifactField, setField, required, optionalMember,
      optional, string, boolean, artifactKind_variantName, deserializeDependencies_serialize, bind, Except.bind, pure,
      Except.pure]

theorem deserializeIndex_serialize (index : CatalogIndex) : deserializeIndex (serializeIndex index) = .ok index := by
  simp [deserializeIndex, serializeIndex, structMembers, setIndexField, setField, required, u8_toUInt64,
    list_map serializeArtifact deserializeArtifact_serialize, bind, Except.bind, pure, Except.pure]

/-! ### Nesting -/

theorem depthItems_le {α : Type} (serialize : α → Json) {n : Nat} (h : ∀ a, (serialize a).depth ≤ n) (l : List α) :
    Json.depthItems (l.map serialize) ≤ n := by
  induction l with
  | nil => exact Nat.zero_le n
  | cons a l ih => exact max_le (h a) ih

theorem depth_strings (values : List String) : (strings values).depth ≤ 1 :=
  Nat.succ_le_succ (depthItems_le .str (fun _ => Nat.le_refl 0) values)

theorem depth_serializeDependencies (dependencies : CatalogDependencies) :
    (serializeDependencies dependencies).depth ≤ 2 := by
  have hnormal := depth_strings dependencies.normal
  have hdevelopment := depth_strings dependencies.development
  have hbuild := depth_strings dependencies.build
  simp only [serializeDependencies, Json.depth, Json.depthMembers]
  omega

theorem depthMembers_append (l l' : List (String × Json)) :
    Json.depthMembers (l ++ l') = max (Json.depthMembers l) (Json.depthMembers l') := by
  induction l with
  | nil => simp [Json.depthMembers]
  | cons member l ih => simp [Json.depthMembers, ih, max_assoc]

theorem depthMembers_optionalMember (field : String) (value : Option String) :
    Json.depthMembers (optionalMember field value) = 0 := by
  cases value <;> simp [optionalMember, Json.depthMembers, Json.depth]

theorem depth_serializeArtifact (artifact : CatalogArtifact) : (serializeArtifact artifact).depth ≤ 3 := by
  have hdependencies := depth_serializeDependencies artifact.dependencies
  simp only [serializeArtifact, Json.depth, Json.depthMembers, depthMembers_append, depthMembers_optionalMember,
    List.cons_append]
  omega

theorem depth_serializeIndex (index : CatalogIndex) : (serializeIndex index).depth ≤ 5 := by
  have hartifacts := depthItems_le serializeArtifact depth_serializeArtifact index.artifacts
  simp only [serializeIndex, Json.depth, Json.depthMembers]
  omega

end Serde

/-! ### The reader -/

theorem readCatalogStr_of_canonical {serde : SerdeJson} {content : String} {index : CatalogIndex}
    (hcontent : serde.fromStr content = .ok (Serde.serializeIndex index)) (hindex : Canonical index) :
    readCatalogStr serde content = .ok (Catalog.fromValidated index) := by
  simp only [readCatalogStr, hcontent, Serde.deserializeIndex_serialize, bind, Except.bind,
    validateCatalogIndex_of_canonical hindex]
  rfl

/-- What the generator writes, the strict reader accepts and reads back unchanged. -/
theorem generated_reads_back {serde : SerdeJson} (hserde : serde.Inverse) {workspace : Workspace} {tree : FileTree}
    (hnames : ∀ package ∈ workspace.packages, package.name ≠ "" ∧ package.version ≠ "")
    (hback : ∀ package ∈ workspace.packages, NoBackslash workspace package) {index : CatalogIndex}
    (h : discoverCatalog workspace tree = .ok index) :
    validateCatalogIndex index = .ok () ∧ ∃ rendered catalog, renderCatalog serde index = .ok rendered ∧
      readCatalogStr serde rendered.json = .ok catalog ∧ catalog.schemaVersion = index.schemaVersion ∧
      catalog.artifacts = index.artifacts := by
  obtain ⟨classified, hdiscovered⟩ := discovered_of_discoverCatalog h
  have hcanonical := hdiscovered.canonical hnames hback
  obtain ⟨text, htext⟩ := hserde.prints (Serde.serializeIndex index)
  have hdepth : (Serde.serializeIndex index).depth < 128 :=
    lt_of_le_of_lt (Serde.depth_serializeIndex index) (by decide)
  have hread := hserde.readsBack _ text hdepth htext "\n" (by decide)
  refine ⟨validateCatalogIndex_of_canonical hcanonical, ⟨text ++ "\n", renderMarkdown index⟩,
    Catalog.fromValidated index, ?_, readCatalogStr_of_canonical hread hcanonical, rfl, rfl⟩
  rw [renderCatalog, htext]

/-! ### A workspace with two packages -/

/-- The JSON text format itself, as a library. -/
def jsonText : SerdeJson where
  toStringPretty v := .ok (String.ofList (v.pretty 0))
  fromStr content :=
    match Json.parse 127 content.toList with
    | some v => .ok v
    | none => .error "expected value"
  showDataError _ _ := "invalid data"

theorem jsonText_inverse : jsonText.Inverse where
  prints v := ⟨_, rfl⟩
  readsBack v text hdepth htext blanks hblanks := by
    cases htext
    simp only [jsonText, String.toList_append, String.toList_ofList]
    rw [Json.parse_pretty (Nat.le_of_lt_succ hdepth) hblanks]

def tcpPackage : CargoPackage where
  name := "fabric-tcp"
  version := "0.1.0"
  id := "fabric-tcp"
  description := some "TCP"
  publish := none
  manifestPath := osString "/repo/packages/networking/tcp/Cargo.toml"
  dependencies := []

def httpPackage : CargoPackage where
  name := "fabric-http"
  version := "0.1.0"
  id := "fabric-http"
  description := some "HTTP"
  publish := some []
  manifestPath := osString "/repo/packages/networking/http/Cargo.toml"
  dependencies := [⟨"fabric-tcp", none⟩, ⟨"serde", none⟩, ⟨"fabric-tcp", some "dev"⟩, ⟨"fabric-tcp", none⟩]

def networkingWorkspace : Workspace := ⟨osString "/repo", [tcpPackage, httpPackage]⟩

def directory (entries : List (String × FileTree)) : FileTree :=
  .dir (entries.map fun (name, tree) => (osString name, tree)) .complete

def packagesTree : FileTree :=
  directory [("networking", directory
    [("tcp", directory [("Cargo.toml", .leaf .file), ("README.md", .leaf .file)]),
      ("http", directory [("Cargo.toml", .leaf .file)])])]

def networkingTree : FileTree := directory [("packages", packagesTree)]

def networkingIndex : CatalogIndex where
  schemaVersion := 2
  artifacts := [
    { kind := .package
      category := some "networking"
      path := "packages/networking/http"
      cargoPackage := "fabric-http"
      version := "0.1.0"
      description := "HTTP"
      publishable := false
      readme := none
      dependencies := { normal := ["packages/networking/tcp"], development := ["packages/networking/tcp"] } },
    { kind := .package
      category := some "networking"
      path := "packages/networking/tcp"
      cargoPackage := "fabric-tcp"
      version := "0.1.0"
      description := "TCP"
      publishable := true
      readme := some "packages/networking/tcp/README.md"
      dependencies := {} }]

theorem findCargoTomls_packagesTree : findCargoTomls (osString "/repo/packages") packagesTree =
    .ok [osString "/repo/packages/networking/http/Cargo.toml",
      osString "/repo/packages/networking/tcp/Cargo.toml"] := by
  refine (findCargoTomlsFrom_cons rfl rfl).trans ?_
  refine (findCargoTomlsFrom_cons rfl rfl).trans ?_
  refine (findCargoTomlsFrom_cons rfl rfl).trans ?_
  refine (findCargoTomlsFrom_cons rfl rfl).trans ?_
  exact findCargoTomlsFrom_nil rfl

/-- The check of a workspace with nothing but packages. -/
theorem checkCatalogRoots_of_packages {workspace : Workspace} {below : FileTree} {represented : Std.TreeSet String}
    {manifests : List PathBuf} (hexists : below.pathExists = true)
    (hfound : findCargoTomls (joinPath workspace.root (osString "packages")) below = .ok manifests)
    (hall : ∀ manifest ∈ manifests, checkManifest workspace represented manifest = .ok ()) :
    ∀ root ∈ catalogRoots, checkCatalogRoot workspace (directory [("packages", below)]) represented root = .ok () := by
  have hlookup : (directory [("packages", below)]).lookup (components (osString "packages")) = some below := rfl
  intro root hmem
  simp only [catalogRoots, List.mem_cons, List.not_mem_nil, or_false] at hmem
  rcases hmem with rfl | rfl | rfl | rfl | rfl
  · simp only [checkCatalogRoot, hlookup]
    rw [if_pos hexists]
    exact bind_eq_ok.mpr ⟨manifests, hfound, forM_eq_ok.mpr hall⟩
  · rfl
  · rfl
  · rfl
  · rfl

theorem checkCatalogRoot_networkingTree : ∀ root ∈ catalogRoots, checkCatalogRoot networkingWorkspace networkingTree
    (.ofList ["packages/networking/http", "packages/networking/tcp"]) root = .ok () :=
  checkCatalogRoots_of_packages rfl findCargoTomls_packagesTree
    (List.forall_mem_cons.mpr ⟨rfl, List.forall_mem_singleton.mpr rfl⟩)

theorem discoverCatalog_networking : discoverCatalog networkingWorkspace networkingTree = .ok networkingIndex := by
  refine bind_eq_ok.mpr ⟨_, rfl, bind_eq_ok.mpr ⟨_, rfl, check_bind_eq_ok.mpr ⟨?_, rfl⟩⟩⟩
  exact forM_eq_ok.mpr checkCatalogRoot_networkingTree

theorem generated_reads_back_networking : ∃ rendered catalog, renderCatalog jsonText networkingIndex = .ok rendered ∧
    readCatalogStr jsonText rendered.json = .ok catalog ∧ catalog.artifacts = networkingIndex.artifacts := by
  obtain ⟨-, rendered, catalog, hrender, hread, -, hartifacts⟩ :=
    generated_reads_back jsonText_inverse (by decide) (by decide) discoverCatalog_networking
  exact ⟨rendered, catalog, hrender, hread, hartifacts⟩

end Fabric.Catalog
