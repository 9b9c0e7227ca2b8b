import Fabric.Catalog.Render
import Fabric.Library.Grouping
import Fabric.Library.Lines

/-! The Markdown view: it shows each artifact once, under its kind and its category. -/

namespace Fabric.Catalog
open Std (TreeSet)
open Grouping

/-! ### Documents -/

inductive MarkdownPiece where
  | preamble (schemaVersion : UInt8)
  | sectionHeading (kind : ArtifactKind)
  /-- The marker of an empty section. -/
  | none_
  | categoryHeading (category : String)
  | item (artifact : CatalogArtifact)
  | blank
  deriving DecidableEq, Repr

/-- The sections, in their order. -/
def sectionOrder : List ArtifactKind := [.package, .host, .composition, .instance_, .example_]

def sectionTitle : ArtifactKind → String
  | .package => "## Packages"
  | .host => "## Hosts"
  | .composition => "## Compositions"
  | .instance_ => "## Instances"
  | .example_ => "## Examples"

/-- The line of an artifact: a link with the last name of its path, its description, and a link to its readme. -/
def itemLine (artifact : CatalogArtifact) : String :=
  "- [" ++ String.ofList (artifact.path.toList.rtakeWhile (· ≠ '/')) ++ "](../" ++ artifact.path ++ ") — " ++
    artifact.description ++ artifact.readme.elim "" fun readme => " ([README](../" ++ readme ++ "))"

namespace MarkdownPiece

def lines : MarkdownPiece → List String
  | preamble schemaVersion =>
    ["# Fabric Ecosystem Catalog",
      "",
      "Generated by `cargo run -p fabric-ecosystem-catalog-tool -- write`.",
      "See [catalog/README.md](README.md) for the Catalog contract.",
      "",
      "Schema version: `" ++ toString schemaVersion.toNat ++ "`",
      ""]
  | sectionHeading kind => [sectionTitle kind, ""]
  | none_ => ["_None._", ""]
  | categoryHeading category => ["### " ++ category, ""]
  | item artifact => [itemLine artifact]
  | blank => [""]

def kind? : MarkdownPiece → Option ArtifactKind
  | sectionHeading kind => some kind
  | _ => none

def category? : MarkdownPiece → Option String
  | categoryHeading category => some category
  | _ => none

def artifact? : MarkdownPiece → Option CatalogArtifact
  | item artifact => some artifact
  | _ => none

def text (piece : MarkdownPiece) : String := Lines.text piece.lines

end MarkdownPiece

def textOf (pieces : List MarkdownPiece) : String := String.join (pieces.map MarkdownPiece.text)

/-- The artifacts whose items are among the pieces. -/
def shownArtifacts (pieces : List MarkdownPiece) : List CatalogArtifact := pieces.filterMap MarkdownPiece.artifact?

/-! ### The pieces of the view -/

def categoryPieces (artifacts : List CatalogArtifact) (category : String) : List MarkdownPiece :=
  (if category.isEmpty then [] else [.categoryHeading category]) ++
    (artifacts.filter fun artifact => artifact.category.getD "" == category).map .item ++ [.blank]

def bodyPieces (artifacts : List CatalogArtifact) : List MarkdownPiece :=
  if artifacts.isEmpty then [.none_]
  else if artifacts.any (·.category.isSome) then
    let categories := TreeSet.ofList (artifacts.map (·.category.getD ""))
    categories.toList.flatMap (categoryPieces artifacts)
  else artifacts.map .item ++ [.blank]

def sectionPieces (catalog : CatalogIndex) (kind : ArtifactKind) : List MarkdownPiece :=
  .sectionHeading kind :: bodyPieces (catalog.artifacts.filter (·.kind == kind))

def markdownPieces (catalog : CatalogIndex) : List MarkdownPiece :=
  .preamble catalog.schemaVersion :: sectionOrder.flatMap (sectionPieces catalog)

/-! ### The text is the text of the pieces -/

section Text
open MarkdownPiece

@[simp] theorem textOf_cons (piece : MarkdownPiece) (pieces : List MarkdownPiece) :
    textOf (piece :: pieces) = piece.text ++ textOf pieces := by
  simp [textOf]

@[simp] theorem textOf_nil : textOf [] = "" := rfl

@[simp] theorem textOf_append (pieces pieces' : List MarkdownPiece) :
    textOf (pieces ++ pieces') = textOf pieces ++ textOf pieces' := by
  induction pieces with
  | nil => simp
  | cons piece pieces ih => simp [ih, String.append_assoc]

theorem textOf_flatMap {α : Type} (l : List α) (pieces : α → List MarkdownPiece) :
    textOf (l.flatMap pieces) = String.join (l.map fun a => textOf (pieces a)) := by
  induction l with
  | nil => rfl
  | cons a l ih => simp [ih]

theorem text_sectionHeading (kind : ArtifactKind) : (sectionHeading kind).text = "## " ++ kind.heading ++ "\n\n" := by
  cases kind <;> simp [text, lines, sectionTitle, ArtifactKind.heading]

theorem text_categoryHeading (category : String) :
    (categoryHeading category).text = "### " ++ category ++ "\n\n" := by
  simp [text, lines, String.append_assoc]

theorem text_item (artifact : CatalogArtifact) : (item artifact).text = markdownItem artifact := by
  have hname : ∀ h, (Rust.split artifact.path '/').getLast h =
      String.ofList (artifact.path.toList.rtakeWhile (· ≠ '/')) := by
    intro h
    simp only [Rust.split, List.getLast_map, Lines.getLast_splitOn]
  have hlink : ∀ rest : String, "](../" ++ rest = "](" ++ ("../" ++ rest) := fun rest => by
    rw [← String.append_assoc]
    rfl
  have hreadme : ∀ rest : String, " ([README](../" ++ rest = " ([README](" ++ ("../" ++ rest) := fun rest => by
    rw [← String.append_assoc]
    rfl
  cases hartifact : artifact.readme <;>
    simp [text, lines, itemLine, markdownItem, markdownLink, hname, hartifact, hlink, hreadme, String.append_assoc]

@[simp] theorem textOf_items (artifacts : List CatalogArtifact) :
    textOf (artifacts.map .item) = markdownItems artifacts := by
  simp [textOf, markdownItems, Function.comp_def, text_item]

theorem textOf_categoryPieces (artifacts : List CatalogArtifact) (category : String) :
    textOf (categoryPieces artifacts category) = markdownCategory artifacts category := by
  unfold categoryPieces markdownCategory
  have hblank : blank.text = "\n" := by decide
  split <;> simp [text_categoryHeading, hblank, String.append_assoc]

theorem textOf_sectionPieces (catalog : CatalogIndex) (kind : ArtifactKind) :
    textOf (sectionPieces catalog kind) = markdownSection catalog kind := by
  have hblank : blank.text = "\n" := by decide
  have hnone : none_.text = "_None._\n\n" := by decide
  simp only [sectionPieces, markdownSection, bodyPieces, textOf_cons, text_sectionHeading]
  congr 1
  split
  · simp [hnone]
  · split
    · rw [textOf_flatMap]
      simp only [textOf_categoryPieces]
    · simp [hblank]

theorem text_preamble (schemaVersion : UInt8) : (preamble schemaVersion).text =
    "# Fabric Ecosystem Catalog\n\n" ++
    "Generated by `cargo run -p fabric-ecosystem-catalog-tool -- write`.\n" ++
    "See [catalog/README.md](README.md) for the Catalog contract.\n\n" ++
    "Schema version: `" ++ toString schemaVersion.toNat ++ "`\n\n" := by
  simp only [text, lines, Lines.text_cons, Lines.text_nil, ← String.append_assoc, String.append_empty]
  simp only [String.reduceAppend, String.append_assoc]

theorem renderMarkdown_eq (catalog : CatalogIndex) : renderMarkdown catalog = textOf (markdownPieces catalog) := by
  have hsections : String.join (sectionKinds.map (markdownSection catalog)) =
      textOf (sectionOrder.flatMap (sectionPieces catalog)) := by
    simp only [textOf_flatMap, textOf_sectionPieces, sectionKinds, sectionOrder]
  unfold renderMarkdown markdownPieces
  rw [textOf_cons, text_preamble, ← hsections]

end Text

/-! ### The shown artifacts -/

/-- A missing category and an empty one are the same label. -/
def CatalogArtifact.label (artifact : CatalogArtifact) : String := artifact.category.getD ""

def CatalogIndex.ofKind (catalog : CatalogIndex) (kind : ArtifactKind) : List CatalogArtifact :=
  catalog.artifacts.filter (·.kind = kind)

/-- The labels of artifacts, each once and in order. -/
def labels (artifacts : List CatalogArtifact) : List String :=
  (TreeSet.ofList (artifacts.map CatalogArtifact.label)).toList

theorem mem_labels {artifacts : List CatalogArtifact} {category : String} :
    category ∈ labels artifacts ↔ ∃ artifact ∈ artifacts, artifact.label = category := by
  simp [labels, TreeSet.mem_toList, TreeSet.mem_ofList]

theorem pairwise_labels (artifacts : List CatalogArtifact) : (labels artifacts).Pairwise (· < ·) := by
  have hordered : (labels artifacts).Pairwise (compare · · = .lt) := TreeSet.ordered_toList
  exact hordered.imp fun h => compareOfLessAndEq_eq_lt.mp h

theorem nodup_labels (artifacts : List CatalogArtifact) : (labels artifacts).Nodup :=
  (pairwise_labels artifacts).imp fun h => ne_of_lt h

theorem mem_sectionOrder (kind : ArtifactKind) : kind ∈ sectionOrder := by
  cases kind <;> decide

@[simp] theorem shownArtifacts_append (pieces pieces' : List MarkdownPiece) :
    shownArtifacts (pieces ++ pieces') = shownArtifacts pieces ++ shownArtifacts pieces' :=
  List.filterMap_append

@[simp] theorem shownArtifacts_items (artifacts : List CatalogArtifact) :
    shownArtifacts (artifacts.map .item) = artifacts := by
  rw [shownArtifacts, List.filterMap_map]
  exact List.filterMap_some

theorem shownArtifacts_flatMap {α : Type} (l : List α) (pieces : α → List MarkdownPiece) :
    shownArtifacts (l.flatMap pieces) = l.flatMap fun a => shownArtifacts (pieces a) :=
  List.filterMap_flatMap

theorem shownArtifacts_categoryPieces (artifacts : List CatalogArtifact) (category : String) :
    shownArtifacts (categoryPieces artifacts category) = artifacts.filter (·.label = category) := by
  unfold categoryPieces
  rw [shownArtifacts_append, shownArtifacts_append, shownArtifacts_items]
  split <;> exact List.append_nil _

/-- Without a category anywhere, all labels are empty. -/
theorem label_eq_empty {artifacts : List CatalogArtifact} (hnone : ¬artifacts.any (·.category.isSome) = true)
    {artifact : CatalogArtifact} (hmem : artifact ∈ artifacts) : artifact.label = "" := by
  cases hcategory : artifact.category with
  | none => rw [CatalogArtifact.label, hcategory, Option.getD_none]
  | some category =>
    exact absurd (List.any_eq_true.mpr ⟨artifact, hmem, by rw [hcategory, Option.isSome_some]⟩) hnone

/-- Both branches of a section show its artifacts label by label. -/
theorem shownArtifacts_bodyPieces (artifacts : List CatalogArtifact) :
    shownArtifacts (bodyPieces artifacts) = group (labels artifacts) CatalogArtifact.label artifacts := by
  unfold bodyPieces
  split
  · rename_i hempty
    rw [List.isEmpty_iff.mp hempty]
    rfl
  · rename_i hsome
    split
    · rw [shownArtifacts_flatMap]
      exact List.flatMap_congr fun category _ => shownArtifacts_categoryPieces artifacts category
    · rename_i hnone
      obtain ⟨artifact, hmem⟩ := List.exists_mem_of_ne_nil artifacts fun h => hsome (List.isEmpty_iff.mpr h)
      have hfirst : "" ∈ labels artifacts := mem_labels.mpr ⟨artifact, hmem, label_eq_empty hnone hmem⟩
      rw [group_eq_self (nodup_labels _) hfirst fun _ => label_eq_empty hnone, shownArtifacts_append,
        shownArtifacts_items]
      exact List.append_nil artifacts

theorem shownArtifacts_sectionPieces (catalog : CatalogIndex) (kind : ArtifactKind) :
    shownArtifacts (sectionPieces catalog kind) =
      group (labels (catalog.ofKind kind)) CatalogArtifact.label (catalog.ofKind kind) :=
  shownArtifacts_bodyPieces (catalog.ofKind kind)

/-- The kinds and labels of a catalog in the order of the view. -/
def viewKeys (catalog : CatalogIndex) : List (ArtifactKind × String) :=
  sectionOrder.flatMap fun kind => (labels (catalog.ofKind kind)).map (Prod.mk kind)

def CatalogArtifact.viewKey (artifact : CatalogArtifact) : ArtifactKind × String := (artifact.kind, artifact.label)

theorem shownArtifacts_markdownPieces (catalog : CatalogIndex) :
    shownArtifacts (markdownPieces catalog) =
      group (viewKeys catalog) CatalogArtifact.viewKey catalog.artifacts := by
  have hgroups := group_pairs sectionOrder (fun kind => labels (catalog.ofKind kind)) CatalogArtifact.kind
    CatalogArtifact.label catalog.artifacts
  refine Eq.trans ?_ hgroups.symm
  refine (shownArtifacts_flatMap sectionOrder (sectionPieces catalog)).trans ?_
  exact List.flatMap_congr fun kind _ => shownArtifacts_sectionPieces catalog kind

theorem viewKey_mem_viewKeys {catalog : CatalogIndex} {artifact : CatalogArtifact}
    (hmem : artifact ∈ catalog.artifacts) : artifact.viewKey ∈ viewKeys catalog := by
  have hkind : artifact ∈ catalog.ofKind artifact.kind := List.mem_filter.mpr ⟨hmem, decide_eq_true rfl⟩
  exact List.mem_flatMap.mpr ⟨_, mem_sectionOrder _, List.mem_map_of_mem (mem_labels.mpr ⟨artifact, hkind, rfl⟩)⟩

/-- The order of the view: by section, and within a section by label. -/
def KeyBefore (left right : ArtifactKind × String) : Prop :=
  sectionOrder.idxOf left.1 < sectionOrder.idxOf right.1 ∨ left.1 = right.1 ∧ left.2 < right.2

theorem pairwise_viewKeys (catalog : CatalogIndex) : (viewKeys catalog).Pairwise KeyBefore := by
  have hkinds : sectionOrder.Pairwise fun left right => sectionOrder.idxOf left < sectionOrder.idxOf right := by decide
  refine List.pairwise_flatMap.mpr ⟨fun kind _ => ?_, hkinds.imp fun {left right} hbefore => ?_⟩
  · exact List.pairwise_map.mpr ((pairwise_labels _).imp fun hlabel => .inr ⟨rfl, hlabel⟩)
  · intro first hfirst second hsecond
    obtain ⟨_, _, rfl⟩ := List.mem_map.mp hfirst
    obtain ⟨_, _, rfl⟩ := List.mem_map.mp hsecond
    exact .inl hbefore

theorem nodup_viewKeys (catalog : CatalogIndex) : (viewKeys catalog).Nodup := by
  refine (pairwise_viewKeys catalog).imp fun {left right} hbefore heq => ?_
  subst heq
  rcases hbefore with hkind | ⟨-, hlabel⟩
  · exact lt_irrefl _ hkind
  · exact lt_irrefl _ hlabel

/-! ### One section -/

theorem mem_categoryPieces {artifacts : List CatalogArtifact} {category : String} {piece : MarkdownPiece} :
    piece ∈ categoryPieces artifacts category ↔
      (category ≠ "" ∧ piece = .categoryHeading category) ∨
        (∃ artifact ∈ artifacts, artifact.label = category ∧ .item artifact = piece) ∨ piece = .blank := by
  unfold categoryPieces
  by_cases hempty : category = ""
  · simp [hempty, CatalogArtifact.label, and_assoc]
  · simp [hempty, CatalogArtifact.label, and_assoc]

/-- The empty marker stands in a section without artifacts, and in no other. -/
theorem none_mem_bodyPieces {artifacts : List CatalogArtifact} :
    .none_ ∈ bodyPieces artifacts ↔ artifacts = [] := by
  unfold bodyPieces
  split
  · rename_i hempty
    simp [List.isEmpty_iff.mp hempty]
  · rename_i hsome
    have hne : artifacts ≠ [] := fun h => hsome (List.isEmpty_iff.mpr h)
    split
    · simp [hne, mem_categoryPieces]
    · simp [hne]

theorem label_eq_iff {artifact : CatalogArtifact} {category : String} (hne : category ≠ "") :
    artifact.label = category ↔ artifact.category = some category := by
  cases hcategory : artifact.category with
  | none => simp [CatalogArtifact.label, hcategory, hne.symm]
  | some other => simp [CatalogArtifact.label, hcategory]

/-- Where a category has a heading, the body is grouped. -/
theorem bodyPieces_of_category {artifacts : List CatalogArtifact} {artifact : CatalogArtifact} {category : String}
    (hmem : artifact ∈ artifacts) (hcategory : artifact.category = some category) :
    bodyPieces artifacts = (labels artifacts).flatMap (categoryPieces artifacts) := by
  have hany : artifacts.any (·.category.isSome) = true :=
    List.any_eq_true.mpr ⟨artifact, hmem, by rw [hcategory, Option.isSome_some]⟩
  have hsome : ¬artifacts.isEmpty = true := fun hempty => by
    rw [List.isEmpty_iff.mp hempty] at hmem
    cases hmem
  rw [bodyPieces, if_neg hsome, if_pos hany]
  rfl

/-- The headings are the nonempty categories of the artifacts. -/
theorem categoryHeading_mem_bodyPieces {artifacts : List CatalogArtifact} {category : String} :
    .categoryHeading category ∈ bodyPieces artifacts ↔
      category ≠ "" ∧ ∃ artifact ∈ artifacts, artifact.category = some category := by
  constructor
  · intro hheading
    unfold bodyPieces at hheading
    split at hheading
    · simp at hheading
    · split at hheading
      · obtain ⟨label, hlabel, hpiece⟩ := List.mem_flatMap.mp hheading
        rcases mem_categoryPieces.mp hpiece with ⟨hne, heq⟩ | ⟨_, _, _, heq⟩ | heq
        · cases heq
          obtain ⟨artifact, hmem, hartifact⟩ := mem_labels.mp hlabel
          exact ⟨hne, artifact, hmem, (label_eq_iff hne).mp hartifact⟩
        · cases heq
        · cases heq
      · simp at hheading
  · intro ⟨hne, artifact, hmem, hcategory⟩
    rw [bodyPieces_of_category hmem hcategory]
    have hlabel : category ∈ labels artifacts := mem_labels.mpr ⟨artifact, hmem, (label_eq_iff hne).mpr hcategory⟩
    exact List.mem_flatMap.mpr ⟨category, hlabel, mem_categoryPieces.mpr (.inl ⟨hne, rfl⟩)⟩

theorem categoryHeading_mem_categories {artifacts : List CatalogArtifact} {category : String} {categories : List String}
    (hcategory : category ∉ categories) :
    MarkdownPiece.categoryHeading category ∉ categories.flatMap (categoryPieces artifacts) := by
  intro hheading
  obtain ⟨label, hlabel, hpiece⟩ := List.mem_flatMap.mp hheading
  rcases mem_categoryPieces.mp hpiece with ⟨-, heq⟩ | ⟨_, _, _, heq⟩ | heq
  · cases heq
    exact hcategory hlabel
  · cases heq
  · cases heq

/-- A heading stands once, directly over the items of its category. -/
theorem bodyPieces_at_heading {artifacts : List CatalogArtifact} {category : String}
    (hheading : .categoryHeading category ∈ bodyPieces artifacts) :
    ∃ before after : List MarkdownPiece,
      bodyPieces artifacts = before ++ .categoryHeading category ::
        (artifacts.filter (·.category = some category)).map .item ++ .blank :: after ∧
      .categoryHeading category ∉ before ∧ .categoryHeading category ∉ after := by
  obtain ⟨hne, artifact, hmem, hcategory⟩ := categoryHeading_mem_bodyPieces.mp hheading
  have hlabel : category ∈ labels artifacts := mem_labels.mpr ⟨artifact, hmem, (label_eq_iff hne).mpr hcategory⟩
  obtain ⟨lower, higher, hsplit⟩ := List.append_of_mem hlabel
  have hnodup : (lower ++ category :: higher).Nodup := hsplit ▸ nodup_labels artifacts
  obtain ⟨hhigher, hlower⟩ : category ∉ higher ∧ category ∉ lower := by
    rw [List.nodup_middle, List.nodup_cons, List.mem_append, not_or] at hnodup
    exact hnodup.1.symm
  refine ⟨lower.flatMap (categoryPieces artifacts), higher.flatMap (categoryPieces artifacts), ?_,
    categoryHeading_mem_categories hlower, categoryHeading_mem_categories hhigher⟩
  have hitems : artifacts.filter (·.category = some category) =
      artifacts.filter fun artifact => artifact.category.getD "" == category :=
    List.filter_congr fun other _ => decide_eq_decide.mpr (label_eq_iff hne).symm
  have hpieces : categoryPieces artifacts category = .categoryHeading category ::
      (artifacts.filter (·.category = some category)).map .item ++ [.blank] := by
    rw [categoryPieces, if_neg (by simpa using hne), hitems, List.singleton_append]
  rw [bodyPieces_of_category hmem hcategory, hsplit, List.flatMap_append, List.flatMap_cons, hpieces]
  simp

theorem sectionHeading_not_mem_bodyPieces (artifacts : List CatalogArtifact) (kind : ArtifactKind) :
    .sectionHeading kind ∉ bodyPieces artifacts := by
  unfold bodyPieces
  split
  · simp
  · split
    · simp [mem_categoryPieces]
    · simp

/-- A section: its heading, its artifacts, the marker if it has none, and each category under its own heading. -/
structure ExactSection (catalog : CatalogIndex) (kind : ArtifactKind) (pieces : List MarkdownPiece) : Prop where
  heading : ∃ body, pieces = .sectionHeading kind :: body ∧ ∀ other, .sectionHeading other ∉ body
  artifacts : (shownArtifacts pieces).Perm (catalog.ofKind kind)
  marker : .none_ ∈ pieces ↔ ∀ artifact ∈ catalog.artifacts, artifact.kind ≠ kind
  categories : ∀ category : String, .categoryHeading category ∈ pieces ↔
    category ≠ "" ∧ ∃ artifact ∈ catalog.ofKind kind, artifact.category = some category
  below : ∀ category : String, .categoryHeading category ∈ pieces → ∃ before after : List MarkdownPiece,
    pieces = before ++ .categoryHeading category ::
      ((catalog.ofKind kind).filter (·.category = some category)).map .item ++ .blank :: after ∧
    .categoryHeading category ∉ before ∧ .categoryHeading category ∉ after

theorem exactSection_sectionPieces (catalog : CatalogIndex) (kind : ArtifactKind) :
    ExactSection catalog kind (sectionPieces catalog kind) where
  heading := ⟨_, rfl, fun other => sectionHeading_not_mem_bodyPieces _ other⟩
  artifacts := by
    rw [shownArtifacts_sectionPieces]
    exact perm_group (nodup_labels _) fun artifact hmem => mem_labels.mpr ⟨artifact, hmem, rfl⟩
  marker := by
    have hbody : MarkdownPiece.none_ ∈ sectionPieces catalog kind ↔ catalog.ofKind kind = [] := by
      rw [sectionPieces, List.mem_cons, or_iff_right (by simp)]
      exact none_mem_bodyPieces
    simp [hbody, CatalogIndex.ofKind]
  categories category := by
    rw [sectionPieces, List.mem_cons, or_iff_right (by simp)]
    exact categoryHeading_mem_bodyPieces
  below category hheading := by
    rw [sectionPieces, List.mem_cons, or_iff_right (by simp)] at hheading
    obtain ⟨before, after, heq, hbefore, hafter⟩ := bodyPieces_at_heading hheading
    refine ⟨.sectionHeading kind :: before, after, ?_, by simpa using hbefore, hafter⟩
    rw [sectionPieces, heq]
    rfl

/-! ### Lines -/

section Lines
open MarkdownPiece

/-- The lines of a text that begin with `start`. -/
def linesFrom (start : String) (text : String) : List String :=
  ((text.toList.splitOn '\n').filter (start.toList.isPrefixOf ·)).map String.ofList

/-- No text of the artifact breaks its line. -/
def CatalogArtifact.OneLine (artifact : CatalogArtifact) : Prop :=
  ∀ text ∈ artifact.path :: artifact.description :: (artifact.readme.toList ++ artifact.category.toList),
    '\n' ∉ text.toList

instance (artifact : CatalogArtifact) : Decidable artifact.OneLine := inferInstanceAs (Decidable (∀ _ ∈ _, _))

theorem toList_textOf (pieces : List MarkdownPiece) :
    (textOf pieces).toList = ((pieces.flatMap lines).map String.toList).flatMap (· ++ ['\n']) := by
  induction pieces with
  | nil => rfl
  | cons piece pieces ih => simp [ih, MarkdownPiece.text, Lines.toList_text]

theorem linesFrom_textOf {start : String} (hstart : start.toList ≠ []) {pieces : List MarkdownPiece}
    (h : ∀ piece ∈ pieces, ∀ line ∈ piece.lines, '\n' ∉ line.toList) :
    linesFrom start (textOf pieces) = (pieces.flatMap lines).filter (start.toList.isPrefixOf ·.toList) := by
  have hlines : ∀ line ∈ (pieces.flatMap lines).map String.toList, '\n' ∉ line := by
    intro line hline
    obtain ⟨text, htext, rfl⟩ := List.mem_map.mp hline
    obtain ⟨piece, hpiece, hmem⟩ := List.mem_flatMap.mp htext
    exact h piece hpiece text hmem
  have hempty : start.toList.isPrefixOf [] = false := by
    cases hlist : start.toList with
    | nil => exact absurd hlist hstart
    | cons c rest => rfl
  rw [linesFrom, toList_textOf, Lines.splitOn_flatMap hlines]
  simp [List.filter_append, hempty, List.filter_map, Function.comp_def]

/-- Where the lines that begin alike are those of one kind of piece. -/
theorem filter_lines {α : Type} {begins : String → Bool} {select : MarkdownPiece → Option α} {line : α → String}
    (h : ∀ piece, piece.lines.filter begins = (select piece).toList.map line) (pieces : List MarkdownPiece) :
    (pieces.flatMap lines).filter begins = (pieces.filterMap select).map line := by
  induction pieces with
  | nil => rfl
  | cons piece pieces ih =>
    rw [List.flatMap_cons, List.filter_append, ih, h, List.filterMap_cons]
    cases select piece <;> rfl

theorem filter_lines_kind (piece : MarkdownPiece) :
    piece.lines.filter ("## ".toList.isPrefixOf ·.toList) = piece.kind?.toList.map sectionTitle := by
  cases piece with
  | preamble schemaVersion => simp [lines, kind?]
  | sectionHeading kind => cases kind <;> rfl
  | none_ => rfl
  | categoryHeading category => simp [lines, kind?]
  | item artifact => simp [lines, kind?, itemLine]
  | blank => rfl

theorem filter_lines_category (piece : MarkdownPiece) :
    piece.lines.filter ("### ".toList.isPrefixOf ·.toList) = piece.category?.toList.map ("### " ++ ·) := by
  cases piece with
  | preamble schemaVersion => simp [lines, category?]
  | sectionHeading kind => cases kind <;> rfl
  | none_ => rfl
  | categoryHeading category => simp [lines, category?]
  | item artifact => simp [lines, category?, itemLine]
  | blank => rfl

theorem filter_lines_artifact (piece : MarkdownPiece) :
    piece.lines.filter ("- [".toList.isPrefixOf ·.toList) = piece.artifact?.toList.map itemLine := by
  cases piece with
  | preamble schemaVersion => simp [lines, artifact?]
  | sectionHeading kind => cases kind <;> rfl
  | none_ => rfl
  | categoryHeading category => simp [lines, artifact?]
  | item artifact => simp [lines, artifact?, itemLine]
  | blank => rfl

theorem lines_clean {piece : MarkdownPiece} (hartifact : ∀ artifact, piece.artifact? = some artifact → artifact.OneLine)
    (hcategory : ∀ category, piece.category? = some category → '\n' ∉ category.toList) :
    ∀ line ∈ piece.lines, '\n' ∉ line.toList := by
  cases piece with
  | preamble schemaVersion =>
    have hversion : '\n' ∉ (toString schemaVersion.toNat).toList := by
      intro hmem
      rw [Nat.toString_eq_ofList_toDigits, String.toList_ofList] at hmem
      exact absurd (Nat.isDigit_of_mem_toDigits (by decide) (by decide) hmem) (by decide)
    simpa [lines] using hversion
  | sectionHeading kind =>
    cases kind <;> decide
  | none_ => decide
  | categoryHeading category => simpa [lines] using hcategory category rfl
  | item artifact =>
    have hone := hartifact artifact rfl
    have hpath : '\n' ∉ artifact.path.toList := hone _ (by simp)
    have hdescription : '\n' ∉ artifact.description.toList := hone _ (by simp)
    have hname : '\n' ∉ artifact.path.toList.rtakeWhile (fun c => !decide (c = '/')) :=
      fun hmem => hpath ((List.rtakeWhile_suffix _ _).subset hmem)
    have hreadme : ∀ readme, artifact.readme = some readme → '\n' ∉ readme.toList := by
      intro readme heq
      exact hone readme (by simp [heq])
    cases hsome : artifact.readme with
    | none => simpa [lines, itemLine, hsome] using ⟨hname, hpath, hdescription⟩
    | some readme => simpa [lines, itemLine, hsome] using ⟨hname, hpath, hdescription, hreadme readme hsome⟩
  | blank => decide

end Lines

/-! ### The view -/

/-- The view of a catalog: its sections, and each artifact once and in its place. -/
structure ExactView (catalog : CatalogIndex) (view : List MarkdownPiece) : Prop where
  text : renderMarkdown catalog = textOf view
  sections : ∃ pieces : ArtifactKind → List MarkdownPiece,
    view = .preamble catalog.schemaVersion :: sectionOrder.flatMap pieces ∧
      ∀ kind : ArtifactKind, kind ∈ sectionOrder ∧ ExactSection catalog kind (pieces kind)
  once : (shownArtifacts view).Perm catalog.artifacts
  ordered : (shownArtifacts view).Pairwise fun left right =>
    left.viewKey = right.viewKey ∨ KeyBefore left.viewKey right.viewKey
  uncategorizedFirst : (shownArtifacts view).Pairwise fun left right =>
    left.kind = right.kind → right.label = "" → left.label = ""
  stable : ∀ key : ArtifactKind × String, (shownArtifacts view).filter (·.viewKey = key) =
    catalog.artifacts.filter (·.viewKey = key)
  /-- Where no text breaks its line, the pieces can be read off the lines of the view. -/
  lines : (∀ artifact ∈ catalog.artifacts, artifact.OneLine) →
    linesFrom "## " (renderMarkdown catalog) = sectionOrder.map sectionTitle ∧
      linesFrom "### " (renderMarkdown catalog) = (view.filterMap MarkdownPiece.category?).map ("### " ++ ·) ∧
      linesFrom "- [" (renderMarkdown catalog) = (shownArtifacts view).map itemLine

theorem label_of_keyBefore {left right : CatalogArtifact}
    (h : left.viewKey = right.viewKey ∨ KeyBefore left.viewKey right.viewKey) (hkind : left.kind = right.kind)
    (hlabel : right.label = "") : left.label = "" := by
  rcases h with heq | hsection | ⟨-, hbefore⟩
  · exact (congrArg Prod.snd heq).trans hlabel
  · have hindex : sectionOrder.idxOf left.kind < sectionOrder.idxOf right.kind := hsection
    rw [hkind] at hindex
    exact absurd hindex (lt_irrefl _)
  · have hless : left.label < "" := hlabel ▸ hbefore
    exact absurd (String.lt_iff_toList_lt.mp hless) (List.not_lt_nil _)

theorem kinds_markdownPieces (catalog : CatalogIndex) :
    (markdownPieces catalog).filterMap MarkdownPiece.kind? = sectionOrder := by
  have hsection : ∀ kind, (sectionPieces catalog kind).filterMap MarkdownPiece.kind? = [kind] := by
    intro kind
    have hbody : (bodyPieces (catalog.ofKind kind)).filterMap MarkdownPiece.kind? = [] := by
      refine List.filterMap_eq_nil_iff.mpr fun piece hpiece => ?_
      cases piece with
      | sectionHeading other => exact absurd hpiece (sectionHeading_not_mem_bodyPieces _ other)
      | _ => rfl
    exact congrArg (kind :: ·) hbody
  have hsections : (markdownPieces catalog).filterMap MarkdownPiece.kind? =
      sectionOrder.flatMap fun kind => (sectionPieces catalog kind).filterMap MarkdownPiece.kind? :=
    List.filterMap_flatMap
  simp only [hsections, hsection]
  rfl

theorem lines_markdownPieces {catalog : CatalogIndex} (h : ∀ artifact ∈ catalog.artifacts, artifact.OneLine) :
    ∀ piece ∈ markdownPieces catalog, ∀ line ∈ piece.lines, '\n' ∉ line.toList := by
  intro piece hpiece
  refine lines_clean (fun artifact hartifact => ?_) fun category hcategory => ?_
  · have hshown : artifact ∈ shownArtifacts (markdownPieces catalog) :=
      List.mem_filterMap.mpr ⟨piece, hpiece, hartifact⟩
    rw [shownArtifacts_markdownPieces] at hshown
    exact h artifact (mem_group.mp hshown).2
  · have hheading : piece = .categoryHeading category := by
      cases piece <;> cases hcategory
      rfl
    subst hheading
    rcases List.mem_cons.mp hpiece with heq | hpiece
    · cases heq
    · obtain ⟨kind, -, hmem⟩ := List.mem_flatMap.mp hpiece
      obtain ⟨-, artifact, hkind, hartifact⟩ := ((exactSection_sectionPieces catalog kind).categories category).mp hmem
      exact h artifact (List.mem_filter.mp hkind).1 category (by simp [hartifact])

theorem linesFrom_renderMarkdown {catalog : CatalogIndex} (h : ∀ artifact ∈ catalog.artifacts, artifact.OneLine) :
    linesFrom "## " (renderMarkdown catalog) = sectionOrder.map sectionTitle ∧
      linesFrom "### " (renderMarkdown catalog) =
        ((markdownPieces catalog).filterMap MarkdownPiece.category?).map ("### " ++ ·) ∧
      linesFrom "- [" (renderMarkdown catalog) = (shownArtifacts (markdownPieces catalog)).map itemLine := by
  have hclean := lines_markdownPieces h
  rw [renderMarkdown_eq, linesFrom_textOf (by decide) hclean, linesFrom_textOf (by decide) hclean,
    linesFrom_textOf (by decide) hclean, filter_lines filter_lines_kind, filter_lines filter_lines_category,
    filter_lines filter_lines_artifact, kinds_markdownPieces]
  exact ⟨rfl, rfl, rfl⟩

/-- The view shows every artifact once and in its place, whether or not the catalog is valid. -/
theorem exactView_renderMarkdown (catalog : CatalogIndex) : ∃ view, ExactView catalog view := by
  have hordered : (shownArtifacts (markdownPieces catalog)).Pairwise fun left right =>
      left.viewKey = right.viewKey ∨ KeyBefore left.viewKey right.viewKey := by
    rw [shownArtifacts_markdownPieces]
    exact pairwise_group (pairwise_viewKeys catalog) _ _
  have hsections : ∀ kind : ArtifactKind,
      kind ∈ sectionOrder ∧ ExactSection catalog kind (sectionPieces catalog kind) :=
    fun kind => ⟨mem_sectionOrder kind, exactSection_sectionPieces catalog kind⟩
  refine ⟨markdownPieces catalog, renderMarkdown_eq catalog, ⟨sectionPieces catalog, rfl, hsections⟩, ?_, hordered,
    hordered.imp fun h => label_of_keyBefore h, fun key => ?_, linesFrom_renderMarkdown⟩
  · rw [shownArtifacts_markdownPieces]
    exact perm_group (nodup_viewKeys catalog) fun _ => viewKey_mem_viewKeys
  · rw [shownArtifacts_markdownPieces]
    exact filter_group (nodup_viewKeys catalog) (fun _ => viewKey_mem_viewKeys) key

/-- Two packages under one category and one under none, a host without a category, and no other artifact. -/
def mixed : CatalogIndex where
  schemaVersion := currentSchemaVersion
  artifacts := [
    ⟨.package, some "data", "packages/data/sqlite", "sqlite", "0.1.0", "SQLite", true, none, {}⟩,
    ⟨.package, none, "packages/core", "core", "0.1.0", "Core", true, some "packages/core/README.md", {}⟩,
    ⟨.host, none, "hosts/linux", "linux", "0.1.0", "Linux", true, none, {}⟩,
    ⟨.package, some "data", "packages/data/key-value", "key-value", "0.1.0", "Key-value", true, none, {}⟩]

theorem exactView_renderMarkdown_mixed : ∃ view, ExactView mixed view ∧ (shownArtifacts view).map itemLine =
    ["- [core](../packages/core) — Core ([README](../packages/core/README.md))",
      "- [sqlite](../packages/data/sqlite) — SQLite",
      "- [key-value](../packages/data/key-value) — Key-value",
      "- [linux](../hosts/linux) — Linux"] := by
  obtain ⟨view, hview⟩ := exactView_renderMarkdown mixed
  have hone : ∀ artifact ∈ mixed.artifacts, artifact.OneLine := by decide
  have hitems := (hview.lines hone).2.2.symm.trans (linesFrom_renderMarkdown hone).2.2
  exact ⟨view, hview, hitems.trans (by decide +kernel)⟩

end Fabric.Catalog
