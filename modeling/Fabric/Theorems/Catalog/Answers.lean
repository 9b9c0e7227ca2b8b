import Fabric.Library.Lines
import Fabric.Theorems.Catalog.Query
import Fabric.Theorems.Catalog.Tool

/-! What the tool prints. Once `write` has written the JSON document, each later run of the tool answers from the list
    of artifacts of the workspace, line by line. -/

namespace Fabric.Catalog
open Rust

/-! ### What a command is to print -/

def summaryLine (artifact : CatalogArtifact) : String :=
  kindWord artifact.kind ++ "  " ++ artifact.path ++ "  " ++ artifact.cargoPackage

/-- Paths under a label, each further in than the label. -/
def groupLines (indent label : String) (paths : List String) : List String :=
  (indent ++ label ++ ":") :: paths.map fun path => indent ++ "  " ++ path

def dependencyLines (dependencies : CatalogDependencies) : List String :=
  groupLines "  " "normal" dependencies.normal ++ groupLines "  " "development" dependencies.development ++
    groupLines "  " "build" dependencies.build

def dependentLines (normal development build : List CatalogArtifact) : List String :=
  groupLines "" "normal" (normal.map (·.path)) ++ groupLines "" "development" (development.map (·.path)) ++
    groupLines "" "build" (build.map (·.path))

def showLines (artifact : CatalogArtifact) : List String :=
  ["kind: " ++ kindWord artifact.kind] ++ artifact.category.toList.map ("category: " ++ ·) ++
    ["path: " ++ artifact.path, "cargo package: " ++ artifact.cargoPackage, "version: " ++ artifact.version,
      "description: " ++ artifact.description,
      "publishable: " ++ if artifact.publishable then "true" else "false"] ++
    artifact.readme.toList.map ("README: " ++ ·) ++ ["Cargo dependencies:"] ++ dependencyLines artifact.dependencies

namespace CatalogIndex
variable (index : CatalogIndex)

/-- What a query is to print about an index, read off its list of artifacts. -/
def answer : Command → Except CatalogError (List String)
  | .write | .check => .ok []
  | .validate => .ok ["Catalog v" ++ toString index.schemaVersion.toNat ++ " valid: " ++
      toString index.artifacts.length ++ " artifacts"]
  | .list => .ok (index.artifacts.map summaryLine)
  | .listKind kind => .ok ((index.artifacts.filter (·.kind = kind)).map summaryLine)
  | .listCategory category => .ok ((index.artifacts.filter (·.category = some category)).map summaryLine)
  | .show_ path =>
    match index.artifacts.find? (·.path = path) with
    | some artifact => .ok (showLines artifact)
    | none => .error ⟨"artifact path not found: " ++ path⟩
  | .showPackage cargoPackage =>
    match index.artifacts.find? (·.cargoPackage = cargoPackage) with
    | some artifact => .ok (showLines artifact)
    | none => .error ⟨"Cargo package not found: " ++ cargoPackage⟩
  | .deps path =>
    match index.artifacts.find? (·.path = path) with
    | some artifact => .ok (dependencyLines artifact.dependencies)
    | none => .error ⟨"artifact path not found: " ++ path⟩
  | .dependents path =>
    match index.artifacts.find? (·.path = path) with
    | some _ => .ok (dependentLines (index.artifacts.filter (path ∈ ·.dependencies.normal))
        (index.artifacts.filter (path ∈ ·.dependencies.development))
        (index.artifacts.filter (path ∈ ·.dependencies.build)))
    | none => .error ⟨"artifact path not found: " ++ path⟩

/-- How a run that does not write is to end and what its output is to take, where `checked` is what `check` says. -/
inductive Outcome (checked : Except CatalogError Unit) (invocation : Invocation) :
    Except QueryFault Unit × Bytes → Prop
  /-- An argument is not Unicode. -/
  | notUnicode {arg : OsString} (hmem : arg ∈ invocation.argv) (h : ∀ word, arg ≠ osString word) :
      Outcome checked invocation (.error .panic, [])
  | usage {words : List String} (hargv : invocation.argv = words.map osString)
      (h : ∀ command : Command, words.tail ≠ command.args) :
      Outcome checked invocation (.error (.error (usageError words.tail)), [])
  | check {words : List String} (hargv : invocation.argv = words.map osString) (h : words.tail = Command.check.args) :
      Outcome checked invocation (checked.mapError .error, [])
  | notFound {words : List String} {command : Command} {error : CatalogError}
      (hargv : invocation.argv = words.map osString) (h : words.tail = command.args)
      (hanswer : index.answer command = .error error) : Outcome checked invocation (.error (.error error), [])
  | printed {words lines : List String} {command : Command} (hargv : invocation.argv = words.map osString)
      (h : words.tail = command.args) (hcheck : command ≠ .check) (hanswer : index.answer command = .ok lines)
      (hprint : invocation.stdout = .taken ∨ lines = []) :
      Outcome checked invocation (.ok (), asBytes (Lines.text lines))
  /-- The output refuses the text. -/
  | refused {words lines : List String} {command : Command} {count : Nat}
      (hargv : invocation.argv = words.map osString) (h : words.tail = command.args) (hcheck : command ≠ .check)
      (hanswer : index.answer command = .ok lines) (hprint : invocation.stdout = .refused count) (hne : lines ≠ []) :
      Outcome checked invocation (.error .panic, (asBytes (Lines.text lines)).take count)

end CatalogIndex

/-! ### The texts are those lines -/

theorem artifactKindLabel_eq (kind : ArtifactKind) : artifactKindLabel kind = kindWord kind := by
  cases kind <;> rfl

theorem renderList_eq (artifacts : List CatalogArtifact) :
    renderList artifacts = Lines.text (artifacts.map summaryLine) := by
  induction artifacts with
  | nil => rfl
  | cons artifact rest ih =>
    rw [List.map_cons, Lines.text_cons, ← ih, renderList, List.map_cons, String.join_cons]
    simp only [artifactSummary, summaryLine, artifactKindLabel_eq, renderList]

/-- Lines with one beginning. -/
theorem text_map_prefix (before : String) (paths : List String) :
    Lines.text (paths.map (before ++ ·)) = String.join (paths.map fun path => before ++ path ++ "\n") := by
  simp only [Lines.text, List.map_map, Function.comp_def]

theorem dependencyGroup_eq (label : String) (paths : List String) :
    dependencyGroup label paths = Lines.text (groupLines "  " label paths) := by
  have hindent : "  " ++ "  " = "    " := by decide
  have hcolon : ":" ++ "\n" = ":\n" := by decide
  rw [groupLines, hindent, Lines.text_cons, text_map_prefix, dependencyGroup]
  simp only [String.append_assoc, ← hcolon]

theorem dependencyGroups_eq (dependencies : CatalogDependencies) :
    dependencyGroups dependencies = Lines.text (dependencyLines dependencies) := by
  simp only [dependencyGroups, dependencyLines, Lines.text_append, dependencyGroup_eq]

theorem renderShow_eq (artifact : CatalogArtifact) : renderShow artifact = Lines.text (showLines artifact) := by
  have hpublishable : toString artifact.publishable = if artifact.publishable then "true" else "false" := by
    cases artifact.publishable <;> rfl
  have hheader : "Cargo dependencies:\n" = "Cargo dependencies:" ++ "\n" := by decide
  unfold renderShow showLines
  rw [hpublishable, dependencyGroups_eq, artifactKindLabel_eq, hheader]
  cases artifact.category <;> cases artifact.readme <;> simp [-String.reduceAppend, String.append_assoc]

theorem renderDependents_eq (dependents : List CargoDependent) :
    renderDependents dependents = Lines.text (dependentLines
      ((dependents.filter (·.kind = .normal)).map (·.artifact))
      ((dependents.filter (·.kind = .development)).map (·.artifact))
      ((dependents.filter (·.kind = .build)).map (·.artifact))) := by
  have hgroup : ∀ (label : String) (found : List CargoDependent),
      Lines.text (groupLines "" label ((found.map (·.artifact)).map (·.path))) =
        label ++ ":\n" ++ String.join (found.map fun dependent => "  " ++ dependent.artifact.path ++ "\n") := by
    intro label found
    have hcolon : ":" ++ "\n" = ":\n" := by decide
    rw [groupLines, Lines.text_cons, String.empty_append, String.empty_append, text_map_prefix, ← hcolon]
    simp only [List.map_map, Function.comp_def, String.append_assoc]
  simp only [dependentLines, Lines.text_append, hgroup, renderDependents, DependencyKind.all, List.map_cons,
    List.map_nil, String.join_cons, String.join_nil, String.append_empty, String.append_assoc]
  rfl

/-! ### The queries -/

section
variable {index : CatalogIndex}

/-- A lookup that is exact is a search of the list. -/
theorem ExactLookup.eq_find? {artifacts : List CatalogArtifact} {lookup : String → Except QueryFault CatalogArtifact}
    {key : CatalogArtifact → String} {notFound : String → CatalogError}
    (h : ExactLookup artifacts lookup key notFound) (k : String) :
    lookup k = match artifacts.find? (key · = k) with
      | some artifact => .ok artifact
      | none => .error (.error (notFound k)) := by
  rcases hfind : artifacts.find? (key · = k) with _ | artifact
  · refine (h.absent k _).mpr ⟨fun hmem => ?_, rfl⟩
    obtain ⟨artifact, hartifact, hkey⟩ := List.mem_map.mp hmem
    exact List.find?_eq_none.mp hfind artifact hartifact (decide_eq_true hkey)
  · exact (h.found k artifact).mpr ⟨List.mem_of_find?_eq_some hfind, by simpa using List.find?_some hfind⟩

/-- Of the dependents that are scanned, those of one kind are the artifacts with a dependency of that kind. -/
theorem filter_scanDependents (catalog : Catalog) (path : String) (kind : DependencyKind) :
    (catalog.scanDependents path).filter (·.kind = kind) =
      (catalog.artifacts.filter fun artifact => path ∈ kind.dependencies artifact.dependencies).map
        fun artifact => ⟨artifact, kind⟩ := by
  rw [Catalog.scanDependents, Catalog.artifacts]
  induction catalog.index.artifacts with
  | nil => rfl
  | cons artifact rest ih =>
    have hone : (((DependencyKind.all.filter fun kind => (kind.dependencies artifact.dependencies).any (· == path)).map
        fun kind => (⟨artifact, kind⟩ : CargoDependent)).filter (·.kind = kind)) =
          if path ∈ kind.dependencies artifact.dependencies then [⟨artifact, kind⟩] else [] := by
      cases kind <;> simp [DependencyKind.all, List.filter_cons] <;> split_ifs <;> simp_all
    rw [List.flatMap_cons, List.filter_append, ih, hone, List.filter_cons]
    split_ifs <;> simp_all

theorem map_filter_scanDependents (catalog : Catalog) (path : String) (kind : DependencyKind) :
    ((catalog.scanDependents path).filter (·.kind = kind)).map (·.artifact) =
      catalog.artifacts.filter fun artifact => path ∈ kind.dependencies artifact.dependencies := by
  rw [filter_scanDependents, List.map_map]
  exact List.map_id _

theorem renderDependents_scan (catalog : Catalog) (path : String) :
    renderDependents (catalog.scanDependents path) = Lines.text (dependentLines
      (catalog.artifacts.filter (path ∈ ·.dependencies.normal))
      (catalog.artifacts.filter (path ∈ ·.dependencies.development))
      (catalog.artifacts.filter (path ∈ ·.dependencies.build))) := by
  rw [renderDependents_eq]
  simp only [map_filter_scanDependents]
  rfl

/-- What a query presents is an answer, a text of lines. -/
def presented (answer : Except CatalogError (List String)) : Except QueryFault String :=
  (answer.map Lines.text).mapError .error

theorem presented_showPath (hindex : Canonical index) (path : String) :
    renderShow <$> (Catalog.fromValidated index).artifactByPath path = presented (index.answer (.show_ path)) := by
  rw [(exactLookup_byPath hindex).eq_find?, CatalogIndex.answer]
  cases index.artifacts.find? (·.path = path) with
  | none => rfl
  | some artifact => exact congrArg Except.ok (renderShow_eq artifact)

theorem presented_showPackage (hindex : Canonical index) (cargoPackage : String) :
    renderShow <$> (Catalog.fromValidated index).artifactByCargoPackage cargoPackage =
      presented (index.answer (.showPackage cargoPackage)) := by
  rw [(exactLookup_byCargoPackage hindex).eq_find?, CatalogIndex.answer]
  cases index.artifacts.find? (·.cargoPackage = cargoPackage) with
  | none => rfl
  | some artifact => exact congrArg Except.ok (renderShow_eq artifact)

theorem presented_deps (hindex : Canonical index) (path : String) :
    renderDependencies <$> (Catalog.fromValidated index).directDependencies path =
      presented (index.answer (.deps path)) := by
  rw [Catalog.directDependencies, (exactLookup_byPath hindex).eq_find?, CatalogIndex.answer]
  cases index.artifacts.find? (·.path = path) with
  | none => rfl
  | some artifact => exact congrArg Except.ok (dependencyGroups_eq artifact.dependencies)

theorem presented_dependents (hindex : Canonical index) (path : String) :
    renderDependents <$> (Catalog.fromValidated index).directDependents path =
      presented (index.answer (.dependents path)) := by
  rw [CatalogIndex.answer]
  rcases hfind : index.artifacts.find? (·.path = path) with _ | artifact
  · have hpath : path ∉ index.artifacts.map (·.path) := by
      intro hmem
      obtain ⟨artifact, hartifact, hkey⟩ := List.mem_map.mp hmem
      exact List.find?_eq_none.mp hfind artifact hartifact (decide_eq_true hkey)
    rw [(directDependents_eq_error hindex).mpr ⟨hpath, rfl⟩, hfind]
    rfl
  · have hpath : path ∈ index.artifacts.map (·.path) :=
      List.mem_map.mpr ⟨artifact, List.mem_of_find?_eq_some hfind, by simpa using List.find?_some hfind⟩
    rw [(directDependents_eq_ok hindex).mpr ⟨hpath, rfl⟩, hfind]
    exact congrArg Except.ok (renderDependents_scan (Catalog.fromValidated index) path)

theorem presented_validate (index : CatalogIndex) : presented (index.answer .validate) =
    .ok ("Catalog v" ++ toString index.schemaVersion.toNat ++ " valid: " ++ toString index.artifacts.length ++
      " artifacts\n") := by
  have hend : " artifacts\n" = " artifacts" ++ "\n" := by decide
  rw [hend]
  exact congrArg Except.ok (by simp only [Lines.text_cons, Lines.text_nil, String.append_assoc, String.append_empty])

/-! ### Runs of the tool -/

/-- How a run ends that prints an answer. -/
def answered (answer : Except CatalogError (List String)) (stdout : PrintAnswer) : Except QueryFault Unit × Bytes :=
  match answer with
  | .error error => (.error (.error error), [])
  | .ok lines => print (Lines.text lines) stdout

theorem text_eq_empty {lines : List String} : Lines.text lines = "" ↔ lines = [] := by
  cases lines with
  | nil => simp
  | cons line rest => simp [String.append_eq_empty_iff]

variable {Dir : Type} {env : Environment Dir} {disk : Disk Dir}

theorem Environment.query_of_read {catalog : Catalog} {present : Catalog → Except QueryFault String}
    {answer : Except CatalogError (List String)} (hread : readCatalogFrom env.serde disk env.current = .ok catalog)
    (hpresent : present catalog = presented answer) (stdout : PrintAnswer) :
    env.query disk stdout present = ⟨(answered answer stdout).1, (answered answer stdout).2, disk⟩ := by
  rw [Environment.query, hread]
  cases answer <;> simp [hpresent, presented, Except.map, Except.mapError, answered]

/-- The arguments are those of a `write`. -/
def Invocation.Writes (invocation : Invocation) : Prop :=
  ∃ words : List String, invocation.argv = words.map osString ∧ words.tail = Command.write.args

variable [DecidableEq Dir]

/-- What a command other than `write` and `check` answers from an accepted catalog. -/
theorem Canonical.run_eq (hindex : Canonical index)
    (hread : readCatalogFrom env.serde disk env.current = .ok (Catalog.fromValidated index))
    (invocation : Invocation) {command : Command} (hwrite : command ≠ .write) (hcheck : command ≠ .check) :
    env.run disk invocation command =
      ⟨(answered (index.answer command) invocation.stdout).1, (answered (index.answer command) invocation.stdout).2,
        disk⟩ := by
  cases command with
  | write => exact absurd rfl hwrite
  | check => exact absurd rfl hcheck
  | validate =>
    rw [Environment.run]
    exact Environment.query_of_read hread (presented_validate index).symm invocation.stdout
  | list =>
    rw [Environment.run]
    exact Environment.query_of_read hread (congrArg Except.ok (renderList_eq _)) invocation.stdout
  | listKind kind =>
    rw [Environment.run]
    exact Environment.query_of_read hread (congrArg Except.ok (renderList_eq _)) invocation.stdout
  | listCategory category =>
    rw [Environment.run]
    exact Environment.query_of_read hread (congrArg Except.ok (renderList_eq _)) invocation.stdout
  | show_ path =>
    rw [Environment.run]
    exact Environment.query_of_read hread (presented_showPath hindex path) invocation.stdout
  | showPackage cargoPackage =>
    rw [Environment.run]
    exact Environment.query_of_read hread (presented_showPackage hindex cargoPackage) invocation.stdout
  | deps path =>
    rw [Environment.run]
    exact Environment.query_of_read hread (presented_deps hindex path) invocation.stdout
  | dependents path =>
    rw [Environment.run]
    exact Environment.query_of_read hread (presented_dependents hindex path) invocation.stdout

/-- An answer is printed, refused, or an error. -/
theorem outcome_answered {checked : Except CatalogError Unit} {invocation : Invocation} {words : List String}
    {command : Command} (hargv : invocation.argv = words.map osString) (hwords : words.tail = command.args)
    (hcheck : command ≠ .check) :
    index.Outcome checked invocation (answered (index.answer command) invocation.stdout) := by
  rcases hanswer : index.answer command with error | lines
  · exact .notFound hargv hwords hanswer
  · cases hstdout : invocation.stdout with
    | taken => exact .printed hargv hwords hcheck hanswer (.inl hstdout)
    | refused count =>
      by_cases hlines : lines = []
      · have hprinted : index.Outcome checked invocation (.ok (), asBytes (Lines.text lines)) :=
          .printed hargv hwords hcheck hanswer (.inr hlines)
        subst hlines
        exact hprinted
      · rw [answered, print, if_neg fun h => hlines (text_eq_empty.mp h)]
        exact .refused hargv hwords hcheck hanswer hstdout hlines

theorem Command.args_injective : Function.Injective Command.args := fun c d h =>
  Except.ok.inj ((Command.parse_args c).symm.trans ((congrArg Command.parse h).trans (Command.parse_args d)))

/-- The outcome of a command is determined. -/
theorem CatalogIndex.Outcome.eq_of_args {checked : Except CatalogError Unit} {invocation : Invocation}
    {outcome : Except QueryFault Unit × Bytes} (h : index.Outcome checked invocation outcome) {words : List String}
    (command : Command) (hargv : invocation.argv = words.map osString) (hwords : words.tail = command.args) :
    outcome = if command = .check then (checked.mapError .error, [])
      else answered (index.answer command) invocation.stdout := by
  have hsame : ∀ {words' : List String} {command' : Command}, invocation.argv = words'.map osString →
      words'.tail = command'.args → command' = command := by
    intro words' command' hargv' hwords'
    obtain rfl := List.map_injective_iff.mpr osString_injective (hargv'.symm.trans hargv)
    exact Command.args_injective (hwords'.symm.trans hwords)
  cases h with
  | @notUnicode arg hmem harg =>
    rw [hargv] at hmem
    obtain ⟨word, -, heq⟩ := List.mem_map.mp hmem
    exact absurd heq.symm (harg word)
  | usage hargv' hargs =>
    obtain rfl := List.map_injective_iff.mpr osString_injective (hargv'.symm.trans hargv)
    exact absurd hwords (hargs command)
  | check hargv' hargs => rw [if_pos (hsame hargv' hargs).symm]
  | notFound hargv' hargs hanswer =>
    obtain rfl := hsame hargv' hargs
    rw [if_neg (fun h => by subst h; cases hanswer), hanswer, answered]
  | printed hargv' hargs hcheck hanswer hprint =>
    obtain rfl := hsame hargv' hargs
    rw [if_neg hcheck, hanswer, answered]
    rcases hprint with hprint | rfl
    · rw [hprint, print]
    · cases invocation.stdout <;> rfl
  | refused hargv' hargs hcheck hanswer hprint hne =>
    obtain rfl := hsame hargv' hargs
    rw [if_neg hcheck, hanswer, answered, hprint, print, if_neg fun h => hne (text_eq_empty.mp h)]

/-- One run of the tool that does not write, on files with the JSON document of the catalog. -/
theorem Canonical.outcome_runFromEnv (hindex : Canonical index)
    (hread : readCatalogFrom env.serde disk env.current = .ok (Catalog.fromValidated index)) {invocation : Invocation}
    (hwrites : ¬invocation.Writes) :
    index.Outcome (env.runCheck disk) invocation
        ((env.runFromEnv disk invocation).result, (env.runFromEnv disk invocation).stdout) ∧
      (env.runFromEnv disk invocation).disk = disk := by
  rw [Environment.runFromEnv]
  rcases hargv : invocation.argv.mapM intoString with _ | words
  · obtain ⟨arg, hmem, harg⟩ := exists_of_mapM_intoString hargv
    exact ⟨.notUnicode hmem harg, rfl⟩
  have hwords := mapM_intoString.mp hargv
  rcases hparse : Command.parse words.tail with error | command <;> simp only [hparse, and_true]
  · obtain ⟨hargs, rfl⟩ := Command.parse_eq_error.mp hparse
    exact .usage hwords hargs
  · have hargs := Command.parse_eq_ok.mp hparse
    have hwrite : command ≠ .write := fun h => hwrites ⟨words, hwords, h ▸ hargs⟩
    by_cases hcheck : command = .check
    · subst hcheck
      exact ⟨.check hwords hargs, rfl⟩
    · rw [hindex.run_eq hread invocation hwrite hcheck]
      exact ⟨outcome_answered hwords hargs hcheck, rfl⟩

theorem Canonical.outcomes_runAll (hindex : Canonical index)
    (hread : readCatalogFrom env.serde disk env.current = .ok (Catalog.fromValidated index))
    {later : List Invocation} (hlater : ∀ invocation ∈ later, ¬invocation.Writes) :
    ∃ outcomes, env.runAll disk later = (outcomes, disk) ∧
      List.Forall₂ (index.Outcome (env.runCheck disk)) later outcomes := by
  induction later with
  | nil => exact ⟨[], rfl, .nil⟩
  | cons invocation rest ih =>
    obtain ⟨hwrites, hrest⟩ := List.forall_mem_cons.mp hlater
    obtain ⟨houtcome, hdisk⟩ := hindex.outcome_runFromEnv hread hwrites
    obtain ⟨outcomes, hrun, houtcomes⟩ := ih hrest
    refine ⟨_ :: outcomes, ?_, .cons houtcome houtcomes⟩
    rw [Environment.runAll, hdisk, hrun]

end

/-! ### After a write -/

section
variable {Dir : Type} [DecidableEq Dir] {env : Environment Dir}

theorem Environment.runFromEnv_write {rendered : RenderedCatalog} (hrendered : env.rendered = .ok rendered)
    (disk : Disk Dir) {invocation : Invocation} (hwrites : invocation.Writes) :
    env.runFromEnv disk invocation =
      ⟨(writeCatalog disk env.root rendered invocation.json invocation.markdown).1.mapError .error, [],
        (writeCatalog disk env.root rendered invocation.json invocation.markdown).2⟩ := by
  obtain ⟨words, hargv, hwords⟩ := hwrites
  rw [Environment.runFromEnv, mapM_intoString.mpr hargv]
  simp only [hwords, Command.parse_args, Environment.run, Environment.runWrite, hrendered]

/-- A discovered catalog has a rendering, and the reader accepts it. -/
theorem rendering_readable {serde : SerdeJson} (hserde : serde.Inverse) {index : CatalogIndex}
    (hindex : Canonical index) : ∃ rendered, renderCatalog serde index = .ok rendered ∧
      readCatalogStr serde rendered.json = .ok (Catalog.fromValidated index) := by
  obtain ⟨text, htext⟩ := hserde.prints (Serde.serializeIndex index)
  have hdepth : (Serde.serializeIndex index).depth < 128 :=
    lt_of_le_of_lt (Serde.depth_serializeIndex index) (by decide)
  have hread := hserde.readsBack _ text hdepth htext "\n" (by decide)
  refine ⟨⟨text ++ "\n", renderMarkdown index⟩, ?_, readCatalogStr_of_canonical hread hindex⟩
  rw [renderCatalog, htext]

/-- Once a `write` has got as far as the JSON document, every later run that does not write ends and prints as the
    workspace has it, and `check` finds out about the Markdown view. A run panics only at an argument that is not
    Unicode or at an output that refuses its text. -/
theorem answers_after_write (hserde : env.serde.Inverse) {metadata : CargoMetadata} {tree : FileTree}
    (hmetadata : env.metadata = .ok (metadata, tree)) (hcurrent : env.current = env.root)
    (hnames : ∀ package ∈ (Workspace.ofMetadata metadata).packages, package.name ≠ "" ∧ package.version ≠ "")
    (hback : ∀ package ∈ (Workspace.ofMetadata metadata).packages, NoBackslash (.ofMetadata metadata) package)
    {index : CatalogIndex} (h : discoverCatalog (.ofMetadata metadata) tree = .ok index) (disk : Disk Dir)
    (first : Invocation) (hfirst : first.Writes) (hjson : first.json = .done) :
    ∃ rendered, renderCatalog env.serde index = .ok rendered ∧
      ((env.runFromEnv disk first).result = .ok () ↔ first.markdown = .done) ∧
      ∀ later : List Invocation, (∀ invocation ∈ later, ¬invocation.Writes) →
        ∃ outcomes, env.runAll (env.runFromEnv disk first).disk later = (outcomes, (env.runFromEnv disk first).disk) ∧
          List.Forall₂ (index.Outcome (rendered.checked (first.markdown.leaves rendered.markdown))) later outcomes := by
  obtain ⟨classified, hdiscovered⟩ := discovered_of_discoverCatalog h
  have hcanonical := hdiscovered.canonical hnames hback
  obtain ⟨rendered, hrender, hread⟩ := rendering_readable hserde hcanonical
  have hrendered : env.rendered = .ok rendered :=
    bind_eq_ok.mpr ⟨_, hmetadata, bind_eq_ok.mpr ⟨_, h, hrender⟩⟩
  have hwritten := writeCatalog_written disk env.root rendered .done first.markdown
  have hresult := writeCatalog_eq_ok disk env.root rendered .done first.markdown
  rw [env.runFromEnv_write hrendered disk hfirst, hjson]
  generalize writeCatalog disk env.root rendered .done first.markdown = written at hwritten hresult ⊢
  obtain ⟨result, after⟩ := written
  refine ⟨rendered, hrender, ?_, fun later hlater => ?_⟩
  · rw [and_iff_right rfl] at hresult
    rw [← hresult]
    cases result <;> simp [Except.mapError]
  · have hcatalog : readCatalogFrom env.serde after env.current = .ok (Catalog.fromValidated index) := by
      rw [hcurrent]
      exact bind_eq_ok.mpr ⟨_, readFile_eq_ok.mpr hwritten.document, hread⟩
    have hcheck : env.runCheck after = rendered.checked (first.markdown.leaves rendered.markdown) := by
      rw [Environment.runCheck, hrendered]
      exact checkCatalog_of_json hwritten.document hwritten.view
    obtain ⟨outcomes, hrun, houtcomes⟩ := hcanonical.outcomes_runAll hcatalog hlater
    exact ⟨outcomes, hrun, hcheck ▸ houtcomes⟩

/-- What a user types behind the name of the program, and an output. -/
def invoke (args : List String) (stdout : PrintAnswer) : Invocation :=
  ⟨(("fabric-ecosystem-catalog-tool" :: args).map osString), .done, .done, stdout⟩

theorem answers_after_write_networking :
    let ran := networkingTool.runFromEnv noFiles { invoke ["write"] .taken with markdown := brokenOff }
    ran.result ≠ .ok () ∧
      (networkingTool.runAll ran.disk [invoke ["deps", "packages/networking/http"] .taken,
        invoke ["show", "hosts/local"] .taken, invoke ["list"] (.refused 0), invoke ["check"] .taken]).1 =
          [(.ok (), asBytes ("  normal:\n    packages/networking/tcp\n" ++
              "  development:\n    packages/networking/tcp\n" ++ "  build:\n")),
            (.error (.error ⟨"artifact path not found: hosts/local"⟩), []), (.error .panic, []),
            (.error (.error ⟨"failed to read catalog/index.md: stream did not contain valid UTF-8"⟩), [])] := by
  have hwrites : ∀ {args : List String} {stdout : PrintAnswer}, args ≠ Command.write.args →
      ¬(invoke args stdout).Writes := by
    rintro args stdout hargs ⟨words, hwords, htail⟩
    obtain rfl := List.map_injective_iff.mpr osString_injective hwords
    exact hargs htail
  obtain ⟨rendered, -, hresult, hlater⟩ := answers_after_write jsonText_inverse
    (rfl : networkingTool.metadata = .ok (networkingMetadata, networkingTree)) rfl
    (by rw [ofMetadata_networking]; decide) (by rw [ofMetadata_networking]; decide)
    (ofMetadata_networking ▸ discoverCatalog_networking) noFiles
    { invoke ["write"] .taken with markdown := brokenOff } ⟨_, rfl, rfl⟩ rfl
  obtain ⟨outcomes, hrun, houtcomes⟩ := hlater [invoke ["deps", "packages/networking/http"] .taken,
    invoke ["show", "hosts/local"] .taken, invoke ["list"] (.refused 0), invoke ["check"] .taken] (by
      simp only [List.forall_mem_cons, List.not_mem_nil]
      exact ⟨hwrites (by decide), hwrites (by decide), hwrites (by decide), hwrites (by decide), nofun⟩)
  refine ⟨fun h => ?_, ?_⟩
  · cases hresult.mp h
  · rcases houtcomes with _ | ⟨hdeps, _ | ⟨hshow, _ | ⟨hlist, _ | ⟨hcheck, ⟨⟩⟩⟩⟩⟩
    rw [hrun, hdeps.eq_of_args (.deps "packages/networking/http") rfl rfl,
      hshow.eq_of_args (.show_ "hosts/local") rfl rfl, hlist.eq_of_args .list rfl rfl,
      hcheck.eq_of_args .check rfl rfl]
    rfl

end

end Fabric.Catalog
