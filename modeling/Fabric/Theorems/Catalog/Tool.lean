import Fabric.Catalog.Tool
import Fabric.Theorems.Catalog.RoundTrip

/-! The tool as a whole: what it accepts on its command line, what is left of an interrupted write and what `check` says
    of it. -/

namespace Fabric.Catalog
open Rust

/-! ### The command line -/

def kindWord : ArtifactKind → String
  | .package => "package"
  | .host => "host"
  | .composition => "composition"
  | .instance_ => "instance"
  | .example_ => "example"

/-- How a user writes each command. -/
def Command.args : Command → List String
  | .write => ["write"]
  | .check => ["check"]
  | .validate => ["validate"]
  | .list => ["list"]
  | .listKind kind => ["list-kind", kindWord kind]
  | .listCategory category => ["list-category", category]
  | .show_ path => ["show", path]
  | .showPackage cargoPackage => ["show-package", cargoPackage]
  | .deps path => ["deps", path]
  | .dependents path => ["dependents", path]

/-- The names of the commands, each with what its argument is called, if it takes one. -/
def usage : List (String × Option String) :=
  [("write", none), ("check", none), ("validate", none), ("list", none), ("list-kind", some "kind"),
    ("list-category", some "category"), ("show", some "path"), ("show-package", some "cargo package"),
    ("deps", some "path"), ("dependents", some "path")]

/-- The text that names every command. -/
def usageText : String :=
  "expected " ++ String.join (usage.dropLast.map fun entry => "`" ++ entry.1 ++ "`, ") ++
    String.join ((usage.drop 9).map fun entry => "or `" ++ entry.1 ++ "`")

/-- What is wrong with the arguments behind the name of a command that takes one. A single argument can only be wrong as
    a kind. -/
def argumentError (name argument : String) : List String → CatalogError
  | [] => ⟨"`" ++ name ++ "` requires " ++ argument⟩
  | [value] => ⟨"unsupported artifact kind: " ++ value⟩
  | _ => ⟨"`" ++ name ++ "` expects exactly one " ++ argument⟩

/-- What the tool says of a command line that is no command. -/
def usageError : List String → CatalogError
  | [] => ⟨"missing command: " ++ usageText⟩
  | name :: rest =>
    match usage.lookup name with
    | none => ⟨"unknown command `" ++ name ++ "`: " ++ usageText⟩
    | some none => ⟨"`" ++ name ++ "` does not accept additional arguments"⟩
    | some (some argument) => argumentError name argument rest

theorem expectNoArgs_eq_ok {args : List String} {command c : Command} :
    expectNoArgs args command = .ok c ↔ args.length = 1 ∧ command = c := by
  rw [expectNoArgs]
  split <;> simp_all

theorem requiredArgument_eq_ok {args : List String} {command argument value : String} :
    requiredArgument args command argument = .ok value ↔ ∃ head, args = [head, value] := by
  rw [requiredArgument.eq_def]
  split <;> simp_all

theorem parseArtifactKind_eq_ok {value : String} {kind : ArtifactKind} :
    parseArtifactKind value = .ok kind ↔ value = kindWord kind := by
  constructor
  · intro h
    unfold parseArtifactKind at h
    split at h <;> cases h <;> rfl
  · rintro rfl
    cases kind <;> rfl

namespace Command

theorem expectNoArgs_cons {head : String} {rest : List String} {command c : Command}
    (h : expectNoArgs (head :: rest) command = .ok c) : rest = [] ∧ c = command := by
  obtain ⟨hlength, rfl⟩ := expectNoArgs_eq_ok.mp h
  exact ⟨List.length_eq_zero_iff.mp (Nat.succ.inj hlength), rfl⟩

theorem requiredArgument_cons {head command argument : String} {rest : List String} {f : String → Command} {c : Command}
    (h : f <$> requiredArgument (head :: rest) command argument = .ok c) : ∃ value, rest = [value] ∧ c = f value := by
  rcases hvalue : requiredArgument (head :: rest) command argument with error | value
  · rw [hvalue] at h
    cases h
  · rw [hvalue] at h
    cases h
    obtain ⟨_, hargs⟩ := requiredArgument_eq_ok.mp hvalue
    exact ⟨value, (List.cons.inj hargs).2, rfl⟩

theorem parse_args (c : Command) : parse c.args = .ok c := by
  cases c with
  | listKind kind => cases kind <;> rfl
  | _ => rfl

/-- The command line is read exactly: each command has one spelling. -/
theorem parse_eq_ok {args : List String} {c : Command} : parse args = .ok c ↔ args = c.args := by
  constructor
  · intro h
    rcases args with _ | ⟨head, rest⟩
    · cases h
    rw [parse, List.head?_cons] at h
    unfold parseArgs at h
    split at h
    case h_5 heq =>
      obtain ⟨value, hvalue, h⟩ := bind_eq_ok.mp h
      obtain ⟨kind, hkind, hc⟩ := bind_eq_ok.mp h
      cases heq
      cases hc
      obtain ⟨_, hargs⟩ := requiredArgument_eq_ok.mp hvalue
      rw [(List.cons.inj hargs).2, parseArtifactKind_eq_ok.mp hkind, args]
    case h_11 => cases h
    case h_12 => cases h
    all_goals
      rename_i heq
      cases heq
      first
      | obtain ⟨rfl, rfl⟩ := expectNoArgs_cons h
        rfl
      | obtain ⟨value, rfl, rfl⟩ := requiredArgument_cons h
        rfl
  · rintro rfl
    exact parse_args c

theorem expected_eq : expected = usageText := by decide

theorem usageError_nil : usageError [] = ⟨"missing command: " ++ usageText⟩ := rfl

theorem expectNoArgs_error {name : String} {rest : List String} {command : Command} {error : CatalogError}
    (h : expectNoArgs (name :: rest) command = .error error) :
    error = ⟨"`" ++ name ++ "` does not accept additional arguments"⟩ := by
  unfold expectNoArgs at h
  split at h
  · cases h
  · exact (Except.error.inj h).symm

theorem requiredArgument_error {name argument : String} {rest : List String} {error : CatalogError}
    (h : requiredArgument (name :: rest) name argument = .error error) : error = argumentError name argument rest := by
  unfold requiredArgument at h
  split at h
  · cases h
  · rename_i heq
    obtain ⟨-, rfl⟩ := List.cons.inj heq
    exact (Except.error.inj h).symm
  · rename_i hone hnone
    obtain rfl := Except.error.inj h
    rcases rest with _ | ⟨value, _ | ⟨other, rest⟩⟩
    · exact absurd rfl (hnone name)
    · exact absurd rfl (hone name value)
    · rfl

theorem map_requiredArgument_error {name argument : String} {rest : List String} {f : String → Command}
    {error : CatalogError} (h : f <$> requiredArgument (name :: rest) name argument = .error error) :
    error = argumentError name argument rest := by
  rcases hvalue : requiredArgument (name :: rest) name argument with error' | value
  · rw [hvalue] at h
    obtain rfl := Except.error.inj h
    exact requiredArgument_error hvalue
  · rw [hvalue] at h
    cases h

theorem parseArtifactKind_error {value : String} {error : CatalogError} (h : parseArtifactKind value = .error error) :
    error = ⟨"unsupported artifact kind: " ++ value⟩ := by
  unfold parseArtifactKind at h
  split at h <;> cases h
  rfl

theorem error_of_parse {args : List String} {error : CatalogError} (h : parse args = .error error) :
    error = usageError args := by
  rcases args with _ | ⟨head, rest⟩
  · have hmissing : parse [] = .error ⟨"missing command: " ++ expected⟩ := rfl
    obtain rfl := Except.error.inj (hmissing.symm.trans h)
    rw [usageError_nil, expected_eq]
  rw [parse, List.head?_cons] at h
  unfold parseArgs at h
  split at h
  case h_5 heq =>
    obtain rfl := Option.some.inj heq
    rcases hvalue : requiredArgument ("list-kind" :: rest) "list-kind" "kind" with error' | value
    · rw [hvalue] at h
      obtain rfl := Except.error.inj h
      exact requiredArgument_error hvalue
    · obtain ⟨_, hargs⟩ := requiredArgument_eq_ok.mp hvalue
      obtain ⟨-, rfl⟩ := List.cons.inj hargs
      rw [hvalue] at h
      rcases hkind : parseArtifactKind value with error' | kind
      · have hvalue := parseArtifactKind_error hkind
        simp only [bind, Except.bind, hkind] at h
        rw [← Except.error.inj h]
        exact hvalue
      · simp only [bind, Except.bind, hkind] at h
        cases h
  case h_11 hwrite hcheck hvalidate hlist hkind hcategory hshow hpackage hdeps hdependents heq =>
    obtain rfl := Option.some.inj heq
    have hnone : usage.lookup head = none := by
      rw [List.lookup_eq_none_iff, usage]
      simp only [List.forall_mem_cons, bne_iff_ne]
      exact ⟨hwrite, hcheck, hvalidate, hlist, hkind, hcategory, hshow, hpackage, hdeps, hdependents, nofun⟩
    obtain rfl := Except.error.inj h
    rw [expected_eq]
    unfold usageError
    simp only [hnone]
  case h_12 heq => cases heq
  all_goals
    rename_i heq
    obtain rfl := Option.some.inj heq
    first
    | exact expectNoArgs_error h
    | exact map_requiredArgument_error h

/-- Every other command line is told what is wrong with it. -/
theorem parse_eq_error {args : List String} {error : CatalogError} :
    parse args = .error error ↔ (∀ c : Command, args ≠ c.args) ∧ error = usageError args := by
  constructor
  · intro h
    refine ⟨fun c hc => ?_, error_of_parse h⟩
    rw [parse_eq_ok.mpr hc] at h
    cases h
  · rintro ⟨hargs, rfl⟩
    rcases hparse : parse args with error | c
    · rw [error_of_parse hparse]
    · exact absurd (parse_eq_ok.mp hparse) (hargs c)

end Command

/-! ### The two files -/

/-- What is in a file after a write to it. -/
def WriteAnswer.leaves (content : String) : WriteAnswer → Except String String
  | .done => .ok content
  | .failed _ left => left

/-- What `check` says when the JSON document is as rendered and `left` is in the Markdown view. -/
def RenderedCatalog.checked (rendered : RenderedCatalog) : Except String String → Except CatalogError Unit
  | .ok text =>
    if text = rendered.markdown then .ok () else .error ⟨"committed catalog output is stale: " ++ markdownPath⟩
  | .error reason => .error ⟨"failed to read " ++ markdownPath ++ ": " ++ reason⟩

theorem jsonPath_ne_markdownPath : jsonPath ≠ markdownPath := by decide

section
variable {Dir : Type} {disk : Disk Dir} {root : Dir} {relative : String}

theorem readFile_eq_ok {content : String} : readFile disk root relative = .ok content ↔
    disk root relative = .ok content := by
  rw [readFile]
  cases disk root relative <;> simp [Except.mapError]

theorem readFile_of_error {reason : String} (h : disk root relative = .error reason) :
    readFile disk root relative = .error ⟨"failed to read " ++ relative ++ ": " ++ reason⟩ := by
  rw [readFile, h]
  rfl

theorem checkCatalog_eq_ok {rendered : RenderedCatalog} : checkCatalog disk root rendered = .ok () ↔
    disk root jsonPath = .ok rendered.json ∧ disk root markdownPath = .ok rendered.markdown := by
  constructor
  · intro h
    obtain ⟨json, hjson, h⟩ := bind_eq_ok.mp h
    obtain ⟨markdown, hmarkdown, h⟩ := bind_eq_ok.mp h
    rw [readFile_eq_ok] at hjson hmarkdown
    by_cases hj : json = rendered.json
    · by_cases hm : markdown = rendered.markdown
      · rw [hjson, hmarkdown, hj, hm]
        exact ⟨rfl, rfl⟩
      · simp [hm] at h
    · simp [hj] at h
  · rintro ⟨hjson, hmarkdown⟩
    refine bind_eq_ok.mpr ⟨_, readFile_eq_ok.mpr hjson, bind_eq_ok.mpr ⟨_, readFile_eq_ok.mpr hmarkdown, ?_⟩⟩
    simp

/-- The files whose committed content is not what is rendered, in the order in which `check` names them. -/
def staleFiles (rendered : RenderedCatalog) (json markdown : String) : List String :=
  [(jsonPath, json, rendered.json), (markdownPath, markdown, rendered.markdown)].filterMap
    fun (path, committed, current) => if committed = current then none else some path

theorem checkCatalog_of_readable {rendered : RenderedCatalog} {json markdown : String}
    (hjson : disk root jsonPath = .ok json) (hmarkdown : disk root markdownPath = .ok markdown) :
    checkCatalog disk root rendered =
      if staleFiles rendered json markdown = [] then .ok ()
      else .error ⟨"committed catalog output is stale: " ++
        String.intercalate ", " (staleFiles rendered json markdown)⟩ := by
  rw [← readFile_eq_ok] at hjson hmarkdown
  rw [checkCatalog, hjson]
  simp only [bind, Except.bind, hmarkdown]
  by_cases hj : json = rendered.json <;> by_cases hm : markdown = rendered.markdown <;> simp [staleFiles, hj, hm]

/-- With the JSON document as rendered, `check` depends on the Markdown view alone. -/
theorem checkCatalog_of_json {rendered : RenderedCatalog} {left : Except String String}
    (hjson : disk root jsonPath = .ok rendered.json) (hleft : disk root markdownPath = left) :
    checkCatalog disk root rendered = rendered.checked left := by
  rcases left with reason | text
  · rw [checkCatalog, readFile_eq_ok.mpr hjson, readFile_of_error hleft]
    rfl
  · rw [checkCatalog_of_readable hjson hleft, RenderedCatalog.checked]
    by_cases htext : text = rendered.markdown <;> simp [staleFiles, htext]

end

section
variable {Dir : Type} [DecidableEq Dir] {disk : Disk Dir} {root : Dir} {relative : String}

theorem Disk.put_same {content : Except String String} : disk.put root relative content root relative = content := by
  simp [Disk.put]

theorem Disk.put_other {content : Except String String} {dir : Dir} {other : String}
    (h : dir = root → other ≠ relative) : disk.put root relative content dir other = disk dir other := by
  rw [Disk.put]
  by_cases hdir : dir = root
  · subst hdir
    rw [Function.update_self, Function.update_of_ne (h rfl)]
  · rw [Function.update_of_ne hdir]

theorem writeFile_disk {content : String} {answer : WriteAnswer} :
    (writeFile disk root relative content answer).2 = disk.put root relative (answer.leaves content) := by
  cases answer <;> rfl

theorem writeFile_eq_ok {content : String} {answer : WriteAnswer} :
    (writeFile disk root relative content answer).1 = .ok () ↔ answer = .done := by
  cases answer <;> simp [writeFile]

/-- What `write` has left: the JSON document first, and the Markdown view only behind a complete one. -/
structure Written (disk after : Disk Dir) (root : Dir) (rendered : RenderedCatalog) (json markdown : WriteAnswer) :
    Prop where
  document : after root jsonPath = json.leaves rendered.json
  view : after root markdownPath = match json with
    | .done => markdown.leaves rendered.markdown
    | .failed _ _ => disk root markdownPath
  frame : ∀ dir relative, (dir = root → relative ≠ jsonPath ∧ relative ≠ markdownPath) →
    after dir relative = disk dir relative

theorem writeCatalog_written (disk : Disk Dir) (root : Dir) (rendered : RenderedCatalog)
    (json markdown : WriteAnswer) :
    Written disk (writeCatalog disk root rendered json markdown).2 root rendered json markdown := by
  cases json with
  | done =>
    have hafter : (writeCatalog disk root rendered .done markdown).2 =
        (disk.put root jsonPath (.ok rendered.json)).put root markdownPath (markdown.leaves rendered.markdown) :=
      writeFile_disk
    rw [hafter]
    refine ⟨?_, ?_, fun dir relative h => ?_⟩
    · rw [Disk.put_other fun _ => jsonPath_ne_markdownPath, Disk.put_same]
      rfl
    · exact Disk.put_same
    · rw [Disk.put_other fun hdir => (h hdir).2, Disk.put_other fun hdir => (h hdir).1]
  | failed error left =>
    have hafter : (writeCatalog disk root rendered (.failed error left) markdown).2 =
        disk.put root jsonPath left := rfl
    rw [hafter]
    exact ⟨Disk.put_same, Disk.put_other fun _ => jsonPath_ne_markdownPath.symm,
      fun dir relative h => Disk.put_other fun hdir => (h hdir).1⟩

theorem writeCatalog_eq_ok (disk : Disk Dir) (root : Dir) (rendered : RenderedCatalog)
    (json markdown : WriteAnswer) :
    (writeCatalog disk root rendered json markdown).1 = .ok () ↔ json = .done ∧ markdown = .done := by
  cases json with
  | done => simpa [writeCatalog, writeFile] using writeFile_eq_ok
  | failed error left => simp [writeCatalog, writeFile]

end

/-! ### After a write -/

section
variable {Dir : Type} [DecidableEq Dir] {env : Environment Dir}

/-- Next to the packages of the workspace Cargo reports one outside of it. -/
def networkingMetadata : CargoMetadata where
  packages := [tcpPackage, { httpPackage with name := "serde", id := "serde" }, httpPackage]
  workspaceMembers := [httpPackage.id, tcpPackage.id]
  workspaceRoot := networkingWorkspace.root

theorem ofMetadata_networking : Workspace.ofMetadata networkingMetadata = networkingWorkspace := rfl

/-- The tool at the root of a workspace with two packages. -/
def networkingTool : Environment Unit := ⟨jsonText, .ok (networkingMetadata, networkingTree), (), ()⟩

theorem networkingTool_rendered : ∃ rendered, networkingTool.rendered = .ok rendered :=
  ⟨_, bind_eq_ok.mpr ⟨_, rfl, bind_eq_ok.mpr ⟨_, ofMetadata_networking ▸ discoverCatalog_networking, rfl⟩⟩⟩

/-- The end of a write that broke off inside of a character. -/
def brokenOff : WriteAnswer := .failed "No space left on device" (.error "stream did not contain valid UTF-8")

def noFiles : Disk Unit := fun _ _ => .error "No such file or directory"

/-- What is left of a run of `write` that was interrupted anywhere, and what `check` then says. -/
theorem interrupted_write_checked {rendered : RenderedCatalog} (hrendered : env.rendered = .ok rendered)
    (disk : Disk Dir) (json markdown : WriteAnswer) :
    let (result, after) := env.runWrite disk json markdown
    Written disk after env.root rendered json markdown ∧
      (result = .ok () ↔ json = .done ∧ markdown = .done) ∧
      (env.runCheck after = .ok () ↔
        after env.root jsonPath = .ok rendered.json ∧ after env.root markdownPath = .ok rendered.markdown) ∧
      (∀ document view, after env.root jsonPath = .ok document → after env.root markdownPath = .ok view →
        env.runCheck after = if staleFiles rendered document view = [] then .ok ()
          else .error ⟨"committed catalog output is stale: " ++
            String.intercalate ", " (staleFiles rendered document view)⟩) ∧
      env.runCheck (env.runWrite after .done .done).2 = .ok () := by
  have hwrite : ∀ disk json markdown, env.runWrite disk json markdown =
      writeCatalog disk env.root rendered json markdown := by
    intro disk json markdown
    rw [Environment.runWrite, hrendered]
  have hcheck : ∀ disk, env.runCheck disk = checkCatalog disk env.root rendered := by
    intro disk
    rw [Environment.runCheck, hrendered]
    rfl
  simp only [hwrite, hcheck]
  refine ⟨writeCatalog_written disk env.root rendered json markdown,
    writeCatalog_eq_ok disk env.root rendered json markdown, checkCatalog_eq_ok,
    fun document view hdocument hview => checkCatalog_of_readable hdocument hview, ?_⟩
  have hrepaired := writeCatalog_written (writeCatalog disk env.root rendered json markdown).2 env.root rendered
    .done .done
  exact checkCatalog_eq_ok.mpr ⟨hrepaired.document, hrepaired.view⟩

theorem interrupted_write_checked_broken :
    let (result, after) := networkingTool.runWrite noFiles .done brokenOff
    result ≠ .ok () ∧ networkingTool.runCheck after ≠ .ok () ∧
      networkingTool.runCheck (networkingTool.runWrite after .done .done).2 = .ok () := by
  obtain ⟨rendered, hrendered⟩ := networkingTool_rendered
  obtain ⟨hwritten, hresult, hcheck, -, hrepaired⟩ := interrupted_write_checked hrendered noFiles .done brokenOff
  refine ⟨fun h => ?_, fun h => ?_, hrepaired⟩
  · cases (hresult.mp h).2
  · have hview := (hcheck.mp h).2
    rw [hwritten.view] at hview
    cases hview

end

end Fabric.Catalog
