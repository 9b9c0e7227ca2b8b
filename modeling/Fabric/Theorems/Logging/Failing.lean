import Fabric.Theorems.Logging.Console
import Mathlib.Data.List.Forall2

/-! What is on two writers when writes fail or break off: a record that fails leaves a beginning of its line, which ends
    no line, and every line ends with the whole of a record that was written with success. -/

namespace Fabric.Logging
open Rust

/-- What emits leave on one stream: the lines that are complete, and behind them one that is not. -/
inductive Left (config : ConsoleLogConfig) : List (LogRecord × Emitted) → List Bytes → Bytes → Prop where
  | nil : Left config [] [] []
  /-- A record that is emitted with success ends the line. -/
  | whole {emits : List (LogRecord × Emitted)} {lines : List Bytes} {rest : Bytes} {record : LogRecord} :
      Left config emits lines rest →
      Left config (emits ++ [(record, some (.ok ()))]) (lines ++ [rest ++ recordLine config record]) []
  /-- One that fails leaves a beginning of its line there. -/
  | torn {emits : List (LogRecord × Emitted)} {lines : List Bytes} {rest fragment : Bytes} {record : LogRecord}
      {result : Emitted} :
      Left config emits lines rest → result ≠ some (.ok ()) → fragment <+: recordLine config record →
      Left config (emits ++ [(record, result)]) lines (rest ++ fragment)

namespace Left
variable {config : ConsoleLogConfig} {emits : List (LogRecord × Emitted)} {lines : List Bytes} {rest : Bytes}

theorem clean (h : Left config emits lines rest) : (∀ line ∈ lines, 10 ∉ line) ∧ 10 ∉ rest := by
  induction h with
  | nil => simp
  | @whole emits lines rest record _ ih =>
    obtain ⟨hlines, hrest⟩ := ih
    refine ⟨fun line hline => ?_, by simp⟩
    rcases List.mem_append.mp hline with hline | hline
    · exact hlines line hline
    · obtain rfl := List.mem_singleton.mp hline
      exact fun hmem => (List.mem_append.mp hmem).elim hrest (recordLine_clean config record).2
  | @torn emits lines rest fragment record result _ _ hfragment ih =>
    obtain ⟨hlines, hrest⟩ := ih
    refine ⟨hlines, fun hmem => ?_⟩
    rcases List.mem_append.mp hmem with hmem | hmem
    · exact hrest hmem
    · exact (recordLine_clean config record).2 (hfragment.subset hmem)

/-- The records that were emitted with success. -/
def succeeded (emits : List (LogRecord × Emitted)) : List LogRecord :=
  (emits.filter fun emit => emit.2 = some (.ok ())).map Prod.fst

theorem succeeded_concat_whole {record : LogRecord} :
    succeeded (emits ++ [(record, some (.ok ()))]) = succeeded emits ++ [record] := by
  simp [succeeded]

theorem succeeded_concat_torn {record : LogRecord} {result : Emitted} (h : result ≠ some (.ok ())) :
    succeeded (emits ++ [(record, result)]) = succeeded emits := by
  simp [succeeded, List.filter_append, h]

/-- Each line ends with the whole of one of the records that were emitted with success, in their order. -/
theorem ends (h : Left config emits lines rest) :
    List.Forall₂ (fun line record => recordLine config record <:+ line) lines (succeeded emits) := by
  induction h with
  | nil => exact .nil
  | whole _ ih =>
    rw [succeeded_concat_whole]
    exact List.rel_append ih (.cons (List.suffix_append _ _) .nil)
  | torn _ hresult _ ih =>
    rw [succeeded_concat_torn hresult]
    exact ih

/-- Where none fails, the lines are those of the records. -/
theorem of_succeeded (h : Left config emits lines rest) (hall : ∀ emit ∈ emits, emit.2 = some (.ok ())) :
    lines = emits.map (fun emit => recordLine config emit.1) ∧ rest = [] := by
  induction h with
  | nil => exact ⟨rfl, rfl⟩
  | whole _ ih =>
    obtain ⟨rfl, rfl⟩ := ih fun emit hemit => hall emit (List.mem_append_left _ hemit)
    simp
  | torn _ hresult _ _ => exact absurd (hall _ (List.mem_append_right _ (List.mem_singleton_self _))) hresult

end Left

/-! ### One record -/

theorem lineLeft_of_writeLine {writer writer' : Writer} {line : String} {result : Emitted}
    (h : writeLine writer line = (result, writer')) :
    (result = some (.ok ()) ∧ writer'.written = writer.written ++ (asBytes line ++ [10])) ∨
      (result ≠ some (.ok ()) ∧ ∃ fragment, fragment <+: asBytes line ∧
        writer'.written = writer.written ++ fragment) := by
  unfold writeLine at h
  rcases hline : writer.writeAll (asBytes line) with ⟨lineResult, between⟩
  obtain ⟨taken, rest, hbytes, hwritten, hresult⟩ := Writer.writeAllFrom_taken hline
  by_cases hok : lineResult = some (.ok ())
  · subst hok
    obtain rfl := hresult.mp rfl
    rw [List.append_nil] at hbytes
    subst hbytes
    rcases hend : between.writeAll [10] with ⟨endResult, last⟩
    obtain ⟨taken', rest', hbytes', hwritten', hresult'⟩ := Writer.writeAllFrom_taken hend
    simp only [hline, hend] at h
    obtain ⟨rfl, rfl⟩ := Prod.mk.inj h
    by_cases hok' : endResult = some (.ok ())
    · obtain rfl := hresult'.mp hok'
      subst hok'
      rw [List.append_nil] at hbytes'
      subst hbytes'
      exact .inl ⟨rfl, by rw [hwritten', hwritten, List.append_assoc]⟩
    · -- Of the line feed alone nothing can be written without the whole of it.
      have htaken : taken' = [] := by
        rcases taken' with _ | ⟨byte, taken'⟩
        · rfl
        · obtain ⟨-, htail⟩ := List.cons.inj hbytes'
          exact absurd (hresult'.mpr (List.append_eq_nil_iff.mp htail.symm).2) hok'
      subst htaken
      refine .inr ⟨fun heq => hok' (eq_ok_of_mapError heq), asBytes line, List.prefix_rfl, ?_⟩
      rw [hwritten', hwritten, List.append_nil]
  · have hfailed : (result, writer') = (lineResult.map (·.mapError .writeFailed), between) := by
      rw [← h, hline]
      rcases lineResult with _ | _ | _
      · rfl
      · rfl
      · exact absurd rfl hok
    obtain ⟨rfl, rfl⟩ := Prod.mk.inj hfailed
    exact .inr ⟨fun heq => hok (eq_ok_of_mapError heq), taken, ⟨rest, hbytes.symm⟩, hwritten⟩

theorem refusals_writeLine {writer writer' : Writer} {line : String} {result : Emitted}
    (h : writeLine writer line = (result, writer')) : writer.refusals = writer'.refusals + (failed result).toNat := by
  unfold writeLine at h
  rcases hline : writer.writeAll (asBytes line) with ⟨lineResult, between⟩
  have hfirst := Writer.refusals_writeAllFrom hline
  rcases lineResult with _ | error | _
  · simp only [hline] at h
    obtain ⟨rfl, rfl⟩ := Prod.mk.inj h
    exact hfirst
  · simp only [hline] at h
    obtain ⟨rfl, rfl⟩ := Prod.mk.inj h
    exact hfirst
  · rcases hend : between.writeAll [10] with ⟨endResult, last⟩
    have hsecond := Writer.refusals_writeAllFrom hend
    simp only [hline, hend] at h
    obtain ⟨rfl, rfl⟩ := Prod.mk.inj h
    rw [failed_map]
    exact hfirst.trans hsecond

/-- What is on a stream that was `before`, and how many refused writes it has met. -/
structure Holds (config : ConsoleLogConfig) (before writer : Writer) (emits : List (LogRecord × Emitted))
    (lines : List Bytes) (rest : Bytes) : Prop where
  left : Left config emits lines rest
  written : writer.written = before.written ++ (lines.flatMap (· ++ [10]) ++ rest)
  refusals : before.refusals = writer.refusals + emits.countP fun emit => failed emit.2

section
variable {config : ConsoleLogConfig} {before writer writer' : Writer}
  {emits : List (LogRecord × Emitted)} {lines : List Bytes} {rest : Bytes} {record : LogRecord} {result : Emitted}

theorem Holds.writeLine (h : Holds config before writer emits lines rest)
    (hline : writeLine writer (formatConsoleRecord config record) = (result, writer')) :
    ∃ lines' rest', Holds config before writer' (emits ++ [(record, result)]) lines' rest' := by
  obtain ⟨hleft, hwritten, hrefusals⟩ := h
  have hmet : before.refusals = writer'.refusals + (emits ++ [(record, result)]).countP fun emit => failed emit.2 := by
    rw [hrefusals, refusals_writeLine hline, List.countP_append, List.countP_singleton]
    cases failed result
    · rfl
    · simp only [Bool.toNat_true, if_true]
      omega
  have hcases := lineLeft_of_writeLine hline
  rw [asBytes_formatConsoleRecord] at hcases
  rcases hcases with ⟨rfl, hwritten'⟩ | ⟨hresult, fragment, hfragment, hwritten'⟩
  · refine ⟨_, _, .whole hleft, ?_, hmet⟩
    rw [hwritten', hwritten]
    simp
  · refine ⟨_, _, .torn hleft hresult hfragment, ?_, hmet⟩
    rw [hwritten', hwritten]
    simp

end

/-! ### A run -/

/-- The emits of records that a condition selects. -/
def emitsOf (emits : List (LogRecord × Emitted)) (selects : LogRecord → Prop) [DecidablePred selects] :
    List (LogRecord × Emitted) :=
  emits.filter fun emit => decide (selects emit.1)

section
variable {config : ConsoleLogConfig} {selects : LogRecord → Prop} [DecidablePred selects]
  {emits : List (LogRecord × Emitted)} {record : LogRecord} {result : Emitted}

theorem emitsOf_concat_of_pos (h : selects record) :
    emitsOf (emits ++ [(record, result)]) selects = emitsOf emits selects ++ [(record, result)] := by
  simp [emitsOf, List.filter_append, h]

theorem emitsOf_concat_of_neg (h : ¬selects record) :
    emitsOf (emits ++ [(record, result)]) selects = emitsOf emits selects := by
  simp [emitsOf, List.filter_append, h]

end

/-- What is on both streams. -/
structure Shown (config : ConsoleLogConfig) (before console : Console) (emits : List (LogRecord × Emitted)) : Prop where
  stdout : ∃ lines rest, Holds config before.stdout console.stdout (emitsOf emits (ToStdout config)) lines rest
  stderr : ∃ lines rest, Holds config before.stderr console.stderr (emitsOf emits (ToStderr config)) lines rest
  below : ∀ emit ∈ emits, emit.1.level < config.minimumLevel → emit.2 = some (.ok ())

section
variable {config : ConsoleLogConfig} {before console console' : Console} {emits : List (LogRecord × Emitted)}

theorem Shown.refl (config : ConsoleLogConfig) (console : Console) : Shown config console console [] where
  stdout := ⟨[], [], .nil, (List.append_nil _).symm, rfl⟩
  stderr := ⟨[], [], .nil, (List.append_nil _).symm, rfl⟩
  below := by simp

theorem Shown.writeConsoleRecord {record : LogRecord} {result : Emitted} (hshown : Shown config before console emits)
    (h : writeConsoleRecord config record console = (result, console')) :
    Shown config before console' (emits ++ [(record, result)]) := by
  obtain ⟨⟨lines, rest, hout⟩, ⟨lines', rest', herr⟩, hbelow⟩ := hshown
  have hbelow' : (record.level < config.minimumLevel → result = some (.ok ())) →
      ∀ emit ∈ emits ++ [(record, result)], emit.1.level < config.minimumLevel → emit.2 = some (.ok ()) := by
    intro hrecord emit hemit hlow
    rcases List.mem_append.mp hemit with hemit | hemit
    · exact hbelow emit hemit hlow
    · obtain rfl := List.mem_singleton.mp hemit
      exact hrecord hlow
  rcases writeConsoleRecord_cases config record console with
    ⟨-, hnotOut, hnotErr, heq⟩ | ⟨hto, hnotErr, hwrite⟩ | ⟨hto, hnotOut, hwrite⟩
  · obtain ⟨rfl, rfl⟩ := Prod.mk.inj (heq.symm.trans h)
    refine ⟨?_, ?_, hbelow' fun _ => rfl⟩
    · rw [emitsOf_concat_of_neg hnotOut]
      exact ⟨lines, rest, hout⟩
    · rw [emitsOf_concat_of_neg hnotErr]
      exact ⟨lines', rest', herr⟩
  · rcases hline : writeLine console.stdout (formatConsoleRecord config record) with ⟨lineResult, stdout⟩
    obtain ⟨rfl, rfl⟩ := Prod.mk.inj ((hwrite lineResult stdout hline).symm.trans h)
    refine ⟨?_, ?_, hbelow' fun hlow => absurd hlow (not_lt.mpr hto.1)⟩
    · rw [emitsOf_concat_of_pos hto]
      exact hout.writeLine hline
    · rw [emitsOf_concat_of_neg hnotErr]
      exact ⟨lines', rest', herr⟩
  · rcases hline : writeLine console.stderr (formatConsoleRecord config record) with ⟨lineResult, stderr⟩
    obtain ⟨rfl, rfl⟩ := Prod.mk.inj ((hwrite lineResult stderr hline).symm.trans h)
    refine ⟨?_, ?_, hbelow' fun hlow => absurd hlow (not_lt.mpr hto.1)⟩
    · rw [emitsOf_concat_of_neg hnotOut]
      exact ⟨lines, rest, hout⟩
    · rw [emitsOf_concat_of_pos hto]
      exact herr.writeLine hline

theorem Shown.writeConsoleRecordsOn {records : List LogRecord} {more : List (LogRecord × Emitted)}
    (hshown : Shown config before console emits) (h : writeConsoleRecordsOn config records console = (more, console')) :
    Shown config before console' (emits ++ more) := by
  induction records generalizing console emits more with
  | nil =>
    obtain ⟨rfl, rfl⟩ := Prod.mk.inj h
    rwa [List.append_nil]
  | cons record records ih =>
    rw [Logging.writeConsoleRecordsOn] at h
    rcases hrecord : Logging.writeConsoleRecord config record console with ⟨_ | result, between⟩
    · simp only [hrecord] at h
      obtain ⟨rfl, rfl⟩ := Prod.mk.inj h
      exact hshown.writeConsoleRecord hrecord
    · rcases hrest : Logging.writeConsoleRecordsOn config records between with ⟨later, last⟩
      simp only [hrecord, hrest] at h
      obtain ⟨rfl, rfl⟩ := Prod.mk.inj h
      have hlater := ih (hshown.writeConsoleRecord hrecord) hrest
      rwa [List.append_assoc] at hlater

end

theorem writeConsoleRecordsOn_records {config : ConsoleLogConfig} {records : List LogRecord}
    {console console' : Console} {emits : List (LogRecord × Emitted)}
    (h : writeConsoleRecordsOn config records console = (emits, console')) :
    emits.map Prod.fst <+: records ∧ ((∀ emit ∈ emits, emit.2 ≠ none) → emits.map Prod.fst = records) := by
  induction records generalizing console emits with
  | nil =>
    obtain ⟨rfl, rfl⟩ := Prod.mk.inj h
    simp
  | cons record records ih =>
    rw [writeConsoleRecordsOn] at h
    rcases hrecord : writeConsoleRecord config record console with ⟨_ | result, between⟩
    · simp only [hrecord] at h
      obtain ⟨rfl, rfl⟩ := Prod.mk.inj h
      simp
    · rcases hrest : writeConsoleRecordsOn config records between with ⟨later, last⟩
      simp only [hrecord, hrest] at h
      obtain ⟨rfl, rfl⟩ := Prod.mk.inj h
      obtain ⟨hbegin, hall⟩ := ih hrest
      constructor
      · exact List.cons_prefix_cons.mpr ⟨rfl, hbegin⟩
      · intro hreturn
        rw [List.map_cons, hall fun emit hemit => hreturn emit (List.mem_cons_of_mem _ hemit)]

/-- What emits leave on a stream: its new text, split at the line feeds, is one line for each record that was emitted
    with success, in order, which ends with that record, and a rest. Ahead of a record on its line, and in the rest, are
    beginnings of those that failed in between. A record fails for each write that is refused, and for nothing else. -/
structure OnStream (config : ConsoleLogConfig) (emits : List (LogRecord × Emitted)) (writer writer' : Writer)
    (lines : List Bytes) (rest : Bytes) : Prop where
  text : ∃ text, writer'.written = writer.written ++ text ∧ text.splitOn 10 = lines ++ [rest]
  left : Left config emits lines rest
  ends : List.Forall₂ (fun line record => recordLine config record <:+ line) lines (Left.succeeded emits)
  whole : (∀ emit ∈ emits, emit.2 = some (.ok ())) →
    lines = emits.map (fun emit => recordLine config emit.1) ∧ rest = []
  refusals : writer.refusals = writer'.refusals + emits.countP fun emit => failed emit.2

theorem Holds.onStream {config : ConsoleLogConfig} {writer writer' : Writer} {emits : List (LogRecord × Emitted)}
    {lines : List Bytes} {rest : Bytes} (h : Holds config writer writer' emits lines rest) :
    OnStream config emits writer writer' lines rest := by
  obtain ⟨hleft, hwritten, hrefusals⟩ := h
  obtain ⟨hlines, hrest⟩ := hleft.clean
  exact ⟨⟨_, hwritten, Lines.splitOn_append hlines hrest⟩, hleft, hleft.ends, hleft.of_succeeded, hrefusals⟩

/-- However the writers fail, every line of a stream ends with a whole record, one line for each that was emitted there
    with success and in their order; a record that failed has left a beginning of its line, and one below the minimum
    level nothing. -/
theorem writeConsoleRecordsOn_lines (config : ConsoleLogConfig) (records : List LogRecord) (console : Console) :
    let (emits, console') := writeConsoleRecordsOn config records console
    (∃ lines rest, OnStream config (emitsOf emits (ToStdout config)) console.stdout console'.stdout lines rest) ∧
      (∃ lines rest, OnStream config (emitsOf emits (ToStderr config)) console.stderr console'.stderr lines rest) ∧
      (∀ emit ∈ emits, emit.1.level < config.minimumLevel → emit.2 = some (.ok ())) ∧
      emits.map Prod.fst <+: records ∧ ((∀ emit ∈ emits, emit.2 ≠ none) → emits.map Prod.fst = records) := by
  rcases h : writeConsoleRecordsOn config records console with ⟨emits, console'⟩
  have hshown := (Shown.refl config console).writeConsoleRecordsOn h
  rw [List.nil_append] at hshown
  obtain ⟨⟨lines, rest, hout⟩, ⟨lines', rest', herr⟩, hbelow⟩ := hshown
  exact ⟨⟨lines, rest, hout.onStream⟩, ⟨lines', rest', herr.onStream⟩, hbelow, writeConsoleRecordsOn_records h⟩

/-- A record that breaks off is followed on its line by the next one. -/
example : writeConsoleRecordsOn localConfig [⟨.info, "started", none⟩, ⟨.info, "ready", none⟩]
      ⟨⟨[.accepted 6, .failed "closed", .accepted 80, .accepted 1], []⟩, ⟨[], []⟩⟩ =
    ([(⟨.info, "started", none⟩, some (.error (.writeFailed "closed"))),
      (⟨.info, "ready", none⟩, some (.ok ()))],
      ⟨⟨[], asBytes "local local [INFO] ready\n"⟩, ⟨[], []⟩⟩) := by decide

end Fabric.Logging
