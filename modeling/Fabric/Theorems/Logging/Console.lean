import Fabric.Logging.Console
import Fabric.Library.Lines

/-! Console logging writes one line for each record, and no record can forge another. -/

namespace Fabric.Logging
open Rust

/-! ### Line breaks -/

def NoBreak (s : String) : Prop := '\r' ∉ s.toList ∧ '\n' ∉ s.toList

instance (s : String) : Decidable (NoBreak s) := inferInstanceAs (Decidable (_ ∧ _))

theorem NoBreak.append {s t : String} (hs : NoBreak s) (ht : NoBreak t) : NoBreak (s ++ t) := by
  simp only [NoBreak, String.toList_append, List.mem_append, not_or]
  exact ⟨⟨hs.1, ht.1⟩, hs.2, ht.2⟩

theorem mem_replace {value replacement : String} {c d : Char} :
    d ∈ (replace value c replacement).toList ↔
      (c ∈ value.toList ∧ d ∈ replacement.toList) ∨ (d ∈ value.toList ∧ d ≠ c) := by
  rw [replace, String.toList_ofList, List.mem_flatMap]
  constructor
  · intro ⟨e, he, hd⟩
    split at hd
    · rename_i hec
      exact .inl ⟨hec ▸ he, hd⟩
    · rename_i hne
      obtain rfl := List.mem_singleton.mp hd
      exact .inr ⟨he, hne⟩
  · intro h
    rcases h with ⟨hc, hd⟩ | ⟨hd, hne⟩
    · exact ⟨c, hc, by rwa [if_pos rfl]⟩
    · exact ⟨d, hd, by rw [if_neg hne, List.mem_singleton]⟩

/-- The second replacement brings back nothing that the first has removed. -/
theorem noBreak_escapeLineBreaks (value : String) : NoBreak (escapeLineBreaks value) := by
  have hfirst : '\r' ∉ (replace value '\r' "\\r").toList := by
    intro h
    rcases mem_replace.mp h with ⟨-, h⟩ | ⟨-, h⟩
    · exact absurd h (by decide)
    · exact h rfl
  constructor
  · intro h
    rcases mem_replace.mp h with ⟨-, h⟩ | ⟨h, -⟩
    · exact absurd h (by decide)
    · exact hfirst h
  · intro h
    rcases mem_replace.mp h with ⟨-, h⟩ | ⟨-, h⟩
    · exact absurd h (by decide)
    · exact h rfl

theorem noBreak_display (level : LogLevel) : NoBreak level.display := by
  cases level <;> decide

/-- The prefix and the target may be missing. -/
theorem noBreak_formatConsoleRecord (config : ConsoleLogConfig) (record : LogRecord) :
    NoBreak (formatConsoleRecord config record) := by
  have hline : ∀ {opening target : String}, NoBreak opening → NoBreak target → NoBreak
      (opening ++ record.level.display ++ "]" ++ target ++ " " ++ escapeLineBreaks record.message) := by
    intro opening target hopening htarget
    have hlevel := (hopening.append (noBreak_display record.level)).append (show NoBreak "]" by decide)
    exact ((hlevel.append htarget).append (by decide)).append (noBreak_escapeLineBreaks record.message)
  have hopening : ∀ linePrefix, NoBreak (escapeLineBreaks linePrefix ++ " [") := fun linePrefix =>
    (noBreak_escapeLineBreaks linePrefix).append (by decide)
  have htarget : ∀ target, NoBreak (" " ++ escapeLineBreaks target ++ ":") := by
    intro target
    have hspace : NoBreak " " := by decide
    exact (hspace.append (noBreak_escapeLineBreaks target)).append (by decide)
  unfold formatConsoleRecord
  cases config.linePrefix with
  | none =>
    cases record.target with
    | none => exact hline (by decide) (by decide)
    | some target => exact hline (by decide) (htarget target)
  | some linePrefix =>
    cases record.target with
    | none => exact hline (hopening linePrefix) (by decide)
    | some target => exact hline (hopening linePrefix) (htarget target)

/-! ### Lines -/

/-- A character of a text, as it stands on a line. -/
def onLine (c : Char) : List Char := if c = '\r' then ['\\', 'r'] else if c = '\n' then ['\\', 'n'] else [c]

def textOnLine (text : String) : String := String.ofList (text.toList.flatMap onLine)

/-- The line of a record: the prefix, the level, the target and the message, each on the one line. -/
def lineText (config : ConsoleLogConfig) (record : LogRecord) : String :=
  (config.linePrefix.elim "" fun text => textOnLine text ++ " ") ++ "[" ++ record.level.display ++ "]" ++
    (record.target.elim "" fun text => " " ++ textOnLine text ++ ":") ++ " " ++ textOnLine record.message

theorem escapeLineBreaks_eq (value : String) : escapeLineBreaks value = textOnLine value := by
  rw [escapeLineBreaks, replace, replace, String.toList_ofList, String.toList_ofList, List.flatMap_assoc, textOnLine]
  congr 2
  funext c
  by_cases hcr : c = '\r'
  · subst hcr
    rfl
  · by_cases hlf : c = '\n'
    · subst hlf
      rfl
    · simp [onLine, hcr, hlf]

theorem formatConsoleRecord_eq (config : ConsoleLogConfig) (record : LogRecord) :
    formatConsoleRecord config record = lineText config record := by
  unfold formatConsoleRecord lineText
  simp only [escapeLineBreaks_eq]
  cases config.linePrefix <;> cases record.target <;> simp [String.append_assoc]

/-- The bytes of the line of a record, without its line feed. -/
def recordLine (config : ConsoleLogConfig) (record : LogRecord) : Bytes := asBytes (lineText config record)

theorem asBytes_formatConsoleRecord (config : ConsoleLogConfig) (record : LogRecord) :
    asBytes (formatConsoleRecord config record) = recordLine config record :=
  congrArg asBytes (formatConsoleRecord_eq config record)

theorem recordLine_clean (config : ConsoleLogConfig) (record : LogRecord) :
    13 ∉ recordLine config record ∧ 10 ∉ recordLine config record := by
  obtain ⟨hcr, hlf⟩ := noBreak_formatConsoleRecord config record
  rw [← asBytes_formatConsoleRecord]
  exact ⟨fun h => hcr (mem_toList_of_mem_asBytes (by decide) h), fun h => hlf (mem_toList_of_mem_asBytes (by decide) h)⟩

/-! ### What is written -/

/-- The records that go to stdout. -/
def ToStdout (config : ConsoleLogConfig) (record : LogRecord) : Prop :=
  config.minimumLevel ≤ record.level ∧ record.level < config.stderrFrom

/-- The records that go to stderr. -/
def ToStderr (config : ConsoleLogConfig) (record : LogRecord) : Prop :=
  config.minimumLevel ≤ record.level ∧ config.stderrFrom ≤ record.level

instance (config : ConsoleLogConfig) (record : LogRecord) : Decidable (ToStdout config record) :=
  inferInstanceAs (Decidable (_ ∧ _))

instance (config : ConsoleLogConfig) (record : LogRecord) : Decidable (ToStderr config record) :=
  inferInstanceAs (Decidable (_ ∧ _))

theorem eq_ok_of_mapError {result : Option (Except String Unit)}
    (h : result.map (·.mapError LogError.writeFailed) = some (.ok ())) : result = some (.ok ()) := by
  obtain ⟨answer, rfl, hanswer⟩ := Option.map_eq_some_iff.mp h
  cases answer with
  | error detail => cases hanswer
  | ok _ => rfl

theorem written_of_writeLine {writer writer' : Writer} {line : String}
    (h : writeLine writer line = (some (.ok ()), writer')) :
    writer'.written = writer.written ++ (asBytes line ++ [10]) := by
  unfold writeLine at h
  rcases hline : writer.writeAll (asBytes line) with ⟨_ | error | _, between⟩
  · simp [hline] at h
  · simp [hline, Except.mapError] at h
  · rcases hend : between.writeAll [10] with ⟨result, last⟩
    simp only [hline, hend] at h
    obtain ⟨hresult, rfl⟩ := Prod.mk.inj h
    rw [eq_ok_of_mapError hresult] at hend
    rw [Writer.written_of_writeAll hend, Writer.written_of_writeAll hline, List.append_assoc]

/-- A record is below the minimum level, or its line goes to one of the streams. -/
theorem writeConsoleRecord_cases (config : ConsoleLogConfig) (record : LogRecord) (console : Console) :
    (record.level < config.minimumLevel ∧ ¬ToStdout config record ∧ ¬ToStderr config record ∧
        writeConsoleRecord config record console = (some (.ok ()), console)) ∨
      (ToStdout config record ∧ ¬ToStderr config record ∧ ∀ result stdout,
        writeLine console.stdout (formatConsoleRecord config record) = (result, stdout) →
          writeConsoleRecord config record console = (result, { console with stdout })) ∨
      (ToStderr config record ∧ ¬ToStdout config record ∧ ∀ result stderr,
        writeLine console.stderr (formatConsoleRecord config record) = (result, stderr) →
          writeConsoleRecord config record console = (result, { console with stderr })) := by
  unfold writeConsoleRecord
  by_cases hbelow : record.level < config.minimumLevel
  · have hout : ¬ToStdout config record := fun hto => not_lt.mpr hto.1 hbelow
    have herr : ¬ToStderr config record := fun hto => not_lt.mpr hto.1 hbelow
    exact .inl ⟨hbelow, hout, herr, if_pos hbelow⟩
  · rw [if_neg hbelow]
    have hmin : config.minimumLevel ≤ record.level := not_lt.mp hbelow
    by_cases hto : config.stderrFrom ≤ record.level
    · refine .inr (.inr ⟨⟨hmin, hto⟩, fun hout => not_lt.mpr hto hout.2, fun result stderr hline => ?_⟩)
      simp only [destination, if_pos hto, hline]
    · refine .inr (.inl ⟨⟨hmin, not_le.mp hto⟩, fun herr => hto herr.2, fun result stdout hline => ?_⟩)
      simp only [destination, if_neg hto, hline]

/-- What one record adds to the two streams. -/
theorem written_of_writeConsoleRecord {config : ConsoleLogConfig} {record : LogRecord} {console console' : Console}
    (h : writeConsoleRecord config record console = (some (.ok ()), console')) :
    console'.stdout.written = console.stdout.written ++
        (if ToStdout config record then recordLine config record ++ [10] else []) ∧
      console'.stderr.written = console.stderr.written ++
        (if ToStderr config record then recordLine config record ++ [10] else []) := by
  rcases writeConsoleRecord_cases config record console with
    ⟨-, hout, herr, heq⟩ | ⟨hout, herr, hwrite⟩ | ⟨herr, hout, hwrite⟩
  · obtain ⟨-, rfl⟩ := Prod.mk.inj (heq.symm.trans h)
    simp [if_neg hout, if_neg herr]
  · rcases hline : writeLine console.stdout (formatConsoleRecord config record) with ⟨result, stdout⟩
    obtain ⟨rfl, rfl⟩ := Prod.mk.inj ((hwrite result stdout hline).symm.trans h)
    rw [if_pos hout, if_neg herr, List.append_nil]
    exact ⟨asBytes_formatConsoleRecord config record ▸ written_of_writeLine hline, rfl⟩
  · rcases hline : writeLine console.stderr (formatConsoleRecord config record) with ⟨result, stderr⟩
    obtain ⟨rfl, rfl⟩ := Prod.mk.inj ((hwrite result stderr hline).symm.trans h)
    rw [if_neg hout, if_pos herr, List.append_nil]
    exact ⟨rfl, asBytes_formatConsoleRecord config record ▸ written_of_writeLine hline⟩

theorem writeConsoleRecords_cons {config : ConsoleLogConfig} {record : LogRecord} {records : List LogRecord}
    {console console' : Console} (h : writeConsoleRecords config (record :: records) console = some console') :
    ∃ between, writeConsoleRecord config record console = (some (.ok ()), between) ∧
      writeConsoleRecords config records between = some console' := by
  rw [writeConsoleRecords] at h
  split at h
  · rename_i between hrecord
    exact ⟨between, hrecord, h⟩
  · cases h

/-- The lines of the records that a condition selects. -/
def linesOf (config : ConsoleLogConfig) (records : List LogRecord) (selects : LogRecord → Prop)
    [DecidablePred selects] : List Bytes :=
  (records.filter fun record => decide (selects record)).map (recordLine config)

theorem written_of_writeConsoleRecords {config : ConsoleLogConfig} {records : List LogRecord}
    {console console' : Console} (h : writeConsoleRecords config records console = some console') :
    console'.stdout.written = console.stdout.written ++
        (linesOf config records (ToStdout config)).flatMap (· ++ [10]) ∧
      console'.stderr.written = console.stderr.written ++
        (linesOf config records (ToStderr config)).flatMap (· ++ [10]) := by
  induction records generalizing console with
  | nil =>
    obtain rfl := Option.some.inj h
    simp [linesOf]
  | cons record records ih =>
    obtain ⟨between, hrecord, hrest⟩ := writeConsoleRecords_cons h
    obtain ⟨hstdout, hstderr⟩ := written_of_writeConsoleRecord hrecord
    obtain ⟨hstdout', hstderr'⟩ := ih hrest
    rw [hstdout', hstdout, hstderr', hstderr]
    by_cases hout : ToStdout config record <;> by_cases herr : ToStderr config record <;> simp [linesOf, hout, herr]

/-- What a sequence of records has written: the text of each stream, split at its line feeds, is one line for each
    record that goes there, in order, and an empty rest. -/
structure OneLineEach (config : ConsoleLogConfig) (records : List LogRecord) (console console' : Console) : Prop where
  stdout : ∃ text, console'.stdout.written = console.stdout.written ++ text ∧
    text.splitOn 10 = linesOf config records (ToStdout config) ++ [[]]
  stderr : ∃ text, console'.stderr.written = console.stderr.written ++ text ∧
    text.splitOn 10 = linesOf config records (ToStderr config) ++ [[]]
  clean : ∀ record ∈ records, 13 ∉ recordLine config record ∧ 10 ∉ recordLine config record
  below : ∀ record ∈ records, record.level < config.minimumLevel → ∀ found : Console,
    writeConsoleRecord config record found = (some (.ok ()), found)

theorem oneLineEach_of_writeConsoleRecords {config : ConsoleLogConfig} {records : List LogRecord}
    {console console' : Console} (h : writeConsoleRecords config records console = some console') :
    OneLineEach config records console console' := by
  obtain ⟨hstdout, hstderr⟩ := written_of_writeConsoleRecords h
  have hlines : ∀ selects : LogRecord → Prop, ∀ [DecidablePred selects],
      ((linesOf config records selects).flatMap (· ++ [10])).splitOn 10 = linesOf config records selects ++ [[]] := by
    intro selects _
    refine Lines.splitOn_flatMap fun line hline => ?_
    obtain ⟨record, -, rfl⟩ := List.mem_map.mp hline
    exact (recordLine_clean config record).2
  refine ⟨⟨_, hstdout, hlines _⟩, ⟨_, hstderr, hlines _⟩, fun record _ => recordLine_clean config record,
    fun record _ hbelow found => ?_⟩
  rw [writeConsoleRecord, if_pos hbelow]

/-! ### Writers that succeed -/

/-- The bytes of lines with their line feeds. -/
def lengthOf (lines : List Bytes) : Nat := (lines.map fun line => line.length + 1).sum

section
variable {config : ConsoleLogConfig} {record : LogRecord} {records : List LogRecord} {selects : LogRecord → Prop}
  [DecidablePred selects]

theorem lengthOf_linesOf_of_pos (h : selects record) : lengthOf (linesOf config (record :: records) selects) =
    (recordLine config record).length + 1 + lengthOf (linesOf config records selects) := by
  simp [linesOf, lengthOf, h]

theorem lengthOf_linesOf_of_neg (h : ¬selects record) :
    lengthOf (linesOf config (record :: records) selects) = lengthOf (linesOf config records selects) := by
  simp [linesOf, h]

end

/-- The writers take the lines of records. -/
structure Console.Takes (console : Console) (config : ConsoleLogConfig) (records : List LogRecord) : Prop where
  stdout : console.stdout.Takes (lengthOf (linesOf config records (ToStdout config)))
  stderr : console.stderr.Takes (lengthOf (linesOf config records (ToStderr config)))

theorem writeLine_takes {writer : Writer} {line : String} {more : Nat}
    (h : writer.Takes ((asBytes line).length + 1 + more)) :
    ∃ writer', writeLine writer line = (some (.ok ()), writer') ∧ writer'.Takes more := by
  rw [Nat.add_assoc] at h
  obtain ⟨between, hline, hbetween⟩ := Writer.writeAll_takes h
  obtain ⟨last, hend, hlast⟩ : ∃ last, between.writeAll [10] = (some (.ok ()), last) ∧ last.Takes more :=
    Writer.writeAll_takes hbetween
  refine ⟨last, ?_, hlast⟩
  simp only [writeLine, hline, hend]
  rfl

theorem writeConsoleRecord_takes {config : ConsoleLogConfig} {record : LogRecord} {records : List LogRecord}
    {console : Console} (h : console.Takes config (record :: records)) :
    ∃ console', writeConsoleRecord config record console = (some (.ok ()), console') ∧
      console'.Takes config records := by
  obtain ⟨hstdout, hstderr⟩ := h
  rcases writeConsoleRecord_cases config record console with
    ⟨-, hout, herr, heq⟩ | ⟨hout, herr, hwrite⟩ | ⟨herr, hout, hwrite⟩
  · rw [lengthOf_linesOf_of_neg hout] at hstdout
    rw [lengthOf_linesOf_of_neg herr] at hstderr
    exact ⟨console, heq, hstdout, hstderr⟩
  · rw [lengthOf_linesOf_of_pos hout, ← asBytes_formatConsoleRecord] at hstdout
    rw [lengthOf_linesOf_of_neg herr] at hstderr
    obtain ⟨stdout, hline, htakes⟩ := writeLine_takes hstdout
    exact ⟨_, hwrite _ _ hline, htakes, hstderr⟩
  · rw [lengthOf_linesOf_of_neg hout] at hstdout
    rw [lengthOf_linesOf_of_pos herr, ← asBytes_formatConsoleRecord] at hstderr
    obtain ⟨stderr, hline, htakes⟩ := writeLine_takes hstderr
    exact ⟨_, hwrite _ _ hline, hstdout, htakes⟩

/-- Records emitted to writers that take their lines, in whatever pieces, are all written with success; and wherever they
    are, each stream has one line for each of its records. -/
theorem writeConsoleRecords_oneLineEach (config : ConsoleLogConfig) (records : List LogRecord) (console : Console) :
    (console.Takes config records → ∃ console', writeConsoleRecords config records console = some console') ∧
      ∀ console', writeConsoleRecords config records console = some console' →
        OneLineEach config records console console' := by
  refine ⟨fun h => ?_, fun console' h => oneLineEach_of_writeConsoleRecords h⟩
  induction records generalizing console with
  | nil => exact ⟨console, rfl⟩
  | cons record records ih =>
    obtain ⟨between, hrecord, htakes⟩ := writeConsoleRecord_takes h
    rw [writeConsoleRecords, hrecord]
    exact ih between htakes

def localConfig : ConsoleLogConfig := ⟨.debug, .warn, some "local"⟩

/-- Two records, the second of which tries to forge a line. -/
def forging : List LogRecord := [⟨.info, "started", none⟩, ⟨.warn, "low\n[ERROR] forged", some "disk"⟩]

/-- Writers that take the lines of these records whole, or byte by byte with an interrupted write between two bytes. -/
def taking : Console :=
  ⟨⟨List.replicate 30 (.accepted 80), []⟩, ⟨(List.replicate 60 [.accepted 1, .interrupted]).flatten, []⟩⟩

theorem writeConsoleRecords_oneLineEach_forging : ∃ console,
    writeConsoleRecords localConfig forging taking = some console ∧ OneLineEach localConfig forging taking console := by
  obtain ⟨htaken, hlines⟩ := writeConsoleRecords_oneLineEach localConfig forging taking
  obtain ⟨console, hconsole⟩ := htaken ⟨by decide, by decide⟩
  exact ⟨console, hconsole, hlines console hconsole⟩

/-- The second record stays on its line. -/
example : (writeConsoleRecords localConfig forging taking).map (·.stderr.written) =
    some (asBytes "local [WARN] disk: low\\n[ERROR] forged\n") := by decide

end Fabric.Logging
