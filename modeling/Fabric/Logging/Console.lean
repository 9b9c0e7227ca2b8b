import Fabric.Library.Write
import Mathlib.Order.Basic

/-! The console log sink: records as lines on two writers. -/

namespace Fabric.Logging
open Rust

inductive LogLevel where
  | trace
  | debug
  | info
  | warn
  | error
  deriving DecidableEq, Repr

namespace LogLevel

def toNat : LogLevel → Nat
  | trace => 0
  | debug => 1
  | info => 2
  | warn => 3
  | error => 4

theorem toNat_injective : Function.Injective toNat := by
  intro a b h
  cases a <;> cases b <;> first | rfl | cases h

/-- The derived order, by severity. -/
instance : LinearOrder LogLevel := LinearOrder.lift' toNat toNat_injective

/-- `Display`. -/
def display : LogLevel → String
  | trace => "TRACE"
  | debug => "DEBUG"
  | info => "INFO"
  | warn => "WARN"
  | error => "ERROR"

end LogLevel

structure LogRecord where
  level : LogLevel
  message : String
  target : Option String
  deriving DecidableEq, Repr

inductive LogErrorKind where
  | writeFailed
  deriving DecidableEq, Repr

structure LogError where
  kind : LogErrorKind
  detail : String
  deriving DecidableEq, Repr

def LogError.writeFailed (detail : String) : LogError := ⟨.writeFailed, detail⟩

structure ConsoleLogConfig where
  minimumLevel : LogLevel
  stderrFrom : LogLevel
  linePrefix : Option String
  deriving DecidableEq, Repr

inductive ConsoleDestination where
  | stdout
  | stderr
  deriving DecidableEq, Repr

def destination (config : ConsoleLogConfig) (level : LogLevel) : ConsoleDestination :=
  if config.stderrFrom ≤ level then .stderr else .stdout

/-- `str::replace` of a character. -/
def replace (value : String) (c : Char) (replacement : String) : String :=
  String.ofList (value.toList.flatMap fun d => if d = c then replacement.toList else [d])

def escapeLineBreaks (value : String) : String := replace (replace value '\r' "\\r") '\n' "\\n"

def formatConsoleRecord (config : ConsoleLogConfig) (record : LogRecord) : String :=
  let message := escapeLineBreaks record.message
  let target := match record.target with
    | some target => " " ++ escapeLineBreaks target ++ ":"
    | none => ""
  match config.linePrefix with
  | some linePrefix => escapeLineBreaks linePrefix ++ " [" ++ record.level.display ++ "]" ++ target ++ " " ++ message
  | none => "[" ++ record.level.display ++ "]" ++ target ++ " " ++ message

/-- What a call returns; `none` where a write does not return. -/
abbrev Emitted := Option (Except LogError Unit)

def writeLine (writer : Writer) (line : String) : Emitted × Writer :=
  match writer.writeAll (asBytes line) with
  | (some (.ok ()), writer) =>
    let (result, writer) := writer.writeAll [10]
    (result.map (·.mapError .writeFailed), writer)
  | (result, writer) => (result.map (·.mapError .writeFailed), writer)

structure Console where
  stdout : Writer
  stderr : Writer
  deriving DecidableEq, Repr

def writeConsoleRecord (config : ConsoleLogConfig) (record : LogRecord) (console : Console) : Emitted × Console :=
  if record.level < config.minimumLevel then (some (.ok ()), console)
  else
    let line := formatConsoleRecord config record
    match destination config record.level with
    | .stdout =>
      let (result, stdout) := writeLine console.stdout line
      (result, { console with stdout })
    | .stderr =>
      let (result, stderr) := writeLine console.stderr line
      (result, { console with stderr })

/-- `write_console_record` for one record after the other, as long as it succeeds. -/
def writeConsoleRecords (config : ConsoleLogConfig) : List LogRecord → Console → Option Console
  | [], console => some console
  | record :: records, console =>
    match writeConsoleRecord config record console with
    | (some (.ok ()), console) => writeConsoleRecords config records console
    | _ => none

/-- `write_console_record` for one record after the other, also after an error, up to a write that does not return. -/
def writeConsoleRecordsOn (config : ConsoleLogConfig) : List LogRecord → Console → List (LogRecord × Emitted) × Console
  | [], console => ([], console)
  | record :: records, console =>
    match writeConsoleRecord config record console with
    | (none, console) => ([(record, none)], console)
    | (some result, console) =>
      let (emits, console) := writeConsoleRecordsOn config records console
      ((record, some result) :: emits, console)

end Fabric.Logging
