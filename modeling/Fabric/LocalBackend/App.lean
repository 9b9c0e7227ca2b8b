import Fabric.Library.Client
import Fabric.Logging.Console
import Fabric.Sqlite.Adapter

/-! The component of the local backend: it writes a text into its database, reads it back, and logs that it has done so.
    -/

namespace Fabric.LocalBackend
open Logging Sqlite
open Locked (Outcome)

structure StoredData where
  value : String
  logged : LogRecord
  deriving DecidableEq

inductive ExampleBackendError where
  | database (error : RelationalDatabaseError)
  | log (error : LogError)
  | missingRow
  | unexpectedValue
  deriving DecidableEq

abbrev Result := Outcome (Except ExampleBackendError StoredData)

/-- A call of the component, in terms of the calls that it makes on its database. -/
abbrev Backend := Interaction Op Output Result

def createTable : Statement :=
  ⟨.execute, "CREATE TABLE IF NOT EXISTS example_items (id INTEGER PRIMARY KEY, value TEXT NOT NULL)", []⟩

def insertItem (value : String) : Statement :=
  ⟨.execute,
    "INSERT INTO example_items (id, value) VALUES (?1, ?2) ON CONFLICT(id) DO UPDATE SET value = excluded.value",
    [.integer 1, .text value]⟩

def selectItem : Statement := ⟨.query, "SELECT value FROM example_items WHERE id = ?1", [.integer 1]⟩

def logged : LogRecord := ⟨.info, "example stored local data", some "local-backend-example"⟩

/-- `self.relations().database.execute(..)?`. An answer of another kind than the call does not occur. -/
def execute (statement : Statement) (next : Backend) : Backend :=
  .call (.statement statement) fun
    | .answer (.returned (.ok (.executed _))) => next
    | .answer (.returned (.error error)) => .done (.returned (.error (.database error)))
    | _ => .done .panicked

/-- `self.relations().database.query(..)?`. -/
def query (statement : Statement) (next : RelationalQueryResult → Backend) : Backend :=
  .call (.statement statement) fun
    | .answer (.returned (.ok (.queried rows))) => next rows
    | .answer (.returned (.error error)) => .done (.returned (.error (.database error)))
    | _ => .done .panicked

/-- `rows.rows().first().and_then(|row| row.get(0))`, as far as it is a text. -/
def storedValue (rows : RelationalQueryResult) : Except ExampleBackendError String :=
  match rows.rows.head?.bind fun row => row.get 0 with
  | some (.text value) => .ok value
  | some _ => .error .unexpectedValue
  | none => .error .missingRow

/-- `write_read_log`, with what the log answers to a record. -/
def writeReadLog (emit : LogRecord → Except LogError Unit) (value : String) : Backend :=
  execute createTable <| execute (insertItem value) <| query selectItem fun rows =>
    match storedValue rows with
    | .error error => .done (.returned (.error error))
    | .ok stored =>
      match emit logged with
      | .error error => .done (.returned (.error (.log error)))
      | .ok () => .done (.returned (.ok ⟨stored, logged⟩))

end Fabric.LocalBackend
