import Fabric.Library.Locked
import Fabric.Library.Path
import Fabric.Library.Standing
import Fabric.Sqlite.State

/-! The SQLite adapter from generation to generation: overlapping calls of `execute` and `query` next to starts and
    stops, on a connection with all that the driver keeps in it. -/

namespace Fabric.Sqlite
open Rust Linearizability
open Locked (Outcome)

/-! ### Values -/

/-- A value of type `f64` is given by its bits. -/
inductive RelationalValue where
  | null
  | integer (value : Int64)
  | real (bits : UInt64)
  | text (value : String)
  | bytes (value : Bytes)
  deriving DecidableEq

/-- `rusqlite::types::Value`. -/
inductive Value where
  | null
  | integer (value : Int64)
  | real (bits : UInt64)
  | text (value : String)
  | blob (value : Bytes)
  deriving DecidableEq

def sqliteValue : RelationalValue → Value
  | .null => .null
  | .integer value => .integer value
  | .real bits => .real bits
  | .text value => .text value
  | .bytes value => .blob value

def sqliteValues (values : List RelationalValue) : List Value := values.map sqliteValue

def relationalValue : Value → RelationalValue
  | .null => .null
  | .integer value => .integer value
  | .real bits => .real bits
  | .text value => .text value
  | .blob value => .bytes value

structure RelationalRow where
  values : List RelationalValue
  deriving DecidableEq

def RelationalRow.get (row : RelationalRow) (index : Nat) : Option RelationalValue := row.values[index]?

structure RelationalQueryResult where
  rows : List RelationalRow
  deriving DecidableEq

/-! ### The driver -/

/-- What `row.get` gives of a column. -/
inductive Column where
  | value (value : Value)
  | error (error : String)
  | panic

abbrev DriverRow := Nat → Column

inductive SqliteDatabasePath where
  | file (path : PathBuf)
  | inMemory

/-- The crate `rusqlite`, the file system and the database files. Errors are given by their texts. -/
structure Rusqlite where
  /-- What is there apart from an open connection. -/
  World : Type
  Connection : Type
  createDirAll : List Component → World → Except String Unit × World
  openFile : PathBuf → World → Except String Connection × World
  openInMemory : World → Except String Connection × World
  execute : Connection → World → String → List Value → Except String Nat × Connection × World
  /-- A prepared statement, by the number of its columns. -/
  prepare : Connection → World → String → Except String Nat
  /-- `query_map`, with the rows that are stepped to when the first error ends it. -/
  queryMap : Connection → World → String → List Value →
    Except String (List (Except String DriverRow)) × Connection × World
  close : Connection → World → Except String Unit × World
  /-- A connection that is dropped. -/
  drop : Connection → World → World

section
variable (driver : Rusqlite)

def openConnection (path : SqliteDatabasePath) (world : driver.World) :
    Except String driver.Connection × driver.World :=
  match path with
  | .file path =>
    let (created, world) :=
      match parent (components path) with
      | some parent => driver.createDirAll parent world
      | none => (.ok (), world)
    match created with
    | .error error => (.error ("sqlite database directory failed: " ++ error), world)
    | .ok () =>
      let (opened, world) := driver.openFile path world
      (opened.mapError ("sqlite open failed: " ++ ·), world)
  | .inMemory =>
    let (opened, world) := driver.openInMemory world
    (opened.mapError ("sqlite in-memory open failed: " ++ ·), world)

/-! ### Statements -/

/-- A call of `execute` or of `query`. -/
structure Statement where
  request : Request
  statement : String
  parameters : List RelationalValue

inductive Answer where
  | executed (count : Nat)
  | queried (result : RelationalQueryResult)
  deriving DecidableEq

/-- The loop over the columns of a row. -/
def collectColumns (row : DriverRow) : List Nat → Outcome (Except String (List RelationalValue))
  | [] => .returned (.ok [])
  | index :: rest =>
    match row index with
    | .panic => .panicked
    | .error error => .returned (.error error)
    | .value value =>
      match collectColumns row rest with
      | .returned (.ok values) => .returned (.ok (relationalValue value :: values))
      | .returned (.error error) => .returned (.error error)
      | .panicked => .panicked

/-- The loop over the rows. -/
def collectRows (columnCount : Nat) : List (Except String DriverRow) → Outcome (Except String (List RelationalRow))
  | [] => .returned (.ok [])
  | .error error :: _ => .returned (.error error)
  | .ok row :: rest =>
    match collectColumns row (List.range columnCount) with
    | .panicked => .panicked
    | .returned (.error error) => .returned (.error error)
    | .returned (.ok values) =>
      match collectRows columnCount rest with
      | .returned (.ok rows) => .returned (.ok (⟨values⟩ :: rows))
      | .returned (.error error) => .returned (.error error)
      | .panicked => .panicked

abbrev StatementResult := Outcome (Except RelationalDatabaseError Answer)

def StatementResult.isPanic : StatementResult → Bool
  | .panicked => true
  | .returned _ => false

/-- `sqlite_error`. -/
def sqliteError (kind : RelationalDatabaseErrorKind) (error : String) : RelationalDatabaseError := ⟨kind, error⟩

/-- What `execute` and `query` do with the connection. -/
def runStatement (statement : Statement) (connection : driver.Connection) (world : driver.World) :
    StatementResult × driver.Connection × driver.World :=
  let parameters := sqliteValues statement.parameters
  match statement.request with
  | .execute =>
    let (result, connection, world) := driver.execute connection world statement.statement parameters
    (.returned (match result with
      | .ok count => .ok (.executed count)
      | .error error => .error (sqliteError .executeFailed error)), connection, world)
  | .query =>
    match driver.prepare connection world statement.statement with
    | .error error => (.returned (.error (sqliteError .queryFailed error)), connection, world)
    | .ok columnCount =>
      let (result, connection, world) := driver.queryMap connection world statement.statement parameters
      match result with
      | .error error => (.returned (.error (sqliteError .queryFailed error)), connection, world)
      | .ok rows =>
        (match collectRows columnCount rows with
          | .returned (.ok rows) => .returned (.ok (.queried ⟨rows⟩))
          | .returned (.error error) => .returned (.error (sqliteError .queryFailed error))
          | .panicked => .panicked, connection, world)

/-! ### The adapter -/

inductive Op where
  | statement (statement : Statement)
  | start
  | stop

/-- The error of a start or a stop is the message of its `ModuleError`. -/
inductive Output where
  | answer (result : StatementResult)
  | lifecycle (result : Except String Unit)
  deriving DecidableEq

namespace Adapter

/-- The one thread that starts and stops the adapter, at what it does next. -/
inductive LifecyclePc where
  | down
  /-- `start` opens a connection. -/
  | opening
  /-- `mark_started` takes the lock. -/
  | opened (connection : driver.Connection)
  /-- It puts the connection under the lock. -/
  | startSet (connection : driver.Connection)
  | startStopped
  | startLive
  | starting (result : Except String Unit)
  | up
  /-- `stop` stores `live`. -/
  | stopLive
  | stopStopped
  /-- It takes the lock. -/
  | stopLock
  /-- It takes the connection under the lock. -/
  | stopTake
  | stopClose (taken : Option driver.Connection)
  | stopping (result : Except String Unit)

/-- A call of `execute` or `query`, at what it does next. -/
inductive CallPc where
  | idle
  | loadLive (statement : Statement)
  | loadStopped (statement : Statement)
  | lock (statement : Statement)
  /-- Under the lock, about to look for the connection. -/
  | guard (statement : Statement)
  /-- Under the lock, in the body of the operation. -/
  | body (statement : Statement) (connection : driver.Connection)
  | returning (statement : Statement) (result : StatementResult)
  | returned

inductive Holder (ι : Type) where
  | lifecycle
  | call (i : ι)
  deriving DecidableEq

/-- A call of a caller, or the start or stop of that number. -/
abbrev CallId (ι : Type) := ι ⊕ Nat

/-- `history` and `number`, of starts and stops, are read by no step. -/
structure State (ι : Type) where
  connection : Option driver.Connection
  world : driver.World
  /-- Who holds the mutex on the connection. -/
  lock : Option (Holder ι)
  poisoned : Bool
  live : Bool
  stopped : Bool
  lifecycle : LifecyclePc driver
  number : Nat
  calls : ι → CallPc driver
  history : List (Event (CallId ι) Op Output)

inductive Action (ι : Type) where
  | call (i : ι) (statement : Statement)
  | advance (i : ι)
  /-- A step of the thread that starts and stops. -/
  | lifecycle

end Adapter

end

/-- The message of `with_connection` on a poisoned lock. -/
def lockPoisoned (request : Request) : RelationalDatabaseError :=
  ⟨request.failureKind, "sqlite connection lock poisoned"⟩

def startPoisoned : String := "sqlite connection lock poisoned during start"

def stopPoisoned : String := "sqlite connection lock poisoned during stop"

section
variable (driver : Rusqlite)

/-- The connection that an assignment replaces is dropped. -/
def dropReplaced (connection : Option driver.Connection) (world : driver.World) : driver.World :=
  match connection with
  | some connection => driver.drop connection world
  | none => world

/-- What `stop` does with the connection that it has taken. -/
def closeTaken (taken : Option driver.Connection) (world : driver.World) : Except String Unit × driver.World :=
  match taken with
  | some connection =>
    let (closed, world) := driver.close connection world
    (closed.mapError ("sqlite close failed: " ++ ·), world)
  | none => (.ok (), world)

end

namespace Adapter
variable {driver : Rusqlite} {ι : Type}

/-- Before the first start. -/
def State.init (world : driver.World) : State driver ι where
  connection := none
  world := world
  lock := none
  poisoned := false
  live := false
  stopped := false
  lifecycle := .down
  number := 0
  calls _ := .idle
  history := []

namespace State

def invoke (s : State driver ι) (c : CallId ι) (op : Op) : State driver ι :=
  { s with history := s.history ++ [.invoke c op] }

def respond (s : State driver ι) (c : CallId ι) (op : Op) (output : Output) : State driver ι :=
  { s with history := s.history ++ [.respond c op output] }

/-- The start or stop in progress ends, and the next one gets the next number. -/
def endLifecycle (s : State driver ι) (op : Op) (result : Except String Unit) (pc : LifecyclePc driver) :
    State driver ι :=
  { s.respond (.inr s.number) op (.lifecycle result) with lifecycle := pc, number := s.number + 1 }

/-- `start` and `stop`. -/
def lifecycleStep (s : State driver ι) (path : SqliteDatabasePath) : Option (State driver ι) :=
  match s.lifecycle with
  | .down => some { s.invoke (.inr s.number) .start with lifecycle := .opening }
  | .opening =>
    match openConnection driver path s.world with
    | (.ok connection, world) => some { s with world := world, lifecycle := .opened connection }
    | (.error error, world) => some { s with world := world, lifecycle := .starting (.error error) }
  | .opened connection =>
    if s.lock.isNone then
      if s.poisoned then
        some { s with world := driver.drop connection s.world, lifecycle := .starting (.error startPoisoned) }
      else some { s with lock := some .lifecycle, lifecycle := .startSet connection }
    else none
  | .startSet connection =>
    some { s with
      connection := some connection, world := dropReplaced driver s.connection s.world, lock := none,
      lifecycle := .startStopped }
  | .startStopped => some { s with stopped := false, lifecycle := .startLive }
  | .startLive => some { s with live := true, lifecycle := .starting (.ok ()) }
  | .starting (.ok ()) => some (s.endLifecycle .start (.ok ()) .up)
  | .starting (.error error) => some (s.endLifecycle .start (.error error) .down)
  | .up => some { s.invoke (.inr s.number) .stop with lifecycle := .stopLive }
  | .stopLive => some { s with live := false, lifecycle := .stopStopped }
  | .stopStopped => some { s with stopped := true, lifecycle := .stopLock }
  | .stopLock =>
    if s.lock.isNone then
      if s.poisoned then some { s with lifecycle := .stopping (.error stopPoisoned) }
      else some { s with lock := some .lifecycle, lifecycle := .stopTake }
    else none
  | .stopTake => some { s with connection := none, lock := none, lifecycle := .stopClose s.connection }
  | .stopClose taken =>
    some { s with
      world := (closeTaken driver taken s.world).2, lifecycle := .stopping (closeTaken driver taken s.world).1 }
  | .stopping result => some (s.endLifecycle .stop result .down)

variable [DecidableEq ι]

def setCall (s : State driver ι) (i : ι) (pc : CallPc driver) : State driver ι :=
  { s with calls := Function.update s.calls i pc }

/-- `with_connection`. -/
def advance (s : State driver ι) (i : ι) : Option (State driver ι) :=
  match s.calls i with
  | .idle | .returned => none
  | .loadLive statement => some (s.setCall i (if s.live then .lock statement else .loadStopped statement))
  | .loadStopped statement =>
    some (s.setCall i (.returning statement (.returned (.error (if s.stopped then .stopped else .notStarted)))))
  | .lock statement =>
    if s.lock.isNone then
      if s.poisoned then
        some (s.setCall i (.returning statement (.returned (.error (lockPoisoned statement.request)))))
      else some ({ s with lock := some (.call i) }.setCall i (.guard statement))
    else none
  | .guard statement =>
    match s.connection with
    | some connection => some (s.setCall i (.body statement connection))
    | none => some ({ s with lock := none }.setCall i (.returning statement (.returned (.error .notStarted))))
  | .body statement connection =>
    let (result, connection, world) := runStatement driver statement connection s.world
    some ({ s with
      connection := some connection, world := world, lock := none,
      poisoned := result.isPanic }.setCall i (.returning statement result))
  | .returning statement result =>
    some ((s.respond (.inl i) (.statement statement) (.answer result)).setCall i .returned)

end State

variable [DecidableEq ι]

def step (path : SqliteDatabasePath) (s : State driver ι) : Action ι → Option (State driver ι)
  | .call i statement =>
    match s.calls i with
    | .idle => some ((s.invoke (.inl i) (.statement statement)).setCall i (.loadLive statement))
    | _ => none
  | .advance i => s.advance i
  | .lifecycle => s.lifecycleStep path

end Adapter

/-! ### The sequential database -/

/-- A database that one caller at a time uses. -/
structure Database (driver : Rusqlite) where
  connection : Option driver.Connection
  world : driver.World
  /-- An operation has panicked. -/
  poisoned : Bool

namespace Database
variable {driver : Rusqlite}

def start (path : SqliteDatabasePath) (d : Database driver) : Except String Unit × Database driver :=
  match openConnection driver path d.world with
  | (.error error, world) => (.error error, { d with world := world })
  | (.ok connection, world) =>
    if d.poisoned then (.error startPoisoned, { d with world := driver.drop connection world })
    else (.ok (), { d with connection := some connection, world := dropReplaced driver d.connection world })

def stop (d : Database driver) : Except String Unit × Database driver :=
  if d.poisoned then (.error stopPoisoned, d)
  else
    ((closeTaken driver d.connection d.world).1,
      { d with connection := none, world := (closeTaken driver d.connection d.world).2 })

def statement (statement : Statement) (d : Database driver) : StatementResult × Database driver :=
  if d.poisoned then (.returned (.error (lockPoisoned statement.request)), d)
  else
    match d.connection with
    | none => (.returned (.error .notStarted), d)
    | some connection =>
      let (result, connection, world) := runStatement driver statement connection d.world
      (result, ⟨some connection, world, result.isPanic⟩)

/-- What a call does: a statement runs, or it is refused and changes nothing; a start finds no connection, unless an
    operation has panicked. -/
inductive Spec (path : SqliteDatabasePath) : Database driver → Op → Output → Database driver → Prop where
  | ran {d : Database driver} {statement : Statement} :
      Spec path d (.statement statement) (.answer (d.statement statement).1) (d.statement statement).2
  | refused {d : Database driver} {statement : Statement} {error : RelationalDatabaseError} :
      error = .notStarted ∨ error = .stopped →
      Spec path d (.statement statement) (.answer (.returned (.error error))) d
  | start {d : Database driver} : (d.poisoned = false → d.connection = none) →
      Spec path d .start (.lifecycle (d.start path).1) (d.start path).2
  | stop {d : Database driver} : Spec path d .stop (.lifecycle d.stop.1) d.stop.2

theorem spec_statement (path : SqliteDatabasePath) (s : Statement) (d : Database driver) :
    Spec path d (.statement s) (.answer (d.statement s).1) (d.statement s).2 := .ran

theorem spec_start {d : Database driver} (path : SqliteDatabasePath) (h : d.poisoned = false → d.connection = none) :
    Spec path d .start (.lifecycle (d.start path).1) (d.start path).2 := .start h

theorem spec_stop (path : SqliteDatabasePath) (d : Database driver) :
    Spec path d .stop (.lifecycle d.stop.1) d.stop.2 := .stop

end Database

end Fabric.Sqlite
