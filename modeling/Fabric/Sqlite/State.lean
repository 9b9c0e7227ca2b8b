import Fabric.Library.Transition

/-! `SqliteDatabaseState`: one start and one stop next to operations, in single loads and stores of the two flags and
    in sections under the mutex on the connection. -/

namespace Fabric.Sqlite

inductive RelationalDatabaseErrorKind where
  | notStarted
  | stopped
  | executeFailed
  | queryFailed
  deriving DecidableEq, Repr

structure RelationalDatabaseError where
  kind : RelationalDatabaseErrorKind
  detail : String
  deriving DecidableEq, Repr

def RelationalDatabaseError.notStarted : RelationalDatabaseError := ⟨.notStarted, "relational database has not started"⟩

def RelationalDatabaseError.stopped : RelationalDatabaseError := ⟨.stopped, "relational database generation is stopped"⟩

/-- What an operation asks for, with the failure kind that it passes to `with_connection`. -/
inductive Request where
  | execute
  | query
  deriving DecidableEq, Repr

def Request.failureKind : Request → RelationalDatabaseErrorKind
  | .execute => .executeFailed
  | .query => .queryFailed

/-- `mark_started` and `stop`, at what they do next. -/
inductive LifecyclePc where
  /-- `mark_started` takes the lock. -/
  | created
  /-- It puts the connection under the lock. -/
  | startSet
  | startStopped
  | startLive
  /-- `mark_started` has returned, and `stop` stores `live`. -/
  | started
  | stopStopped
  /-- `stop` takes the lock. -/
  | stopLock
  /-- It takes the connection under the lock. -/
  | stopTake
  | stopClose
  | stopped
  | startFailed
  deriving DecidableEq, Repr

/-- An operation, at what it does next. -/
inductive OperationPc where
  | loadLive
  | loadStopped
  | lock
  /-- Under the lock, about to look for the connection. -/
  | guard
  /-- Under the lock, in the body of the operation. -/
  | body (connection : Nat)
  /-- The error of `with_connection`, or none where the body has returned. -/
  | returned (refusal : Option RelationalDatabaseError)
  | panicked
  deriving DecidableEq, Repr

structure Operation where
  request : Request
  pc : OperationPc
  /-- The operation began after the start had returned. -/
  afterStart : Bool
  /-- The operation began after the stop had returned. -/
  afterStop : Bool
  deriving DecidableEq, Repr

inductive Holder where
  | lifecycle
  | operation (i : Nat)
  deriving DecidableEq, Repr

structure State where
  connection : Option Nat
  /-- Who holds the mutex on the connection. -/
  lock : Option Holder
  poisoned : Bool
  live : Bool
  stopped : Bool
  lifecycle : LifecyclePc
  /-- The connection that `stop` has taken. -/
  taken : Option Nat
  operations : Nat → Option Operation

/-- Before the start, which will bring a connection. -/
def State.initial : State where
  connection := none
  lock := none
  poisoned := false
  live := false
  stopped := false
  lifecycle := .created
  taken := none
  operations _ := none

inductive Action where
  /-- A step of the start, which opened this connection, or of the stop. -/
  | lifecycle (connection : Nat)
  | call (i : Nat) (request : Request)
  /-- A step of an operation; the body of one may panic. -/
  | operation (i : Nat) (panics : Bool)
  deriving DecidableEq, Repr

def LifecyclePc.startReturned : LifecyclePc → Bool
  | .created | .startSet | .startStopped | .startLive | .startFailed => false
  | .started | .stopStopped | .stopLock | .stopTake | .stopClose | .stopped => true

namespace State

def setOperation (s : State) (i : Nat) (operation : Operation) : State :=
  { s with operations := Function.update s.operations i (some operation) }

theorem setOperation_eq_some {s : State} {i j : Nat} {operation other : Operation} :
    (s.setOperation i operation).operations j = some other ↔
      (j = i ∧ other = operation) ∨ (j ≠ i ∧ s.operations j = some other) :=
  Transition.update_eq_some

/-- `mark_started` and then `stop`. -/
def lifecycleStep (s : State) (connection : Nat) : Option State :=
  match s.lifecycle with
  | .created =>
    if s.lock = none then
      if s.poisoned then some { s with lifecycle := .startFailed }
      else some { s with lock := some .lifecycle, lifecycle := .startSet }
    else none
  | .startSet => some { s with connection := some connection, lock := none, lifecycle := .startStopped }
  | .startStopped => some { s with stopped := false, lifecycle := .startLive }
  | .startLive => some { s with live := true, lifecycle := .started }
  | .started => some { s with live := false, lifecycle := .stopStopped }
  | .stopStopped => some { s with stopped := true, lifecycle := .stopLock }
  | .stopLock =>
    if s.lock = none then
      -- On a poisoned lock `stop` returns its error at once.
      if s.poisoned then some { s with lifecycle := .stopped }
      else some { s with lock := some .lifecycle, lifecycle := .stopTake }
    else none
  | .stopTake => some { s with connection := none, taken := s.connection, lock := none, lifecycle := .stopClose }
  | .stopClose => some { s with lifecycle := .stopped }
  | .stopped | .startFailed => none

/-- `with_connection`. -/
def operationStep (s : State) (i : Nat) (operation : Operation) (panics : Bool) : Option State :=
  match operation.pc with
  | .loadLive => some (s.setOperation i { operation with pc := if s.live then .lock else .loadStopped })
  | .loadStopped =>
    let error := if s.stopped then RelationalDatabaseError.stopped else .notStarted
    some (s.setOperation i { operation with pc := .returned (some error) })
  | .lock =>
    if s.lock = none then
      if s.poisoned then
        let error := ⟨operation.request.failureKind, "sqlite connection lock poisoned"⟩
        some (s.setOperation i { operation with pc := .returned (some error) })
      else some ({ s with lock := some (.operation i) }.setOperation i { operation with pc := .guard })
    else none
  | .guard =>
    match s.connection with
    | some connection => some (s.setOperation i { operation with pc := .body connection })
    | none => some ({ s with lock := none }.setOperation i { operation with pc := .returned (some .notStarted) })
  | .body _ =>
    if panics then
      some ({ s with lock := none, poisoned := true }.setOperation i { operation with pc := .panicked })
    else some ({ s with lock := none }.setOperation i { operation with pc := .returned none })
  | .returned _ | .panicked => none

end State

def step (s : State) : Action → Option State
  | .lifecycle connection => s.lifecycleStep connection
  | .call i request =>
    match s.operations i with
    | none =>
      some (s.setOperation i ⟨request, .loadLive, s.lifecycle.startReturned, decide (s.lifecycle = .stopped)⟩)
    | some _ => none
  | .operation i panics => (s.operations i).bind fun operation => s.operationStep i operation panics

end Fabric.Sqlite
