import Fabric.Process.Execution
import Fabric.Library.Transition

/-! `LocalProcessRuntimeState`: one start and one stop, each a store to two flags, next to operations that load the
    flags one after the other. -/

namespace Fabric.Process.Lifecycle

/-- The lifecycle, at the store that it does next. -/
inductive LifecyclePc where
  /-- The start stores `stopped`. -/
  | created
  | startLive
  /-- The start has returned, and the stop stores `live`. -/
  | started
  | stopStopped
  | stopped
  deriving DecidableEq, Repr

/-- An `execute` call, at what it does next. -/
inductive OperationPc where
  | loadLive
  | loadStopped
  /-- In `execute_local`. -/
  | execute
  /-- The error of `ensure_live`, or none where `execute_local` has run. -/
  | returned (refusal : Option ProcessExecutionError)
  deriving DecidableEq, Repr

structure Operation where
  pc : OperationPc
  /-- The call began after the start had returned. -/
  afterStart : Bool
  /-- The call began after the stop had returned. -/
  afterStop : Bool
  deriving DecidableEq, Repr

structure State where
  live : Bool
  stopped : Bool
  lifecycle : LifecyclePc
  operations : Nat → Option Operation

def State.initial : State := ⟨false, false, .created, fun _ => none⟩

inductive Action where
  | lifecycle
  | call (i : Nat)
  | operation (i : Nat)
  deriving DecidableEq, Repr

def LifecyclePc.startReturned : LifecyclePc → Bool
  | .created | .startLive => false
  | .started | .stopStopped | .stopped => true

namespace State

def setOperation (s : State) (i : Nat) (operation : Operation) : State :=
  { s with operations := Function.update s.operations i (some operation) }

theorem setOperation_eq_some {s : State} {i j : Nat} {operation other : Operation} :
    (s.setOperation i operation).operations j = some other ↔
      (j = i ∧ other = operation) ∨ (j ≠ i ∧ s.operations j = some other) :=
  Transition.update_eq_some

/-- The start and stop blocks. -/
def lifecycleStep (s : State) : Option State :=
  match s.lifecycle with
  | .created => some { s with stopped := false, lifecycle := .startLive }
  | .startLive => some { s with live := true, lifecycle := .started }
  | .started => some { s with live := false, lifecycle := .stopStopped }
  | .stopStopped => some { s with stopped := true, lifecycle := .stopped }
  | .stopped => none

/-- `ensure_live`, and then `execute_local`. -/
def operationStep (s : State) : OperationPc → Option OperationPc
  | .loadLive => some (if s.live then .execute else .loadStopped)
  | .loadStopped => some (.returned (some (if s.stopped then .stopped else .notStarted)))
  | .execute => some (.returned none)
  | .returned _ => none

end State

def step (s : State) : Action → Option State
  | .lifecycle => s.lifecycleStep
  | .call i =>
    match s.operations i with
    | none => some (s.setOperation i ⟨.loadLive, s.lifecycle.startReturned, decide (s.lifecycle = .stopped)⟩)
    | some _ => none
  | .operation i =>
    (s.operations i).bind fun operation =>
      (s.operationStep operation.pc).map fun pc => s.setOperation i { operation with pc }

end Fabric.Process.Lifecycle
