import Fabric.Library.Transition
import Fabric.Library.Linearizability
import Mathlib.Logic.Function.Basic

/-! The in-memory counter. Any number of calls run `current` or `increment` on one atomic value; a step
    is one atomic access of a call, or local work of a call between two accesses. -/

namespace Fabric.Counter

inductive CounterErrorKind where
  | readFailed
  | incrementFailed
  deriving DecidableEq, Repr

structure CounterError where
  kind : CounterErrorKind
  detail : String
  deriving DecidableEq, Repr

inductive CounterIncrementResult where
  | updated (value : UInt64)
  | overflow (current attempted : UInt64)
  deriving DecidableEq, Repr

/-- `u64::MAX`. -/
def u64Max : Nat := 18446744073709551615

/-- `u64::checked_add`. -/
def checkedAdd (a b : UInt64) : Option UInt64 := if a.toNat + b.toNat ≤ u64Max then some (a + b) else none

/-- A call of the resource API. -/
inductive Op where
  | current
  | increment (amount : UInt64)
  deriving DecidableEq, Repr

inductive Output where
  | current (result : Except CounterError UInt64)
  | increment (result : Except CounterError CounterIncrementResult)

/-- What a call does next. -/
inductive Pc where
  | idle
  /-- `current`: load the value and return it. -/
  | currentLoad
  /-- `increment`: the load before the loop. -/
  | incrementLoad (amount : UInt64)
  /-- The head of the loop with the local copy `current`. -/
  | checkedAdd (amount current : UInt64)
  | compareExchange (amount current next : UInt64)
  /-- The result is known, and the call has yet to return it. -/
  | returning (op : Op) (result : Output)
  | returned (op : Op) (result : Output)

abbrev Event := Linearizability.Event Nat Op Output
abbrev Entry := Linearizability.Entry Nat Op Output

/-- `InMemoryCounterState` with the calls on it. `history` is read by no step. -/
structure State where
  value : UInt64
  calls : Nat → Pc
  history : List Event

/-- `InMemoryCounterState::default`, before any call. -/
def State.default : State where
  value := 0
  calls _ := .idle
  history := []

def State.setCall (s : State) (c : Nat) (pc : Pc) : State := { s with calls := Function.update s.calls c pc }

inductive Action where
  | invoke (c : Nat) (op : Op)
  | advance (c : Nat)

/-- The first step of an operation. -/
def Op.start : Op → Pc
  | .current => .currentLoad
  | .increment amount => .incrementLoad amount

/-- One step of call `c`. -/
def State.advance (s : State) (c : Nat) : Option State :=
  match s.calls c with
  | .idle => none
  | .currentLoad => some (s.setCall c (.returning .current (.current (.ok s.value))))
  | .incrementLoad amount => some (s.setCall c (.checkedAdd amount s.value))
  | .checkedAdd amount current =>
    match Counter.checkedAdd current amount with
    | none => some (s.setCall c (.returning (.increment amount) (.increment (.ok (.overflow current amount)))))
    | some next => some (s.setCall c (.compareExchange amount current next))
  | .compareExchange amount current next =>
    if s.value = current then
      some ({ s with value := next }.setCall c
        (.returning (.increment amount) (.increment (.ok (.updated next)))))
    else
      -- `Err(observed) => current = observed`, back to the head of the loop.
      some (s.setCall c (.checkedAdd amount s.value))
  | .returning op result =>
    some { s.setCall c (.returned op result) with history := s.history ++ [.respond c op result] }
  | .returned _ _ => none

def step (s : State) : Action → Option State
  | .invoke c op =>
    match s.calls c with
    | .idle => some { s.setCall c op.start with history := s.history ++ [.invoke c op] }
    | _ => none
  | .advance c => s.advance c

/-- A sequential checked counter at `n`. -/
inductive Sequential : Nat → Op → Output → Nat → Prop where
  | current {n : Nat} {value : UInt64} : value.toNat = n → Sequential n .current (.current (.ok value)) n
  | updated {n : Nat} {amount value : UInt64} : n + amount.toNat ≤ u64Max → value.toNat = n + amount.toNat →
      Sequential n (.increment amount) (.increment (.ok (.updated value))) (n + amount.toNat)
  | overflow {n : Nat} {current amount : UInt64} : current.toNat = n → u64Max < current.toNat + amount.toNat →
      Sequential n (.increment amount) (.increment (.ok (.overflow current amount))) n

/-- What a completed call adds to the counter: the amount of an increment that returned `Updated`. -/
def updatedAmount : Entry → Nat
  | ⟨_, .increment amount, .increment (.ok (.updated _))⟩ => amount.toNat
  | _ => 0

/-- Call `c` is an increment that has been invoked and has yet to return. -/
def State.incrementInFlight (s : State) (c : Nat) : Prop :=
  match s.calls c with
  | .incrementLoad _ | .checkedAdd _ _ | .compareExchange _ _ _ | .returning (.increment _) _ => True
  | _ => False

@[simp] theorem setCall_value (s : State) (c : Nat) (pc : Pc) : (s.setCall c pc).value = s.value := rfl
@[simp] theorem setCall_history (s : State) (c : Nat) (pc : Pc) : (s.setCall c pc).history = s.history := rfl
@[simp] theorem setCall_calls_self (s : State) (c : Nat) (pc : Pc) : (s.setCall c pc).calls c = pc :=
  Function.update_self ..

theorem checkedAdd_eq_some {a b c : UInt64} (h : checkedAdd a b = some c) :
    a.toNat + b.toNat ≤ u64Max ∧ c.toNat = a.toNat + b.toNat := by
  unfold checkedAdd at h
  split at h
  · rename_i hle
    obtain rfl := Option.some.inj h
    refine ⟨hle, ?_⟩
    rw [UInt64.toNat_add, Nat.mod_eq_of_lt]
    unfold u64Max at hle
    omega
  · cases h

theorem checkedAdd_eq_none {a b : UInt64} : checkedAdd a b = none ↔ u64Max < a.toNat + b.toNat := by
  simp [checkedAdd]

end Fabric.Counter
