import Fabric.Queue.Concurrent
import Fabric.Counter.Memory

/-! The observed queue: a component that sends to a queue and counts in two counters how the sends ended. Its
    calls run at once, on the queue under its lock and on the two lock-free counters, and other parties use the
    queue as well. -/

namespace Fabric.ObservedQueue
open Rust Counter Queue

structure ObservedQueueCounts where
  successes : UInt64
  failures : UInt64
  deriving DecidableEq, Repr

/-- A call of the component. -/
inductive Op where
  | sendObserved (payload : Bytes)
  | observedCounts
  deriving DecidableEq, Repr

inductive Output where
  | sendObserved (result : Except CounterError QueueSendResult)
  | observedCounts (result : Except CounterError ObservedQueueCounts)

/-- What call `c` of the component waits for. Its call on each resource has its own number `c`. -/
inductive Pc where
  | idle
  /-- `queue.send(payload)`. -/
  | sending (payload : Bytes)
  /-- `successes.increment(1)` after `Accepted`, `failures.increment(1)` after `Full`. -/
  | counting (result : QueueSendResult)
  /-- `successes.current()`. -/
  | readingSuccesses
  /-- `failures.current()`. -/
  | readingFailures (successes : UInt64)
  | returned (output : Output)
  /-- The queue panicked. -/
  | panicked
  /-- Not a call of the component: some party calls the queue itself. -/
  | direct

structure State where
  queue : Locked.State (List QueueMessage) Nat Queue.Call Queue.Output
  successes : Counter.State
  failures : Counter.State
  calls : Nat → Pc
  /-- The calls of the component that have returned. It is read by no step. -/
  history : List (Nat × Output)

/-- The resources of the composition before any call; the counters are used by the component alone. -/
def State.init : State where
  queue := .init []
  successes := .default
  failures := .default
  calls _ := .idle
  history := []

inductive Action where
  | invoke (c : Nat) (op : Op)
  | direct (c : Nat) (call : Queue.Call)
  /-- A call goes on inside a resource. -/
  | queue (c : Nat)
  | successes (c : Nat)
  | failures (c : Nat)
  /-- A call takes the answer of the resource. -/
  | resume (c : Nat)

def State.setCall (s : State) (c : Nat) (pc : Pc) : State := { s with calls := Function.update s.calls c pc }

/-- The call returns. -/
def State.finish (s : State) (c : Nat) (output : Output) : State :=
  { s.setCall c (.returned output) with history := s.history ++ [(c, output)] }

def State.stepQueue (s : State) (capacity : Nat) (a : Locked.Action Nat Queue.Call) : Option State :=
  (Locked.step (InMemoryQueue.object capacity) s.queue a).map fun queue => { s with queue := queue }

def State.stepSuccesses (s : State) (a : Counter.Action) : Option State :=
  (Counter.step s.successes a).map fun successes => { s with successes := successes }

def State.stepFailures (s : State) (a : Counter.Action) : Option State :=
  (Counter.step s.failures a).map fun failures => { s with failures := failures }

/-- The next call of `send_observed` after the queue has answered. -/
def State.count (s : State) (c : Nat) : QueueSendResult → Option State
  | .accepted => ((s.setCall c (.counting .accepted)).stepSuccesses (.invoke c (.increment 1)))
  | .full capacity => ((s.setCall c (.counting (.full capacity))).stepFailures (.invoke c (.increment 1)))

/-- What the counter that `result` is counted in has answered. -/
def State.counted (s : State) (c : Nat) : QueueSendResult → Counter.Pc
  | .accepted => s.successes.calls c
  | .full _ => s.failures.calls c

def State.resume (s : State) (c : Nat) : Option State :=
  match s.calls c with
  | .sending _ =>
    match s.queue.calls c with
    | .returned _ (.returned (.send result)) => s.count c result
    | .returned _ .panicked => some (s.setCall c .panicked)
    | _ => none
  | .counting result =>
    match s.counted c result with
    | .returned _ (.increment (.ok _)) => some (s.finish c (.sendObserved (.ok result)))
    | .returned _ (.increment (.error error)) => some (s.finish c (.sendObserved (.error error)))
    | _ => none
  | .readingSuccesses =>
    match s.successes.calls c with
    | .returned _ (.current (.ok successes)) =>
      (s.setCall c (.readingFailures successes)).stepFailures (.invoke c .current)
    | .returned _ (.current (.error error)) => some (s.finish c (.observedCounts (.error error)))
    | _ => none
  | .readingFailures successes =>
    match s.failures.calls c with
    | .returned _ (.current (.ok failures)) => some (s.finish c (.observedCounts (.ok ⟨successes, failures⟩)))
    | .returned _ (.current (.error error)) => some (s.finish c (.observedCounts (.error error)))
    | _ => none
  | _ => none

def State.invoke (s : State) (capacity c : Nat) (op : Op) : Option State :=
  match s.calls c with
  | .idle =>
    match op with
    | .sendObserved payload => (s.setCall c (.sending payload)).stepQueue capacity (.invoke c (.send payload))
    | .observedCounts => (s.setCall c .readingSuccesses).stepSuccesses (.invoke c .current)
  | _ => none

def step (capacity : Nat) (s : State) : Action → Option State
  | .invoke c op => s.invoke capacity c op
  | .direct c call =>
    match s.calls c with
    | .idle => (s.setCall c .direct).stepQueue capacity (.invoke c call)
    | _ => none
  | .queue c => s.stepQueue capacity (.advance c)
  | .successes c => s.stepSuccesses (.advance c)
  | .failures c => s.stepFailures (.advance c)
  | .resume c => s.resume c

def isAccepted : QueueSendResult → Bool
  | .accepted => true
  | .full _ => false

/-- A call that has returned from a send that ended as `result` says. -/
def endedAs (result : QueueSendResult → Bool) : Nat × Output → Bool
  | (_, .sendObserved (.ok r)) => result r
  | _ => false

/-- How many sends of the component have returned with such a result. -/
def State.returned (s : State) (result : QueueSendResult → Bool) : Nat := s.history.countP (endedAs result)

def Pc.isDirect : Pc → Bool
  | .direct => true
  | _ => false

/-- The answer of the queue to a send of the component. -/
def State.answers (s : State) (result : QueueSendResult → Bool) :
    Linearizability.Event Nat Queue.Call (Locked.Outcome Queue.Output) → Bool
  | .respond c _ (.returned (.send r)) => !(s.calls c).isDirect && result r
  | _ => false

/-- How many sends of the component the queue has answered with such a result. -/
def State.answered (s : State) (result : QueueSendResult → Bool) : Nat := s.queue.history.countP (s.answers result)

/-- Call `c` is one of the component that has yet to return. -/
def Pc.inFlight : Pc → Bool
  | .idle | .returned _ | .panicked | .direct => false
  | _ => true

end Fabric.ObservedQueue
