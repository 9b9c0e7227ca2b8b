import Fabric.Tcp.Basic
import Fabric.Library.Transition
import Mathlib.Logic.Function.Basic

/-! The loopback adapter: its lifecycle (`start` and `stop`), the listener thread of each generation and any
    number of `accept` calls, over one shared `TcpListenerState`. A step is one atomic access, one section
    under a mutex of the lifecycle or of a listener, or one step of an `accept` call, which holds the queue
    mutex from its `lock` to its `wait` or its return. -/

namespace Fabric.Tcp.Loopback

/-- A stream that the listening socket of `generation` accepted. `own` marks the connection that `stop`
    makes to its own listener. -/
structure Stream where
  id : Nat
  generation : Nat
  own : Bool
  deriving DecidableEq, Repr

/-- The statements of `start` after the bind, each waiting to run. -/
inductive StartStep where
  | stopRequested
  | generationLive
  | acceptedConnections
  | clearQueue
  | actualAddress
  | spawn
  | handle
  deriving DecidableEq, Repr

/-- The statements of `stop`, each waiting to run. -/
inductive StopStep where
  | stopRequested
  | generationLive
  | actualAddress
  | connect (address : Option TcpSocketAddress)
  | notifyAll
  | takeHandle
  | join (g : Nat)
  | clearQueue
  | clearAddress
  deriving DecidableEq, Repr

inductive Lifecycle where
  /-- Before the first `start`, or once `stop` has returned. -/
  | stopped
  | starting (next : StartStep) (actual : TcpSocketAddress)
  /-- `start` has returned and `stop` has not been called. -/
  | running
  | stopping (next : StopStep)
  deriving DecidableEq, Repr

/-- The listener thread, at the statement it runs next. -/
inductive ListenerPc where
  | unspawned
  /-- In `listener.incoming()`. -/
  | incoming
  /-- The check at the head of the loop body; `none` is an accept error. -/
  | checkStop (accepted : Option Stream)
  | checkAccepted (stream : Stream)
  | checkFailed
  | count (stream : Stream)
  | push (stream : Stream)
  | notifyOne
  /-- Past the loop: `generation_live.store(false)`. -/
  | clearLive
  | notifyAll
  | finished
  deriving DecidableEq, Repr

/-- An `accept` call, at the statement it runs next. -/
inductive AcceptPc where
  | uncalled
  | checkLive
  | lock
  | popFront
  | checkStop
  /-- Under the lock, with `stop_requested` read as false. -/
  | wait
  /-- In `available.wait`: parked as long as it is among the waiters, and then waiting for the lock. -/
  | waiting
  | accepted (stream : Stream)
  | stopped
  deriving DecidableEq, Repr

structure State where
  -- `TcpListenerState`
  actualAddress : Option TcpSocketAddress
  /-- A `usize` of 64 bits, to which `fetch_add` adds with wrap-around. -/
  acceptedConnections : UInt64
  stopRequested : Bool
  generationLive : Bool
  queue : List Stream
  handle : Option Nat
  -- The holder of the queue mutex among the `accept` calls, and the calls parked on its condition variable.
  lock : Option Nat
  waiters : List Nat
  -- Threads; a listener thread is named by the generation that spawned it.
  lifecycle : Lifecycle
  listeners : Nat → ListenerPc
  acceptors : Nat → AcceptPc
  -- The operating system: connections that a listening socket holds for `incoming`.
  backlog : Nat → List Stream
  nextStream : Nat
  -- History, read by no decision of the code: the number of starts, and for each generation the streams
  -- that its listener counted and pushed and the streams popped during it.
  generation : Nat
  counted : Nat → List Stream
  pushed : Nat → List Stream
  delivered : Nat → List Stream

/-- `TcpListenerState::default`, before the first start. -/
def State.initial : State where
  actualAddress := none
  acceptedConnections := 0
  stopRequested := false
  generationLive := false
  queue := []
  handle := none
  lock := none
  waiters := []
  lifecycle := .stopped
  listeners _ := .unspawned
  acceptors _ := .uncalled
  backlog _ := []
  nextStream := 0
  generation := 0
  counted _ := []
  pushed _ := []
  delivered _ := []

inductive Action where
  /-- `start` up to the bind and `local_addr`, which fail or give the bound address. -/
  | start (bound : Option TcpSocketAddress)
  | stop
  /-- The next statement of `start` or `stop`; `connected` is the outcome of the connection of `stop`. -/
  | lifecycle (connected : Bool)
  /-- A peer connects to the listening socket of generation `g`. -/
  | peer (g : Nat)
  /-- `incoming` yields the next connection, or an error. -/
  | incoming (g : Nat) (failed : Bool)
  | listener (g : Nat)
  /-- `notify_one`, with the waiter it wakes, if one is parked. -/
  | notifyOne (g : Nat) (waiter : Option Nat)
  | call (a : Nat)
  | accept (a : Nat)
  /-- `available.wait` of a parked call returns without a notification. -/
  | wake (a : Nat)
  deriving DecidableEq, Repr

namespace State

def setListener (s : State) (g : Nat) (pc : ListenerPc) : State :=
  { s with listeners := Function.update s.listeners g pc }

def setAcceptor (s : State) (a : Nat) (pc : AcceptPc) : State :=
  { s with acceptors := Function.update s.acceptors a pc }

/-- The listening socket of generation `g` is open: from the bind until its thread drops it. -/
def socketOpen (s : State) (g : Nat) : Bool :=
  decide (0 < g ∧ g ≤ s.generation) && s.listeners g != .finished

/-- A connection arrives at the listening socket of generation `g`. -/
def arrive (s : State) (g : Nat) (own : Bool) : State :=
  { s with
    backlog := Function.update s.backlog g (s.backlog g ++ [⟨s.nextStream, g, own⟩])
    nextStream := s.nextStream + 1 }

def start (s : State) (bound : Option TcpSocketAddress) : Option State :=
  match s.lifecycle, bound with
  | .stopped, none => some s
  | .stopped, some actual =>
    some { s with generation := s.generation + 1, lifecycle := .starting .stopRequested actual }
  | _, _ => none

def stop (s : State) : Option State :=
  match s.lifecycle with
  | .running => some { s with lifecycle := .stopping .stopRequested }
  | _ => none

def startStep (s : State) (actual : TcpSocketAddress) : StartStep → Option State
  | .stopRequested =>
    some { s with stopRequested := false, lifecycle := .starting .generationLive actual }
  | .generationLive =>
    some { s with generationLive := true, lifecycle := .starting .acceptedConnections actual }
  | .acceptedConnections =>
    some { s with acceptedConnections := 0, lifecycle := .starting .clearQueue actual }
  | .clearQueue =>
    if s.lock = none then some { s with queue := [], lifecycle := .starting .actualAddress actual } else none
  | .actualAddress =>
    some { s with actualAddress := some actual, lifecycle := .starting .spawn actual }
  | .spawn =>
    some { s.setListener s.generation .incoming with lifecycle := .starting .handle actual }
  | .handle => some { s with handle := some s.generation, lifecycle := .running }

def stopStep (s : State) (connected : Bool) : StopStep → Option State
  | .stopRequested => some { s with stopRequested := true, lifecycle := .stopping .generationLive }
  | .generationLive => some { s with generationLive := false, lifecycle := .stopping .actualAddress }
  | .actualAddress => some { s with lifecycle := .stopping (.connect s.actualAddress) }
  | .connect none => some { s with lifecycle := .stopping .notifyAll }
  | .connect (some _) =>
    if connected then
      if s.socketOpen s.generation then
        some { s.arrive s.generation true with lifecycle := .stopping .notifyAll }
      else none
    else some { s with lifecycle := .stopping .notifyAll }
  | .notifyAll => some { s with waiters := [], lifecycle := .stopping .takeHandle }
  | .takeHandle =>
    match s.handle with
    | some g => some { s with handle := none, lifecycle := .stopping (.join g) }
    | none => some { s with lifecycle := .stopping .clearQueue }
  | .join g => if s.listeners g = .finished then some { s with lifecycle := .stopping .clearQueue } else none
  | .clearQueue =>
    if s.lock = none then some { s with queue := [], lifecycle := .stopping .clearAddress } else none
  | .clearAddress => some { s with actualAddress := none, lifecycle := .stopped }

def lifecycleStep (s : State) (connected : Bool) : Option State :=
  match s.lifecycle with
  | .stopped | .running => none
  | .starting next actual => s.startStep actual next
  | .stopping next => s.stopStep connected next

def peer (s : State) (g : Nat) : Option State := if s.socketOpen g then some (s.arrive g false) else none

def incoming (s : State) (g : Nat) (failed : Bool) : Option State :=
  match s.listeners g with
  | .incoming =>
    if failed then some (s.setListener g (.checkStop none))
    else
      match s.backlog g with
      | [] => none
      | stream :: rest =>
        some { s.setListener g (.checkStop (some stream)) with backlog := Function.update s.backlog g rest }
  | _ => none

def listenerStep (s : State) (g : Nat) : Option State :=
  match s.listeners g with
  | .checkStop accepted =>
    if s.stopRequested then some (s.setListener g .clearLive)
    else
      match accepted with
      | some stream => some (s.setListener g (.checkAccepted stream))
      | none => some (s.setListener g .checkFailed)
  | .checkAccepted stream => some (s.setListener g (if s.stopRequested then .clearLive else .count stream))
  | .checkFailed => some (s.setListener g (if s.stopRequested then .clearLive else .incoming))
  | .count stream =>
    some { s.setListener g (.push stream) with
      acceptedConnections := s.acceptedConnections + 1
      counted := Function.update s.counted g (s.counted g ++ [stream]) }
  | .push stream =>
    if s.lock = none then
      some { s.setListener g .notifyOne with
        queue := s.queue ++ [stream]
        pushed := Function.update s.pushed g (s.pushed g ++ [stream]) }
    else none
  | .clearLive => some { s.setListener g .notifyAll with generationLive := false }
  | .notifyAll => some { s.setListener g .finished with waiters := [] }
  | .unspawned | .incoming | .notifyOne | .finished => none

def notifyOne (s : State) (g : Nat) (waiter : Option Nat) : Option State :=
  match s.listeners g, waiter with
  | .notifyOne, none => if s.waiters = [] then some (s.setListener g .incoming) else none
  | .notifyOne, some a =>
    if a ∈ s.waiters then some { s.setListener g .incoming with waiters := s.waiters.erase a } else none
  | _, _ => none

def call (s : State) (a : Nat) : Option State :=
  match s.acceptors a with
  | .uncalled => some (s.setAcceptor a .checkLive)
  | _ => none

def acceptStep (s : State) (a : Nat) : Option State :=
  match s.acceptors a with
  | .checkLive => some (s.setAcceptor a (if s.generationLive then .lock else .stopped))
  | .lock => if s.lock = none then some { s.setAcceptor a .popFront with lock := some a } else none
  | .popFront =>
    match s.queue with
    | stream :: rest =>
      some { s.setAcceptor a (.accepted stream) with
        queue := rest
        lock := none
        delivered := Function.update s.delivered s.generation (s.delivered s.generation ++ [stream]) }
    | [] => some (s.setAcceptor a .checkStop)
  | .checkStop =>
    if s.stopRequested then some { s.setAcceptor a .stopped with lock := none }
    else some (s.setAcceptor a .wait)
  | .wait => some { s.setAcceptor a .waiting with lock := none, waiters := a :: s.waiters }
  | .waiting =>
    if a ∉ s.waiters ∧ s.lock = none then some { s.setAcceptor a .popFront with lock := some a } else none
  | .uncalled | .accepted _ | .stopped => none

def wake (s : State) (a : Nat) : Option State :=
  if a ∈ s.waiters then some { s with waiters := s.waiters.erase a } else none

end State

def step (s : State) : Action → Option State
  | .start bound => s.start bound
  | .stop => s.stop
  | .lifecycle connected => s.lifecycleStep connected
  | .peer g => s.peer g
  | .incoming g failed => s.incoming g failed
  | .listener g => s.listenerStep g
  | .notifyOne g waiter => s.notifyOne g waiter
  | .call a => s.call a
  | .accept a => s.acceptStep a
  | .wake a => s.wake a

theorem wake_eq_some {s t : State} {a : Nat} (h : s.wake a = some t) :
    a ∈ s.waiters ∧ t = { s with waiters := s.waiters.erase a } := by
  unfold State.wake at h
  split at h
  · rename_i hmem
    exact ⟨hmem, (Option.some.inj h).symm⟩
  · cases h

/-- The stop of generation `g` has returned. -/
def State.StopReturned (s : State) (g : Nat) : Prop :=
  g < s.generation ∨ (g = s.generation ∧ s.lifecycle = .stopped)

instance (s : State) (g : Nat) : Decidable (s.StopReturned g) :=
  inferInstanceAs (Decidable (_ ∨ _))

end Fabric.Tcp.Loopback
