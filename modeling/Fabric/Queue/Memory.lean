import Fabric.Library.Rust
import Fabric.Library.Transition

/-! The bounded in-memory FIFO queue, and the calls that its producers and consumers make on it. -/

namespace Fabric.Queue
open Rust

structure QueueMessage where
  payload : Bytes
  deriving DecidableEq, Repr

inductive QueueSendResult where
  | accepted
  | full (capacity : Nat)
  deriving DecidableEq, Repr

inductive QueueConfigError where
  | zeroCapacity
  deriving DecidableEq, Repr

structure InMemoryQueueConfig where
  capacity : Nat
  deriving DecidableEq, Repr

/-- The front of the `VecDeque` is the head of the list. -/
structure InMemoryQueueState where
  messages : List QueueMessage := []
  deriving DecidableEq, Repr

structure InMemoryQueue where
  config : InMemoryQueueConfig
  state : InMemoryQueueState := {}
  deriving DecidableEq, Repr

namespace InMemoryQueue
variable (queue : InMemoryQueue)

def send (payload : Bytes) : QueueSendResult × InMemoryQueue :=
  if queue.config.capacity ≤ queue.state.messages.length then (.full queue.config.capacity, queue)
  else (.accepted, { queue with state := ⟨queue.state.messages ++ [⟨payload⟩]⟩ })

def tryReceive : Option QueueMessage × InMemoryQueue :=
  match queue.state.messages with
  | [] => (none, queue)
  | message :: rest => (some message, { queue with state := ⟨rest⟩ })

def depth : Nat := queue.state.messages.length

end InMemoryQueue

/-- `memory_queue`: the queue that the resource is realized by. -/
def memoryQueue (capacity : Nat) : Except QueueConfigError InMemoryQueue :=
  if capacity = 0 then .error .zeroCapacity else .ok { config := ⟨capacity⟩ }

/-! ### Calls -/

inductive Call where
  | send (payload : Bytes)
  | tryReceive
  | depth
  deriving DecidableEq, Repr

inductive Output where
  | send (result : QueueSendResult)
  | tryReceive (message : Option QueueMessage)
  | depth (depth : Nat)
  deriving DecidableEq, Repr

/-- A call under the lock of the queue. -/
def InMemoryQueue.call (queue : InMemoryQueue) : Call → Output × InMemoryQueue
  | .send payload => (queue.send payload).map .send id
  | .tryReceive => queue.tryReceive.map .tryReceive id
  | .depth => (.depth queue.depth, queue)

section
variable {Party : Type}

structure Event (Party : Type) where
  party : Party
  call : Call
  output : Output
  deriving DecidableEq, Repr

/-- The queue with the calls made on it. `history` is read by no step. -/
structure System (Party : Type) where
  queue : InMemoryQueue
  history : List (Event Party)
  deriving DecidableEq, Repr

def System.init (queue : InMemoryQueue) : System Party := ⟨queue, []⟩

/-- Some party makes a call; the lock is free between two calls, so any party may be next. -/
def step (s : System Party) (action : Party × Call) : Option (System Party) :=
  let (output, queue) := s.queue.call action.2
  some ⟨queue, s.history ++ [⟨action.1, action.2, output⟩]⟩

/-- The payload of a send that returned `Accepted`. -/
def Event.accepted (event : Event Party) : Option Bytes :=
  match event.call, event.output with
  | .send payload, .send .accepted => some payload
  | _, _ => none

/-- The payload that a `try_receive` returned. -/
def Event.received (event : Event Party) : Option Bytes :=
  match event.output with
  | .tryReceive (some message) => some message.payload
  | _ => none

def System.accepted (s : System Party) : List Bytes := s.history.filterMap Event.accepted

def System.received (s : System Party) : List Bytes := s.history.filterMap Event.received

def System.contents (s : System Party) : List Bytes := s.queue.state.messages.map (·.payload)

end

end Fabric.Queue
