import Fabric.Queue.Memory
import Fabric.Library.Locked

/-! The in-memory queue under its mutex: what each method does between taking and releasing the lock. -/

namespace Fabric.Queue
open Rust Locked

namespace InMemoryQueue

/-- `messages.len()`, and `push_back` when there is room. -/
def sendBody (capacity : Nat) (payload : Bytes) : Body (List QueueMessage) Output :=
  .read fun messages =>
    if capacity ≤ messages.length then .done (.send (.full capacity))
    else .update (· ++ [⟨payload⟩]) (.done (.send .accepted))

/-- `pop_front`. -/
def tryReceiveBody : Body (List QueueMessage) Output :=
  .read fun messages => .update List.tail (.done (.tryReceive messages.head?))

/-- `len`. -/
def depthBody : Body (List QueueMessage) Output := .read fun messages => .done (.depth messages.length)

def body (capacity : Nat) : Call → Body (List QueueMessage) Output
  | .send payload => sendBody capacity payload
  | .tryReceive => tryReceiveBody
  | .depth => depthBody

/-- The queue as its callers find it: `lock().expect("in-memory queue state")` panics on a poisoned lock. -/
def object (capacity : Nat) : Object (List QueueMessage) Call Output := ⟨body capacity, fun _ => .panicked⟩

end InMemoryQueue

end Fabric.Queue
