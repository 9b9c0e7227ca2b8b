import Fabric.KeyValue.Memory
import Fabric.Library.Session

/-! The quickstart component: it writes a key of its store, reads it, deletes it and reads it again. -/

namespace Fabric.KeyValue
open Rust Locked

structure QuickstartResult where
  stored : Option Bytes
  afterDelete : Option Bytes
  deriving DecidableEq, Repr

/-- A call of the component, in terms of the calls that it makes on its store. -/
abbrev Quickstart := Session.Program Op Output (Outcome (Except KeyValueError QuickstartResult))

namespace QuickstartApp

/-- `resolve_resource(store.set(key, value))?`. An answer of another kind than the call does not occur. -/
def set (key : String) (value : Bytes) (next : Quickstart) : Quickstart :=
  .call (.set key value) fun
    | .returned (.set (.ok ())) => next
    | .returned (.set (.error error)) => .done (.returned (.error error))
    | _ => .done .panicked

def get (key : String) (next : Option Bytes → Quickstart) : Quickstart :=
  .call (.get key) fun
    | .returned (.get (.ok value)) => next value
    | .returned (.get (.error error)) => .done (.returned (.error error))
    | _ => .done .panicked

def delete (key : String) (next : Quickstart) : Quickstart :=
  .call (.delete key) fun
    | .returned (.delete (.ok ())) => next
    | .returned (.delete (.error error)) => .done (.returned (.error error))
    | _ => .done .panicked

def writeReadDelete (key : String) (value : Bytes) : Quickstart :=
  set key value <| get key fun stored => delete key <| get key fun afterDelete =>
    .done (.returned (.ok ⟨stored, afterDelete⟩))

end QuickstartApp

end Fabric.KeyValue
