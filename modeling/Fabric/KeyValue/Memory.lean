import Fabric.Library.Locked
import Fabric.Library.Rust
import Mathlib.Logic.Function.Basic
import Std.Data.TreeMap.Lemmas

/-! The in-memory key-value store: a map under a mutex, and the map that it stands for. -/

namespace Fabric.KeyValue
open Rust Locked

inductive KeyValueErrorKind where
  | readFailed
  | writeFailed
  | deleteFailed
  deriving DecidableEq, Repr

structure KeyValueError where
  kind : KeyValueErrorKind
  detail : String
  deriving DecidableEq, Repr

namespace KeyValueError

def readFailed (detail : String) : KeyValueError := ⟨.readFailed, detail⟩
def writeFailed (detail : String) : KeyValueError := ⟨.writeFailed, detail⟩
def deleteFailed (detail : String) : KeyValueError := ⟨.deleteFailed, detail⟩

end KeyValueError

/-- A call of the resource API. -/
inductive Op where
  | get (key : String)
  | set (key : String) (value : Bytes)
  | delete (key : String)
  deriving DecidableEq, Repr

inductive Output where
  | get (result : Except KeyValueError (Option Bytes))
  | set (result : Except KeyValueError Unit)
  | delete (result : Except KeyValueError Unit)

/-- The `entries` of `MemoryKeyValueState`. -/
abbrev Entries := Std.TreeMap String Bytes

namespace MemoryKeyValue

/-- What each method does under the lock. -/
def body : Op → Body Entries Output
  | .get key => .read fun entries => .done (.get (.ok entries[key]?))
  | .set key value => .update (·.insert key value) (.done (.set (.ok ())))
  | .delete key => .update (·.erase key) (.done (.delete (.ok ())))

/-- The `map_err` of each method. -/
def onPoison : Op → Outcome Output
  | .get _ => .returned (.get (.error (.readFailed "memory key-value state lock poisoned")))
  | .set _ _ => .returned (.set (.error (.writeFailed "memory key-value state lock poisoned")))
  | .delete _ => .returned (.delete (.error (.deleteFailed "memory key-value state lock poisoned")))

def object : Object Entries Op Output := ⟨body, onPoison⟩

end MemoryKeyValue

/-! ### The map -/

/-- What a store holds under each key. -/
abbrev Contents := String → Option Bytes

def Entries.contents (entries : Entries) : Contents := fun key => entries[key]?

/-- A sequential map. -/
inductive MapSpec : Contents → Op → Outcome Output → Contents → Prop where
  | get {m : Contents} {key : String} : MapSpec m (.get key) (.returned (.get (.ok (m key)))) m
  | set {m : Contents} {key : String} {value : Bytes} :
      MapSpec m (.set key value) (.returned (.set (.ok ()))) (Function.update m key (some value))
  | delete {m : Contents} {key : String} :
      MapSpec m (.delete key) (.returned (.delete (.ok ()))) (Function.update m key none)

/-- What an operation writes under `key`: a value, or none. -/
def Op.writes (key : String) : Op → Option (Option Bytes)
  | .get _ => none
  | .set key' value => if key' = key then some (some value) else none
  | .delete key' => if key' = key then some none else none

/-- What the last of some operations to write under `key` wrote; nothing is there before the first. -/
def latest (key : String) (ops : List Op) : Option Bytes := (ops.reverse.findSome? (Op.writes key)).getD none

@[simp] theorem contents_empty : Entries.contents ∅ = fun _ => none := by
  funext key
  exact Std.TreeMap.getElem?_emptyc

theorem contents_insert (entries : Entries) (key : String) (value : Bytes) :
    Entries.contents (entries.insert key value) = Function.update entries.contents key (some value) := by
  funext key'
  rw [Function.update_apply, Entries.contents, Std.TreeMap.getElem?_insert]
  exact if_congr (Std.LawfulEqCmp.compare_eq_iff_eq.trans eq_comm) rfl rfl

theorem contents_erase (entries : Entries) (key : String) :
    Entries.contents (entries.erase key) = Function.update entries.contents key none := by
  funext key'
  rw [Function.update_apply, Entries.contents, Std.TreeMap.getElem?_erase]
  exact if_congr (Std.LawfulEqCmp.compare_eq_iff_eq.trans eq_comm) rfl rfl

end Fabric.KeyValue
