import Fabric.KeyValue.Quickstart
import Fabric.Theorems.KeyValue.Linearizable

/-! What a call of the quickstart component returns while other parties use the same store. -/

namespace Fabric.KeyValue
open Rust Transition Linearizability Locked Session

section
variable {rely : Contents → Contents → Prop} {post : Outcome (Except KeyValueError QuickstartResult) → Prop}

theorem ensures_set {key : String} {value : Bytes} {next : Quickstart} {m : Contents}
    (h : ∀ u, rely m u → Ensures rely MapSpec post next (Function.update u key (some value))) :
    Ensures rely MapSpec post (QuickstartApp.set key value next) m := by
  intro u r t hu hspec
  cases hspec
  exact h u hu

theorem ensures_get {key : String} {next : Option Bytes → Quickstart} {m : Contents}
    (h : ∀ u, rely m u → Ensures rely MapSpec post (next (u key)) u) :
    Ensures rely MapSpec post (QuickstartApp.get key next) m := by
  intro u r t hu hspec
  cases hspec
  exact h u hu

theorem ensures_delete {key : String} {next : Quickstart} {m : Contents}
    (h : ∀ u, rely m u → Ensures rely MapSpec post next (Function.update u key none)) :
    Ensures rely MapSpec post (QuickstartApp.delete key next) m := by
  intro u r t hu hspec
  cases hspec
  exact h u hu

end

/-- Whatever the others do, the component ends with a result. -/
theorem ensures_ok (key : String) (value : Bytes) (m : Contents) :
    Ensures (fun _ _ => True) MapSpec (fun a => ∃ result, a = .returned (.ok result))
      (QuickstartApp.writeReadDelete key value) m :=
  ensures_set fun _ _ => ensures_get fun _ _ => ensures_delete fun _ _ => ensures_get fun _ _ => ⟨_, rfl⟩

/-- The others leave `key` alone. -/
def Leaves (key : String) (u v : Contents) : Prop := v key = u key

theorem Leaves.refl (key : String) (u : Contents) : Leaves key u u := rfl

theorem Leaves.trans {key : String} (u v w : Contents) (h : Leaves key u v) (h' : Leaves key v w) : Leaves key u w :=
  Eq.trans h' h

theorem MapSpec.leaves {m m' : Contents} {op : Op} {r : Outcome Output} {key : String} (h : MapSpec m op r m')
    (hop : op.writes key = none) : Leaves key m m' := by
  rw [Leaves, h.apply key, hop]
  rfl

/-- Others that leave the key alone do not show. -/
theorem ensures_exact (key : String) (value : Bytes) (m : Contents) :
    Ensures (Leaves key) MapSpec (fun a => a = .returned (.ok ⟨some value, none⟩))
      (QuickstartApp.writeReadDelete key value) m := by
  refine ensures_set fun u _ => ensures_get fun v hv => ensures_delete fun w _ => ensures_get fun x hx => ?_
  rw [Leaves, Function.update_self] at hv hx
  rw [hv, hx]
  rfl

/-- While any other parties use the store, a call of `write_read_delete` neither fails nor panics; it returns the value
    that it wrote, and none after the delete, when no other party writes or deletes the key. -/
theorem quickstart_exact {ι : Type} [DecidableEq ι] {programs : ι → Quickstart} {key : String} {value : Bytes} {p : ι}
    (hp : programs p = QuickstartApp.writeReadDelete key value) (as : List (Session.Action ι))
    {s : Session.State Entries ι Op Output _}
    (hrun : run (Session.step MemoryKeyValue.object) (.init ∅ programs) as = some s)
    {a : Outcome (Except KeyValueError QuickstartResult)} (hdone : (s.clients p).rest = .done a) :
    (∃ result, a = .returned (.ok result)) ∧
      ((∀ q, q ≠ p → (programs q).Only fun op => op.writes key = none) → a = .returned (.ok ⟨some value, none⟩)) := by
  have hi := Session.Inv.of_reaches ⟨as, hrun⟩
  obtain ⟨es, hl, hlin⟩ := linearization_of_reaches hi.reaches
  have hsteps := hi.steps_of_done hl hdone
  rw [hp] at hsteps
  refine ⟨?_, fun hothers => ?_⟩
  · have hok := (ensures_ok key value fun _ => none).of_legal (fun _ => trivial) (fun _ _ _ _ _ => trivial) hlin.legal
      (fun _ _ _ _ _ _ => trivial) hsteps trivial
    exact hok
  · have hleaves : ∀ e ∈ es, decide (e.call.1 = p) = false → ∀ u v, MapSpec u e.op e.ret v → Leaves key u v := by
      intro e he hmine u v hspec
      exact hspec.leaves (hi.only hl (hothers _ (of_decide_eq_false hmine)) e (mem_ofParty.mpr ⟨he, rfl⟩))
    have hexact := (ensures_exact key value fun _ => none).of_legal (Leaves.refl key) Leaves.trans hlin.legal hleaves
      hsteps (Leaves.refl key _)
    exact hexact

/-- Two parties, the second of which writes another key. -/
def quickstarts (second : Bool) : Quickstart :=
  bif second then QuickstartApp.writeReadDelete "b" [2] else QuickstartApp.writeReadDelete "a" [1]

/-- A call of a party, from end to end. -/
def whole (p : Bool) (n : Nat) : List (Session.Action Bool) :=
  .call p :: (List.replicate 5 (.advance (p, n)) ++ [.resume p])

def quickstartRun : List (Session.Action Bool) :=
  whole false 0 ++ whole true 0 ++ whole false 1 ++ whole false 2 ++ whole true 1 ++ whole false 3

section
variable {allowed : Op → Prop} {key : String}

theorem only_set {value : Bytes} {next : Quickstart} (hset : allowed (.set key value)) (hnext : next.Only allowed) :
    (QuickstartApp.set key value next).Only allowed := by
  refine ⟨hset, fun answer => ?_⟩
  dsimp only
  split
  · exact hnext
  · trivial
  · trivial

theorem only_get {next : Option Bytes → Quickstart} (hget : allowed (.get key))
    (hnext : ∀ value, (next value).Only allowed) : (QuickstartApp.get key next).Only allowed := by
  refine ⟨hget, fun answer => ?_⟩
  dsimp only
  split
  · exact hnext _
  · trivial
  · trivial

theorem only_delete {next : Quickstart} (hdelete : allowed (.delete key)) (hnext : next.Only allowed) :
    (QuickstartApp.delete key next).Only allowed := by
  refine ⟨hdelete, fun answer => ?_⟩
  dsimp only
  split
  · exact hnext
  · trivial
  · trivial

/-- The component writes no other key than its own. -/
theorem only_writeReadDelete {other : String} (h : key ≠ other) (value : Bytes) :
    (QuickstartApp.writeReadDelete key value).Only fun op => op.writes other = none :=
  only_set (if_neg h) (only_get rfl fun _ => only_delete (if_neg h) (only_get rfl fun _ => trivial))

end

theorem quickstart_exact_run :
    ∃ s, run (Session.step MemoryKeyValue.object) (.init ∅ quickstarts) quickstartRun = some s ∧
      (s.clients false).rest = .done (.returned (.ok ⟨some [1], none⟩)) := by
  obtain ⟨s, hrun, a, hdone⟩ : ∃ s,
      run (Session.step MemoryKeyValue.object) (.init ∅ quickstarts) quickstartRun = some s ∧
      ∃ a, (s.clients false).rest = .done a := ⟨_, rfl, _, rfl⟩
  obtain ⟨-, hexact⟩ := quickstart_exact (p := false) (rfl : quickstarts false = _) quickstartRun hrun hdone
  refine ⟨s, hrun, ?_⟩
  rw [hdone, hexact fun q hq => ?_]
  obtain rfl : q = true := by simpa using hq
  exact only_writeReadDelete (by decide) [2]

end Fabric.KeyValue
