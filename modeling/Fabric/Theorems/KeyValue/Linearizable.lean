import Fabric.KeyValue.Memory

/-! The in-memory store is linearizable to a map: every `get` returns what the last `set` or `delete` of
    its key left, and no call fails, whatever calls overlap. -/

namespace Fabric.KeyValue
open Rust Transition Linearizability Locked

variable {ι : Type}

theorem body_safe (op : Op) : (MemoryKeyValue.object.body op).Safe := by
  intro entries
  cases op with
  | get key => exact ⟨_, _, rfl⟩
  | set key value => exact ⟨_, _, rfl⟩
  | delete key => exact ⟨_, _, rfl⟩

theorem body_accesses (op : Op) (entries : Entries) : (MemoryKeyValue.object.body op).accesses entries ≤ 1 := by
  cases op <;> exact Nat.le_refl 1

/-- A sound store stands for the map of its entries. -/
def Holds (g : Guarded Entries) (m : Contents) : Prop := g.poisoned = false ∧ g.value.contents = m

theorem spec_simulates (g : Guarded Entries) (m : Contents) (op : Op) (r : Outcome Output) (g' : Guarded Entries)
    (hg : Holds g m) (h : MemoryKeyValue.object.Spec g op r g') : ∃ m', Holds g' m' ∧ MapSpec m op r m' := by
  obtain ⟨hsound, rfl⟩ := hg
  rw [Object.Spec, call_of_sound hsound] at h
  cases op with
  | get key =>
    obtain ⟨rfl, rfl⟩ := Prod.mk.inj h
    exact ⟨_, ⟨rfl, rfl⟩, .get⟩
  | set key value =>
    obtain ⟨rfl, rfl⟩ := Prod.mk.inj h
    exact ⟨_, ⟨rfl, contents_insert _ _ _⟩, .set⟩
  | delete key =>
    obtain ⟨rfl, rfl⟩ := Prod.mk.inj h
    exact ⟨_, ⟨rfl, contents_erase _ _⟩, .delete⟩

/-! ### Reads and writes of one key -/

theorem MapSpec.apply {m m' : Contents} {op : Op} {r : Outcome Output} (h : MapSpec m op r m') (key : String) :
    m' key = (op.writes key).getD (m key) := by
  cases h with
  | get => rfl
  | set =>
    rw [Function.update_apply, Op.writes, apply_ite (Option.getD · _)]
    exact if_congr eq_comm rfl rfl
  | delete =>
    rw [Function.update_apply, Op.writes, apply_ite (Option.getD · _)]
    exact if_congr eq_comm rfl rfl

/-- Under each key is what the last write of it left. -/
theorem Legal.apply {m m' : Contents} {es : List (Entry ι Op (Outcome Output))} (h : Legal MapSpec m es m')
    (key : String) : m' key = ((es.map (·.op)).reverse.findSome? (Op.writes key)).getD (m key) :=
  h.last_write fun _ _ _ _ hspec => hspec.apply key

theorem Legal.get {m m' : Contents} {es₁ es₂ : List (Entry ι Op (Outcome Output))} {c : ι} {key : String}
    {r : Outcome Output} (h : Legal MapSpec m (es₁ ++ ⟨c, .get key, r⟩ :: es₂) m') (hm : m key = none) :
    r = .returned (.get (.ok (latest key (es₁.map (·.op))))) := by
  obtain ⟨u, v, hu, hget⟩ := h.split
  have hkey := Legal.apply hu key
  rw [hm] at hkey
  cases hget with
  | get => rw [hkey, latest]

/-- An answer that carries no error. -/
def Output.succeeds : Output → Prop
  | .get result => ∃ value, result = .ok value
  | .set result | .delete result => result = .ok ()

theorem MapSpec.succeeds {m m' : Contents} {op : Op} {r : Outcome Output} (h : MapSpec m op r m') :
    ∃ output, r = .returned output ∧ output.succeeds := by
  cases h with
  | get => exact ⟨_, rfl, _, rfl⟩
  | set => exact ⟨_, rfl, rfl⟩
  | delete => exact ⟨_, rfl, rfl⟩

section
variable [DecidableEq ι] {s : Locked.State Entries ι Op Output}

/-- The linearization of a run to the map. -/
theorem linearization_of_reaches (h : Reaches (step MemoryKeyValue.object) (.init ∅) s) :
    ∃ es, Inv MemoryKeyValue.object ⟨∅, false⟩ s es ∧
      Linearization MapSpec (fun _ => none) s.history es s.settled.value.contents := by
  obtain ⟨es, hi⟩ := Inv.of_reaches h
  obtain ⟨m, ⟨-, rfl⟩, hl⟩ := hi.points.linearization.simulate spec_simulates
    (show Holds ⟨∅, false⟩ fun _ => none from ⟨rfl, contents_empty⟩)
  exact ⟨es, hi, hl⟩

/-- Every run of overlapping calls is one of a map, in an order of the calls that keeps the order of those that do not
    overlap: a `get` returns what the last `set` or `delete` of its key before it left, every call succeeds, and when
    none is in flight the order has exactly the completed calls and leads to the entries of the store. -/
theorem store_linearizable (as : List (Locked.Action ι Op))
    (hrun : run (step MemoryKeyValue.object) (.init ∅) as = some s) :
    ∃ es, Linearization MapSpec (fun _ => none) s.history es s.settled.value.contents ∧
      (∀ es₁ c key r es₂, es = es₁ ++ ⟨c, .get key, r⟩ :: es₂ →
        r = .returned (.get (.ok (latest key (es₁.map (·.op)))))) ∧
      (∀ c op r, .respond c op r ∈ s.history → ∃ output, r = .returned output ∧ output.succeeds) ∧
      ((∀ c, (s.calls c).inFlight = false) →
        es.Perm (completed s.history) ∧ s.guarded.value.contents = fun key => latest key (es.map (·.op))) := by
  obtain ⟨es, hi, hl⟩ := linearization_of_reaches ⟨as, hrun⟩
  refine ⟨es, hl, ?_, ?_, fun hstill => ⟨hi.perm_completed hstill, ?_⟩⟩
  · rintro es₁ c key r es₂ rfl
    exact Legal.get hl.legal rfl
  · intro c op r hr
    obtain ⟨u, v, hspec⟩ := hl.legal.exists_spec (hl.complete ⟨c, op, r⟩ (mem_completed.mpr hr))
    exact hspec.succeeds
  · funext key
    rw [← hi.settled_eq hstill, Legal.apply hl.legal key]
    rfl

/-- A `set` is in its section while a `get` of the same key waits for the lock. -/
def setRun : List (Locked.Action Nat Op) :=
  [.invoke 0 (.set "a" [1]), .invoke 1 (.get "a"), .advance 0, .advance 0, .advance 0, .advance 0, .advance 0,
    .advance 1,
    .advance 1, .advance 1, .advance 1, .advance 1]

theorem store_linearizable_setRun :
    ∃ s : Locked.State Entries Nat Op Output, run (step MemoryKeyValue.object) (.init ∅) setRun = some s ∧
      s.history = [.invoke 0 (.set "a" [1]), .invoke 1 (.get "a"),
        .respond 0 (.set "a" [1]) (.returned (.set (.ok ()))),
        .respond 1 (.get "a") (.returned (.get (.ok (some [1]))))] ∧
      ∃ es, Linearization MapSpec (fun _ => none) s.history es s.settled.value.contents ∧
        ∀ es₁ c key r es₂, es = es₁ ++ ⟨c, .get key, r⟩ :: es₂ →
          r = .returned (.get (.ok (latest key (es₁.map (·.op))))) :=
  have ⟨es, hlin, hget, _⟩ := store_linearizable setRun rfl
  ⟨_, rfl, rfl, es, hlin, hget⟩

/-- Calls of the store do not wait for ever: each takes at most five steps, and while one is in flight some call
    can take one. -/
theorem store_progress (as : List (Locked.Action ι Op))
    (hrun : run (step MemoryKeyValue.object) (.init ∅) as = some s) :
    (∀ c, as.countP (Locked.Action.advances c) ≤ 5) ∧
      ∀ c, (s.calls c).inFlight = true → ∃ c' t, step MemoryKeyValue.object s (.advance c') = some t := by
  obtain ⟨es, hi⟩ := Inv.of_reaches ⟨as, hrun⟩
  exact ⟨steps_le body_accesses hrun, fun c hc => hi.progress hc⟩

/-- The `get` waits while the `set` holds the lock. -/
theorem store_progress_setRun :
    ∃ s : Locked.State Entries Nat Op Output, run (step MemoryKeyValue.object) (.init ∅) (setRun.take 4) = some s ∧
      s.holder = some 0 ∧ step MemoryKeyValue.object s (.advance 1) = none ∧
      ∃ c' t, step MemoryKeyValue.object s (.advance c') = some t :=
  ⟨_, rfl, rfl, rfl, (store_progress (setRun.take 4) rfl).2 1 rfl⟩

end

end Fabric.KeyValue
