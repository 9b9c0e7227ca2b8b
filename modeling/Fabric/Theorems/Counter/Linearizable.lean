import Fabric.Counter.Memory
import Mathlib.Algebra.BigOperators.Group.List.Basic
import Mathlib.Algebra.Ring.Nat
import Mathlib.Data.List.Perm.Subperm

/-! The in-memory counter is linearizable. `current` takes effect at its load, an increment that returns
    `Updated` at its successful compare-exchange, and one that returns `Overflow` at the access that
    observed the value it overflows, however long before it returns. -/

namespace Fabric.Counter
open Transition Linearizability

/-! ### The invariant of a call -/

/-- Call `c` has been invoked with `op`, and has yet to take effect. -/
structure Pending (h : List Event) (es : List Entry) (c : Nat) (op : Op) : Prop where
  invoked : .invoke c op ∈ h
  fresh : c ∉ es.map (·.call)
  silent : ∀ op' r', .respond c op' r' ∉ h

/-- Call `c` has taken effect with result `r`, and has yet to return it. -/
structure Committed (h : List Event) (es : List Entry) (c : Nat) (op : Op) (r : Output) : Prop where
  mem : ⟨c, op, r⟩ ∈ es
  silent : ∀ op' r', .respond c op' r' ∉ h

/-- What the history and the committed calls say of a call that stands at `pc`. A call at the head of the
    loop has taken effect when its local copy overflows: it can only return `Overflow`. -/
def CallInv (h : List Event) (es : List Entry) (c : Nat) : Pc → Prop
  | .idle => ∀ op, .invoke c op ∉ h
  | .currentLoad => Pending h es c .current
  | .incrementLoad amount => Pending h es c (.increment amount)
  | .checkedAdd amount current =>
    match Counter.checkedAdd current amount with
    | none => Committed h es c (.increment amount) (.increment (.ok (.overflow current amount)))
    | some _ => Pending h es c (.increment amount)
  | .compareExchange amount current next =>
    Counter.checkedAdd current amount = some next ∧ Pending h es c (.increment amount)
  | .returning op r => Committed h es c op r
  | .returned op r => .respond c op r ∈ h

/-- `es` are the committed calls of `s`, in the order in which they took effect. -/
structure Inv (s : State) (es : List Entry) : Prop where
  points : Points Sequential 0 s.history es s.value.toNat
  calls : ∀ c, CallInv s.history es c (s.calls c)

section Frame
variable {h k : List Event} {es f : List Entry} {c c' : Nat}

theorem Pending.frame {op : Op} (hc : c' ≠ c) (hhs : ∀ ev ∈ k, ev.call = c) (hes : ∀ e ∈ f, e.call = c)
    (hp : Pending h es c' op) : Pending (h ++ k) (es ++ f) c' op where
  invoked := List.mem_append_left _ hp.invoked
  fresh hmem := by
    rw [List.map_append, List.mem_append] at hmem
    rcases hmem with hmem | hmem
    · exact hp.fresh hmem
    · obtain ⟨e, he, heq⟩ := List.mem_map.mp hmem
      exact hc (heq.symm.trans (hes e he))
  silent op' r' hmem := by
    rcases List.mem_append.mp hmem with hmem | hmem
    · exact hp.silent op' r' hmem
    · exact hc (hhs _ hmem)

theorem Committed.frame {op : Op} {r : Output} (hc : c' ≠ c) (hhs : ∀ ev ∈ k, ev.call = c)
    (hp : Committed h es c' op r) : Committed (h ++ k) (es ++ f) c' op r where
  mem := List.mem_append_left _ hp.mem
  silent op' r' hmem := by
    rcases List.mem_append.mp hmem with hmem | hmem
    · exact hp.silent op' r' hmem
    · exact hc (hhs _ hmem)

/-- A step of call `c` adds only events and entries of `c`, so it keeps what holds of another call. -/
theorem CallInv.frame {pc : Pc} (hc : c' ≠ c) (hhs : ∀ ev ∈ k, ev.call = c) (hes : ∀ e ∈ f, e.call = c)
    (hi : CallInv h es c' pc) : CallInv (h ++ k) (es ++ f) c' pc := by
  cases pc with
  | idle =>
    intro op hmem
    rcases List.mem_append.mp hmem with hmem | hmem
    · exact hi op hmem
    · exact hc (hhs _ hmem)
  | currentLoad => exact Pending.frame hc hhs hes hi
  | incrementLoad amount => exact Pending.frame hc hhs hes hi
  | checkedAdd amount current =>
    cases hadd : Counter.checkedAdd current amount with
    | none =>
      simp only [CallInv, hadd] at hi ⊢
      exact Committed.frame hc hhs hi
    | some next =>
      simp only [CallInv, hadd] at hi ⊢
      exact Pending.frame hc hhs hes hi
  | compareExchange amount current next => exact ⟨hi.1, Pending.frame hc hhs hes hi.2⟩
  | returning op r => exact Committed.frame hc hhs hi
  | returned op r => exact List.mem_append_left _ hi

theorem Inv.update {s t : State} {pc : Pc} (hi : Inv s es) (hcalls : t.calls = Function.update s.calls c pc)
    (hhist : t.history = s.history ++ k) (hhs : ∀ ev ∈ k, ev.call = c) (hes : ∀ e ∈ f, e.call = c)
    (hpoints : Points Sequential 0 t.history (es ++ f) t.value.toNat)
    (hpc : CallInv t.history (es ++ f) c pc) : Inv t (es ++ f) where
  points := hpoints
  calls c' := by
    by_cases hc : c' = c
    · subst hc
      rw [hcalls, Function.update_self]
      exact hpc
    · rw [hcalls, Function.update_of_ne hc, hhist]
      exact (hi.calls c').frame hc hhs hes

end Frame

theorem Inv.default : Inv .default [] where
  points := .init
  calls _ _ hmem := by cases hmem

/-! ### Steps -/

section Steps
variable {s t : State} {es : List Entry} {c : Nat}

/-- A step of call `c` that only moves it on. -/
theorem Inv.move {pc : Pc} (hi : Inv s es) (hpc : CallInv s.history es c pc) : Inv (s.setCall c pc) es := by
  have h := hi.update (t := s.setCall c pc) (k := []) (f := []) (c := c) rfl (by simp) (by simp) (by simp)
    (by simpa using hi.points) (by simpa using hpc)
  simpa using h

/-- The access at which call `c` takes effect. -/
theorem Inv.commit {pc : Pc} {op : Op} {r : Output} {v : UInt64} (hi : Inv s es)
    (hp : Pending s.history es c op) (hspec : Sequential s.value.toNat op r v.toNat)
    (hpc : Committed s.history (es ++ [⟨c, op, r⟩]) c op r → CallInv s.history (es ++ [⟨c, op, r⟩]) c pc) :
    Inv ({ s with value := v }.setCall c pc) (es ++ [⟨c, op, r⟩]) :=
  hi.update (k := []) rfl (by simp) (by simp) (by simp) (hi.points.commit hp.invoked hp.fresh hspec)
    (hpc ⟨by simp, hp.silent⟩)

/-- Observing the value moves an increment to the head of its loop; it takes effect if the sum overflows. -/
theorem Inv.observe {amount : UInt64} (hi : Inv s es) (hp : Pending s.history es c (.increment amount)) :
    ∃ es', Inv (s.setCall c (.checkedAdd amount s.value)) es' := by
  cases hadd : checkedAdd s.value amount with
  | none =>
    refine ⟨_, hi.commit (v := s.value) (r := .increment (.ok (.overflow s.value amount))) hp ?_ ?_⟩
    · exact .overflow rfl (checkedAdd_eq_none.mp hadd)
    · intro hcommitted
      simpa only [CallInv, hadd] using hcommitted
  | some next =>
    refine ⟨es, hi.move ?_⟩
    simpa only [CallInv, hadd] using hp

theorem Inv.advance (hi : Inv s es) (hs : s.advance c = some t) : ∃ es', Inv t es' := by
  have hc := hi.calls c
  unfold State.advance at hs
  cases hpc : s.calls c with
  | idle => simp [hpc] at hs
  | currentLoad =>
    simp only [hpc, Option.some.injEq] at hs hc
    subst hs
    exact ⟨_, hi.commit (v := s.value) hc (.current rfl) id⟩
  | incrementLoad amount =>
    simp only [hpc, Option.some.injEq] at hs hc
    subst hs
    exact hi.observe hc
  | checkedAdd amount current =>
    simp only [hpc] at hs hc
    cases hadd : Counter.checkedAdd current amount with
    | none =>
      simp only [hadd, Option.some.injEq, CallInv] at hs hc
      subst hs
      exact ⟨es, hi.move hc⟩
    | some next =>
      simp only [hadd, Option.some.injEq, CallInv] at hs hc
      subst hs
      exact ⟨es, hi.move ⟨hadd, hc⟩⟩
  | compareExchange amount current next =>
    simp only [hpc, CallInv] at hs hc
    obtain ⟨hadd, hp⟩ := hc
    split at hs
    · rename_i hcur
      obtain rfl := Option.some.inj hs
      obtain ⟨hle, hnext⟩ := checkedAdd_eq_some hadd
      refine ⟨_, hi.commit hp ?_ id⟩
      rw [hnext, ← hcur]
      exact .updated (hcur ▸ hle) (hcur ▸ hnext)
    · obtain rfl := Option.some.inj hs
      exact hi.observe hp
  | returning op r =>
    simp only [hpc, Option.some.injEq, CallInv] at hs hc
    subst hs
    have h := hi.update (t := { s.setCall c (.returned op r) with history := s.history ++ [.respond c op r] })
      (f := []) (c := c) rfl rfl (by simp [Linearizability.Event.call]) (by simp)
      (by simpa using hi.points.respond hc.mem hc.silent) (by simp [CallInv])
    exact ⟨es, by simpa using h⟩
  | returned op r => simp [hpc] at hs

theorem Inv.invoke {op : Op} (hi : Inv s es) (hidle : s.calls c = .idle) :
    Inv { s.setCall c op.start with history := s.history ++ [.invoke c op] } es := by
  have hc := hi.calls c
  simp only [hidle, CallInv] at hc
  have hfresh : c ∉ es.map (·.call) := by
    intro hmem
    obtain ⟨e, he, rfl⟩ := List.mem_map.mp hmem
    exact hc _ (hi.points.invoked e he)
  have hsilent : ∀ op' r', .respond c op' r' ∉ s.history ++ [.invoke c op] := by
    intro op' r' hmem
    have hmem : .respond c op' r' ∈ s.history := by simpa using hmem
    exact hfresh (List.mem_map.mpr ⟨⟨c, op', r'⟩, hi.points.complete _ (mem_completed.mpr hmem), rfl⟩)
  have hp : Pending (s.history ++ [.invoke c op]) es c op := ⟨by simp, hfresh, hsilent⟩
  have h := hi.update (t := { s.setCall c op.start with history := s.history ++ [.invoke c op] })
    (f := []) (c := c) rfl rfl (by simp [Linearizability.Event.call]) (by simp)
    (by simpa using hi.points.invoke hc) (by cases op <;> simpa [Op.start, CallInv] using hp)
  simpa using h

theorem Inv.kept {a : Action} (hi : Inv s es) (hs : step s a = some t) : ∃ es', Inv t es' := by
  cases a with
  | invoke c op =>
    simp only [Counter.step] at hs
    split at hs
    · rename_i hidle
      obtain rfl := Option.some.inj hs
      exact ⟨es, hi.invoke hidle⟩
    · cases hs
  | advance c => exact hi.advance hs

/-- The value only changes at a successful compare-exchange, to a sum that did not overflow. -/
theorem Inv.value_le {a : Action} (hi : Inv s es) (hs : Counter.step s a = some t) :
    s.value.toNat ≤ t.value.toNat := by
  cases a with
  | invoke c op =>
    simp only [Counter.step] at hs
    split at hs
    · obtain rfl := Option.some.inj hs
      exact Nat.le_refl _
    · cases hs
  | advance c =>
    have hc := hi.calls c
    simp only [Counter.step, State.advance] at hs
    cases hpc : s.calls c with
    | compareExchange amount current next =>
      simp only [hpc, CallInv] at hs hc
      split at hs
      · rename_i hcur
        obtain rfl := Option.some.inj hs
        have hnext := (checkedAdd_eq_some hc.1).2
        simp only [setCall_value]
        rw [hnext, hcur]
        exact Nat.le_add_right _ _
      · obtain rfl := Option.some.inj hs
        exact Nat.le_refl _
    | checkedAdd amount current =>
      simp only [hpc] at hs
      split at hs <;> obtain rfl := Option.some.inj hs <;> exact Nat.le_refl _
    | idle => simp [hpc] at hs
    | returned op r => simp [hpc] at hs
    | currentLoad =>
      simp only [hpc, Option.some.injEq] at hs
      exact hs ▸ Nat.le_refl _
    | incrementLoad amount =>
      simp only [hpc, Option.some.injEq] at hs
      exact hs ▸ Nat.le_refl _
    | returning op r =>
      simp only [hpc, Option.some.injEq] at hs
      exact hs ▸ Nat.le_refl _

end Steps

theorem Inv.of_reaches {s : State} (h : Reaches step .default s) : ∃ es, Inv s es :=
  h.invariant (I := fun s => ∃ es, Inv s es) (fun _ _ _ ⟨_, hi⟩ hs => hi.kept hs) ⟨[], .default⟩

theorem value_le_of_reaches {s t : State} (hs : Reaches step .default s) (ht : Reaches step s t) :
    s.value.toNat ≤ t.value.toNat :=
  ht.relates (I := fun s => ∃ es, Inv s es) (R := fun s t => s.value.toNat ≤ t.value.toNat)
    (fun _ _ _ ⟨_, hi⟩ hstep => hi.kept hstep) (fun _ _ _ ⟨_, hi⟩ hstep => hi.value_le hstep)
    (fun _ => Nat.le_refl _) (fun _ _ _ => Nat.le_trans) (Inv.of_reaches hs)

/-! ### The sum of the increments -/

theorem Legal.sum {n m : Nat} {es : List Entry} (h : Legal Sequential n es m) :
    m = n + (es.map updatedAmount).sum := by
  induction h with
  | nil => simp
  | @cons s t u e es hspec _ ih =>
    obtain ⟨c, op, r⟩ := e
    rw [ih, List.map_cons, List.sum_cons]
    cases hspec <;> simp [updatedAmount, Nat.add_assoc]

/-- The entry of an increment that is not in flight is one of a call that responded. -/
theorem Inv.completed_of_mem {s : State} {es : List Entry} (hi : Inv s es) {e : Entry} (he : e ∈ es)
    (hstill : s.incrementInFlight e.call → False) (hop : e.op ≠ .current) : e ∈ completed s.history := by
  have hc := hi.calls e.call
  have hmem : e.call ∈ es.map (·.call) := List.mem_map.mpr ⟨e, he, rfl⟩
  have heq : ∀ {op r}, (⟨e.call, op, r⟩ : Entry) ∈ es → (⟨e.call, op, r⟩ : Entry) = e := fun h =>
    List.inj_on_of_nodup_map hi.points.once h he rfl
  unfold State.incrementInFlight at hstill
  cases hpc : s.calls e.call with
  | idle =>
    simp only [hpc, CallInv] at hc
    exact absurd (hi.points.invoked e he) (hc _)
  | currentLoad =>
    simp only [hpc, CallInv] at hc
    exact absurd hmem hc.fresh
  | returning op r =>
    simp only [hpc, CallInv] at hc
    cases op with
    | current => exact absurd (heq hc.mem ▸ rfl) hop
    | increment amount => exact (hstill (by simp only [hpc])).elim
  | returned op r =>
    simp only [hpc, CallInv] at hc
    have hcompleted : (⟨e.call, op, r⟩ : Entry) ∈ completed s.history := mem_completed.mpr hc
    exact heq (hi.points.complete _ hcompleted) ▸ hcompleted
  | incrementLoad amount => exact (hstill (by simp only [hpc])).elim
  | checkedAdd amount current => exact (hstill (by simp only [hpc])).elim
  | compareExchange amount current next => exact (hstill (by simp only [hpc])).elim

theorem sum_increments (es : List Entry) :
    ((es.filter fun e => e.op ≠ .current).map updatedAmount).sum = (es.map updatedAmount).sum := by
  induction es with
  | nil => rfl
  | cons e es ih =>
    obtain ⟨c, op, r⟩ := e
    cases op with
    | current => simpa [updatedAmount] using ih
    | increment amount => simpa using ih

theorem Inv.completed_perm {s : State} {es : List Entry} (hi : Inv s es) (p : Entry → Bool)
    (hp : ∀ e ∈ es, p e = true → e ∈ completed s.history) :
    (es.filter p).Perm ((completed s.history).filter p) := by
  refine (List.perm_ext_iff_of_nodup ?_ ?_).mpr fun e => ?_
  · exact (List.Nodup.of_map _ hi.points.once).filter p
  · exact (List.Nodup.of_map _ hi.points.completed_nodup).filter p
  · simp only [List.mem_filter]
    exact ⟨fun ⟨he, hpe⟩ => ⟨hp e he hpe, hpe⟩, fun ⟨he, hpe⟩ => ⟨hi.points.complete e he, hpe⟩⟩

theorem Inv.value_eq {s : State} {es : List Entry} (hi : Inv s es) (hstill : ∀ c, ¬s.incrementInFlight c) :
    s.value.toNat = ((completed s.history).map updatedAmount).sum := by
  have hsum := Legal.sum hi.points.legal
  have hperm := hi.completed_perm (fun e => e.op ≠ .current) fun e he hop =>
    hi.completed_of_mem he (hstill e.call) (of_decide_eq_true hop)
  rw [hsum, ← sum_increments es, ← sum_increments (completed s.history), (hperm.map updatedAmount).sum_eq]
  exact Nat.zero_add _

/-- A call that has been invoked and has yet to return. -/
def State.inFlight (s : State) (c : Nat) : Prop :=
  match s.calls c with
  | .idle | .returned _ _ => False
  | _ => True

/-- When no call is in flight, the committed calls are the completed ones. -/
theorem Inv.perm_completed {s : State} {es : List Entry} (hi : Inv s es) (hstill : ∀ c, ¬s.inFlight c) :
    es.Perm (completed s.history) := by
  have hperm := hi.completed_perm (fun _ => true) fun e he _ => by
    have hc := hi.calls e.call
    have hs := hstill e.call
    unfold State.inFlight at hs
    cases hpc : s.calls e.call <;> simp only [hpc, not_true_eq_false] at hs
    · simp only [hpc, CallInv] at hc
      exact absurd (hi.points.invoked e he) (hc _)
    · rename_i op r
      simp only [hpc, CallInv] at hc
      have hcompleted : (⟨e.call, op, r⟩ : Entry) ∈ completed s.history := mem_completed.mpr hc
      have heq : (⟨e.call, op, r⟩ : Entry) = e :=
        List.inj_on_of_nodup_map hi.points.once (hi.points.complete _ hcompleted) he rfl
      exact heq ▸ hcompleted
  simpa using hperm

/-- Every run of overlapping calls is linearizable to the sequential checked counter. The order consists
    of the completed calls and of calls in flight that have taken effect, so of exactly the completed calls
    when none is in flight. -/
theorem linearizable {s : State} (as : List Action) (hrun : run step .default as = some s) :
    ∃ es, Linearization Sequential 0 s.history es s.value.toNat ∧
      ((∀ c, ¬s.inFlight c) → es.Perm (completed s.history)) ∧
      ((∀ c, ¬s.incrementInFlight c) → s.value.toNat = ((completed s.history).map updatedAmount).sum) ∧
      ∀ bs t, run step s bs = some t → s.value.toNat ≤ t.value.toNat := by
  obtain ⟨es, hi⟩ := Inv.of_reaches ⟨as, hrun⟩
  exact ⟨es, hi.points.linearization, hi.perm_completed, hi.value_eq, fun bs t ht =>
    value_le_of_reaches ⟨as, hrun⟩ ⟨bs, ht⟩⟩

/-- Two increments overlap, so that the second one retries, and a later one overflows. -/
def overlap : List Action :=
  [.invoke 0 (.increment 2), .invoke 1 (.increment 3), .advance 0, .advance 1, .advance 0, .advance 1, .advance 0,
    .advance 1, .advance 0, .advance 1, .advance 1, .advance 1, .invoke 2 (.increment 18446744073709551615),
    .advance 2, .advance 2, .advance 2]

theorem linearizable_overlap :
    ∃ s, run step .default overlap = some s ∧ s.value = 5 ∧
      ∃ es, Linearization Sequential 0 s.history es s.value.toNat ∧
        ((∀ c, ¬s.inFlight c) → es.Perm (completed s.history)) ∧
        ((∀ c, ¬s.incrementInFlight c) → s.value.toNat = ((completed s.history).map updatedAmount).sum) ∧
        ∀ bs t, run step s bs = some t → s.value.toNat ≤ t.value.toNat :=
  ⟨_, rfl, rfl, linearizable overlap rfl⟩

end Fabric.Counter
