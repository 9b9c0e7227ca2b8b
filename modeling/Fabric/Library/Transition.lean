import Mathlib.Data.Option.Basic
import Mathlib.Logic.Function.Basic

/-! Runs of a system given by a partial step function: a step that a state does not allow is `none`.
    An invariant is shown for one step and holds along every run; a condition on the steps of a run is
    a predicate on the state before the step and the step itself. -/

namespace Transition

variable {σ α : Type} {step : σ → α → Option σ}

/-- The state after the steps `as`, when each of them is allowed where it is taken. -/
def run (step : σ → α → Option σ) : σ → List α → Option σ
  | s, [] => some s
  | s, a :: as => (step s a).bind fun t => run step t as

/-- Each step of the run of `as` from `s` meets `C` in the state in which it is taken. -/
def Meets (step : σ → α → Option σ) (C : σ → α → Prop) : σ → List α → Prop
  | _, [] => True
  | s, a :: as => C s a ∧ ∀ t, step s a = some t → Meets step C t as

instance (step : σ → α → Option σ) (C : σ → α → Prop) [∀ s a, Decidable (C s a)] :
    (s : σ) → (as : List α) → Decidable (Meets step C s as)
  | _, [] => isTrue trivial
  | s, a :: as =>
    match h : step s a with
    | none => decidable_of_iff (C s a) ⟨fun hc => ⟨hc, fun t ht => by rw [h] at ht; cases ht⟩, And.left⟩
    | some t =>
      have := instDecidableMeets step C t as
      decidable_of_iff (C s a ∧ Meets step C t as)
        ⟨fun hc => ⟨hc.1, fun u hu => Option.some.inj (h.symm.trans hu) ▸ hc.2⟩, fun hc => ⟨hc.1, hc.2 t h⟩⟩

/-- Some run leads from `s` to `t`. -/
def Reaches (step : σ → α → Option σ) (s t : σ) : Prop := ∃ as, run step s as = some t

@[simp] theorem run_nil (s : σ) : run step s [] = some s := rfl

theorem run_cons_eq_some {s t : σ} {a : α} {as : List α} :
    run step s (a :: as) = some t ↔ ∃ u, step s a = some u ∧ run step u as = some t :=
  Option.bind_eq_some_iff

theorem run_append (s : σ) (as bs : List α) :
    run step s (as ++ bs) = (run step s as).bind fun t => run step t bs := by
  induction as generalizing s with
  | nil => rfl
  | cons a as ih =>
    simp only [List.cons_append, run]
    cases step s a with
    | none => rfl
    | some t => exact ih t

/-- What every step that meets `C` preserves holds at the end of every run whose steps all meet `C`. -/
theorem run_invariant_of_meets {C : σ → α → Prop} {I : σ → Prop}
    (hstep : ∀ s a t, C s a → I s → step s a = some t → I t) {s t : σ} {as : List α}
    (hmeets : Meets step C s as) (hrun : run step s as = some t) (hs : I s) : I t := by
  induction as generalizing s with
  | nil => exact Option.some.inj hrun ▸ hs
  | cons a as ih =>
    obtain ⟨u, hu, hrun⟩ := run_cons_eq_some.mp hrun
    exact ih (hmeets.2 u hu) hrun (hstep s a u hmeets.1 hs hu)

/-- A condition may be weakened by what every step that meets it preserves. -/
theorem Meets.imp {C C' : σ → α → Prop} {I : σ → Prop} (hstep : ∀ s a t, C s a → I s → step s a = some t → I t)
    (himp : ∀ s a, I s → C s a → C' s a) {s : σ} {as : List α} (hs : I s) (h : Meets step C s as) :
    Meets step C' s as := by
  induction as generalizing s with
  | nil => trivial
  | cons a as ih => exact ⟨himp s a hs h.1, fun t ht => ih (hstep s a t h.1 hs ht) (h.2 t ht)⟩

theorem meets_true (s : σ) (as : List α) : Meets step (fun _ _ => True) s as := by
  induction as generalizing s with
  | nil => trivial
  | cons a as ih => exact ⟨trivial, fun t _ => ih t⟩

theorem Meets.of_forall_mem {C : σ → α → Prop} {as : List α} (h : ∀ a ∈ as, ∀ s, C s a) (s : σ) :
    Meets step C s as := by
  induction as generalizing s with
  | nil => trivial
  | cons a as ih =>
    obtain ⟨ha, has⟩ := List.forall_mem_cons.mp h
    exact ⟨ha s, fun t _ => ih has t⟩

/-- A property that the steps that meet `C` keep, that all others lose, and that is not regained, holds at the end of a
    run exactly where all its steps meet `C`. -/
theorem run_iff_meets {C : σ → α → Prop} {I G : σ → Prop} (hinv : ∀ s a t, I s → step s a = some t → I t)
    (hkeep : ∀ s a t, I s → C s a → G s → step s a = some t → G t)
    (hlose : ∀ s a t, I s → ¬C s a → step s a = some t → ¬G t)
    (hlost : ∀ s a t, I s → ¬G s → step s a = some t → ¬G t) {s t : σ} {as : List α} (hs : I s) (hgood : G s)
    (hrun : run step s as = some t) : G t ↔ Meets step C s as := by
  induction as generalizing s with
  | nil => exact iff_of_true (Option.some.inj hrun ▸ hgood) trivial
  | cons a as ih =>
    obtain ⟨u, hu, hrun⟩ := run_cons_eq_some.mp hrun
    have hi : I u := hinv s a u hs hu
    by_cases hc : C s a
    · refine (ih hi (hkeep s a u hs hc hgood hu) hrun).trans ⟨fun h => ⟨hc, fun v hv => ?_⟩, fun h => h.2 u hu⟩
      exact Option.some.inj (hu.symm.trans hv) ▸ h
    · refine iff_of_false (fun hg => ?_) fun h => hc h.1
      have hbad : I t ∧ ¬G t := run_invariant_of_meets (C := fun _ _ => True) (I := fun v => I v ∧ ¬G v)
        (fun v a w _ hv hw => ⟨hinv v a w hv.1 hw, hlost v a w hv.1 hv.2 hw⟩) (meets_true u as) hrun
        ⟨hi, hlose s a u hs hc hu⟩
      exact hbad.2 hg

/-- What every step preserves holds at the end of every run. -/
theorem run_invariant {I : σ → Prop} (hstep : ∀ s a t, I s → step s a = some t → I t) {s t : σ}
    {as : List α} (hrun : run step s as = some t) (hs : I s) : I t :=
  run_invariant_of_meets (C := fun _ _ => True) (fun s a t _ => hstep s a t) (meets_true s as) hrun hs

namespace Reaches

theorem refl (s : σ) : Reaches step s s := ⟨[], rfl⟩

theorem single {s t : σ} {a : α} (h : step s a = some t) : Reaches step s t :=
  ⟨[a], run_cons_eq_some.mpr ⟨t, h, rfl⟩⟩

theorem trans {s t u : σ} (h₁ : Reaches step s t) (h₂ : Reaches step t u) : Reaches step s u := by
  obtain ⟨as, has⟩ := h₁
  obtain ⟨bs, hbs⟩ := h₂
  exact ⟨as ++ bs, by rw [run_append, has]; exact hbs⟩

theorem invariant {I : σ → Prop} (hstep : ∀ s a t, I s → step s a = some t → I t) {s t : σ}
    (h : Reaches step s t) (hs : I s) : I t :=
  run_invariant hstep h.choose_spec hs

/-- A reflexive and transitive relation that an invariant gives for one step holds along every run. -/
theorem relates {I : σ → Prop} {R : σ → σ → Prop} (hI : ∀ s a t, I s → step s a = some t → I t)
    (hR : ∀ s a t, I s → step s a = some t → R s t) (refl : ∀ s, R s s)
    (trans : ∀ s t u, R s t → R t u → R s u) {s t : σ} (h : Reaches step s t) (hs : I s) : R s t := by
  have hall := h.invariant (I := fun u => I u ∧ R s u)
    (fun u a v hu huv => ⟨hI u a v hu.1 huv, trans s u v hu.2 (hR u a v hu.1 huv)⟩) ⟨hs, refl s⟩
  exact hall.2

end Reaches

/-- A run is no longer than a rank that every step of it brings down. -/
theorem length_add_rank_le {I : σ → Prop} (rank : σ → Nat)
    (hstep : ∀ s a t, I s → step s a = some t → I t ∧ rank t < rank s) {s t : σ} {as : List α}
    (hrun : run step s as = some t) (hs : I s) : as.length + rank t ≤ rank s := by
  induction as generalizing s with
  | nil =>
    obtain rfl := Option.some.inj hrun
    simp
  | cons a as ih =>
    obtain ⟨u, hu, hrun⟩ := run_cons_eq_some.mp hrun
    obtain ⟨hI, hlt⟩ := hstep s a u hs hu
    have := ih hrun hI
    rw [List.length_cons]
    omega

/-- Steps of one kind that bring down a rank, wherever they are not through, bring a run through. -/
theorem exists_run_of_rank {P : α → Prop} {I G : σ → Prop} (rank : σ → Nat)
    (hstep : ∀ s, I s → ¬G s → ∃ a t, P a ∧ step s a = some t ∧ I t ∧ rank t < rank s) {s : σ} (hs : I s) :
    ∃ as t, (∀ a ∈ as, P a) ∧ run step s as = some t ∧ G t := by
  induction hn : rank s using Nat.strongRecOn generalizing s with
  | _ n ih =>
    by_cases hg : G s
    · exact ⟨[], s, List.forall_mem_nil P, rfl, hg⟩
    · obtain ⟨a, t, ha, ht, hI, hlt⟩ := hstep s hs hg
      obtain ⟨as, u, has, hrun, hu⟩ := ih (rank t) (hn ▸ hlt) hI rfl
      exact ⟨a :: as, u, List.forall_mem_cons.mpr ⟨ha, has⟩, run_cons_eq_some.mpr ⟨t, ht, hrun⟩, hu⟩

/-! ### Parties by name -/

/-- Setting one party leaves the others alone. -/
theorem update_eq_some {ι β : Type} [DecidableEq ι] {f : ι → Option β} {i j : ι} {a b : β} :
    Function.update f i (some a) j = some b ↔ (j = i ∧ b = a) ∨ (j ≠ i ∧ f j = some b) := by
  by_cases hij : j = i
  · simp [hij, eq_comm]
  · simp [hij]

end Transition
