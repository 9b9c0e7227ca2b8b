import Fabric.Library.Transition
import Mathlib.Algebra.BigOperators.Group.List.Basic
import Mathlib.Algebra.Order.BigOperators.Group.List
import Mathlib.Algebra.Order.Ring.Nat

/-! What a run costs, when each step has a weight, and the method of potentials: what the steps of a run cost
    together is paid by what other steps bring in and by what the potential loses. -/

namespace Transition

variable {σ α ι : Type} {step : σ → α → Option σ}

/-- The weights of the steps of a run, together. -/
def cost (step : σ → α → Option σ) (w : σ → α → Nat) : σ → List α → Nat
  | _, [] => 0
  | s, a :: as => w s a + ((step s a).map fun t => cost step w t as).getD 0

theorem cost_cons {w : σ → α → Nat} {s t : σ} {a : α} {as : List α} (h : step s a = some t) :
    cost step w s (a :: as) = w s a + cost step w t as := by
  rw [cost, h]
  rfl

/-- The method of potentials. -/
theorem cost_add_le {C : σ → α → Prop} {I : σ → Prop} {w v : σ → α → Nat} {Φ : σ → Nat}
    (hI : ∀ s a t, C s a → I s → step s a = some t → I t)
    (hΦ : ∀ s a t, C s a → I s → step s a = some t → w s a + Φ t ≤ v s a + Φ s) {s t : σ} {as : List α}
    (hmeets : Meets step C s as) (hrun : run step s as = some t) (hs : I s) :
    cost step w s as + Φ t ≤ cost step v s as + Φ s := by
  induction as generalizing s with
  | nil =>
    obtain rfl := Option.some.inj hrun
    exact Nat.le_refl _
  | cons a as ih =>
    obtain ⟨u, hu, hrun⟩ := run_cons_eq_some.mp hrun
    have hstep := hΦ s a u hmeets.1 hs hu
    have hrest := ih (hmeets.2 u hu) hrun (hI s a u hmeets.1 hs hu)
    rw [cost_cons hu, cost_cons hu]
    omega

theorem cost_le_cost {C : σ → α → Prop} {I : σ → Prop} {w v : σ → α → Nat}
    (hI : ∀ s a t, C s a → I s → step s a = some t → I t)
    (hle : ∀ s a t, C s a → I s → step s a = some t → w s a ≤ v s a) {s t : σ} {as : List α}
    (hmeets : Meets step C s as) (hrun : run step s as = some t) (hs : I s) : cost step w s as ≤ cost step v s as :=
  cost_add_le (Φ := fun _ => 0) hI hle hmeets hrun hs

theorem cost_add (w v : σ → α → Nat) (s : σ) (as : List α) :
    cost step (fun s a => w s a + v s a) s as = cost step w s as + cost step v s as := by
  induction as generalizing s with
  | nil => rfl
  | cons a as ih =>
    simp only [cost]
    cases step s a with
    | none => rfl
    | some t =>
      simp only [Option.map_some, Option.getD_some, ih]
      omega

theorem cost_zero (s : σ) (as : List α) : cost step (fun _ _ => 0) s as = 0 := by
  induction as generalizing s with
  | nil => rfl
  | cons a as ih =>
    simp only [cost]
    cases step s a with
    | none => rfl
    | some t => simpa using ih t

/-- The steps of several parties cost what those of each of them cost. -/
theorem cost_sum (w : ι → σ → α → Nat) (is : List ι) (s : σ) (as : List α) :
    cost step (fun s a => (is.map fun i => w i s a).sum) s as = (is.map fun i => cost step (w i) s as).sum := by
  induction is with
  | nil => exact cost_zero s as
  | cons i is ih =>
    simp only [List.map_cons, List.sum_cons]
    rw [cost_add, ih]

/-- A run has as many steps as they cost at one each. -/
theorem cost_one {s t : σ} {as : List α} (hrun : run step s as = some t) :
    cost step (fun _ _ => 1) s as = as.length := by
  induction as generalizing s with
  | nil => rfl
  | cons a as ih =>
    obtain ⟨u, hu, hrun⟩ := run_cons_eq_some.mp hrun
    rw [cost_cons hu, ih hrun, List.length_cons, Nat.add_comm]

/-- Steps that are weighed by themselves, whatever the state. -/
theorem cost_countP (p : α → Bool) {s t : σ} {as : List α} (hrun : run step s as = some t) :
    cost step (fun _ a => if p a then 1 else 0) s as = as.countP p := by
  induction as generalizing s with
  | nil => rfl
  | cons a as ih =>
    obtain ⟨u, hu, hrun⟩ := run_cons_eq_some.mp hrun
    rw [cost_cons hu, ih hrun, List.countP_cons, Nat.add_comm]

end Transition
