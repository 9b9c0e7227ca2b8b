import Fabric.Library.Amortized
import Fabric.Theorems.Counter.Calls

/-! The counter is lock-free: a call can always take its next step, and each further round of its loop is paid by
    another call that has changed the value in the meantime. So any run of finitely many calls ends. -/

namespace Fabric.Counter
open Transition

def Action.isInvoke : Action → Bool
  | .invoke _ _ => true
  | .advance _ => false

/-- The step is one of call `c` after its invocation. -/
def Action.ofCall (c : Nat) : Action → Bool
  | .invoke _ _ => false
  | .advance c' => c' = c

/-- The step changes the value of the counter. -/
def State.changes (s : State) (a : Action) : Bool :=
  match step s a with
  | some t => s.value ≠ t.value
  | none => false

/-- One for each step of call `c`. -/
def own (c : Nat) (_ : State) (a : Action) : Nat := if a.ofCall c then 1 else 0

/-- One for each step of call `c` that changes the value. -/
def change (c : Nat) (s : State) (a : Action) : Nat := if a.ofCall c && s.changes a then 1 else 0

/-- One for each step that changes the value and is not one of call `c`. -/
def interference (c : Nat) (s : State) (a : Action) : Nat := if !a.ofCall c && s.changes a then 1 else 0

/-- The steps that a call has to go while the value stays as it is. A local copy that is no longer the value costs a
    round of the loop. -/
def Pc.remaining (value : UInt64) : Pc → Nat
  | .idle | .currentLoad | .incrementLoad _ => 4
  | .checkedAdd _ current => if current = value then 3 else 5
  | .compareExchange _ current _ => if current = value then 2 else 4
  | .returning _ _ => 1
  | .returned _ _ => 0

theorem remaining_le (pc : Pc) (value value' : UInt64) : pc.remaining value ≤ pc.remaining value' + 2 := by
  cases pc with
  | checkedAdd amount current =>
    simp only [Pc.remaining]
    split <;> split <;> omega
  | compareExchange amount current next =>
    simp only [Pc.remaining]
    split <;> split <;> omega
  | idle | currentLoad | incrementLoad | returning | returned => exact Nat.le_add_right _ 2

section
variable {s t : State} {c : Nat}

/-- A step of a call brings it nearer to its end. -/
theorem remaining_advance (hs : s.advance c = some t) :
    1 + (t.calls c).remaining t.value ≤ (s.calls c).remaining s.value := by
  unfold State.advance at hs
  cases hpc : s.calls c with
  | idle => simp [hpc] at hs
  | returned op r => simp [hpc] at hs
  | currentLoad =>
    simp only [hpc, Option.some.injEq] at hs
    subst hs
    simp [Pc.remaining]
  | incrementLoad amount =>
    simp only [hpc, Option.some.injEq] at hs
    subst hs
    simp [Pc.remaining]
  | checkedAdd amount current =>
    simp only [hpc] at hs
    split at hs
    · obtain rfl := Option.some.inj hs
      simp only [setCall_calls_self, Pc.remaining]
      split <;> omega
    · obtain rfl := Option.some.inj hs
      simp only [setCall_value, setCall_calls_self, Pc.remaining]
      by_cases hcurrent : current = s.value
      · simp [hcurrent]
      · simp [hcurrent]
  | compareExchange amount current next =>
    simp only [hpc] at hs
    split at hs
    · obtain rfl := Option.some.inj hs
      simp only [setCall_calls_self, Pc.remaining]
      split <;> omega
    · rename_i hstale
      obtain rfl := Option.some.inj hs
      simp [Pc.remaining, Ne.symm hstale]
  | returning op r =>
    simp only [hpc, Option.some.injEq] at hs
    subst hs
    simp [State.setCall, Pc.remaining]

/-- A step of another call takes a call back by at most one round, and only if it changes the value. -/
theorem remaining_other {a : Action} (hs : step s a = some t) (ha : a.ofCall c = false) :
    (t.calls c).remaining t.value ≤ (s.calls c).remaining s.value + 2 * interference c s a := by
  have hkeep : t.calls c = s.calls c →
      (t.calls c).remaining t.value ≤ (s.calls c).remaining s.value + 2 * interference c s a := by
    intro hcalls
    rw [hcalls]
    by_cases hvalue : s.value = t.value
    · rw [hvalue]
      exact Nat.le_add_right _ _
    · simp only [interference, ha, State.changes, hs]
      simpa [hvalue] using remaining_le (s.calls c) t.value s.value
  cases a with
  | advance c' => exact hkeep (advance_calls_of_ne (fun heq => by simp [Action.ofCall, heq] at ha) hs)
  | invoke c' op =>
    obtain ⟨hidle, hop, hothers⟩ := step_invoke hs
    rcases eq_or_ne c c' with rfl | hne
    · simp only [step, hidle, Option.some.injEq] at hs
      subst hs
      cases op <;> simp [State.setCall, Op.start, hidle, Pc.remaining]
    · exact hkeep (hothers c hne)

/-- How often a call may still change the value. -/
def Pc.changesLeft : Pc → Nat
  | .returning _ _ | .returned _ _ => 0
  | _ => 1

/-- A call that changes the value is about to return. -/
theorem change_add_le {a : Action} (hs : step s a = some t) :
    change c s a + (t.calls c).changesLeft ≤ (s.calls c).changesLeft := by
  cases a with
  | invoke c' op =>
    obtain ⟨hidle, -, hothers⟩ := step_invoke hs
    rcases eq_or_ne c c' with rfl | hne
    · simp only [step, hidle, Option.some.injEq] at hs
      subst hs
      cases op <;> simp [change, Action.ofCall, State.setCall, Op.start, hidle, Pc.changesLeft]
    · simp [change, Action.ofCall, hothers c hne]
  | advance c' =>
    rcases eq_or_ne c c' with rfl | hne
    · have hchange : change c s (.advance c) = if s.value ≠ t.value then 1 else 0 := by
        simp [change, Action.ofCall, State.changes, hs]
      rw [hchange]
      simp only [step, State.advance] at hs
      cases hpc : s.calls c with
      | idle => simp [hpc] at hs
      | returned op r => simp [hpc] at hs
      | currentLoad =>
        simp only [hpc, Option.some.injEq] at hs
        subst hs
        simp [Pc.changesLeft]
      | incrementLoad amount =>
        simp only [hpc, Option.some.injEq] at hs
        subst hs
        simp [Pc.changesLeft]
      | checkedAdd amount current =>
        simp only [hpc] at hs
        split at hs
        all_goals
          obtain rfl := Option.some.inj hs
          simp [Pc.changesLeft]
      | compareExchange amount current next =>
        simp only [hpc] at hs
        split at hs
        · obtain rfl := Option.some.inj hs
          simp only [setCall_calls_self, Pc.changesLeft]
          split <;> omega
        · obtain rfl := Option.some.inj hs
          simp [Pc.changesLeft]
      | returning op r =>
        simp only [hpc, Option.some.injEq] at hs
        subst hs
        simp [State.setCall, Pc.changesLeft]
    · have hne' : ¬c' = c := fun heq => hne heq.symm
      simp [change, Action.ofCall, hne', advance_calls_of_ne hne hs]

end

/-! ### Whole runs -/

section
variable {s : State} {as : List Action}

/-- The steps of a call are paid by what changes the value under it. -/
theorem cost_own_le (hrun : run step .default as = some s) (c : Nat) :
    cost step (own c) .default as ≤ 4 + 2 * cost step (interference c) .default as := by
  have h := cost_add_le (C := fun _ _ => True) (I := fun _ => True) (w := own c)
    (v := fun s a => interference c s a + interference c s a) (Φ := fun s => (s.calls c).remaining s.value)
    (fun _ _ _ _ _ _ => trivial) (fun s a t _ _ hs => ?_) (meets_true _ as) hrun trivial
  · rw [cost_add] at h
    have hstart : ((State.default).calls c).remaining State.default.value = 4 := rfl
    omega
  · cases ha : a.ofCall c with
    | true =>
      obtain rfl : a = .advance c := by
        cases a with
        | invoke c' op => cases ha
        | advance c' => rw [of_decide_eq_true ha]
      have hle := remaining_advance hs
      simp only [own, ha, if_true]
      omega
    | false =>
      have hle := remaining_other hs ha
      simp only [own, ha, Bool.false_eq_true, if_false]
      omega

theorem cost_change_le (hrun : run step .default as = some s) (c : Nat) : cost step (change c) .default as ≤ 1 := by
  have h := cost_add_le (C := fun _ _ => True) (I := fun _ => True) (w := change c) (v := fun _ _ => 0)
    (Φ := fun s => (s.calls c).changesLeft) (fun _ _ _ _ _ _ => trivial)
    (fun s a t _ _ hs => Nat.le_trans (change_add_le hs) (Nat.le_add_left _ _)) (meets_true _ as) hrun trivial
  rw [cost_zero] at h
  have hstart : ((State.default).calls c).changesLeft = 1 := rfl
  omega

/-- The calls that are invoked in a run. -/
def invoked (as : List Action) : List Nat :=
  as.filterMap fun
    | .invoke c _ => some c
    | .advance _ => none

theorem mem_invoked {as : List Action} {c : Nat} {op : Op} (h : .invoke c op ∈ as) : c ∈ invoked as :=
  List.mem_filterMap.mpr ⟨_, h, rfl⟩

theorem length_invoked (as : List Action) : (invoked as).length = as.countP Action.isInvoke := by
  induction as with
  | nil => rfl
  | cons a as ih =>
    cases a with
    | invoke c op =>
      rw [List.countP_cons_of_pos rfl, ← ih]
      rfl
    | advance c =>
      rw [List.countP_cons_of_neg (by simp [Action.isInvoke]), ← ih]
      rfl

/-- Only the calls `cs` have been invoked. -/
def Known (cs : List Nat) (s : State) : Prop := ∀ c, s.calls c ≠ .idle → c ∈ cs

/-- The step invokes none but the calls `cs`. -/
def Invokes (cs : List Nat) (_ : State) (a : Action) : Prop := ∀ c op, a = .invoke c op → c ∈ cs

theorem known_step (cs : List Nat) (s : State) (a : Action) (t : State) (ha : Invokes cs s a) (hs : Known cs s)
    (hstep : step s a = some t) : Known cs t := by
  intro c hc
  cases a with
  | invoke c' op =>
    obtain ⟨-, -, hothers⟩ := step_invoke hstep
    rcases eq_or_ne c c' with rfl | hne
    · exact ha c op rfl
    · exact hs c (hothers c hne ▸ hc)
  | advance c' =>
    rcases advance_moves hstep c with heq | ⟨hne, -⟩
    · exact hs c (heq ▸ hc)
    · exact hs c hne

theorem meets_invokes (as : List Action) (s : State) : Meets step (Invokes (invoked as)) s as :=
  Meets.of_forall_mem (fun _ ha _ _ _ heq => mem_invoked (heq ▸ ha)) s

/-- A call that takes a step has been invoked. -/
theorem Known.mem {cs : List Nat} {t : State} {c : Nat} (hs : Known cs s) (hstep : step s (.advance c) = some t) :
    c ∈ cs :=
  hs c fun hidle => by simp [step, State.advance, hidle] at hstep

/-- A call interferes with another at most once, and only the calls of the run do. -/
theorem cost_interference_le (hrun : run step .default as = some s) (c : Nat) :
    cost step (interference c) .default as ≤ ((invoked as).erase c).length := by
  have hle : cost step (interference c) .default as ≤
      cost step (fun s a => (((invoked as).erase c).map fun c' => change c' s a).sum) .default as := by
    refine cost_le_cost (known_step (invoked as)) (fun s a t _ hs hstep => ?_) (meets_invokes as _) hrun
      fun c hc => (hc rfl).elim
    cases a with
    | invoke c' op =>
      obtain ⟨hidle, -⟩ := step_invoke hstep
      simp [interference, State.changes, step, hidle, State.setCall]
    | advance c' =>
      rcases eq_or_ne c' c with rfl | hne
      · simp [interference, Action.ofCall]
      · have hmem : c' ∈ (invoked as).erase c := (List.mem_erase_of_ne hne).mpr (hs.mem hstep)
        have heq : interference c s (.advance c') = change c' s (.advance c') := by
          simp [interference, change, Action.ofCall, hne]
        rw [heq]
        exact List.le_sum_of_mem (List.mem_map.mpr ⟨c', hmem, rfl⟩)
  rw [cost_sum] at hle
  refine hle.trans ((List.sum_le_card_nsmul _ 1 fun n hn => ?_).trans (by simp))
  obtain ⟨c', -, rfl⟩ := List.mem_map.mp hn
  exact cost_change_le hrun c'

/-- Every step is an invocation, or one of a call of the run. -/
theorem length_le_cost (hrun : run step .default as = some s) :
    as.length ≤ (invoked as).length + ((invoked as).map fun c => cost step (own c) .default as).sum := by
  rw [length_invoked, ← cost_countP Action.isInvoke hrun, ← cost_sum, ← cost_add, ← cost_one hrun]
  refine cost_le_cost (known_step (invoked as)) (fun s a t _ hs hstep => ?_) (meets_invokes as _) hrun
    fun c hc => (hc rfl).elim
  cases a with
  | invoke c op => exact Nat.le_add_right 1 _
  | advance c =>
    have hown : own c s (.advance c) = 1 := by simp [own, Action.ofCall]
    refine Nat.le_add_left_of_le (hown ▸ List.le_sum_of_mem (List.mem_map.mpr ⟨c, hs.mem hstep, rfl⟩))

/-- No call waits for another: one that is in flight can take its next step. Its own steps are at most four, and two for
    each time that another call changes the value during the run, which each other call does at most once; so a run with
    `n` invocations has at most `n (2 n + 3)` steps. -/
theorem lock_free (as : List Action) (hrun : run step .default as = some s) :
    (∀ c, s.inFlight c → ∃ t, step s (.advance c) = some t) ∧
      (∀ c, cost step (own c) .default as ≤ 4 + 2 * cost step (interference c) .default as ∧
        cost step (interference c) .default as ≤ ((invoked as).erase c).length) ∧
      as.length ≤ as.countP Action.isInvoke * (2 * as.countP Action.isInvoke + 3) := by
  refine ⟨fun c hc => ?_, fun c => ⟨cost_own_le hrun c, cost_interference_le hrun c⟩, ?_⟩
  · unfold State.inFlight at hc
    simp only [step, State.advance]
    cases hpc : s.calls c with
    | idle => simp [hpc] at hc
    | returned op r => simp [hpc] at hc
    | checkedAdd amount current =>
      simp only
      split
      · exact ⟨_, rfl⟩
      · exact ⟨_, rfl⟩
    | compareExchange amount current next =>
      by_cases hcurrent : s.value = current
      · exact ⟨_, if_pos hcurrent⟩
      · exact ⟨_, if_neg hcurrent⟩
    | currentLoad | incrementLoad | returning => exact ⟨_, rfl⟩
  · have hlength := length_le_cost hrun
    have hsum : ((invoked as).map fun c => cost step (own c) .default as).sum ≤
        (invoked as).length * (2 * (invoked as).length + 2) := by
      refine (List.sum_le_card_nsmul _ (2 * (invoked as).length + 2) fun n hn => ?_).trans (by simp)
      obtain ⟨c, hc, rfl⟩ := List.mem_map.mp hn
      have hown := cost_own_le hrun c
      have hinterference := cost_interference_le hrun c
      rw [List.length_erase_of_mem hc] at hinterference
      have hpos := List.length_pos_of_mem hc
      omega
    rw [← length_invoked, Nat.mul_succ]
    omega

/-- The run of the two overlapping increments, the second of which makes a second round. -/
theorem lock_free_overlap :
    ∃ s, run step .default overlap = some s ∧ cost step (own 1) .default overlap = 6 ∧
      cost step (interference 1) .default overlap = 1 ∧
      cost step (own 1) .default overlap ≤ 4 + 2 * cost step (interference 1) .default overlap ∧ overlap.length ≤ 27 :=
  have h := lock_free overlap rfl
  ⟨_, rfl, rfl, rfl, (h.2.1 1).1, h.2.2⟩

end

end Fabric.Counter
