import Fabric.Theorems.Counter.Linearizable

/-! What a step does to the calls of a counter, and the value of a counter that is only incremented by one. -/

namespace Fabric.Counter
open Transition Linearizability

/-- The operation of a call. -/
def Pc.op : Pc → Option Op
  | .idle => none
  | .currentLoad => some .current
  | .incrementLoad amount | .checkedAdd amount _ | .compareExchange amount _ _ => some (.increment amount)
  | .returning op _ | .returned op _ => some op

/-- A call stays where it stands, or it is in flight and goes on with its operation. -/
def Pc.Moves (pc pc' : Pc) : Prop :=
  pc' = pc ∨ pc ≠ .idle ∧ (∀ op r, pc ≠ .returned op r) ∧ pc'.op = pc.op

namespace Pc.Moves
variable {pc pc' : Pc}

theorem idle (h : pc.Moves pc') (hpc : pc = .idle) : pc' = .idle := by
  rcases h with rfl | ⟨hne, -⟩
  · exact hpc
  · exact absurd hpc hne

theorem returned {op : Op} {r : Output} (h : pc.Moves pc') (hpc : pc = .returned op r) : pc' = .returned op r := by
  rcases h with rfl | ⟨-, hne, -⟩
  · exact hpc
  · exact absurd hpc (hne op r)

theorem op {op : Op} (h : pc.Moves pc') (hpc : pc.op = some op) : pc'.op = some op := by
  rcases h with rfl | ⟨-, -, heq⟩
  · exact hpc
  · exact heq.trans hpc

end Pc.Moves

section
variable {s t : State} {es : List Entry} {c : Nat}

theorem advance_calls_of_ne {c' : Nat} (hne : c' ≠ c) (hs : s.advance c = some t) :
    t.calls c' = s.calls c' := by
  unfold State.advance at hs
  repeat' split at hs
  all_goals cases hs
  all_goals simp [State.setCall, hne]

theorem advance_moves (hs : s.advance c = some t) (c' : Nat) : (s.calls c').Moves (t.calls c') := by
  rcases eq_or_ne c' c with rfl | hne
  · unfold State.advance at hs
    cases hpc : s.calls c' with
    | idle => simp [hpc] at hs
    | returned op r => simp [hpc] at hs
    | currentLoad =>
      simp only [hpc, Option.some.injEq] at hs
      subst hs
      exact .inr ⟨by simp, by simp, by simp [Pc.op]⟩
    | incrementLoad amount =>
      simp only [hpc, Option.some.injEq] at hs
      subst hs
      exact .inr ⟨by simp, by simp, by simp [Pc.op]⟩
    | checkedAdd amount current =>
      simp only [hpc] at hs
      split at hs
      all_goals
        obtain rfl := Option.some.inj hs
        exact .inr ⟨by simp, by simp, by simp [Pc.op]⟩
    | compareExchange amount current next =>
      simp only [hpc] at hs
      split at hs
      all_goals
        obtain rfl := Option.some.inj hs
        exact .inr ⟨by simp, by simp, by simp [Pc.op]⟩
    | returning op r =>
      simp only [hpc, Option.some.injEq] at hs
      subst hs
      exact .inr ⟨by simp, by simp, by simp [Pc.op, State.setCall]⟩
  · exact .inl (advance_calls_of_ne hne hs)

theorem step_invoke {op : Op} (hs : step s (.invoke c op) = some t) :
    s.calls c = .idle ∧ (t.calls c).op = some op ∧ ∀ c', c' ≠ c → t.calls c' = s.calls c' := by
  simp only [step] at hs
  split at hs
  · rename_i hidle
    obtain rfl := Option.some.inj hs
    refine ⟨hidle, ?_, fun c' hne => by simp [State.setCall, hne]⟩
    cases op <;> simp [State.setCall, Op.start, Pc.op]
  · cases hs

/-- A committed call is one of its operation. -/
theorem Inv.op_of_mem (hi : Inv s es) {e : Entry} (he : e ∈ es) : (s.calls e.call).op = some e.op := by
  have hc := hi.calls e.call
  have hmem : e.call ∈ es.map (·.call) := List.mem_map_of_mem he
  have heq : ∀ {op r}, (⟨e.call, op, r⟩ : Entry) ∈ es → op = e.op := fun h =>
    congrArg Linearizability.Entry.op (List.inj_on_of_nodup_map hi.points.once h he rfl)
  cases hpc : s.calls e.call with
  | idle =>
    simp only [hpc, CallInv] at hc
    exact absurd (hi.points.invoked e he) (hc _)
  | currentLoad =>
    simp only [hpc, CallInv] at hc
    exact absurd hmem hc.fresh
  | incrementLoad amount =>
    simp only [hpc, CallInv] at hc
    exact absurd hmem hc.fresh
  | compareExchange amount current next =>
    simp only [hpc, CallInv] at hc
    exact absurd hmem hc.2.fresh
  | checkedAdd amount current =>
    simp only [hpc, CallInv] at hc
    split at hc
    · exact congrArg some (heq hc.mem)
    · exact absurd hmem hc.fresh
  | returning op r =>
    simp only [hpc, CallInv] at hc
    exact congrArg some (heq hc.mem)
  | returned op r =>
    simp only [hpc, CallInv] at hc
    exact congrArg some (heq (hi.points.complete ⟨e.call, op, r⟩ (mem_completed.mpr hc)))

/-- A call that returned has been committed. -/
theorem Inv.mem_of_returned (hi : Inv s es) {op : Op} {r : Output} (hc : s.calls c = .returned op r) :
    ⟨c, op, r⟩ ∈ es := by
  have hcall := hi.calls c
  simp only [hc, CallInv] at hcall
  exact hi.points.complete _ (mem_completed.mpr hcall)

/-- No call fails. -/
theorem Inv.returned_ok (hi : Inv s es) {op : Op} {r : Output} (hc : s.calls c = .returned op r) :
    (op = .current ∧ ∃ value, r = .current (.ok value)) ∨
      ∃ amount result, op = .increment amount ∧ r = .increment (.ok result) := by
  obtain ⟨n, m, hspec⟩ := hi.points.legal.exists_spec (hi.mem_of_returned hc)
  cases hspec with
  | current => exact .inl ⟨rfl, _, rfl⟩
  | updated => exact .inr ⟨_, _, rfl, rfl⟩
  | overflow => exact .inr ⟨_, _, rfl, rfl⟩

end

/-! ### Reads -/

/-- The value that a read has loaded. -/
def Pc.loaded : Pc → Option UInt64
  | .returning .current (.current (.ok value)) | .returned .current (.current (.ok value)) => some value
  | _ => none

theorem invoke_loaded {s t : State} {c : Nat} {op : Op} (hs : step s (.invoke c op) = some t) (c' : Nat) :
    (t.calls c').loaded = (s.calls c').loaded := by
  obtain ⟨hidle, -, hothers⟩ := step_invoke hs
  rcases eq_or_ne c' c with rfl | hne
  · simp only [step, hidle, Option.some.injEq] at hs
    subst hs
    cases op <;> simp [State.setCall, Op.start, Pc.loaded, hidle]
  · rw [hothers c' hne]

/-- A call loads the value of the counter, or keeps what it has loaded. -/
theorem advance_loaded {s t : State} {c : Nat} (hs : s.advance c = some t) :
    (t.calls c).loaded = (s.calls c).loaded ∨ (t.calls c).loaded = some t.value := by
  unfold State.advance at hs
  cases hpc : s.calls c with
  | idle => simp [hpc] at hs
  | returned op r => simp [hpc] at hs
  | currentLoad =>
    simp only [hpc, Option.some.injEq] at hs
    subst hs
    exact .inr (by simp [Pc.loaded])
  | incrementLoad amount =>
    simp only [hpc, Option.some.injEq] at hs
    subst hs
    exact .inl (by simp [Pc.loaded])
  | checkedAdd amount current =>
    simp only [hpc] at hs
    split at hs
    all_goals
      obtain rfl := Option.some.inj hs
      exact .inl (by simp [Pc.loaded])
  | compareExchange amount current next =>
    simp only [hpc] at hs
    split at hs
    all_goals
      obtain rfl := Option.some.inj hs
      exact .inl (by simp [Pc.loaded])
  | returning op r =>
    simp only [hpc, Option.some.injEq] at hs
    subst hs
    refine .inl ?_
    cases op with
    | current => rcases r with (error | value) | r <;> simp [State.setCall, Pc.loaded]
    | increment amount => simp [State.setCall, Pc.loaded]

/-- A read that is made after some point of a run returns a value between those of the counter then and now. -/
theorem loaded_between {s t : State} {c : Nat} {value : UInt64} (hs : Reaches step .default s)
    (hidle : s.calls c = .idle) (ht : Reaches step s t) (hloaded : (t.calls c).loaded = some value) :
    s.value.toNat ≤ value.toNat ∧ value.toNat ≤ t.value.toNat := by
  have hinv := ht.invariant (I := fun t => (∃ es, Inv t es) ∧ s.value.toNat ≤ t.value.toNat ∧
      ∀ v, (t.calls c).loaded = some v → s.value.toNat ≤ v.toNat ∧ v.toNat ≤ t.value.toNat)
    (fun t a u ⟨⟨es, hi⟩, hle, hbetween⟩ hstep => by
      have hle' := hle.trans (hi.value_le hstep)
      refine ⟨hi.kept hstep, hle', fun v hv => ?_⟩
      have hkeep : (u.calls c).loaded = (t.calls c).loaded → s.value.toNat ≤ v.toNat ∧ v.toNat ≤ u.value.toNat :=
        fun heq => (hbetween v (heq ▸ hv)).imp_right fun h => h.trans (hi.value_le hstep)
      cases a with
      | invoke c' op => exact hkeep (invoke_loaded hstep c)
      | advance c' =>
        rcases eq_or_ne c c' with rfl | hne
        · rcases advance_loaded hstep with heq | hload
          · exact hkeep heq
          · rw [hload, Option.some.injEq] at hv
            exact hv ▸ ⟨hle', Nat.le_refl _⟩
        · exact hkeep (by rw [advance_calls_of_ne hne hstep]))
    ⟨Inv.of_reaches hs, Nat.le_refl _, fun v hv => by rw [hidle] at hv; cases hv⟩
  exact hinv.2.2 value hloaded

/-! ### Increments by one -/

def isIncrement (e : Entry) : Bool := e.op ≠ .current

/-- A counter that is only incremented by one counts the increments, up to `u64::MAX`. -/
theorem Legal.value_of_ones {n m : Nat} {es : List Entry} (h : Legal Sequential n es m)
    (hones : ∀ e ∈ es, e.op = .current ∨ e.op = .increment 1) (hn : n ≤ u64Max) :
    m = min u64Max (n + es.countP isIncrement) := by
  induction h with
  | nil => simp [hn]
  | @cons s t u e es hspec _ ih =>
    obtain ⟨he, hes⟩ := List.forall_mem_cons.mp hones
    obtain ⟨c, op, r⟩ := e
    cases hspec with
    | current =>
      rw [ih hes hn, List.countP_cons_of_neg (by simp [isIncrement])]
    | updated hle hvalue =>
      obtain rfl : _ = (1 : UInt64) := by simpa using he
      rw [ih hes hle, List.countP_cons_of_pos (by simp [isIncrement])]
      have hone : (1 : UInt64).toNat = 1 := rfl
      omega
    | overflow hcurrent hover =>
      obtain rfl : _ = (1 : UInt64) := by simpa using he
      rw [ih hes hn, List.countP_cons_of_pos (by simp [isIncrement])]
      have hone : (1 : UInt64).toNat = 1 := rfl
      omega

theorem Inv.value_of_ones {s : State} {es : List Entry} (hi : Inv s es)
    (hones : ∀ c op, (s.calls c).op = some op → op = .current ∨ op = .increment 1) :
    s.value.toNat = min u64Max (es.countP isIncrement) := by
  rw [Legal.value_of_ones hi.points.legal (fun e he => hones _ _ (hi.op_of_mem he)) (Nat.zero_le _), Nat.zero_add]

end Fabric.Counter
