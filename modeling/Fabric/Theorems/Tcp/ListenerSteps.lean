import Fabric.Theorems.Tcp.Invariant

/-! Every step of a listener thread keeps the invariant of the loopback adapter. -/

namespace Fabric.Tcp.Loopback

section
variable {s t : State}

@[simp] theorem setListener_self (s : State) (g : Nat) (pc : ListenerPc) : (s.setListener g pc).listeners g = pc :=
  Function.update_self ..

theorem setListener_of_ne {g g' : Nat} {pc : ListenerPc} (h : g' ≠ g) :
    (s.setListener g pc).listeners g' = s.listeners g' :=
  Function.update_of_ne h ..

@[simp] theorem setListener_generation (s : State) (g : Nat) (pc : ListenerPc) :
    (s.setListener g pc).generation = s.generation := rfl

@[simp] theorem setListener_counted (s : State) (g : Nat) (pc : ListenerPc) :
    (s.setListener g pc).counted = s.counted := rfl

@[simp] theorem setListener_pushed (s : State) (g : Nat) (pc : ListenerPc) :
    (s.setListener g pc).pushed = s.pushed := rfl

theorem ListenerPc.Passed.stream_eq {pc : ListenerPc} {st : Stream} (h : pc.Passed st) : pc.stream? = some st := by
  cases pc <;> simp only [ListenerPc.Passed] at h
  all_goals exact congrArg some h

theorem ListenerPc.inHand_eq_nil {pc : ListenerPc} (h : pc.stream? = none) : pc.inHand = [] := by
  cases pc with
  | push stream => cases h
  | _ => rfl

/-- A step of the listener thread of generation `g` leaves the other generations alone. -/
structure ListenerFrame (g : Nat) (s t : State) : Prop extends SamePhase s t where
  listeners : ∀ g', g' ≠ g → t.listeners g' = s.listeners g'
  backlog : ∀ g', g' ≠ g → t.backlog g' = s.backlog g'
  counted : ∀ g', g' ≠ g → t.counted g' = s.counted g'
  pushed : ∀ g', g' ≠ g → t.pushed g' = s.pushed g'
  delivered : t.delivered = s.delivered
  live : t.generationLive = true → s.generationLive = true

/-- A thread that takes a step is at work. -/
theorem active_of_listenerStep {g : Nat} (hs : s.listenerStep g = some t) : ¬(s.listeners g).Idle := by
  unfold State.listenerStep at hs
  intro hidle
  cases hpc : s.listeners g <;> rw [hpc] at hidle hs <;> first | exact hidle.elim | cases hs

theorem active_of_incoming {g : Nat} {failed : Bool} (hs : s.incoming g failed = some t) :
    ¬(s.listeners g).Idle := by
  unfold State.incoming at hs
  intro hidle
  cases hpc : s.listeners g <;> rw [hpc] at hidle hs <;> first | exact hidle.elim | cases hs

theorem active_of_notifyOne {g : Nat} {waiter : Option Nat} (hs : s.notifyOne g waiter = some t) :
    ¬(s.listeners g).Idle := by
  unfold State.notifyOne at hs
  intro hidle
  cases hpc : s.listeners g <;> rw [hpc] at hidle hs <;> first | exact hidle.elim | cases hs

/-- Only the thread of the current generation takes steps. -/
theorem Inv.eq_generation (hi : Inv s) {g : Nat} (hactive : ¬(s.listeners g).Idle) : g = s.generation := by
  by_contra hne
  exact hactive (hi.others g hne)

/-- A thread that has left its loop has seen `stop_requested`. -/
theorem Inv.stopRequested_of_left (hi : Inv s) {g : Nat} (hactive : ¬(s.listeners g).Idle)
    (hloop : ¬(s.listeners g).Looping) : s.stopRequested = true := by
  obtain rfl := hi.eq_generation hactive
  exact (hi.phase.active (Or.inl hactive)).2.1.resolve_left hloop

/-- A listener step keeps the invariant when it keeps the flow, holds the streams it held or its socket held,
    and counts a stream that passed the check. -/
theorem Inv.listener (hi : Inv s) {g : Nat} (hactive : ¬(s.listeners g).Idle) (hframe : ListenerFrame g s t)
    (hflow : g = s.generation → Flow s → Flow t) (hspawned : t.listeners g ≠ .unspawned)
    (hloop : s.stopRequested = false → (t.listeners g).Looping)
    (hheld : ∀ st, st ∈ t.backlog g ∨ (t.listeners g).stream? = some st →
      st ∈ s.backlog g ∨ (s.listeners g).stream? = some st)
    (hpassed : ∀ st, (t.listeners g).Passed st → st.own = false)
    (hcounted : ∀ st ∈ t.counted g, st ∈ s.counted g ∨ (s.listeners g).Passed st)
    (hgrows : s.counted g ⊆ t.counted g) : Inv t := by
  obtain rfl := hi.eq_generation hactive
  have hgen := hframe.generation
  refine ⟨fun g hg => ?_, fun g hg => ?_, ?_, fun g st h => ?_, fun st h => ?_, fun g st h => ?_, fun g st h => ?_, ?_⟩
  · rw [hgen] at hg
    exact hframe.listeners g hg ▸ hi.others g hg
  · rw [hgen] at hg
    have hne : g ≠ s.generation := by omega
    rw [hframe.listeners g hne, hframe.backlog g hne, hframe.counted g hne, hframe.pushed g hne, hframe.delivered]
    exact hi.future g hg
  · obtain ⟨hf, -, hphase⟩ := hi.phase.active (Or.inl hactive)
    exact hphase t hframe.toSamePhase (hflow rfl hf) (Or.inr ⟨hactive, hspawned, hloop⟩)
  · by_cases hg : g = s.generation
    · subst hg
      refine hi.origin _ st ?_
      rcases h with h | h | h
      · exact (hheld st (Or.inl h)).imp_right Or.inl
      · exact (hheld st (Or.inr h)).imp_right Or.inl
      · exact Or.inr ((hcounted st h).elim Or.inr fun h => Or.inl h.stream_eq)
    · rw [hframe.listeners g hg, hframe.backlog g hg, hframe.counted g hg] at h
      exact hi.origin g st h
  · rw [hgen] at h
    rw [hframe.stopRequested]
    exact hi.own st (hheld st h)
  · by_cases hg : g = s.generation
    · subst hg
      rcases h with h | h
      · exact hpassed st h
      · exact hi.passed _ st (hcounted st h).symm
    · rw [hframe.listeners g hg, hframe.counted g hg] at h
      exact hi.passed g st h
  · rw [hframe.delivered] at h
    by_cases hg : g = s.generation
    · subst hg
      exact hgrows (hi.popped _ st h)
    · exact hframe.counted g hg ▸ hi.popped g st h
  · rw [hframe.lifecycle]
    intro hdead
    have hl := hi.dead hdead
    cases hlive : t.generationLive
    · rfl
    · rw [hframe.live hlive] at hl
      cases hl

/-- The frame of a step that moves the thread of generation `g` and keeps its generation's history. -/
theorem ListenerFrame.of_eq {g : Nat} {pc : ListenerPc} (hl : t.listeners = Function.update s.listeners g pc)
    (hphase : SamePhase s t) (hb : ∀ g', g' ≠ g → t.backlog g' = s.backlog g') (hc : t.counted = s.counted)
    (hp : t.pushed = s.pushed) (hd : t.delivered = s.delivered)
    (hlive : t.generationLive = true → s.generationLive = true) : ListenerFrame g s t where
  toSamePhase := hphase
  listeners g' hg := by rw [hl, Function.update_of_ne hg]
  backlog := hb
  counted _ _ := by rw [hc]
  pushed _ _ := by rw [hp]
  delivered := hd
  live := hlive

/-- A listener step that counts and pushes nothing. -/
theorem Inv.listener_move (hi : Inv s) {g : Nat} {pc : ListenerPc} (hactive : ¬(s.listeners g).Idle)
    (hl : t.listeners = Function.update s.listeners g pc) (hphase : SamePhase s t)
    (hb : ∀ g', g' ≠ g → t.backlog g' = s.backlog g') (hc : t.counted = s.counted) (hp : t.pushed = s.pushed)
    (hd : t.delivered = s.delivered) (hq : t.queue = s.queue) (ha : t.acceptedConnections = s.acceptedConnections)
    (hlive : t.generationLive = true → s.generationLive = true) (hhand : (s.listeners g).inHand = [] ∧ pc.inHand = [])
    (hspawned : pc ≠ .unspawned) (hloop : s.stopRequested = false → pc.Looping)
    (hheld : ∀ st, st ∈ t.backlog g ∨ pc.stream? = some st → st ∈ s.backlog g ∨ (s.listeners g).stream? = some st)
    (hpassed : ∀ st, pc.Passed st → st.own = false) : Inv t := by
  have hself : t.listeners g = pc := by rw [hl, Function.update_self]
  refine hi.listener hactive (.of_eq hl hphase hb hc hp hd hlive) (fun hg hf => ?_) ?_ ?_ ?_ ?_ ?_ ?_
  · subst hg
    refine ⟨?_, ?_, ?_⟩
    · rw [hphase.generation, hd, hq, hp]
      exact hf.pushed
    · have hcounted := hf.counted
      rw [hhand.1] at hcounted
      rw [hphase.generation, hself, hhand.2, hc, hp, hcounted]
    · rw [hphase.generation, ha, hc]
      exact hf.accepted
  · rwa [hself]
  · rwa [hself]
  · rwa [hself]
  · rwa [hself]
  · exact fun st hst => Or.inl (hc ▸ hst)
  · rw [hc]
    exact List.Subset.refl _

/-- A listener step after which the thread holds no stream. -/
theorem Inv.listener_drop (hi : Inv s) {g : Nat} {pc : ListenerPc} (hactive : ¬(s.listeners g).Idle)
    (hl : t.listeners = Function.update s.listeners g pc) (hphase : SamePhase s t) (hb : t.backlog = s.backlog)
    (hc : t.counted = s.counted) (hp : t.pushed = s.pushed) (hd : t.delivered = s.delivered)
    (hq : t.queue = s.queue) (ha : t.acceptedConnections = s.acceptedConnections)
    (hlive : t.generationLive = true → s.generationLive = true) (hhand : (s.listeners g).inHand = [])
    (hnone : pc.stream? = none) (hspawned : pc ≠ .unspawned) (hloop : s.stopRequested = false → pc.Looping) :
    Inv t := by
  refine hi.listener_move hactive hl hphase (fun _ _ => by rw [hb]) hc hp hd hq ha hlive
    ⟨hhand, ListenerPc.inHand_eq_nil hnone⟩ hspawned hloop ?_ (fun st h => ?_)
  · rintro st (h | h)
    · exact Or.inl (hb ▸ h)
    · rw [hnone] at h
      cases h
  · have hstream := h.stream_eq
    rw [hnone] at hstream
    cases hstream

theorem Inv.incoming (hi : Inv s) {g : Nat} {failed : Bool} (hs : s.incoming g failed = some t) : Inv t := by
  unfold State.incoming at hs
  split at hs
  · rename_i hpc
    have hactive : ¬(s.listeners g).Idle := by rw [hpc]; exact id
    split at hs
    · obtain rfl := Option.some.inj hs
      exact hi.listener_drop hactive rfl ⟨rfl, rfl, rfl, rfl⟩ rfl rfl rfl rfl rfl rfl id (by rw [hpc]; rfl) rfl
        (by simp) (fun _ => trivial)
    · split at hs
      · cases hs
      · rename_i stream rest hb
        obtain rfl := Option.some.inj hs
        refine hi.listener_move hactive rfl ⟨rfl, rfl, rfl, rfl⟩ (fun _ hg => Function.update_of_ne hg ..) rfl rfl rfl
          rfl rfl id ⟨by rw [hpc]; rfl, rfl⟩ (by simp) (fun _ => trivial) ?_ (fun st h => h.elim)
        rintro st (h | h)
        · left
          rw [hb]
          exact List.mem_cons_of_mem _ (by simpa using h)
        · left
          rw [hb]
          obtain rfl : stream = st := by simpa [ListenerPc.stream?] using h
          exact List.mem_cons_self
  · cases hs

theorem Inv.notifyOne (hi : Inv s) {g : Nat} {waiter : Option Nat} (hs : s.notifyOne g waiter = some t) : Inv t := by
  have move : ∀ {ws : List Nat}, s.listeners g = .notifyOne →
      Inv { s.setListener g .incoming with waiters := ws } := fun hpc =>
    hi.listener_drop (by rw [hpc]; exact id) rfl ⟨rfl, rfl, rfl, rfl⟩ rfl rfl rfl rfl rfl rfl id (by rw [hpc]; rfl)
      rfl (by simp) (fun _ => trivial)
  unfold State.notifyOne at hs
  split at hs
  · rename_i hpc
    split at hs
    · obtain rfl := Option.some.inj hs
      exact move hpc
    · cases hs
  · rename_i hpc
    split at hs
    · obtain rfl := Option.some.inj hs
      exact move hpc
    · cases hs
  · cases hs

/-- A listener that saw `stop_requested` leaves the loop. -/
theorem Inv.leaveLoop (hi : Inv s) {g : Nat} (hloop : (s.listeners g).Looping)
    (hhand : (s.listeners g).inHand = []) (hstop : s.stopRequested = true) : Inv (s.setListener g .clearLive) := by
  have hactive : ¬(s.listeners g).Idle := by
    intro h
    cases hpc : s.listeners g <;> rw [hpc] at h hloop <;> first | exact h | exact hloop
  refine hi.listener_drop hactive rfl ⟨rfl, rfl, rfl, rfl⟩ rfl rfl rfl rfl rfl rfl id hhand rfl (by simp) (fun h => ?_)
  rw [hstop] at h
  cases h

/-- The check at the head of the loop. -/
theorem Inv.checkStop (hi : Inv s) {g : Nat} {stream : Stream} (hpc : s.listeners g = .checkStop (some stream))
    (hstop : s.stopRequested = false) : Inv (s.setListener g (.checkAccepted stream)) := by
  have hactive : ¬(s.listeners g).Idle := by rw [hpc]; exact id
  refine hi.listener_move hactive rfl ⟨rfl, rfl, rfl, rfl⟩ (fun _ _ => rfl) rfl rfl rfl rfl rfl id
    ⟨by rw [hpc]; rfl, rfl⟩ (by simp) (fun _ => trivial) ?_ ?_
  · rw [hpc]
    exact fun st h => h
  · -- The connection of `stop` does not pass: it arrives after the flag is set.
    rintro st rfl
    obtain rfl := hi.eq_generation hactive
    cases hown : stream.own
    · rfl
    · have := hi.own stream (Or.inr (by rw [hpc]; rfl)) hown
      rw [hstop] at this
      cases this

theorem Inv.count (hi : Inv s) {g : Nat} {stream : Stream} (hpc : s.listeners g = .count stream) :
    Inv { s.setListener g (.push stream) with
      acceptedConnections := s.acceptedConnections + 1
      counted := Function.update s.counted g (s.counted g ++ [stream]) } := by
  have hactive : ¬(s.listeners g).Idle := by rw [hpc]; exact id
  refine hi.listener hactive ⟨⟨rfl, rfl, rfl, rfl⟩, fun _ hg => Function.update_of_ne hg .., fun _ _ => rfl,
    fun _ hg => Function.update_of_ne hg .., fun _ _ => rfl, rfl, id⟩ (fun hg hf => ?_) (by simp)
    (fun _ => by simp [ListenerPc.Looping]) ?_ ?_ ?_ ?_
  · subst hg
    have hcounted := hf.counted
    rw [hpc] at hcounted
    refine ⟨hf.pushed, ?_, ?_⟩
    · simpa [ListenerPc.inHand] using hcounted
    · simp [hf.accepted, State.setListener, UInt64.ofNat_add]
  · simp only [setListener_self, hpc]
    exact fun st h => h
  · simp only [setListener_self]
    exact fun st h => hi.passed g st (Or.inl (by rw [hpc]; exact h))
  · intro st h
    simp only [Function.update_self, List.mem_append, List.mem_singleton] at h
    rw [hpc]
    exact h.imp_right Eq.symm
  · simp only [Function.update_self]
    exact List.subset_append_left _ _

theorem Inv.push (hi : Inv s) {g : Nat} {stream : Stream} (hpc : s.listeners g = .push stream) :
    Inv { s.setListener g .notifyOne with
      queue := s.queue ++ [stream]
      pushed := Function.update s.pushed g (s.pushed g ++ [stream]) } := by
  have hactive : ¬(s.listeners g).Idle := by rw [hpc]; exact id
  refine hi.listener hactive ⟨⟨rfl, rfl, rfl, rfl⟩, fun _ hg => Function.update_of_ne hg .., fun _ _ => rfl,
    fun _ _ => rfl, fun _ hg => Function.update_of_ne hg .., rfl, id⟩ (fun hg hf => ?_) (by simp)
    (fun _ => by simp [ListenerPc.Looping]) ?_ ?_ (fun st h => Or.inl h) (List.Subset.refl _)
  · subst hg
    have hcounted := hf.counted
    rw [hpc] at hcounted
    refine ⟨?_, ?_, hf.accepted⟩
    · simp [← hf.pushed, State.setListener]
    · simpa [ListenerPc.inHand] using hcounted
  · rintro st (h | h)
    · exact Or.inl h
    · simp [ListenerPc.stream?] at h
  · intro st h
    simp [ListenerPc.Passed] at h

/-- A thread without a stream in hand goes on in its loop without one. -/
theorem Inv.loops (hi : Inv s) {g : Nat} (hat : s.listeners g = .checkStop none ∨ s.listeners g = .checkFailed)
    {pc : ListenerPc} (hstream : pc.stream? = none) (hloop : pc.Looping) : Inv (s.setListener g pc) := by
  have hactive : ¬(s.listeners g).Idle := by
    rcases hat with hpc | hpc <;> rw [hpc] <;> exact id
  have hhand : (s.listeners g).inHand = [] := by
    rcases hat with hpc | hpc <;> rw [hpc] <;> rfl
  have hspawned : pc ≠ .unspawned := fun h => by rw [h] at hloop; exact hloop
  exact hi.listener_drop hactive rfl ⟨rfl, rfl, rfl, rfl⟩ rfl rfl rfl rfl rfl rfl id hhand hstream hspawned
    fun _ => hloop

theorem Inv.listenerStep (hi : Inv s) {g : Nat} (hs : s.listenerStep g = some t) : Inv t := by
  unfold State.listenerStep at hs
  cases hpc : s.listeners g with
  | unspawned => simp [hpc] at hs
  | incoming => simp [hpc] at hs
  | notifyOne => simp [hpc] at hs
  | finished => simp [hpc] at hs
  | checkStop accepted =>
    simp only [hpc] at hs
    cases hstop : s.stopRequested with
    | true =>
      simp only [hstop, ↓reduceIte, Option.some.injEq] at hs
      subst hs
      exact hi.leaveLoop (by rw [hpc]; trivial) (by rw [hpc]; rfl) hstop
    | false =>
      simp only [hstop, Bool.false_eq_true, ↓reduceIte] at hs
      cases accepted with
      | none => exact Option.some.inj hs ▸ hi.loops (.inl hpc) rfl trivial
      | some stream => exact Option.some.inj hs ▸ hi.checkStop hpc hstop
  | checkAccepted stream =>
    simp only [hpc, Option.some.injEq] at hs
    cases hstop : s.stopRequested with
    | true =>
      simp only [hstop, ↓reduceIte] at hs
      subst hs
      exact hi.leaveLoop (by rw [hpc]; trivial) (by rw [hpc]; rfl) hstop
    | false =>
      simp only [hstop, Bool.false_eq_true, ↓reduceIte] at hs
      subst hs
      refine hi.listener_move (by rw [hpc]; exact id) rfl ⟨rfl, rfl, rfl, rfl⟩ (fun _ _ => rfl) rfl rfl rfl rfl rfl id
        ⟨by rw [hpc]; rfl, rfl⟩ (by simp) (fun _ => trivial) ?_ ?_
      · rw [hpc]
        exact fun st h => h
      · exact fun st h => hi.passed g st (Or.inl (by rw [hpc]; exact h))
  | checkFailed =>
    simp only [hpc, Option.some.injEq] at hs
    cases hstop : s.stopRequested with
    | true =>
      simp only [hstop, ↓reduceIte] at hs
      subst hs
      exact hi.leaveLoop (by rw [hpc]; trivial) (by rw [hpc]; rfl) hstop
    | false =>
      simp only [hstop, Bool.false_eq_true, ↓reduceIte] at hs
      exact hs ▸ hi.loops (.inr hpc) rfl trivial
  | count stream =>
    simp only [hpc, Option.some.injEq] at hs
    exact hs ▸ hi.count hpc
  | push stream =>
    simp only [hpc] at hs
    split at hs
    · exact Option.some.inj hs ▸ hi.push hpc
    · cases hs
  | clearLive =>
    have hactive : ¬(s.listeners g).Idle := by rw [hpc]; exact id
    have hstop := hi.stopRequested_of_left hactive (by rw [hpc]; exact id)
    simp only [hpc, Option.some.injEq] at hs
    subst hs
    refine hi.listener_drop hactive rfl ⟨rfl, rfl, rfl, rfl⟩ rfl rfl rfl rfl rfl rfl (fun h => by cases h)
      (by rw [hpc]; rfl) rfl (by simp) (fun h => ?_)
    rw [hstop] at h
    cases h
  | notifyAll =>
    have hactive : ¬(s.listeners g).Idle := by rw [hpc]; exact id
    have hstop := hi.stopRequested_of_left hactive (by rw [hpc]; exact id)
    simp only [hpc, Option.some.injEq] at hs
    subst hs
    refine hi.listener_drop hactive rfl ⟨rfl, rfl, rfl, rfl⟩ rfl rfl rfl rfl rfl rfl id (by rw [hpc]; rfl) rfl
      (by simp) (fun h => ?_)
    rw [hstop] at h
    cases h

end

end Fabric.Tcp.Loopback
