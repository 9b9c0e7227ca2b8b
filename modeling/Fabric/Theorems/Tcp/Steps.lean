import Fabric.Theorems.Tcp.ListenerSteps

/-! Every step of the loopback adapter keeps its invariant, so it holds in every state that a run reaches. -/

namespace Fabric.Tcp.Loopback
open Transition

section
variable {s t : State}

/-! ### Steps of `accept` calls and of peers -/

/-- A pop hands out the head of the queue, so the popped streams and the queue stay the same sequence. -/
theorem Inv.pop (hi : Inv s) {a : Nat} {stream : Stream} {rest : List Stream} (hq : s.queue = stream :: rest) :
    Inv { s.setAcceptor a (.accepted stream) with
      queue := rest
      lock := none
      delivered := Function.update s.delivered s.generation (s.delivered s.generation ++ [stream]) } := by
  obtain ⟨hf, -, hphase⟩ := hi.phase.active (Or.inr (by rw [hq]; simp))
  have hpushed := hf.pushed
  rw [hq] at hpushed
  refine ⟨hi.others, fun g hg => ?_, hphase _ ⟨rfl, rfl, rfl, rfl⟩ ⟨?_, hf.counted, hf.accepted⟩ (Or.inl rfl),
    hi.origin, hi.own, hi.passed, fun g st h => ?_, hi.dead⟩
  · have hne : g ≠ s.generation := by
      have : s.generation < g := hg
      omega
    obtain ⟨h₁, h₂, h₃, h₄, h₅⟩ := hi.future g hg
    exact ⟨h₁, h₂, h₃, h₄, by simpa only [Function.update_of_ne hne] using h₅⟩
  · simpa [State.setAcceptor] using hpushed
  · by_cases hg : g = s.generation
    · subst hg
      have hmem : st ∈ s.pushed s.generation := by
        rw [← hpushed]
        simp only [Function.update_self, List.mem_append, List.mem_singleton] at h
        rcases h with h | rfl
        · exact List.mem_append_left _ h
        · simp
      show st ∈ s.counted s.generation
      rw [hf.counted]
      exact List.mem_append_left _ hmem
    · simp only [Function.update_of_ne hg] at h
      exact hi.popped g st h

theorem Inv.acceptStep (hi : Inv s) {a : Nat} (hs : s.acceptStep a = some t) : Inv t := by
  have keep : ∀ {pc : AcceptPc} {lock : Option Nat} {ws : List Nat},
      Inv { s.setAcceptor a pc with lock := lock, waiters := ws } := fun {_ _ _} =>
    hi.of_eq ⟨rfl, rfl, rfl, rfl⟩ rfl rfl rfl rfl rfl rfl rfl rfl
  unfold State.acceptStep at hs
  cases hpc : s.acceptors a with
  | uncalled => simp [hpc] at hs
  | accepted stream => simp [hpc] at hs
  | stopped => simp [hpc] at hs
  | checkLive =>
    simp only [hpc, Option.some.injEq] at hs
    exact hs ▸ keep
  | lock =>
    simp only [hpc] at hs
    split at hs
    · exact Option.some.inj hs ▸ keep
    · cases hs
  | popFront =>
    simp only [hpc] at hs
    split at hs
    · rename_i stream rest hq
      exact Option.some.inj hs ▸ hi.pop hq
    · exact Option.some.inj hs ▸ keep
  | checkStop =>
    simp only [hpc] at hs
    split at hs
    · exact Option.some.inj hs ▸ keep
    · exact Option.some.inj hs ▸ keep
  | wait =>
    simp only [hpc, Option.some.injEq] at hs
    exact hs ▸ keep
  | waiting =>
    simp only [hpc] at hs
    split at hs
    · exact Option.some.inj hs ▸ keep
    · cases hs

theorem Inv.call (hi : Inv s) {a : Nat} (hs : s.call a = some t) : Inv t := by
  unfold State.call at hs
  split at hs
  · obtain rfl := Option.some.inj hs
    exact hi.of_eq ⟨rfl, rfl, rfl, rfl⟩ rfl rfl rfl rfl rfl rfl rfl rfl
  · cases hs

/-- A connection arrives at an open socket; the connection of `stop` arrives only once the flag is set. -/
theorem Inv.arrive (hi : Inv s) {g : Nat} {own : Bool} (hopen : s.socketOpen g = true)
    (hown : own = true → s.stopRequested = true ∧ ¬Fresh s) : Inv (s.arrive g own) := by
  simp only [State.socketOpen, Bool.and_eq_true, decide_eq_true_eq] at hopen
  have hmem : ∀ g' st, st ∈ (s.arrive g own).backlog g' →
      st ∈ s.backlog g' ∨ (g' = g ∧ st = ⟨s.nextStream, g, own⟩) := by
    intro g' st h
    by_cases hg : g' = g
    · subst hg
      simpa [State.arrive] using h
    · left
      simpa [State.arrive, Function.update_of_ne hg] using h
  refine ⟨hi.others, fun g' hg => ?_, ?_, fun g' st h => ?_, fun st h hst => ?_, hi.passed, hi.popped, hi.dead⟩
  · have hlt : s.generation < g' := hg
    have hne : g' ≠ g := by omega
    obtain ⟨h₁, h₂, h₃, h₄, h₅⟩ := hi.future g' hg
    exact ⟨h₁, by simpa [State.arrive, Function.update_of_ne hne] using h₂, h₃, h₄, h₅⟩
  · refine hi.phase.of_eq ⟨rfl, rfl, rfl, rfl⟩ rfl rfl rfl (fun hf => hf.of_eq rfl rfl rfl rfl rfl rfl rfl) fun hf =>
      hf.of_eq rfl rfl rfl rfl rfl rfl fun st h => ?_
    rcases hmem _ _ h with h | ⟨-, rfl⟩
    · exact hf.backlog st h
    · cases own
      · rfl
      · exact absurd hf (hown rfl).2
  · rcases h with h | h
    · rcases hmem _ _ h with h | ⟨rfl, rfl⟩
      · exact hi.origin g' st (Or.inl h)
      · rfl
    · exact hi.origin g' st (Or.inr h)
  · rcases h with h | h
    · rcases hmem _ _ h with h | ⟨-, rfl⟩
      · exact hi.own st (Or.inl h) hst
      · exact (hown hst).1
    · exact hi.own st (Or.inr h) hst

theorem Inv.peer (hi : Inv s) {g : Nat} (hs : s.peer g = some t) : Inv t := by
  unfold State.peer at hs
  split at hs
  · rename_i hopen
    exact Option.some.inj hs ▸ hi.arrive hopen (fun h => by cases h)
  · cases hs

/-! ### Steps of the lifecycle -/

/-- A start enters a generation in which nothing has happened. -/
theorem Inv.start (hi : Inv s) {bound : Option TcpSocketAddress} (hs : s.start bound = some t) : Inv t := by
  unfold State.start at hs
  split at hs
  · exact Option.some.inj hs ▸ hi
  · rename_i actual hl
    obtain rfl := Option.some.inj hs
    have hph := hi.phase
    rw [hl] at hph
    obtain ⟨h₁, h₂, h₃, h₄, h₅⟩ := hi.future (s.generation + 1) (Nat.lt_succ_self _)
    refine ⟨fun g hg => ?_, fun g hg => hi.future g (Nat.lt_of_succ_lt hg), ?_, hi.origin, fun st h => ?_, hi.passed,
      hi.popped, fun h => h.elim⟩
    · by_cases heq : g = s.generation
      · subst heq
        exact hph.1
      · exact hi.others g heq
    · exact ⟨h₁, hph.2, h₃, h₄, h₅, fun st h => by rw [h₂] at h; cases h⟩
    · rcases h with h | h
      · simp [h₂] at h
      · simp [h₁, ListenerPc.stream?] at h
  · cases hs

theorem Inv.stop (hi : Inv s) (hs : s.stop = some t) : Inv t := by
  unfold State.stop at hs
  split at hs
  · rename_i hl
    obtain rfl := Option.some.inj hs
    have hph := hi.phase
    rw [hl] at hph
    refine hi.relocate rfl rfl rfl rfl rfl rfl hi.own ?_ (fun h => h.elim)
    exact ⟨hph.1.of_eq rfl rfl rfl rfl rfl rfl rfl, hph.2⟩
  · cases hs

/-- The socket and the thread of a fresh generation hold no connection of `stop`. -/
theorem Fresh.no_own (hf : Fresh s) {st : Stream}
    (h : st ∈ s.backlog s.generation ∨ (s.listeners s.generation).stream? = some st) : st.own = false := by
  rcases h with h | h
  · exact hf.backlog st h
  · rw [hf.unspawned] at h
    cases h

theorem Inv.spawn (hi : Inv s) {actual : TcpSocketAddress} (hl : s.lifecycle = .starting .spawn actual) :
    Inv { s.setListener s.generation .incoming with lifecycle := .starting .handle actual } := by
  have hph := hi.phase
  rw [hl] at hph
  obtain ⟨hf, hstop, ha⟩ := hph
  have hne : ∀ {g}, g ≠ s.generation → (s.setListener s.generation .incoming).listeners g = s.listeners g :=
    fun hg => setListener_of_ne hg
  refine ⟨fun g hg => ?_, fun g hg => ?_, ⟨⟨?_, ?_, ?_⟩, ?_, hstop⟩, fun g st h => ?_, fun st h => ?_, fun g st h => ?_,
    hi.popped, fun h => h.elim⟩
  · exact (hne hg).symm ▸ hi.others g hg
  · have hlt : s.generation < g := hg
    have hg' : g ≠ s.generation := by omega
    exact (hne hg').symm ▸ hi.future g hg
  · show s.delivered s.generation ++ s.queue = s.pushed s.generation
    rw [hf.delivered, hf.queue, hf.pushed]
    rfl
  · show s.counted s.generation = s.pushed s.generation ++ _
    rw [hf.counted, hf.pushed]
    simp [ListenerPc.inHand]
  · show s.acceptedConnections = .ofNat (s.counted s.generation).length
    rw [ha, hf.counted]
    rfl
  · simp [ListenerPc.Looping]
  · by_cases hg : g = s.generation
    · subst hg
      refine hi.origin _ st ?_
      rcases h with h | h | h
      · exact Or.inl h
      · simp [ListenerPc.stream?] at h
      · exact Or.inr (Or.inr h)
    · exact hi.origin g st (by rw [← hne hg]; exact h)
  · rcases h with h | h
    · exact hi.own st (Or.inl h)
    · simp [ListenerPc.stream?] at h
  · by_cases hg : g = s.generation
    · subst hg
      rcases h with h | h
      · simp [ListenerPc.Passed] at h
      · exact hi.passed _ st (Or.inr h)
    · exact hi.passed g st (by rw [← hne hg]; exact h)

theorem Inv.startStep (hi : Inv s) {next : StartStep} {actual : TcpSocketAddress}
    (hl : s.lifecycle = .starting next actual) (hs : s.startStep actual next = some t) : Inv t := by
  have hph := hi.phase
  rw [hl] at hph
  cases next with
  | stopRequested =>
    obtain rfl := Option.some.inj hs
    have hf : Fresh s := hph
    refine hi.relocate rfl rfl rfl rfl rfl rfl (fun st h hown => ?_) ⟨hf.of_eq rfl rfl rfl rfl rfl rfl hf.backlog, rfl⟩
      (fun h => h.elim)
    rw [hf.no_own h] at hown
    cases hown
  | generationLive =>
    obtain rfl := Option.some.inj hs
    exact hi.relocate rfl rfl rfl rfl rfl rfl hi.own
      ⟨hph.1.of_eq rfl rfl rfl rfl rfl rfl hph.1.backlog, hph.2⟩ (fun h => h.elim)
  | acceptedConnections =>
    obtain rfl := Option.some.inj hs
    exact hi.relocate rfl rfl rfl rfl rfl rfl hi.own
      ⟨hph.1.of_eq rfl rfl rfl rfl rfl rfl hph.1.backlog, hph.2, rfl⟩ (fun h => h.elim)
  | clearQueue =>
    simp only [State.startStep] at hs
    split at hs
    · obtain rfl := Option.some.inj hs
      exact hi.relocate rfl rfl rfl rfl rfl rfl hi.own
        ⟨hph.1.of_eq rfl rfl rfl rfl rfl hph.1.queue.symm hph.1.backlog, hph.2⟩ (fun h => h.elim)
    · cases hs
  | actualAddress =>
    obtain rfl := Option.some.inj hs
    exact hi.relocate rfl rfl rfl rfl rfl rfl hi.own
      ⟨hph.1.of_eq rfl rfl rfl rfl rfl rfl hph.1.backlog, hph.2⟩ (fun h => h.elim)
  | spawn => exact Option.some.inj hs ▸ hi.spawn hl
  | handle =>
    obtain rfl := Option.some.inj hs
    exact hi.relocate rfl rfl rfl rfl rfl rfl hi.own
      ⟨hph.1.of_eq rfl rfl rfl rfl rfl rfl rfl, hph.2.1, hph.2.2, rfl⟩ (fun h => h.elim)

theorem Inv.stopStep (hi : Inv s) {next : StopStep} {connected : Bool} (hl : s.lifecycle = .stopping next)
    (hs : s.stopStep connected next = some t) : Inv t := by
  have hph := hi.phase
  have hdead := hi.dead
  rw [hl] at hph hdead
  cases next with
  | stopRequested =>
    obtain rfl := Option.some.inj hs
    refine hi.relocate rfl rfl rfl rfl rfl rfl (fun _ _ _ => rfl)
      ⟨hph.1.of_eq rfl rfl rfl rfl rfl rfl rfl, fun h => ?_, rfl, hph.2.2.2⟩ (fun h => h.elim)
    have hloop := hph.2.1
    change s.listeners s.generation = .unspawned at h
    rw [h] at hloop
    exact hloop
  | generationLive =>
    obtain rfl := Option.some.inj hs
    exact hi.relocate rfl rfl rfl rfl rfl rfl hi.own ⟨hph.1.of_eq rfl rfl rfl rfl rfl rfl rfl, hph.2⟩ (fun _ => rfl)
  | actualAddress =>
    obtain rfl := Option.some.inj hs
    exact hi.relocate rfl rfl rfl rfl rfl rfl hi.own ⟨hph.1.of_eq rfl rfl rfl rfl rfl rfl rfl, hph.2⟩
      (fun _ => hdead trivial)
  | connect address =>
    have skip : Inv { s with lifecycle := .stopping .notifyAll } :=
      hi.relocate rfl rfl rfl rfl rfl rfl hi.own ⟨hph.1.of_eq rfl rfl rfl rfl rfl rfl rfl, hph.2⟩
        (fun _ => hdead trivial)
    cases address with
    | none => exact Option.some.inj hs ▸ skip
    | some address =>
      simp only [State.stopStep] at hs
      split at hs
      · split at hs
        · rename_i hopen
          obtain rfl := Option.some.inj hs
          have harrive : Inv (s.arrive s.generation true) :=
            hi.arrive hopen fun _ => ⟨hph.2.2.1, fun hf => hph.2.1 hf.unspawned⟩
          exact harrive.relocate rfl rfl rfl rfl rfl rfl harrive.own
            ⟨hph.1.of_eq rfl rfl rfl rfl rfl rfl rfl, hph.2⟩ (fun _ => hdead trivial)
        · cases hs
      · exact Option.some.inj hs ▸ skip
  | notifyAll =>
    obtain rfl := Option.some.inj hs
    exact hi.relocate rfl rfl rfl rfl rfl rfl hi.own ⟨hph.1.of_eq rfl rfl rfl rfl rfl rfl rfl, hph.2⟩
      (fun _ => hdead trivial)
  | takeHandle =>
    simp only [State.stopStep, hph.2.2.2, Option.some.injEq] at hs
    subst hs
    exact hi.relocate rfl rfl rfl rfl rfl rfl hi.own
      ⟨hph.1.of_eq rfl rfl rfl rfl rfl rfl rfl, hph.2.1, hph.2.2.1, rfl⟩ (fun _ => hdead trivial)
  | join g =>
    simp only [State.stopStep] at hs
    split at hs
    · rename_i hfinished
      obtain rfl := Option.some.inj hs
      exact hi.relocate rfl rfl rfl rfl rfl rfl hi.own
        ⟨hph.1.of_eq rfl rfl rfl rfl rfl rfl rfl, hph.2.2.2 ▸ hfinished, hph.2.2.1⟩ (fun _ => hdead trivial)
    · cases hs
  | clearQueue =>
    simp only [State.stopStep] at hs
    split at hs
    · obtain rfl := Option.some.inj hs
      exact hi.relocate rfl rfl rfl rfl rfl rfl hi.own ⟨hph.2.1, rfl, hph.2.2⟩ (fun _ => hdead trivial)
    · cases hs
  | clearAddress =>
    obtain rfl := Option.some.inj hs
    refine hi.relocate rfl rfl rfl rfl rfl rfl hi.own ⟨?_, hph.2.1⟩ (fun _ => hdead trivial)
    show (s.listeners s.generation).Idle
    rw [hph.1]
    trivial

theorem Inv.lifecycleStep (hi : Inv s) {connected : Bool} (hs : s.lifecycleStep connected = some t) : Inv t := by
  unfold State.lifecycleStep at hs
  split at hs
  · cases hs
  · cases hs
  · rename_i hl
    exact hi.startStep hl hs
  · rename_i hl
    exact hi.stopStep hl hs

theorem Inv.kept (hi : Inv s) {a : Action} (hs : step s a = some t) : Inv t := by
  cases a with
  | start bound => exact hi.start hs
  | stop => exact hi.stop hs
  | lifecycle connected => exact hi.lifecycleStep hs
  | peer g => exact hi.peer hs
  | incoming g failed => exact hi.incoming hs
  | listener g => exact hi.listenerStep hs
  | notifyOne g waiter => exact hi.notifyOne hs
  | call a => exact hi.call hs
  | accept a => exact hi.acceptStep hs
  | wake a =>
    obtain ⟨-, rfl⟩ := wake_eq_some hs
    exact hi.of_eq ⟨rfl, rfl, rfl, rfl⟩ rfl rfl rfl rfl rfl rfl rfl rfl

end

theorem inv_of_reaches {s : State} (h : Reaches step .initial s) : Inv s :=
  h.invariant (fun _ _ _ hi hs => hi.kept hs) .initial

end Fabric.Tcp.Loopback
