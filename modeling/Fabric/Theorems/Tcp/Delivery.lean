import Fabric.Theorems.Tcp.Steps

/-! Delivery by `accept`: within a generation the popped streams followed by the queue are the streams that the
    listener pushed, and generations do not mix. -/

namespace Fabric.Tcp.Loopback
open Transition

section
variable {s t : State}

/-! ### What a step keeps -/

/-- Whether an action is one of `start` and `stop`. -/
def Action.ofLifecycle : Action → Bool
  | .start _ | .stop | .lifecycle _ => true
  | _ => false

theorem acceptStep_samePhase {a : Nat} (hs : s.acceptStep a = some t) : SamePhase s t := by
  unfold State.acceptStep at hs
  repeat' split at hs
  all_goals first
    | obtain rfl := Option.some.inj hs
      exact ⟨rfl, rfl, rfl, rfl⟩
    | cases hs

theorem listenerStep_samePhase {g : Nat} (hs : s.listenerStep g = some t) : SamePhase s t := by
  unfold State.listenerStep at hs
  repeat' split at hs
  all_goals first
    | obtain rfl := Option.some.inj hs
      exact ⟨rfl, rfl, rfl, rfl⟩
    | cases hs

/-- Threads, calls and peers leave the statement at which the lifecycle stands, and what it stored. -/
theorem step_samePhase {a : Action} (hs : step s a = some t) (ha : a.ofLifecycle = false) : SamePhase s t := by
  cases a with
  | start bound => cases ha
  | stop => cases ha
  | lifecycle connected => cases ha
  | listener g => exact listenerStep_samePhase hs
  | accept a => exact acceptStep_samePhase hs
  | wake a =>
    obtain ⟨-, rfl⟩ := wake_eq_some hs
    exact ⟨rfl, rfl, rfl, rfl⟩
  | peer g =>
    simp only [step, State.peer] at hs
    split at hs
    · exact Option.some.inj hs ▸ ⟨rfl, rfl, rfl, rfl⟩
    · cases hs
  | incoming g failed =>
    simp only [step, State.incoming] at hs
    repeat' split at hs
    all_goals first
      | obtain rfl := Option.some.inj hs
        exact ⟨rfl, rfl, rfl, rfl⟩
      | cases hs
  | notifyOne g waiter =>
    simp only [step, State.notifyOne] at hs
    repeat' split at hs
    all_goals first
      | obtain rfl := Option.some.inj hs
        exact ⟨rfl, rfl, rfl, rfl⟩
      | cases hs
  | call a =>
    simp only [step, State.call] at hs
    split at hs
    · exact Option.some.inj hs ▸ ⟨rfl, rfl, rfl, rfl⟩
    · cases hs

/-- A pop, the only step that hands out a stream. -/
def Pops (s t : State) (a : Nat) : Prop :=
  ∃ stream rest, s.queue = stream :: rest ∧ t.acceptors = Function.update s.acceptors a (.accepted stream) ∧
    t.delivered = Function.update s.delivered s.generation (s.delivered s.generation ++ [stream])

theorem acceptStep_cases {a : Nat} (hs : s.acceptStep a = some t) :
    Pops s t a ∨ (t.delivered = s.delivered ∧
      ∃ pc, t.acceptors = Function.update s.acceptors a pc ∧ ∀ stream, pc ≠ .accepted stream) := by
  unfold State.acceptStep at hs
  cases hpc : s.acceptors a with
  | popFront =>
    simp only [hpc] at hs
    split at hs
    · rename_i stream rest hq
      obtain rfl := Option.some.inj hs
      exact Or.inl ⟨stream, rest, hq, rfl, rfl⟩
    · obtain rfl := Option.some.inj hs
      exact Or.inr ⟨rfl, _, rfl, by simp⟩
  | checkLive =>
    simp only [hpc, Option.some.injEq] at hs
    subst hs
    exact Or.inr ⟨rfl, _, rfl, fun stream => by split <;> simp⟩
  | wait =>
    simp only [hpc, Option.some.injEq] at hs
    subst hs
    exact Or.inr ⟨rfl, _, rfl, by simp⟩
  | lock | checkStop | waiting =>
    simp only [hpc] at hs
    split at hs <;> first
      | obtain rfl := Option.some.inj hs
        exact Or.inr ⟨rfl, _, rfl, by simp⟩
      | cases hs
  | uncalled | accepted stream | stopped => simp [hpc] at hs

/-- Whether an action is one of an `accept` call. -/
def Action.ofAccept : Action → Bool
  | .call _ | .accept _ => true
  | _ => false

/-- Two states with the same `accept` calls: where they stand, which of them holds the mutex and what was popped. -/
structure SameAccepts (s t : State) : Prop where
  acceptors : t.acceptors = s.acceptors
  lock : t.lock = s.lock
  delivered : t.delivered = s.delivered

theorem startStep_sameAccepts {next : StartStep} {actual : TcpSocketAddress} (hs : s.startStep actual next = some t) :
    SameAccepts s t := by
  cases next with
  | clearQueue =>
    simp only [State.startStep] at hs
    split at hs
    · exact Option.some.inj hs ▸ ⟨rfl, rfl, rfl⟩
    · cases hs
  | _ => exact Option.some.inj hs ▸ ⟨rfl, rfl, rfl⟩

theorem stopStep_sameAccepts {next : StopStep} {connected : Bool} (hs : s.stopStep connected next = some t) :
    SameAccepts s t := by
  unfold State.stopStep at hs
  repeat' split at hs
  all_goals first
    | exact Option.some.inj hs ▸ ⟨rfl, rfl, rfl⟩
    | cases hs

theorem listenerStep_sameAccepts {g : Nat} (hs : s.listenerStep g = some t) : SameAccepts s t := by
  unfold State.listenerStep at hs
  repeat' split at hs
  all_goals first
    | exact Option.some.inj hs ▸ ⟨rfl, rfl, rfl⟩
    | cases hs

/-- The lifecycle, the threads and the peers leave the `accept` calls where they are. -/
theorem step_sameAccepts {a : Action} (hs : step s a = some t) (ha : a.ofAccept = false) : SameAccepts s t := by
  cases a with
  | call a => cases ha
  | accept a => cases ha
  | wake a =>
    obtain ⟨-, rfl⟩ := wake_eq_some hs
    exact ⟨rfl, rfl, rfl⟩
  | listener g => exact listenerStep_sameAccepts hs
  | lifecycle connected =>
    simp only [step, State.lifecycleStep] at hs
    split at hs
    · cases hs
    · cases hs
    · exact startStep_sameAccepts hs
    · exact stopStep_sameAccepts hs
  | start bound =>
    simp only [step, State.start] at hs
    split at hs
    · exact Option.some.inj hs ▸ ⟨rfl, rfl, rfl⟩
    · exact Option.some.inj hs ▸ ⟨rfl, rfl, rfl⟩
    · cases hs
  | stop =>
    simp only [step, State.stop] at hs
    split at hs
    · exact Option.some.inj hs ▸ ⟨rfl, rfl, rfl⟩
    · cases hs
  | peer g =>
    simp only [step, State.peer] at hs
    split at hs
    · exact Option.some.inj hs ▸ ⟨rfl, rfl, rfl⟩
    · cases hs
  | incoming g failed =>
    simp only [step, State.incoming] at hs
    repeat' split at hs
    all_goals first
      | exact Option.some.inj hs ▸ ⟨rfl, rfl, rfl⟩
      | cases hs
  | notifyOne g waiter =>
    simp only [step, State.notifyOne] at hs
    repeat' split at hs
    all_goals first
      | exact Option.some.inj hs ▸ ⟨rfl, rfl, rfl⟩
      | cases hs

/-- A step pops the head of the queue, or it hands out nothing. -/
theorem step_delivered {a : Action} (hs : step s a = some t) :
    (∃ c, Pops s t c) ∨
      (t.delivered = s.delivered ∧
        ∀ c stream, t.acceptors c = .accepted stream → s.acceptors c = .accepted stream) := by
  cases a with
  | accept a =>
    rcases acceptStep_cases hs with hpop | ⟨hd, pc, hacc, hpc⟩
    · exact Or.inl ⟨a, hpop⟩
    · refine Or.inr ⟨hd, fun c stream h => ?_⟩
      by_cases hc : c = a
      · subst hc
        rw [hacc, Function.update_self] at h
        exact absurd h (hpc stream)
      · rwa [hacc, Function.update_of_ne hc] at h
  | call a =>
    simp only [step, State.call] at hs
    split at hs
    · obtain rfl := Option.some.inj hs
      refine Or.inr ⟨rfl, fun c stream h => ?_⟩
      by_cases hc : c = a
      · subst hc
        simp [State.setAcceptor] at h
      · simpa [State.setAcceptor, Function.update_of_ne hc] using h
    · cases hs
  | _ =>
    have hsame := step_sameAccepts hs rfl
    exact Or.inr ⟨hsame.delivered, fun c stream h => hsame.acceptors ▸ h⟩

/-- Generations only grow, and only a start, which opens the next one, leaves a stopped adapter. -/
theorem step_generation {a : Action} (hs : step s a = some t) :
    s.generation ≤ t.generation ∧
      (s.lifecycle = .stopped →
        (t.generation = s.generation ∧ t.lifecycle = .stopped) ∨ s.generation < t.generation) := by
  by_cases ha : a.ofLifecycle = false
  · have hp := step_samePhase hs ha
    exact ⟨Nat.le_of_eq hp.generation.symm, fun hl => Or.inl ⟨hp.generation, hp.lifecycle.trans hl⟩⟩
  · cases a with
    | start bound =>
      simp only [step, State.start] at hs
      split at hs
      · exact Option.some.inj hs ▸ ⟨Nat.le_refl _, fun hl => Or.inl ⟨rfl, hl⟩⟩
      · exact Option.some.inj hs ▸ ⟨Nat.le_succ _, fun _ => Or.inr (Nat.lt_succ_self _)⟩
      · cases hs
    | stop =>
      simp only [step, State.stop] at hs
      split at hs
      · rename_i hl
        exact Option.some.inj hs ▸ ⟨Nat.le_refl _, fun hstopped => by rw [hl] at hstopped; cases hstopped⟩
      · cases hs
    | lifecycle connected =>
      simp only [step, State.lifecycleStep] at hs
      split at hs
      · cases hs
      · cases hs
      · rename_i hl
        refine ⟨?_, fun hstopped => by rw [hl] at hstopped; cases hstopped⟩
        unfold State.startStep at hs
        repeat' split at hs
        all_goals first
          | exact Option.some.inj hs ▸ Nat.le_refl _
          | cases hs
      · rename_i hl
        refine ⟨?_, fun hstopped => by rw [hl] at hstopped; cases hstopped⟩
        unfold State.stopStep at hs
        repeat' split at hs
        all_goals first
          | exact Option.some.inj hs ▸ Nat.le_refl _
          | cases hs
    | _ => exact absurd rfl ha

theorem StopReturned.kept {g : Nat} {a : Action} (h : s.StopReturned g) (hs : step s a = some t) :
    t.StopReturned g := by
  have hgen := step_generation hs
  rcases h with h | ⟨rfl, hl⟩
  · exact Or.inl (Nat.lt_of_lt_of_le h hgen.1)
  · rcases hgen.2 hl with ⟨heq, hl'⟩ | hlt
    · exact Or.inr ⟨heq.symm, hl'⟩
    · exact Or.inl hlt

/-- Only the last step of a stop returns it. -/
theorem step_stops {act : Action} (hs : step s act = some t) {g : Nat} (hle : g ≤ s.generation)
    (hbefore : ¬s.StopReturned g) (hafter : t.StopReturned g) :
    g = s.generation ∧ s.lifecycle = .stopping .clearAddress ∧ ∃ connected, act = .lifecycle connected := by
  have hg : g = s.generation := by
    by_contra hne
    exact hbefore (Or.inl (Nat.lt_of_le_of_ne hle hne))
  subst hg
  have hl : s.lifecycle ≠ .stopped := fun hl => hbefore (Or.inr ⟨rfl, hl⟩)
  by_cases ha : act.ofLifecycle = false
  · have hp := step_samePhase hs ha
    rw [State.StopReturned, hp.generation, hp.lifecycle] at hafter
    exact absurd hafter hbefore
  · cases act with
    | start bound =>
      simp only [step, State.start] at hs
      split at hs
      · rename_i h
        exact absurd h hl
      · rename_i h
        exact absurd h hl
      · cases hs
    | stop =>
      simp only [step, State.stop] at hs
      split at hs
      · obtain rfl := Option.some.inj hs
        simp [State.StopReturned] at hafter
      · cases hs
    | lifecycle connected =>
      refine ⟨rfl, ?_, connected, rfl⟩
      simp only [step, State.lifecycleStep] at hs
      cases hl' : s.lifecycle with
      | stopped => exact absurd hl' hl
      | running => simp [hl'] at hs
      | starting next actual =>
        simp only [hl'] at hs
        cases next <;> simp only [State.startStep] at hs
        case clearQueue =>
          split at hs
          · obtain rfl := Option.some.inj hs
            simp [State.StopReturned] at hafter
          · cases hs
        all_goals
          obtain rfl := Option.some.inj hs
          simp [State.StopReturned, State.setListener] at hafter
      | stopping next =>
        simp only [hl'] at hs
        unfold State.stopStep at hs
        repeat' split at hs
        all_goals first
          | rfl
          | cases hs; done
          | obtain rfl := Option.some.inj hs
            simp [State.StopReturned, State.arrive] at hafter
    | _ => exact absurd rfl ha

theorem step_accepted {act : Action} (hs : step s act = some t) {a : Nat} {stream : Stream}
    (h : s.acceptors a = .accepted stream) : t.acceptors a = .accepted stream := by
  cases act with
  | accept c =>
    have hne : a ≠ c := by
      rintro rfl
      simp [step, State.acceptStep, h] at hs
    have hother : t.acceptors a = s.acceptors a := by
      rcases acceptStep_cases hs with ⟨stream, rest, -, hacc, -⟩ | ⟨-, pc, hacc, -⟩ <;>
        rw [hacc, Function.update_of_ne hne]
    rw [hother, h]
  | call c =>
    have hne : a ≠ c := by
      rintro rfl
      simp [step, State.call, h] at hs
    simp only [step, State.call] at hs
    split at hs
    · obtain rfl := Option.some.inj hs
      simpa [State.setAcceptor, Function.update_of_ne hne] using h
    · cases hs
  | _ => rw [(step_sameAccepts hs rfl).acceptors, h]

/-- Nothing is popped in a generation whose stop has returned. -/
theorem StopReturned.delivered {g : Nat} {a : Action} (hi : Inv s) (h : s.StopReturned g) (hs : step s a = some t) :
    t.delivered g = s.delivered g := by
  rcases step_delivered hs with ⟨c, stream, rest, hq, -, hd⟩ | ⟨hd, -⟩
  · rw [hd]
    refine Function.update_of_ne ?_ ..
    rintro rfl
    rcases h with h | ⟨-, hl⟩
    · exact Nat.lt_irrefl _ h
    · have hph := hi.phase
      rw [hl] at hph
      rw [hph.2] at hq
      cases hq
  · rw [hd]

/-! ### The streams of a generation -/

/-- `stop` has cleared the queue, and no start has followed. -/
def State.cleared (s : State) : Prop := s.lifecycle = .stopping .clearAddress ∨ s.lifecycle = .stopped

theorem Fresh.ordered (hf : Fresh s) : s.delivered s.generation ++ s.queue = s.pushed s.generation := by
  rw [hf.delivered, hf.queue, hf.pushed]
  rfl

theorem Inv.ordered (hi : Inv s) (hc : ¬s.cleared) :
    s.delivered s.generation ++ s.queue = s.pushed s.generation := by
  have hph := hi.phase
  cases hl : s.lifecycle with
  | stopped => exact absurd (Or.inr hl) hc
  | running =>
    rw [hl] at hph
    exact hph.1.pushed
  | starting next actual =>
    rw [hl] at hph
    cases next with
    | stopRequested => exact Fresh.ordered hph
    | handle => exact hph.1.pushed
    | generationLive | acceptedConnections | clearQueue | actualAddress | spawn => exact Fresh.ordered hph.1
  | stopping next =>
    rw [hl] at hph
    cases next with
    | clearAddress => exact absurd (Or.inl hl) hc
    | stopRequested | generationLive | actualAddress | connect | notifyAll | takeHandle | join | clearQueue =>
      exact hph.1.pushed

theorem Inv.counter (hi : Inv s) (hl : s.lifecycle = .running) :
    s.acceptedConnections = .ofNat ((s.delivered s.generation).length + s.queue.length +
      (s.listeners s.generation).inHand.length) := by
  have hph := hi.phase
  rw [hl] at hph
  obtain ⟨hf, -⟩ := hph
  rw [hf.accepted, hf.counted, ← hf.pushed, List.length_append, List.length_append]

/-- A thread that leaves its loop belongs to the generation that is being stopped. -/
theorem Inv.clearLive (hi : Inv s) {g : Nat} (hpc : s.listeners g = .clearLive) :
    g = s.generation ∧ ∃ next, s.lifecycle = .stopping next := by
  have hactive : ¬(s.listeners g).Idle := by rw [hpc]; exact id
  obtain rfl := hi.eq_generation hactive
  refine ⟨rfl, ?_⟩
  have hph := hi.phase
  cases hl : s.lifecycle with
  | stopped =>
    rw [hl] at hph
    exact absurd hph.1 hactive
  | running =>
    rw [hl, Phase, hpc] at hph
    exact hph.2.1.elim
  | starting next actual =>
    rw [hl] at hph
    have hfresh : ¬Fresh s := fun hf => by
      rw [hf.unspawned] at hpc
      cases hpc
    cases next with
    | stopRequested => exact absurd hph hfresh
    | handle =>
      rw [Phase, hpc] at hph
      exact hph.2.1.elim
    | generationLive | acceptedConnections | clearQueue | actualAddress | spawn => exact absurd hph.1 hfresh
  | stopping next => exact ⟨next, rfl⟩

/-- What an `accept` call returned was popped in the generation of its stream. -/
def Received (s : State) : Prop := ∀ c stream, s.acceptors c = .accepted stream → stream ∈ s.delivered stream.generation

theorem Received.kept {a : Action} (hr : Received s) (hi : Inv s) (hs : step s a = some t) : Received t := by
  rcases step_delivered hs with ⟨c, stream, rest, hq, hacc, hd⟩ | ⟨hd, hacc⟩
  · have hgen : stream.generation = s.generation := by
      have hf := (hi.phase.active (Or.inr (by rw [hq]; simp))).1
      have hmem : stream ∈ s.counted s.generation := by
        rw [hf.counted, ← hf.pushed, hq]
        simp
      exact hi.origin _ stream (Or.inr (Or.inr hmem))
    intro c' stream' h
    rw [hd]
    by_cases hc : c' = c
    · subst hc
      rw [hacc, Function.update_self] at h
      cases h
      rw [hgen, Function.update_self]
      simp
    · rw [hacc, Function.update_of_ne hc] at h
      have hmem := hr c' stream' h
      by_cases hg : stream'.generation = s.generation
      · rw [hg, Function.update_self]
        exact List.mem_append_left _ (hg ▸ hmem)
      · rwa [Function.update_of_ne hg]
  · intro c stream h
    rw [hd]
    exact hr c stream (hacc c stream h)

end

/-- What delivery by `accept` keeps to in a state of a run. -/
structure Delivers (s : State) : Prop where
  ordered : ¬s.cleared → s.delivered s.generation ++ s.queue = s.pushed s.generation
  /-- The counter is a `usize`, which is exact up to its range. -/
  counter : s.lifecycle = .running → ∃ inHand ≤ 1, s.acceptedConnections.toNat =
    ((s.delivered s.generation).length + s.queue.length + inHand) % UInt64.size
  notOwn : ∀ g stream, stream ∈ s.counted g ∨ stream ∈ s.delivered g → stream.own = false
  generations : ∀ g, ∀ stream ∈ s.delivered g, stream.generation = g
  received : ∀ c stream, s.acceptors c = .accepted stream → stream ∈ s.delivered stream.generation
  emptied : s.lifecycle = .stopped → s.queue = []
  frozen : ∀ g, s.StopReturned g → ∀ t, Reaches step s t → t.delivered g = s.delivered g
  clears : ∀ g, s.listeners g = .clearLive → g = s.generation ∧ ∃ next, s.lifecycle = .stopping next

theorem frozen_of_reaches {s t : State} (hi : Inv s) {g : Nat} (h : s.StopReturned g) (ht : Reaches step s t) :
    t.delivered g = s.delivered g := by
  have hall := ht.invariant (I := fun u => Inv u ∧ u.StopReturned g ∧ u.delivered g = s.delivered g)
    (fun u a v hu huv => ⟨hu.1.kept huv, StopReturned.kept hu.2.1 huv,
      (StopReturned.delivered hu.1 hu.2.1 huv).trans hu.2.2⟩) ⟨hi, h, rfl⟩
  exact hall.2.2

/-- In every run of the adapter, `accept` loses, duplicates and reorders nothing that the listener pushed, the
    counter is exact while the adapter runs, and generations do not mix. -/
theorem delivers {s : State} (as : List Action) (hrun : run step .initial as = some s) : Delivers s := by
  have hall := run_invariant (I := fun s => Inv s ∧ Received s)
    (fun s a t h hs => ⟨h.1.kept hs, h.2.kept h.1 hs⟩) hrun ⟨.initial, fun c stream h => by cases h⟩
  obtain ⟨hi, hr⟩ := hall
  exact {
    ordered := hi.ordered
    counter := fun hl => ⟨_, ListenerPc.length_inHand_le _, by rw [hi.counter hl, UInt64.toNat_ofNat']⟩
    notOwn := fun g stream h => hi.passed g stream (Or.inr (h.elim id (hi.popped g stream)))
    generations := fun g stream h => hi.origin g stream (Or.inr (Or.inr (hi.popped g stream h)))
    received := hr
    emptied := fun hl => by
      have hph := hi.phase
      rw [hl] at hph
      exact hph.2
    frozen := fun g h t ht => frozen_of_reaches hi h ht
    clears := fun g h => hi.clearLive h }

/-- Two peers connect, and the second stream is counted and not yet pushed when the first has been accepted. -/
def acceptRun : List Action :=
  [.start (some ⟨"127.0.0.1", 8080⟩), .lifecycle false, .lifecycle false, .lifecycle false, .lifecycle false,
    .lifecycle false, .lifecycle false, .lifecycle false, .peer 1, .peer 1, .incoming 1 false, .listener 1,
    .listener 1, .listener 1, .listener 1, .notifyOne 1 none, .incoming 1 false, .listener 1, .listener 1,
    .listener 1, .call 0, .accept 0, .accept 0, .accept 0]

theorem delivers_acceptRun :
    ∃ s, run step .initial acceptRun = some s ∧ s.lifecycle = .running ∧ s.acceptedConnections = 2 ∧
      s.acceptors 0 = .accepted ⟨0, 1, false⟩ ∧ Delivers s :=
  ⟨_, rfl, rfl, rfl, rfl, delivers acceptRun rfl⟩

end Fabric.Tcp.Loopback
