import Fabric.Theorems.Tcp.Delivery

/-! Waiting `accept` calls at a stop. The two `notify_all` of a stop, its own and that of the listener thread,
    are sent without the queue mutex, so a call that has read `stop_requested` and has yet to park misses them;
    where no call stands there at the later one, no call is left parked. -/

namespace Fabric.Tcp.Loopback
open Transition

/-! ### Stranded calls -/

/-- `stop` has returned, no start has followed, and the call `a` is parked while no thread is left to notify. -/
structure State.Stranded (s : State) (a : Nat) : Prop where
  started : 0 < s.generation
  stopped : s.lifecycle = .stopped
  waiting : s.acceptors a = .waiting
  parked : a ∈ s.waiters
  silent : ∀ g, (s.listeners g).Idle

/-- The step is the later of the two `notify_all` of a stop. -/
def LastNotify (s : State) : Action → Prop
  | .lifecycle _ => s.lifecycle = .stopping .notifyAll ∧ s.listeners s.generation = .finished
  | .listener g =>
    s.listeners g = .notifyAll ∧ (s.lifecycle = .stopping .takeHandle ∨ s.lifecycle = .stopping (.join g))
  | _ => False

instance (s : State) (act : Action) : Decidable (LastNotify s act) :=
  match act with
  | .lifecycle _ => inferInstanceAs (Decidable (_ ∧ _))
  | .listener _ => inferInstanceAs (Decidable (_ ∧ _))
  | .start _ | .stop | .peer _ | .incoming _ _ | .notifyOne _ _ | .call _ | .accept _ | .wake _ => instDecidableFalse

/-- No `accept` call stands between its check of `stop_requested` and its wait at the later `notify_all`. -/
def Quiet (s : State) (act : Action) : Prop := LastNotify s act → ∀ a, s.acceptors a ≠ .wait

/-- Both `notify_all` of the last stop have been sent, and no start has followed. -/
def State.Notified (s : State) : Prop :=
  match s.lifecycle with
  | .stopping .takeHandle | .stopping (.join _) => s.listeners s.generation = .finished
  | .stopping .clearQueue | .stopping .clearAddress => True
  | .stopped => 0 < s.generation
  | _ => False

/-- No call is parked, and none is about to park. -/
structure Settled (s : State) : Prop where
  stopRequested : s.stopRequested = true
  wait : ∀ a, s.acceptors a ≠ .wait
  waiters : s.waiters = []

section
variable {s t : State}

theorem State.Notified.of_samePhase (hn : t.Notified) (hp : SamePhase s t)
    (hlis : t.listeners s.generation = .finished → s.listeners s.generation = .finished) : s.Notified := by
  unfold State.Notified at hn ⊢
  rw [hp.lifecycle, hp.generation] at hn
  split at hn
  · exact hlis hn
  · exact hlis hn
  · trivial
  · trivial
  · exact hn
  · exact hn.elim

/-- After the later `notify_all` the flag is up, so a call that reads it returns instead of parking. -/
theorem Settled.acceptStep (h : Settled s) {a : Nat} (hs : s.acceptStep a = some t) : Settled t := by
  have go : ∀ {pc : AcceptPc} {lock : Option Nat} {q : List Stream} {d : Nat → List Stream}, pc ≠ .wait →
      Settled { s.setAcceptor a pc with lock := lock, queue := q, delivered := d } := by
    intro pc lock q d hpc
    refine ⟨h.stopRequested, fun c => ?_, h.waiters⟩
    by_cases hc : c = a
    · subst hc
      simpa [State.setAcceptor] using hpc
    · simpa [State.setAcceptor, Function.update_of_ne hc] using h.wait c
  unfold State.acceptStep at hs
  cases hpc : s.acceptors a with
  | wait => exact absurd hpc (h.wait a)
  | uncalled | accepted stream | stopped => simp [hpc] at hs
  | checkLive =>
    simp only [hpc, Option.some.injEq] at hs
    exact hs ▸ go (by split <;> simp)
  | lock | waiting =>
    simp only [hpc] at hs
    split at hs
    · exact Option.some.inj hs ▸ go (by simp)
    · cases hs
  | popFront =>
    simp only [hpc] at hs
    split at hs <;> exact Option.some.inj hs ▸ go (by simp)
  | checkStop =>
    simp only [hpc, h.stopRequested, if_true, Option.some.injEq] at hs
    exact hs ▸ go (by simp)

theorem Settled.call (h : Settled s) {a : Nat} (hs : s.call a = some t) : Settled t := by
  unfold State.call at hs
  split at hs
  · obtain rfl := Option.some.inj hs
    refine ⟨h.stopRequested, fun c => ?_, h.waiters⟩
    by_cases hc : c = a
    · subst hc
      simp [State.setAcceptor]
    · simpa [State.setAcceptor, Function.update_of_ne hc] using h.wait c
  · cases hs

theorem acceptStep_listeners {a : Nat} (hs : s.acceptStep a = some t) : t.listeners = s.listeners := by
  unfold State.acceptStep at hs
  repeat' split at hs
  all_goals first
    | exact Option.some.inj hs ▸ rfl
    | cases hs

/-- What `Settled` reads. -/
theorem Settled.of_eq (h : Settled s) (hst : t.stopRequested = s.stopRequested) (hacc : t.acceptors = s.acceptors)
    (hw : t.waiters = s.waiters) : Settled t :=
  ⟨hst.trans h.stopRequested, by rw [hacc]; exact h.wait, hw.trans h.waiters⟩

/-- Only an `accept` call parks. -/
theorem step_waiters {act : Action} (hs : step s act = some t) (ha : act.ofAccept = false) (hw : s.waiters = []) :
    t.waiters = [] := by
  cases act with
  | call a => cases ha
  | accept a => cases ha
  | wake a =>
    obtain ⟨hmem, -⟩ := wake_eq_some hs
    rw [hw] at hmem
    cases hmem
  | start bound =>
    simp only [step, State.start] at hs
    split at hs
    · exact Option.some.inj hs ▸ hw
    · exact Option.some.inj hs ▸ hw
    · cases hs
  | stop =>
    simp only [step, State.stop] at hs
    split at hs
    · exact Option.some.inj hs ▸ hw
    · cases hs
  | lifecycle connected =>
    simp only [step, State.lifecycleStep] at hs
    split at hs
    · cases hs
    · cases hs
    · unfold State.startStep at hs
      repeat' split at hs
      all_goals first
        | exact Option.some.inj hs ▸ hw
        | cases hs
    · unfold State.stopStep at hs
      repeat' split at hs
      all_goals first
        | exact Option.some.inj hs ▸ hw
        | exact Option.some.inj hs ▸ rfl
        | cases hs
  | peer g =>
    simp only [step, State.peer] at hs
    split at hs
    · exact Option.some.inj hs ▸ hw
    · cases hs
  | incoming g failed =>
    simp only [step, State.incoming] at hs
    repeat' split at hs
    all_goals first
      | exact Option.some.inj hs ▸ hw
      | cases hs
  | listener g =>
    simp only [step, State.listenerStep] at hs
    repeat' split at hs
    all_goals first
      | exact Option.some.inj hs ▸ hw
      | exact Option.some.inj hs ▸ rfl
      | cases hs
  | notifyOne g waiter =>
    simp only [step, State.notifyOne, hw, if_true, List.not_mem_nil, if_false] at hs
    split at hs
    · exact Option.some.inj hs ▸ hw
    · cases hs
    · cases hs

/-- Threads, calls and peers park no call again; the flag that would let one is down only after a start. -/
theorem Settled.kept (h : Settled s) {act : Action} (hs : step s act = some t) (ha : act.ofLifecycle = false) :
    Settled t := by
  have hst := (step_samePhase hs ha).stopRequested
  cases act with
  | accept a => exact h.acceptStep hs
  | call a => exact h.call hs
  | _ => exact h.of_eq hst (step_sameAccepts hs rfl).acceptors ((step_waiters hs rfl h.waiters).trans h.waiters.symm)

theorem finished_of_setListener {g g' : Nat} {pc : ListenerPc} (hpc : pc ≠ .finished)
    (hf : (s.setListener g pc).listeners g' = .finished) : s.listeners g' = .finished := by
  by_cases hg : g' = g
  · subst hg
    rw [setListener_self] at hf
    exact absurd hf hpc
  · rwa [setListener_of_ne hg] at hf

/-- Only its `notify_all` ends a listener thread. -/
theorem listenerStep_finished {g : Nat} (hs : s.listenerStep g = some t) (hf : t.listeners g = .finished) :
    s.listeners g = .notifyAll ∧ t = { s.setListener g .finished with waiters := [] } := by
  unfold State.listenerStep at hs
  cases hpc : s.listeners g with
  | notifyAll =>
    simp only [hpc, Option.some.injEq] at hs
    exact ⟨rfl, hs.symm⟩
  | unspawned | incoming | notifyOne | finished => simp [hpc] at hs
  | checkStop accepted =>
    simp only [hpc] at hs
    repeat' split at hs
    all_goals
      obtain rfl := Option.some.inj hs
      simp at hf
  | checkAccepted stream | checkFailed =>
    simp only [hpc, Option.some.injEq] at hs
    subst hs
    rw [setListener_self] at hf
    split at hf <;> cases hf
  | count stream | clearLive =>
    simp only [hpc, Option.some.injEq] at hs
    subst hs
    simp at hf
  | push stream =>
    simp only [hpc] at hs
    split at hs
    · obtain rfl := Option.some.inj hs
      simp at hf
    · cases hs

/-- Threads end in their own steps. -/
theorem step_finished {act : Action} (hs : step s act = some t) (ha : act.ofLifecycle = false)
    (hne : ∀ g, act ≠ .listener g) {g : Nat} (hf : t.listeners g = .finished) : s.listeners g = .finished := by
  cases act with
  | start bound => cases ha
  | stop => cases ha
  | lifecycle connected => cases ha
  | listener g => exact absurd rfl (hne g)
  | accept a => rwa [← acceptStep_listeners hs]
  | wake a =>
    obtain ⟨-, rfl⟩ := wake_eq_some hs
    exact hf
  | peer g =>
    simp only [step, State.peer] at hs
    split at hs
    · obtain rfl := Option.some.inj hs
      exact hf
    · cases hs
  | call a =>
    simp only [step, State.call] at hs
    split at hs
    · obtain rfl := Option.some.inj hs
      exact hf
    · cases hs
  | incoming g failed =>
    simp only [step, State.incoming] at hs
    repeat' split at hs
    all_goals first
      | exact finished_of_setListener (by simp) (Option.some.inj hs ▸ hf)
      | cases hs
  | notifyOne g waiter =>
    simp only [step, State.notifyOne] at hs
    repeat' split at hs
    all_goals first
      | exact finished_of_setListener (by simp) (Option.some.inj hs ▸ hf)
      | cases hs

/-! ### The later notification -/

/-- The calls settle once both `notify_all` have been sent. -/
def Settles (s : State) : Prop := s.Notified → Settled s

theorem Settles.listenerStep (h : Settles s) (hi : Inv s) {g : Nat} (hq : Quiet s (.listener g))
    (hs : s.listenerStep g = some t) : Settles t := by
  intro hn
  have hp := listenerStep_samePhase hs
  by_cases hlis : t.listeners s.generation = .finished → s.listeners s.generation = .finished
  · have hstep : step s (.listener g) = some t := hs
    exact (h (hn.of_samePhase hp hlis)).kept hstep rfl
  · -- The thread of the current generation has just ended, so this is the later notification.
    obtain ⟨hfin, hlive⟩ := Classical.not_imp.mp hlis
    obtain rfl := hi.eq_generation (active_of_listenerStep hs)
    obtain ⟨hpc, rfl⟩ := listenerStep_finished hs hfin
    have hph := hi.phase
    unfold State.Notified at hn
    change (match s.lifecycle with
      | .stopping .takeHandle | .stopping (.join _) => _
      | .stopping .clearQueue | .stopping .clearAddress => True
      | .stopped => 0 < s.generation
      | _ => False) at hn
    cases hl : s.lifecycle with
    | stopped =>
      rw [hl, Phase, hpc] at hph
      exact hph.1.elim
    | starting next actual =>
      rw [hl] at hn
      exact hn.elim
    | running =>
      rw [hl] at hn
      exact hn.elim
    | stopping next =>
      rw [hl] at hph hn
      cases next with
      | takeHandle => exact ⟨hph.2.2.1, hq ⟨hpc, Or.inl hl⟩, rfl⟩
      | join g =>
        obtain rfl := hph.2.2.2
        exact ⟨hph.2.2.1, hq ⟨hpc, Or.inr hl⟩, rfl⟩
      | clearQueue => exact absurd hph.2.1 hlive
      | clearAddress => exact absurd hph.1 hlive
      | stopRequested | generationLive | actualAddress | connect | notifyAll => exact hn.elim

theorem Settles.stopStep (h : Settles s) (hi : Inv s) {next : StopStep} {connected : Bool}
    (hl : s.lifecycle = .stopping next) (hq : Quiet s (.lifecycle connected))
    (hs : s.stopStep connected next = some t) : Settles t := by
  intro hn
  have hph := hi.phase
  rw [hl] at hph
  cases next with
  | stopRequested | generationLive | actualAddress =>
    obtain rfl := Option.some.inj hs
    exact hn.elim
  | connect address =>
    have skip : t.lifecycle = .stopping .notifyAll → False := fun hl' => by
      unfold State.Notified at hn
      rw [hl'] at hn
      exact hn
    cases address with
    | none => exact (skip (Option.some.inj hs ▸ rfl)).elim
    | some address =>
      simp only [State.stopStep] at hs
      repeat' split at hs
      all_goals first
        | exact (skip (Option.some.inj hs ▸ rfl)).elim
        | cases hs
  | notifyAll =>
    obtain rfl := Option.some.inj hs
    exact ⟨hph.2.2.1, hq ⟨hl, hn⟩, rfl⟩
  | takeHandle =>
    simp only [State.stopStep, hph.2.2.2, Option.some.injEq] at hs
    subst hs
    have hs' : s.Notified := by
      unfold State.Notified
      rw [hl]
      exact hn
    exact (h hs').of_eq rfl rfl rfl
  | join g =>
    simp only [State.stopStep] at hs
    split at hs
    · rename_i hfinished
      obtain rfl := Option.some.inj hs
      have hs' : s.Notified := by
        unfold State.Notified
        rw [hl]
        exact hph.2.2.2 ▸ hfinished
      exact (h hs').of_eq rfl rfl rfl
    · cases hs
  | clearQueue =>
    have hs' : s.Notified := by
      unfold State.Notified
      rw [hl]
      trivial
    simp only [State.stopStep] at hs
    split at hs
    · exact Option.some.inj hs ▸ (h hs').of_eq rfl rfl rfl
    · cases hs
  | clearAddress =>
    have hs' : s.Notified := by
      unfold State.Notified
      rw [hl]
      trivial
    exact Option.some.inj hs ▸ (h hs').of_eq rfl rfl rfl

theorem Settles.lifecycleStep (h : Settles s) (hi : Inv s) {connected : Bool} (hq : Quiet s (.lifecycle connected))
    (hs : s.lifecycleStep connected = some t) : Settles t := by
  unfold State.lifecycleStep at hs
  split at hs
  · cases hs
  · cases hs
  · rename_i next actual hl
    intro hn
    cases next <;> simp only [State.startStep] at hs
    case clearQueue =>
      split at hs
      · obtain rfl := Option.some.inj hs
        exact hn.elim
      · cases hs
    all_goals
      obtain rfl := Option.some.inj hs
      exact hn.elim
  · rename_i hl
    exact h.stopStep hi hl hq hs

theorem Settles.kept (h : Settles s) (hi : Inv s) {act : Action} (hq : Quiet s act) (hs : step s act = some t) :
    Settles t := by
  cases act with
  | lifecycle connected => exact h.lifecycleStep hi hq hs
  | listener g => exact h.listenerStep hi hq hs
  | start bound =>
    simp only [step, State.start] at hs
    split at hs
    · exact Option.some.inj hs ▸ h
    · exact Option.some.inj hs ▸ fun hn => hn.elim
    · cases hs
  | stop =>
    simp only [step, State.stop] at hs
    split at hs
    · exact Option.some.inj hs ▸ fun hn => hn.elim
    · cases hs
  | _ =>
    exact fun hn =>
      (h (hn.of_samePhase (step_samePhase hs rfl) (step_finished hs rfl fun g h => by cases h))).kept hs rfl

/-! ### A missed notification -/

/-- The call is between its `lock` and its wait or return. -/
def AcceptPc.Locked : AcceptPc → Prop
  | .popFront | .checkStop | .wait => True
  | _ => False

def Holding (s : State) : Prop := ∀ a, (s.acceptors a).Locked → s.lock = some a

theorem Holding.of_eq (h : Holding s) (hacc : t.acceptors = s.acceptors) (hlock : t.lock = s.lock) : Holding t := by
  intro a ha
  rw [hacc] at ha
  exact hlock.trans (h a ha)

/-- What a step of the call `a` does to the mutex and to the waiters. -/
structure AcceptFrame (a : Nat) (s t : State) : Prop where
  others : ∀ c, c ≠ a → t.acceptors c = s.acceptors c
  lock : t.lock = s.lock ∨ s.lock = none ∨ (s.acceptors a).Locked
  locked : (t.acceptors a).Locked → t.lock = some a ∨ (t.lock = s.lock ∧ (s.acceptors a).Locked)
  parks : s.acceptors a = .wait → t.acceptors a = .waiting ∧ a ∈ t.waiters
  waiters : s.waiters ⊆ t.waiters
  woken : s.acceptors a = .waiting → a ∉ s.waiters

theorem acceptStep_frame {a : Nat} (hs : s.acceptStep a = some t) : AcceptFrame a s t := by
  have others : ∀ c, c ≠ a → t.acceptors c = s.acceptors c := by
    rcases acceptStep_cases hs with ⟨stream, rest, -, hacc, -⟩ | ⟨-, pc, hacc, -⟩ <;>
      exact fun c hc => by rw [hacc, Function.update_of_ne hc]
  unfold State.acceptStep at hs
  cases hpc : s.acceptors a with
  | uncalled | accepted stream | stopped => simp [hpc] at hs
  | checkLive =>
    simp only [hpc, Option.some.injEq] at hs
    subst hs
    refine ⟨others, Or.inl rfl, fun h => ?_, by simp [hpc], fun _ => id, by simp [hpc]⟩
    split at h <;> simp [State.setAcceptor, AcceptPc.Locked] at h
  | lock =>
    simp only [hpc] at hs
    split at hs
    · rename_i hfree
      obtain rfl := Option.some.inj hs
      exact ⟨others, Or.inr (Or.inl hfree), fun _ => Or.inl rfl, by simp [hpc], fun _ => id, by simp [hpc]⟩
    · cases hs
  | popFront | checkStop =>
    have hl : (s.acceptors a).Locked := by rw [hpc]; trivial
    simp only [hpc] at hs
    split at hs
    · obtain rfl := Option.some.inj hs
      exact ⟨others, Or.inr (Or.inr hl), by simp [State.setAcceptor, AcceptPc.Locked], by simp [hpc],
        fun _ => id, by simp [hpc]⟩
    · obtain rfl := Option.some.inj hs
      exact ⟨others, Or.inl rfl, fun _ => Or.inr ⟨rfl, hl⟩, by simp [hpc], fun _ => id, by simp [hpc]⟩
  | wait =>
    have hl : (s.acceptors a).Locked := by rw [hpc]; trivial
    simp only [hpc, Option.some.injEq] at hs
    subst hs
    exact ⟨others, Or.inr (Or.inr hl), by simp [State.setAcceptor, AcceptPc.Locked], by simp [State.setAcceptor],
      fun _ => List.mem_cons_of_mem _, by simp [hpc]⟩
  | waiting =>
    simp only [hpc] at hs
    split at hs
    · rename_i hwoken
      obtain rfl := Option.some.inj hs
      exact ⟨others, Or.inr (Or.inl hwoken.2), fun _ => Or.inl rfl, by simp [hpc], fun _ => id, fun _ => hwoken.1⟩
    · cases hs

/-- A call takes the free mutex, keeps its own or releases it. -/
theorem Holding.acceptStep (h : Holding s) {a : Nat} (hs : s.acceptStep a = some t) : Holding t := by
  have hframe := acceptStep_frame hs
  intro c hc
  by_cases hca : c = a
  · subst hca
    rcases hframe.locked hc with hlock | ⟨hlock, hl⟩
    · exact hlock
    · exact hlock.trans (h c hl)
  · rw [hframe.others c hca] at hc
    have hheld := h c hc
    rcases hframe.lock with hlock | hfree | hl
    · exact hlock.trans hheld
    · rw [hfree] at hheld
      cases hheld
    · have hsame := (h a hl).symm.trans hheld
      exact absurd (Option.some.inj hsame).symm hca

theorem Holding.kept (h : Holding s) {act : Action} (hs : step s act = some t) : Holding t := by
  cases act with
  | accept a => exact h.acceptStep hs
  | call a =>
    simp only [step, State.call] at hs
    split at hs
    · obtain rfl := Option.some.inj hs
      intro c hc
      by_cases hca : c = a
      · subst hca
        simp [State.setAcceptor, AcceptPc.Locked] at hc
      · exact h c (by simpa [State.setAcceptor, Function.update_of_ne hca] using hc)
    · cases hs
  | _ =>
    have hsame := step_sameAccepts hs rfl
    exact h.of_eq hsame.acceptors hsame.lock

/-- Once both notifications of a stop are sent, no thread is left to send another. -/
theorem Inv.silent (hi : Inv s) (hn : s.Notified) (g : Nat) : (s.listeners g).Idle := by
  by_cases hg : g = s.generation
  · subst hg
    have hph := hi.phase
    have hfin : s.listeners s.generation = .finished → (s.listeners s.generation).Idle := fun h => by
      rw [h]
      trivial
    unfold State.Notified at hn
    split at hn
    · exact hfin hn
    · exact hfin hn
    · rename_i hl
      rw [hl] at hph
      exact hfin hph.2.1
    · rename_i hl
      rw [hl] at hph
      exact hfin hph.1
    · rename_i hl
      rw [hl] at hph
      exact hph.1
    · exact hn.elim
  · exact hi.others g hg

/-- Both notifications are sent, and the call `a` has missed them: it is parked, or it parks before `stop` can
    take the mutex. -/
structure Missed (s : State) (a : Nat) : Prop where
  notified : s.Notified
  started : 0 < s.generation
  missed : (s.acceptors a = .wait ∧ s.lifecycle ≠ .stopping .clearAddress ∧ s.lifecycle ≠ .stopped) ∨
    (s.acceptors a = .waiting ∧ a ∈ s.waiters)

theorem Missed.stranded {a : Nat} (h : Missed s a) (hi : Inv s) (hl : s.lifecycle = .stopped) : s.Stranded a where
  started := h.started
  stopped := hl
  waiting := by
    rcases h.missed with ⟨-, -, hne⟩ | h
    · exact absurd hl hne
    · exact h.1
  parked := by
    rcases h.missed with ⟨-, -, hne⟩ | h
    · exact absurd hl hne
    · exact h.2
  silent := hi.silent h.notified

theorem Missed.lifecycleStep {a : Nat} (h : Missed s a) (hi : Inv s) (hh : Holding s) {connected : Bool}
    (hs : s.lifecycleStep connected = some t) : Missed t a := by
  have hn := h.notified
  have hph := hi.phase
  unfold State.Notified at hn
  unfold State.lifecycleStep at hs
  cases hl : s.lifecycle with
  | stopped | running | starting next actual => simp [hl] at hs hn
  | stopping next =>
    simp only [hl] at hs hn
    rw [hl] at hph
    -- Until it takes the mutex, `stop` changes nothing that the call could have missed.
    have early : t.Notified → t.generation = s.generation → t.acceptors = s.acceptors → t.waiters = s.waiters →
        t.lifecycle ≠ .stopping .clearAddress → t.lifecycle ≠ .stopped → Missed t a := by
      intro hn hg hacc hw h₁ h₂
      refine ⟨hn, hg ▸ h.started, ?_⟩
      rw [hacc, hw]
      exact h.missed.imp (fun h => ⟨h.1, h₁, h₂⟩) id
    cases next with
    | takeHandle =>
      simp only [State.stopStep, hph.2.2.2, Option.some.injEq] at hs
      subst hs
      exact early hn rfl rfl rfl (by simp) (by simp)
    | join g =>
      simp only [State.stopStep] at hs
      split at hs
      · obtain rfl := Option.some.inj hs
        exact early trivial rfl rfl rfl (by simp) (by simp)
      · cases hs
    | clearQueue =>
      simp only [State.stopStep] at hs
      split at hs
      · rename_i hfree
        obtain rfl := Option.some.inj hs
        refine ⟨trivial, h.started, Or.inr ?_⟩
        rcases h.missed with ⟨hwait, -⟩ | hparked
        · have hheld := hh a (by rw [hwait]; trivial)
          rw [hfree] at hheld
          cases hheld
        · exact hparked
      · cases hs
    | clearAddress =>
      obtain rfl := Option.some.inj hs
      refine ⟨h.started, h.started, Or.inr ?_⟩
      rcases h.missed with ⟨-, hne, -⟩ | hparked
      · exact absurd hl hne
      · exact hparked
    | stopRequested | generationLive | actualAddress | connect | notifyAll => exact hn.elim

/-- A call that has missed both notifications stays so until a start or a spurious wake-up. -/
theorem Missed.kept {a : Nat} (h : Missed s a) (hi : Inv s) (hh : Holding s) {act : Action}
    (hwake : ∀ c, act ≠ .wake c) (hs : step s act = some t) : Missed t a ∨ s.generation < t.generation := by
  have idle := hi.silent h.notified
  cases act with
  | lifecycle connected => exact Or.inl (h.lifecycleStep hi hh hs)
  | start bound =>
    simp only [step, State.start] at hs
    split at hs
    · exact Or.inl (Option.some.inj hs ▸ h)
    · exact Or.inr (Option.some.inj hs ▸ Nat.lt_succ_self _)
    · cases hs
  | stop =>
    simp only [step, State.stop] at hs
    split at hs
    · rename_i hl
      have hn := h.notified
      unfold State.Notified at hn
      rw [hl] at hn
      exact hn.elim
    · cases hs
  | listener g => exact absurd (idle g) (active_of_listenerStep hs)
  | incoming g failed => exact absurd (idle g) (active_of_incoming hs)
  | notifyOne g waiter => exact absurd (idle g) (active_of_notifyOne hs)
  | wake c => exact absurd rfl (hwake c)
  | peer g =>
    simp only [step, State.peer] at hs
    split at hs
    · exact Or.inl (Option.some.inj hs ▸ ⟨h.notified, h.started, h.missed⟩)
    · cases hs
  | call c =>
    simp only [step, State.call] at hs
    split at hs
    · rename_i hc
      obtain rfl := Option.some.inj hs
      have hne : a ≠ c := by
        rintro rfl
        rcases h.missed with ⟨hw, -⟩ | ⟨hw, -⟩ <;> rw [hw] at hc <;> cases hc
      refine Or.inl ⟨h.notified, h.started, ?_⟩
      simpa [State.setAcceptor, Function.update_of_ne hne] using h.missed
    · cases hs
  | accept c =>
    have hframe := acceptStep_frame hs
    have hp := acceptStep_samePhase hs
    refine Or.inl ⟨?_, hp.generation ▸ h.started, ?_⟩
    · have hn := h.notified
      unfold State.Notified at hn ⊢
      rw [hp.lifecycle, hp.generation, acceptStep_listeners hs]
      exact hn
    · rw [hp.lifecycle]
      by_cases hca : a = c
      · subst hca
        rcases h.missed with ⟨hwait, -⟩ | ⟨hwaiting, hparked⟩
        · exact Or.inr (hframe.parks hwait)
        · exact absurd hparked (hframe.woken hwaiting)
      · rw [hframe.others a hca]
        exact h.missed.imp id fun h => ⟨h.1, hframe.waiters h.2⟩

/-- A start has been made, or the adapter is stopped. -/
def Started (s : State) : Prop := s.lifecycle = .stopped ∨ 0 < s.generation

theorem Started.kept (h : Started s) {act : Action} (hs : step s act = some t) : Started t := by
  have hgen := step_generation hs
  rcases h with hl | hpos
  · rcases hgen.2 hl with ⟨-, hl⟩ | hlt
    · exact Or.inl hl
    · exact Or.inr (Nat.zero_lt_of_lt hlt)
  · exact Or.inr (Nat.lt_of_lt_of_le hpos hgen.1)

/-- A call that stands before its wait at the later notification has missed both. -/
theorem missed_of_not_quiet (hi : Inv s) (hstarted : Started s) {act : Action} (hs : step s act = some t)
    (hq : ¬Quiet s act) : ∃ a, Missed t a := by
  simp only [Quiet, not_forall, not_not] at hq
  obtain ⟨hlast, a, ha⟩ := hq
  refine ⟨a, ?_⟩
  have hph := hi.phase
  cases act with
  | lifecycle connected =>
    obtain ⟨hl, hfin⟩ := hlast
    simp only [step, State.lifecycleStep, hl, State.stopStep, Option.some.injEq] at hs
    subst hs
    exact ⟨hfin, hstarted.resolve_left (by simp [hl]), Or.inl ⟨ha, by simp, by simp⟩⟩
  | listener g =>
    obtain ⟨hpc, hl⟩ := hlast
    simp only [step, State.listenerStep, hpc, Option.some.injEq] at hs
    have hgen := hi.eq_generation (g := g) (by rw [hpc]; exact id)
    subst hs
    refine ⟨?_, ?_, Or.inl ⟨ha, ?_, ?_⟩⟩
    · unfold State.Notified
      rcases hl with hl | hl
      · simp [hl, State.setListener, hgen]
      · simp [hl, State.setListener, hgen]
    · exact hstarted.resolve_left (by rcases hl with hl | hl <;> simp [hl])
    · rcases hl with hl | hl <;> simp [State.setListener, hl]
    · rcases hl with hl | hl <;> simp [State.setListener, hl]
  | _ => exact hlast.elim

end

/-- In every run in which no `accept` call stands between its check of `stop_requested` and its wait at the later
    `notify_all` of a stop, no call is left parked when `stop` has returned. -/
theorem never_stranded {s : State} (as : List Action) (hrun : run step .initial as = some s)
    (hquiet : Meets step Quiet .initial as) : ∀ a, ¬s.Stranded a := by
  have hall := run_invariant_of_meets (I := fun s => Inv s ∧ Settles s)
    (fun s act t hq h hs => ⟨h.1.kept hs, h.2.kept h.1 hq hs⟩) hquiet hrun
    ⟨.initial, fun h => absurd h (Nat.lt_irrefl 0)⟩
  intro a h
  have hsettled : Settled s := hall.2 (by
    unfold State.Notified
    rw [h.stopped]
    exact h.started)
  have hparked := h.parked
  rw [hsettled.waiters] at hparked
  cases hparked

/-- A call reads `stop_requested` as false, and both notifications are sent before it parks. -/
def strandingRun : List Action :=
  [.start (some ⟨"127.0.0.1", 8080⟩), .lifecycle false, .lifecycle false, .lifecycle false, .lifecycle false,
    .lifecycle false, .lifecycle false, .lifecycle false, .call 0, .accept 0, .accept 0, .accept 0, .accept 0,
    .stop, .lifecycle false, .lifecycle false, .lifecycle false, .lifecycle true, .lifecycle false,
    .incoming 1 false, .listener 1, .listener 1, .listener 1, .accept 0, .lifecycle false, .lifecycle false,
    .lifecycle false, .lifecycle false]

/-- A stop can strand a waiting `accept`, without a spurious wake-up. -/
theorem strandingRun_stranded : ¬∀ as s, run step .initial as = some s → (∀ a, .wake a ∉ as) → ∀ a, ¬s.Stranded a := by
  intro h
  have hi := inv_of_reaches ⟨strandingRun, rfl⟩
  have hstranded : State.Stranded _ 0 := ⟨Nat.one_pos, rfl, rfl, List.mem_singleton_self 0, hi.silent Nat.one_pos⟩
  exact h strandingRun _ rfl (by simp [strandingRun]) 0 hstranded

/-- The call parks before the stop, and the `notify_all` of the stop wakes it. -/
def wakingRun : List Action :=
  [.start (some ⟨"127.0.0.1", 8080⟩), .lifecycle false, .lifecycle false, .lifecycle false, .lifecycle false,
    .lifecycle false, .lifecycle false, .lifecycle false, .call 0, .accept 0, .accept 0, .accept 0, .accept 0,
    .accept 0, .stop, .lifecycle false, .lifecycle false, .lifecycle false, .lifecycle true, .lifecycle false,
    .incoming 1 false, .listener 1, .listener 1, .listener 1, .accept 0, .accept 0, .accept 0, .lifecycle false,
    .lifecycle false, .lifecycle false, .lifecycle false]

theorem never_stranded_wakingRun :
    ∃ s, run step .initial wakingRun = some s ∧ s.lifecycle = .stopped ∧ s.acceptors 0 = .stopped ∧
      ∀ a, ¬s.Stranded a := by
  refine ⟨_, rfl, rfl, rfl, never_stranded wakingRun rfl ?_⟩
  have hfree : Meets step (fun s act => LastNotify s act → s.lock = none) .initial wakingRun := by decide
  refine hfree.imp (I := Holding) (fun s act t _ h hs => h.kept hs) (fun s act h hfree hlast a ha => ?_)
    (fun a h => h.elim)
  have hheld := h a (by rw [ha]; trivial)
  rw [hfree hlast] at hheld
  cases hheld

/-- The condition is exact: a stop at whose later `notify_all` a call does stand there leaves a call parked, unless
    there is a spurious wake-up. -/
theorem stranded_of_not_quiet {s t u : State} {act : Action} {as : List Action} (h : Reaches step .initial s)
    (hs : step s act = some t) (hquiet : ¬Quiet s act) (hrun : run step t as = some u)
    (hwake : ∀ a, .wake a ∉ as) (hgen : u.generation = t.generation) (hl : u.lifecycle = .stopped) :
    ∃ a, u.Stranded a := by
  obtain ⟨hi, hh, hstarted⟩ := h.invariant (I := fun s => Inv s ∧ Holding s ∧ Started s)
    (fun s act t h hs => ⟨h.1.kept hs, h.2.1.kept hs, h.2.2.kept hs⟩)
    ⟨.initial, fun a h => h.elim, Or.inl rfl⟩
  obtain ⟨a, ha⟩ := missed_of_not_quiet hi hstarted hs hquiet
  have hmeets : Meets step (fun _ act => ∀ c, act ≠ .wake c) t as := by
    refine .of_forall_mem (fun act hmem _ => ?_) t
    rintro c rfl
    exact hwake c hmem
  have hall := run_invariant_of_meets
    (I := fun u => Inv u ∧ Holding u ∧ (u.generation = t.generation ∧ Missed u a ∨ t.generation < u.generation))
    (fun u act v hne h hv => ⟨h.1.kept hv, h.2.1.kept hv, by
      rcases h.2.2 with ⟨heq, hm⟩ | hlt
      · rcases hm.kept h.1 h.2.1 hne hv with hm | hlt
        · rcases Nat.eq_or_lt_of_le (step_generation hv).1 with hg | hlt
          · exact Or.inl ⟨hg.symm.trans heq, hm⟩
          · exact Or.inr (heq ▸ hlt)
        · exact Or.inr (heq ▸ hlt)
      · exact Or.inr (Nat.lt_of_lt_of_le hlt (step_generation hv).1)⟩)
    hmeets hrun ⟨hi.kept hs, hh.kept hs, Or.inl ⟨rfl, ha⟩⟩
  obtain ⟨hi, -, h⟩ := hall
  rcases h with ⟨-, hm⟩ | hlt
  · exact ⟨a, hm.stranded hi hl⟩
  · omega

end Fabric.Tcp.Loopback
