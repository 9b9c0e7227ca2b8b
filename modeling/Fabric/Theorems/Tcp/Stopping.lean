import Fabric.Library.Amortized
import Fabric.Theorems.Tcp.Inspection

/-! The end of a stop. Once `stop` has set the flag, it and the listener thread have few statements left, and the only
    one that can wait without end is `incoming`, for a connection that may never come: `stop` makes one itself, and
    where that connection is refused, the listener may still be before `incoming` with nothing in its socket. -/

namespace Fabric.Tcp.Loopback
open Transition

/-! ### What stays to do -/

def StopStep.rank : StopStep → Nat
  | .stopRequested => 9
  | .generationLive => 8
  | .actualAddress => 7
  | .connect _ => 6
  | .notifyAll => 5
  | .takeHandle => 4
  | .join _ => 3
  | .clearQueue => 2
  | .clearAddress => 1

/-- The statements that a listener thread has left, with `stop_requested` set. -/
def ListenerPc.rank : ListenerPc → Nat
  | .unspawned | .finished => 0
  | .notifyAll => 1
  | .clearLive => 2
  | .checkStop _ | .checkAccepted _ | .checkFailed => 3
  | .incoming => 4
  | .notifyOne => 5
  | .push _ => 6
  | .count _ => 7

/-- The statements that an `accept` call has left, with `stop_requested` set. -/
def AcceptPc.rank : AcceptPc → Nat
  | .accepted _ | .stopped => 0
  | .checkStop => 1
  | .popFront => 2
  | .lock | .waiting => 3
  | .uncalled | .checkLive | .wait => 4

def Lifecycle.rank : Lifecycle → Nat
  | .stopping next => next.rank
  | _ => 0

def State.rank (s : State) : Nat := s.lifecycle.rank + (s.listeners s.generation).rank

/-- What the holder of the queue mutex has left. -/
def State.holderRank (s : State) : Nat := s.lock.elim 0 fun a => (s.acceptors a).rank

/-- A stop has set `stop_requested`, and no start has followed. -/
structure State.Closing (s : State) : Prop where
  stopRequested : s.stopRequested = true
  lifecycle : s.lifecycle = .stopped ∨ ∃ next, s.lifecycle = .stopping next

/-- `stop` is past its own connection and has yet to join the thread. -/
def StopStep.Waits : StopStep → Prop
  | .notifyAll | .takeHandle | .join _ => True
  | _ => False

/-- The thread asks its socket for a connection before it reads `stop_requested` again. -/
def ListenerPc.Asks : ListenerPc → Prop
  | .incoming | .count _ | .push _ | .notifyOne => True
  | _ => False

/-- The listener thread will ask a socket that holds nothing for it. -/
structure State.Starved (s : State) : Prop where
  asks : (s.listeners s.generation).Asks
  backlog : s.backlog s.generation = []

/-- `stop` waits for a thread that waits for a connection, or they come to that. -/
structure State.Doomed (s : State) : Prop where
  waits : ∃ next, s.lifecycle = .stopping next ∧ next.Waits
  starved : s.Starved

/-- The connection of `stop` is refused, and it was needed. -/
def Refused (s : State) (act : Action) : Prop :=
  act = .lifecycle false ∧ (∃ address, s.lifecycle = .stopping (.connect address)) ∧ s.Starved

/-- A peer connects, or `incoming` fails. -/
def Action.fromOutside : Action → Bool
  | .peer _ => true
  | .incoming _ failed => failed
  | _ => false

/-- A step of `start` and `stop` or of a listener thread. -/
def Action.ofThread : Action → Bool
  | .lifecycle _ | .incoming _ _ | .listener _ | .notifyOne _ _ => true
  | _ => false

section
variable {s t : State}

/-! ### The mutex -/

/-- The call that holds the mutex is between its `lock` and its wait or return. -/
def Held (s : State) : Prop := ∀ a, s.lock = some a → (s.acceptors a).Locked

theorem Held.of_eq (h : Held s) (hacc : t.acceptors = s.acceptors) (hlock : t.lock = s.lock) : Held t := by
  intro a ha
  rw [hacc]
  exact h a (hlock ▸ ha)

/-- A call moves without the mutex, with it, or away from it. -/
theorem Held.set (h : Held s) {a : Nat} {pc : AcceptPc} (hacc : t.acceptors = Function.update s.acceptors a pc)
    (hlock : t.lock = none ∨ (t.lock = some a ∧ pc.Locked) ∨
      (t.lock = s.lock ∧ ((s.acceptors a).Locked → pc.Locked))) : Held t := by
  intro c hc
  rw [hacc]
  by_cases hca : c = a
  · subst hca
    rw [Function.update_self]
    rcases hlock with hnone | ⟨-, hpc⟩ | ⟨heq, hpc⟩
    · rw [hnone] at hc
      cases hc
    · exact hpc
    · exact hpc (h c (heq ▸ hc))
  · rw [Function.update_of_ne hca]
    rcases hlock with hnone | ⟨hsome, -⟩ | ⟨heq, -⟩
    · rw [hnone] at hc
      cases hc
    · rw [hsome] at hc
      exact absurd (Option.some.inj hc).symm hca
    · exact h c (heq ▸ hc)

theorem Held.acceptStep (h : Held s) {a : Nat} (hs : s.acceptStep a = some t) : Held t := by
  unfold State.acceptStep at hs
  cases hpc : s.acceptors a with
  | uncalled | accepted stream | stopped => simp [hpc] at hs
  | checkLive =>
    simp only [hpc, Option.some.injEq] at hs
    subst hs
    exact h.set rfl (Or.inr (Or.inr ⟨rfl, fun hl => by rw [hpc] at hl; exact hl.elim⟩))
  | lock | waiting =>
    simp only [hpc] at hs
    split at hs
    · obtain rfl := Option.some.inj hs
      exact h.set rfl (Or.inr (Or.inl ⟨rfl, trivial⟩))
    · cases hs
  | popFront =>
    simp only [hpc] at hs
    split at hs
    · obtain rfl := Option.some.inj hs
      exact h.set rfl (Or.inl rfl)
    · obtain rfl := Option.some.inj hs
      exact h.set rfl (Or.inr (Or.inr ⟨rfl, fun _ => trivial⟩))
  | checkStop =>
    simp only [hpc] at hs
    split at hs
    · obtain rfl := Option.some.inj hs
      exact h.set rfl (Or.inl rfl)
    · obtain rfl := Option.some.inj hs
      exact h.set rfl (Or.inr (Or.inr ⟨rfl, fun _ => trivial⟩))
  | wait =>
    simp only [hpc, Option.some.injEq] at hs
    subst hs
    exact h.set rfl (Or.inl rfl)

theorem Held.kept (h : Held s) {act : Action} (hs : step s act = some t) : Held t := by
  cases act with
  | accept a => exact h.acceptStep hs
  | call a =>
    simp only [step, State.call] at hs
    split at hs
    · rename_i hpc
      obtain rfl := Option.some.inj hs
      exact h.set rfl (Or.inr (Or.inr ⟨rfl, fun hl => by rw [hpc] at hl; exact hl.elim⟩))
    · cases hs
  | _ =>
    have hsame := step_sameAccepts hs rfl
    exact h.of_eq hsame.acceptors hsame.lock

/-- The holder of the mutex can always go on. -/
theorem Held.enabled (h : Held s) {a : Nat} (hlock : s.lock = some a) : ∃ t, s.acceptStep a = some t := by
  have hl := h a hlock
  unfold State.acceptStep
  cases hpc : s.acceptors a with
  | popFront | checkStop =>
    dsimp only
    split <;> exact ⟨_, rfl⟩
  | wait =>
    dsimp only
    exact ⟨_, rfl⟩
  | uncalled | checkLive | lock | waiting | accepted stream | stopped =>
    rw [hpc] at hl
    exact hl.elim

/-! ### Each step brings the end nearer -/

theorem State.Closing.kept (hc : s.Closing) {act : Action} (hs : step s act = some t)
    (hopens : act.bound? = none) : t.Closing := by
  by_cases ha : act.ofLifecycle = false
  · have hsame := step_samePhase hs ha
    exact ⟨hsame.stopRequested.trans hc.stopRequested, by rw [hsame.lifecycle]; exact hc.lifecycle⟩
  · have hlife := hc.lifecycle
    cases act with
    | start bound =>
      obtain rfl : bound = none := hopens
      simp only [step, State.start] at hs
      split at hs
      · exact Option.some.inj hs ▸ hc
      · rename_i heq
        cases heq
      · cases hs
    | stop =>
      simp only [step, State.stop] at hs
      split at hs
      · rename_i hl
        rcases hlife with hl' | ⟨next, hl'⟩ <;> rw [hl] at hl' <;> cases hl'
      · cases hs
    | lifecycle connected =>
      simp only [step, State.lifecycleStep] at hs
      split at hs
      · cases hs
      · cases hs
      · rename_i hl
        rcases hlife with hl' | ⟨next, hl'⟩ <;> rw [hl] at hl' <;> cases hl'
      · unfold State.stopStep at hs
        repeat' split at hs
        all_goals first
          | exact Option.some.inj hs ▸ ⟨hc.stopRequested, Or.inr ⟨_, rfl⟩⟩
          | exact Option.some.inj hs ▸ ⟨rfl, Or.inr ⟨_, rfl⟩⟩
          | exact Option.some.inj hs ▸ ⟨hc.stopRequested, Or.inl rfl⟩
          | cases hs
    | _ => exact absurd rfl ha

theorem listenerStep_rank {g : Nat} (hstop : s.stopRequested = true) (hs : s.listenerStep g = some t) :
    (t.listeners g).rank < (s.listeners g).rank := by
  unfold State.listenerStep at hs
  cases hpc : s.listeners g with
  | unspawned | incoming | notifyOne | finished => simp [hpc] at hs
  | checkStop accepted | checkAccepted stream | checkFailed =>
    simp only [hpc, hstop, if_true, Option.some.injEq] at hs
    subst hs
    simp [ListenerPc.rank]
  | count stream | clearLive | notifyAll =>
    simp only [hpc, Option.some.injEq] at hs
    subst hs
    simp [ListenerPc.rank]
  | push stream =>
    simp only [hpc] at hs
    split at hs
    · obtain rfl := Option.some.inj hs
      simp [ListenerPc.rank]
    · cases hs

theorem incoming_rank {g : Nat} {failed : Bool} (hs : s.incoming g failed = some t) :
    (t.listeners g).rank < (s.listeners g).rank := by
  unfold State.incoming at hs
  split at hs
  · rename_i hpc
    rw [hpc]
    repeat' split at hs
    all_goals first
      | obtain rfl := Option.some.inj hs
        simp [ListenerPc.rank]
      | cases hs
  · cases hs

theorem notifyOne_rank {g : Nat} {waiter : Option Nat} (hs : s.notifyOne g waiter = some t) :
    (t.listeners g).rank < (s.listeners g).rank := by
  unfold State.notifyOne at hs
  repeat' split at hs
  all_goals first
    | rename_i hpc _
      obtain rfl := Option.some.inj hs
      simp [hpc, ListenerPc.rank]
    | cases hs

/-- The statements of `stop` come one after the other. -/
theorem stopStep_rank {next : StopStep} {connected : Bool} (hs : s.stopStep connected next = some t) :
    t.lifecycle.rank < next.rank ∧ t.listeners = s.listeners ∧ t.generation = s.generation := by
  unfold State.stopStep at hs
  repeat' split at hs
  all_goals first
    | obtain rfl := Option.some.inj hs
      exact ⟨by simp [Lifecycle.rank, StopStep.rank], rfl, rfl⟩
    | cases hs

theorem acceptStep_rank {a : Nat} (hstop : s.stopRequested = true) (hs : s.acceptStep a = some t) :
    (t.acceptors a).rank < (s.acceptors a).rank := by
  unfold State.acceptStep at hs
  cases hpc : s.acceptors a with
  | uncalled | accepted stream | stopped => simp [hpc] at hs
  | checkLive =>
    simp only [hpc, Option.some.injEq] at hs
    subst hs
    simp only [State.setAcceptor, Function.update_self]
    split <;> decide
  | lock | popFront | waiting =>
    simp only [hpc] at hs
    split at hs
    all_goals first
      | obtain rfl := Option.some.inj hs
        simp [State.setAcceptor, AcceptPc.rank]
      | cases hs
  | checkStop =>
    simp only [hpc, hstop, if_true, Option.some.injEq] at hs
    subst hs
    simp [State.setAcceptor, AcceptPc.rank]
  | wait =>
    simp only [hpc, Option.some.injEq] at hs
    subst hs
    simp [State.setAcceptor, AcceptPc.rank]

/-- The steps of the two threads of a generation count down, and no other step counts up. -/
theorem step_rank (hi : Inv s) (hc : s.Closing) {act : Action} (hs : step s act = some t)
    (hopens : act.bound? = none) : (if act.ofThread then 1 else 0) + t.rank ≤ s.rank := by
  have listener : SamePhase s t → ∀ g, ¬(s.listeners g).Idle → (t.listeners g).rank < (s.listeners g).rank →
      1 + t.rank ≤ s.rank := by
    intro hsame g hactive hlt
    obtain rfl := hi.eq_generation hactive
    unfold State.rank
    rw [hsame.lifecycle, hsame.generation]
    omega
  have still : SamePhase s t → t.listeners = s.listeners → 0 + t.rank ≤ s.rank := by
    intro hsame hlis
    unfold State.rank
    rw [hsame.lifecycle, hsame.generation, hlis, Nat.zero_add]
  cases act with
  | incoming g failed => exact listener (step_samePhase hs rfl) g (active_of_incoming hs) (incoming_rank hs)
  | notifyOne g waiter => exact listener (step_samePhase hs rfl) g (active_of_notifyOne hs) (notifyOne_rank hs)
  | listener g =>
    exact listener (step_samePhase hs rfl) g (active_of_listenerStep hs) (listenerStep_rank hc.stopRequested hs)
  | accept a => exact still (step_samePhase hs rfl) (acceptStep_listeners hs)
  | peer g =>
    simp only [step, State.peer] at hs
    split at hs
    · exact Option.some.inj hs ▸ Nat.le_of_eq (Nat.zero_add _)
    · cases hs
  | call a =>
    simp only [step, State.call] at hs
    split at hs
    · exact Option.some.inj hs ▸ Nat.le_of_eq (Nat.zero_add _)
    · cases hs
  | wake a =>
    obtain ⟨-, rfl⟩ := wake_eq_some hs
    exact Nat.le_of_eq (Nat.zero_add _)
  | start bound =>
    obtain rfl : bound = none := hopens
    simp only [step, State.start] at hs
    split at hs
    · exact Option.some.inj hs ▸ Nat.le_of_eq (Nat.zero_add _)
    · rename_i heq
      cases heq
    · cases hs
  | stop =>
    simp only [step, State.stop] at hs
    split at hs
    · rename_i hl
      rcases hc.lifecycle with hl' | ⟨next, hl'⟩ <;> rw [hl] at hl' <;> cases hl'
    · cases hs
  | lifecycle connected =>
    rcases hc.lifecycle with hl | ⟨next, hl⟩
    · simp [step, State.lifecycleStep, hl] at hs
    · simp only [step, State.lifecycleStep, hl] at hs
      obtain ⟨hlt, hlis, hg⟩ := stopStep_rank hs
      unfold State.rank
      rw [hlis, hg, hl]
      show 1 + _ ≤ next.rank + _
      omega

/-- The steps of an `accept` call count it down, and no other step of its caller or of another counts it up. -/
theorem step_acceptRank (hc : s.Closing) {act : Action} (hs : step s act = some t) (a : Nat) :
    (if act == .accept a then 1 else 0) + (t.acceptors a).rank ≤ (s.acceptors a).rank := by
  cases act with
  | accept c =>
    by_cases hca : a = c
    · subst hca
      have hlt := acceptStep_rank hc.stopRequested hs
      rw [if_pos (by simp)]
      omega
    · have hne : (Action.accept c == .accept a) = false := by simpa using fun h => hca h.symm
      rw [hne, (acceptStep_frame hs).others a hca]
      simp
  | call c =>
    simp only [step, State.call] at hs
    split at hs
    · rename_i hpc
      obtain rfl := Option.some.inj hs
      by_cases hca : a = c
      · subst hca
        simp [State.setAcceptor, hpc, AcceptPc.rank]
      · simp [State.setAcceptor, Function.update_of_ne hca]
    · cases hs
  | _ =>
    rw [(step_sameAccepts hs rfl).acceptors]
    simp

theorem AcceptPc.rank_le (pc : AcceptPc) : pc.rank ≤ 4 := by cases pc <;> simp [rank]

theorem ListenerPc.rank_le (pc : ListenerPc) : pc.rank ≤ 7 := by cases pc <;> simp [rank]

theorem State.Closing.rank_le (hc : s.Closing) (hi : Inv s) : s.rank ≤ 15 := by
  have hph := hi.phase
  have hlis := (s.listeners s.generation).rank_le
  unfold State.rank
  rcases hc.lifecycle with hl | ⟨next, hl⟩
  · rw [hl]
    show 0 + _ ≤ 15
    omega
  · rw [hl] at hph ⊢
    cases next with
    | stopRequested =>
      have hstop := hc.stopRequested
      rw [hph.2.2.1] at hstop
      cases hstop
    | _ =>
      simp only [Lifecycle.rank, StopStep.rank]
      omega

/-- Along a run without a start that binds, each weighed step counts its rank down. -/
theorem State.Closing.countP_le (hc : s.Closing) (hi : Inv s) {as : List Action} (hbounds : bounds as = [])
    (hrun : run step s as = some t) {p : Action → Bool} {rank : State → Nat}
    (hstep : ∀ {s t act}, Inv s → s.Closing → step s act = some t → act.bound? = none →
      (if p act then 1 else 0) + rank t ≤ rank s) : as.countP p ≤ rank s := by
  have hmem : ∀ act ∈ as, act.bound? = none := List.filterMap_eq_nil_iff.mp hbounds
  have hcost := cost_add_le (C := fun _ act => act.bound? = none) (I := fun s => Inv s ∧ s.Closing)
    (w := fun _ act => if p act then 1 else 0) (v := fun _ _ => 0) (Φ := rank)
    (fun s act t h hs ht => ⟨hs.1.kept ht, hs.2.kept ht h⟩)
    (fun s act t h hs ht => by
      have := hstep hs.1 hs.2 ht h
      omega)
    (Meets.of_forall_mem (fun act hact _ => hmem act hact) s) hrun ⟨hi, hc⟩
  rw [cost_countP p hrun, cost_zero] at hcost
  omega

end

section
variable {s t : State}

/-! ### A doomed stop -/

theorem Published.exists_address {addresses : List TcpSocketAddress} (h : Published addresses s)
    {seen : Option TcpSocketAddress} (hl : s.lifecycle = .stopping (.connect seen)) :
    ∃ address, seen = some address := by
  have hne := h.started (by simp [hl])
  rw [h.stopping seen hl]
  exact ⟨_, List.getLast?_eq_some_getLast hne⟩

theorem acceptStep_backlog {a : Nat} (hs : s.acceptStep a = some t) : t.backlog = s.backlog := by
  unfold State.acceptStep at hs
  repeat' split at hs
  all_goals first
    | exact Option.some.inj hs ▸ rfl
    | cases hs

theorem listenerStep_backlog {g : Nat} (hs : s.listenerStep g = some t) : t.backlog = s.backlog := by
  unfold State.listenerStep at hs
  repeat' split at hs
  all_goals first
    | exact Option.some.inj hs ▸ rfl
    | cases hs

theorem State.Starved.of_eq (h : s.Starved) (hg : t.generation = s.generation) (hlis : t.listeners = s.listeners)
    (hb : t.backlog = s.backlog) : t.Starved :=
  ⟨by rw [hg, hlis]; exact h.asks, by rw [hg, hb]; exact h.backlog⟩

/-- With `stop_requested` set, a thread that asks its socket for a connection has not turned to that now. -/
theorem listenerStep_asks {g : Nat} (hstop : s.stopRequested = true) (hs : s.listenerStep g = some t)
    (h : (t.listeners g).Asks) : (s.listeners g).Asks := by
  unfold State.listenerStep at hs
  cases hpc : s.listeners g with
  | count stream | push stream => trivial
  | unspawned | incoming | notifyOne | finished => simp [hpc] at hs
  | checkStop accepted | checkAccepted stream | checkFailed =>
    simp only [hpc, hstop, if_true, Option.some.injEq] at hs
    subst hs
    simp [ListenerPc.Asks] at h
  | clearLive | notifyAll =>
    simp only [hpc, Option.some.injEq] at hs
    subst hs
    simp [ListenerPc.Asks] at h

theorem stopStep_doomed {addresses : List TcpSocketAddress} (hpub : Published addresses s) {next : StopStep}
    {connected : Bool} (hl : s.lifecycle = .stopping next) (hs : s.stopStep connected next = some t) (hd : t.Doomed) :
    s.Doomed ∨ Refused s (.lifecycle connected) := by
  obtain ⟨⟨next', hl', hwaits⟩, hstarved⟩ := hd
  cases next with
  | connect seen =>
    obtain ⟨address, rfl⟩ := hpub.exists_address hl
    simp only [State.stopStep] at hs
    cases connected with
    | false =>
      obtain rfl := Option.some.inj hs
      exact Or.inr ⟨rfl, ⟨_, hl⟩, hstarved.of_eq rfl rfl rfl⟩
    | true =>
      simp only [if_true] at hs
      split at hs
      · obtain rfl := Option.some.inj hs
        have hempty := hstarved.backlog
        simp [State.arrive] at hempty
      · cases hs
  | notifyAll =>
    obtain rfl := Option.some.inj hs
    exact Or.inl ⟨⟨_, hl, trivial⟩, hstarved.of_eq rfl rfl rfl⟩
  | takeHandle =>
    simp only [State.stopStep] at hs
    split at hs <;>
    · obtain rfl := Option.some.inj hs
      exact Or.inl ⟨⟨_, hl, trivial⟩, hstarved.of_eq rfl rfl rfl⟩
  | stopRequested | generationLive | actualAddress =>
    obtain rfl := Option.some.inj hs
    cases hl'
    exact hwaits.elim
  | clearAddress =>
    obtain rfl := Option.some.inj hs
    cases hl'
  | join | clearQueue =>
    simp only [State.stopStep] at hs
    split at hs
    · obtain rfl := Option.some.inj hs
      cases hl'
      exact hwaits.elim
    · cases hs

/-- Only the refusal of a connection that was needed dooms a stop. -/
theorem doomed_of_step (hi : Inv s) {addresses : List TcpSocketAddress} (hpub : Published addresses s) {act : Action}
    (hs : step s act = some t) (hd : t.Doomed) : s.Doomed ∨ Refused s act := by
  -- Outside the lifecycle the statement of `stop` stays, and with it the flag.
  have stays : SamePhase s t → s.Starved → s.Doomed := by
    intro hsame hstarved
    obtain ⟨next, hl, hwaits⟩ := hd.waits
    exact ⟨⟨next, hsame.lifecycle ▸ hl, hwaits⟩, hstarved⟩
  have hstarved := hd.starved
  cases act with
  | start bound =>
    simp only [step, State.start] at hs
    split at hs
    · exact Or.inl (Option.some.inj hs ▸ hd)
    · obtain rfl := Option.some.inj hs
      obtain ⟨next, hl, -⟩ := hd.waits
      cases hl
    · cases hs
  | stop =>
    simp only [step, State.stop] at hs
    split at hs
    · obtain rfl := Option.some.inj hs
      obtain ⟨next, hl, hwaits⟩ := hd.waits
      cases hl
      exact hwaits.elim
    · cases hs
  | lifecycle connected =>
    simp only [step, State.lifecycleStep] at hs
    split at hs
    · cases hs
    · cases hs
    · obtain ⟨next, hl, -⟩ := hd.waits
      unfold State.startStep at hs
      repeat' split at hs
      all_goals first
        | obtain rfl := Option.some.inj hs
          cases hl
        | cases hs
    · rename_i hl
      exact stopStep_doomed hpub hl hs hd
  | peer g =>
    have hsame := step_samePhase hs rfl
    simp only [step, State.peer] at hs
    split at hs
    · obtain rfl := Option.some.inj hs
      refine Or.inl (stays hsame ⟨hstarved.asks, ?_⟩)
      have hempty := hstarved.backlog
      by_cases hg : g = s.generation
      · subst hg
        simp [State.arrive] at hempty
      · simpa [State.arrive, Function.update_of_ne (Ne.symm hg)] using hempty
    · cases hs
  | incoming g failed =>
    obtain rfl := hi.eq_generation (active_of_incoming hs)
    have hasks := hstarved.asks
    rw [(step_samePhase hs rfl).generation] at hasks
    simp only [step, State.incoming] at hs
    repeat' split at hs
    all_goals first
      | obtain rfl := Option.some.inj hs
        simp [ListenerPc.Asks] at hasks
      | cases hs
  | listener g =>
    obtain rfl := hi.eq_generation (active_of_listenerStep hs)
    have hsame := step_samePhase hs rfl
    have hasks := hstarved.asks
    have hempty := hstarved.backlog
    rw [hsame.generation] at hasks hempty
    have hstop : s.stopRequested = true := by
      obtain ⟨next, hl, hwaits⟩ := hd.waits
      have hph := hi.phase
      rw [← hsame.lifecycle, hl] at hph
      cases next <;> first | exact hph.2.2.1 | exact hwaits.elim
    refine Or.inl (stays hsame ⟨listenerStep_asks hstop hs hasks, ?_⟩)
    rwa [listenerStep_backlog hs] at hempty
  | notifyOne g waiter =>
    obtain rfl := hi.eq_generation (active_of_notifyOne hs)
    have hsame := step_samePhase hs rfl
    simp only [step, State.notifyOne] at hs
    repeat' split at hs
    all_goals first
      | rename_i hpc _
        obtain rfl := Option.some.inj hs
        exact Or.inl (stays hsame ⟨by rw [hpc]; trivial, hstarved.backlog⟩)
      | cases hs
  | call a =>
    have hsame := step_samePhase hs rfl
    simp only [step, State.call] at hs
    split at hs
    · obtain rfl := Option.some.inj hs
      exact Or.inl (stays hsame (hstarved.of_eq rfl rfl rfl))
    · cases hs
  | accept a =>
    have hsame := step_samePhase hs rfl
    exact Or.inl (stays hsame (hstarved.of_eq hsame.generation.symm (acceptStep_listeners hs).symm
      (acceptStep_backlog hs).symm))
  | wake a =>
    have hsame := step_samePhase hs rfl
    obtain ⟨-, rfl⟩ := wake_eq_some hs
    exact Or.inl (stays hsame (hstarved.of_eq rfl rfl rfl))

/-- A doomed stop stays doomed until a peer connects or `incoming` fails. -/
theorem State.Doomed.kept (hd : s.Doomed) (hi : Inv s) {act : Action} (hs : step s act = some t)
    (hinside : act.fromOutside = false) : t.Doomed := by
  obtain ⟨⟨next, hl, hwaits⟩, hstarved⟩ := hd
  have hasks := hstarved.asks
  have stays : SamePhase s t → t.Starved → t.Doomed := fun hsame h => ⟨⟨next, hsame.lifecycle.trans hl, hwaits⟩, h⟩
  cases act with
  | start bound => simp [step, State.start, hl] at hs
  | stop => simp [step, State.stop, hl] at hs
  | lifecycle connected =>
    have hph := hi.phase
    rw [hl] at hph
    simp only [step, State.lifecycleStep, hl] at hs
    cases next with
    | notifyAll =>
      obtain rfl := Option.some.inj hs
      exact ⟨⟨_, rfl, trivial⟩, hstarved.of_eq rfl rfl rfl⟩
    | takeHandle =>
      simp only [State.stopStep, hph.2.2.2, Option.some.injEq] at hs
      subst hs
      exact ⟨⟨_, rfl, trivial⟩, hstarved.of_eq rfl rfl rfl⟩
    | join g =>
      obtain rfl := hph.2.2.2
      simp only [State.stopStep] at hs
      split at hs
      · rename_i hfinished
        rw [hfinished] at hasks
        exact hasks.elim
      · cases hs
    | stopRequested | generationLive | actualAddress | connect | clearQueue | clearAddress => exact hwaits.elim
  | peer g => cases hinside
  | incoming g failed =>
    obtain rfl : failed = false := hinside
    obtain rfl := hi.eq_generation (active_of_incoming hs)
    simp only [step, State.incoming, hstarved.backlog] at hs
    split at hs
    · cases hs
    · cases hs
  | listener g =>
    obtain rfl := hi.eq_generation (active_of_listenerStep hs)
    have hsame := step_samePhase hs rfl
    refine stays hsame ⟨?_, by rw [hsame.generation, listenerStep_backlog hs]; exact hstarved.backlog⟩
    rw [hsame.generation]
    simp only [step, State.listenerStep] at hs
    cases hpc : s.listeners s.generation with
    | count stream =>
      simp only [hpc, Option.some.injEq] at hs
      subst hs
      simp [ListenerPc.Asks]
    | push stream =>
      simp only [hpc] at hs
      split at hs
      · obtain rfl := Option.some.inj hs
        simp [ListenerPc.Asks]
      · cases hs
    | incoming | notifyOne => simp [hpc] at hs
    | unspawned | checkStop | checkAccepted | checkFailed | clearLive | notifyAll | finished =>
      rw [hpc] at hasks
      exact hasks.elim
  | notifyOne g waiter =>
    obtain rfl := hi.eq_generation (active_of_notifyOne hs)
    have hsame := step_samePhase hs rfl
    simp only [step, State.notifyOne] at hs
    repeat' split at hs
    all_goals first
      | obtain rfl := Option.some.inj hs
        exact stays hsame ⟨by simp [ListenerPc.Asks], hstarved.backlog⟩
      | cases hs
  | call a =>
    have hsame := step_samePhase hs rfl
    simp only [step, State.call] at hs
    split at hs
    · obtain rfl := Option.some.inj hs
      exact stays hsame (hstarved.of_eq rfl rfl rfl)
    · cases hs
  | accept a =>
    have hsame := step_samePhase hs rfl
    exact stays hsame (hstarved.of_eq hsame.generation (acceptStep_listeners hs) (acceptStep_backlog hs))
  | wake a =>
    have hsame := step_samePhase hs rfl
    obtain ⟨-, rfl⟩ := wake_eq_some hs
    exact stays hsame (hstarved.of_eq rfl rfl rfl)

/-! ### Progress -/

/-- A step of `stop`, whose connection stands where the socket is open, of its listener thread or of the holder of the
    queue mutex. -/
inductive Works (s : State) : Action → Prop
  | stop {connected : Bool} (hconnected : connected = s.socketOpen s.generation) : Works s (.lifecycle connected)
  | incoming : Works s (.incoming s.generation false)
  | listener : Works s (.listener s.generation)
  | notifyOne (waiter : Option Nat) : Works s (.notifyOne s.generation waiter)
  | accept {a : Nat} (hlock : s.lock = some a) : Works s (.accept a)

theorem Works.inside {act : Action} (h : Works s act) : act.fromOutside = false := by cases h <;> rfl

theorem Works.closed {act : Action} (h : Works s act) : act.bound? = none := by cases h <;> rfl

/-- A section under the queue mutex can run, or its holder can go on. -/
theorem Held.exists_work (hheld : Held s) {act : Action} (hw : Works s act)
    (hfree : s.lock = none → ∃ t, step s act = some t) : ∃ act t, Works s act ∧ step s act = some t := by
  cases hlock : s.lock with
  | none =>
    obtain ⟨t, ht⟩ := hfree hlock
    exact ⟨act, t, hw, ht⟩
  | some a =>
    obtain ⟨t, ht⟩ := hheld.enabled hlock
    exact ⟨.accept a, t, .accept hlock, ht⟩

theorem Held.exists_listener (hheld : Held s) (hspawned : s.listeners s.generation ≠ .unspawned)
    (hfinished : s.listeners s.generation ≠ .finished) (hstarved : ¬s.Starved) :
    ∃ act t, Works s act ∧ step s act = some t := by
  cases hpc : s.listeners s.generation with
  | unspawned => exact absurd hpc hspawned
  | finished => exact absurd hpc hfinished
  | incoming =>
    cases hb : s.backlog s.generation with
    | nil => exact absurd ⟨by rw [hpc]; trivial, hb⟩ hstarved
    | cons stream rest => exact ⟨_, _, .incoming, by simp only [step, State.incoming, hpc, hb]; rfl⟩
  | checkStop | checkAccepted | checkFailed | count | clearLive | notifyAll =>
    have hsome : (s.listenerStep s.generation).isSome := by
      simp only [State.listenerStep, hpc]
      repeat' split
      all_goals rfl
    obtain ⟨t, ht⟩ := Option.isSome_iff_exists.mp hsome
    exact ⟨_, t, .listener, ht⟩
  | push stream =>
    refine hheld.exists_work .listener fun hlock => ?_
    simp only [step, State.listenerStep, hpc, hlock, if_true]
    exact ⟨_, rfl⟩
  | notifyOne =>
    cases hw : s.waiters with
    | nil => exact ⟨_, _, .notifyOne none, by simp only [step, State.notifyOne, hpc, hw, if_true]; rfl⟩
    | cons a rest =>
      have hmem : a ∈ s.waiters := hw ▸ List.mem_cons_self
      exact ⟨_, _, .notifyOne (some a), by simp only [step, State.notifyOne, hpc, if_pos hmem]; rfl⟩

/-- What progress rests on. -/
structure Sound (s : State) : Prop where
  inv : Inv s
  held : Held s
  published : ∃ addresses, Published addresses s

theorem Sound.initial : Sound .initial := ⟨.initial, nofun, [], .initial⟩

theorem Sound.kept (h : Sound s) {act : Action} (hs : step s act = some t) : Sound t := by
  obtain ⟨addresses, hpub⟩ := h.published
  exact ⟨h.inv.kept hs, h.held.kept hs, _, hpub.kept hs⟩

/-- The socket stays open until its thread ends. -/
theorem Sound.open_of_asks (h : Sound s) (hl : s.lifecycle ≠ .stopped) (hasks : (s.listeners s.generation).Asks) :
    s.socketOpen s.generation = true := by
  obtain ⟨addresses, hpub⟩ := h.published
  have hpos : 0 < s.generation := hpub.generation ▸ List.length_pos_of_ne_nil (hpub.started hl)
  have hne : s.listeners s.generation ≠ .finished := fun hpc => by
    rw [hpc] at hasks
    exact hasks
  simp [State.socketOpen, hpos, hne]

/-- A stop that is not doomed does not have to wait for anyone outside. -/
theorem Sound.exists_work (h : Sound s) {next : StopStep} (hl : s.lifecycle = .stopping next) (hd : ¬s.Doomed) :
    ∃ act t, Works s act ∧ step s act = some t := by
  have hph := h.inv.phase
  rw [hl] at hph
  have stop : (s.stopStep (s.socketOpen s.generation) next).isSome → ∃ act t, Works s act ∧ step s act = some t := by
    intro hsome
    obtain ⟨t, ht⟩ := Option.isSome_iff_exists.mp hsome
    exact ⟨_, t, .stop rfl, by simp only [step, State.lifecycleStep, hl]; exact ht⟩
  cases next with
  | stopRequested | generationLive | actualAddress | notifyAll | clearAddress => exact stop rfl
  | connect seen =>
    cases seen with
    | none => exact stop rfl
    | some address =>
      cases hopen : s.socketOpen s.generation with
      | false => exact stop (by simp [State.stopStep, hopen])
      | true => exact stop (by simp [State.stopStep, hopen])
  | takeHandle => exact stop (by simp [State.stopStep, hph.2.2.2])
  | join g =>
    obtain ⟨-, hspawned, -, rfl⟩ := hph
    by_cases hfinished : s.listeners s.generation = .finished
    · exact stop (by simp [State.stopStep, hfinished])
    · exact h.held.exists_listener hspawned hfinished fun hstarved => hd ⟨⟨_, hl, trivial⟩, hstarved⟩
  | clearQueue =>
    refine h.held.exists_work (.stop rfl) fun hlock => ?_
    simp only [step, State.lifecycleStep, hl, State.stopStep, hlock, if_true]
    exact ⟨_, rfl⟩

theorem Sound.not_refused (h : Sound s) {act : Action} (hw : Works s act) : ¬Refused s act := by
  rintro ⟨rfl, ⟨address, hl⟩, hstarved⟩
  have hopen := h.open_of_asks (by simp [hl]) hstarved.asks
  cases hw with
  | stop hconnected => rw [← hconnected] at hopen; cases hopen

/-- A call that holds the mutex keeps it or frees it. -/
theorem acceptStep_lock {a : Nat} (hlock : s.lock = some a) (hs : s.acceptStep a = some t) :
    t.lock = none ∨ t.lock = some a := by
  unfold State.acceptStep at hs
  repeat' split at hs
  all_goals first
    | exact Or.inr (Option.some.inj hs ▸ hlock)
    | exact Or.inr (Option.some.inj hs ▸ rfl)
    | exact Or.inl (Option.some.inj hs ▸ rfl)
    | cases hs

/-- The steps of those threads bring the end of the stop nearer. -/
theorem Works.rank_lt {act : Action} (hw : Works s act) (hi : Inv s) (hc : s.Closing)
    (hs : step s act = some t) : t.rank + t.holderRank < s.rank + s.holderRank := by
  have hle := step_rank hi hc hs hw.closed
  have thread : act.ofThread = true → act.ofAccept = false → t.rank + t.holderRank < s.rank + s.holderRank := by
    intro hthread haccept
    have hsame := step_sameAccepts hs haccept
    have hholder : t.holderRank = s.holderRank := by
      unfold State.holderRank
      rw [hsame.lock, hsame.acceptors]
    rw [if_pos hthread] at hle
    omega
  cases hw with
  | stop hconnected => exact thread rfl rfl
  | incoming => exact thread rfl rfl
  | listener => exact thread rfl rfl
  | notifyOne waiter => exact thread rfl rfl
  | @accept a hlock =>
    have hlt := acceptStep_rank hc.stopRequested hs
    have hholder : t.holderRank < s.holderRank := by
      unfold State.holderRank
      rw [hlock]
      show _ < (s.acceptors a).rank
      rcases acceptStep_lock hlock hs with hfree | hkept
      · rw [hfree]
        exact Nat.zero_lt_of_lt hlt
      · rw [hkept]
        exact hlt
    rw [if_neg (by simp [Action.ofThread])] at hle
    omega

/-- A stop that has set the flag, in a state that the code can reach and that is not doomed. -/
structure Returning (s : State) : Prop extends Sound s where
  closing : s.Closing
  spared : ¬s.Doomed

theorem Returning.exists_step (h : Returning s) (hl : s.lifecycle ≠ .stopped) : ∃ act t, act.fromOutside = false ∧
    step s act = some t ∧ Returning t ∧ t.rank + t.holderRank < s.rank + s.holderRank := by
  obtain ⟨next, hnext⟩ := h.closing.lifecycle.resolve_left hl
  obtain ⟨act, t, hw, ht⟩ := h.exists_work hnext h.spared
  obtain ⟨addresses, hpub⟩ := h.published
  refine ⟨act, t, hw.inside, ht, ⟨h.kept ht, h.closing.kept ht hw.closed, fun hd => ?_⟩, hw.rank_lt h.inv h.closing ht⟩
  rcases doomed_of_step h.inv hpub ht hd with hd | hrefused
  · exact h.spared hd
  · exact h.not_refused hw hrefused

theorem State.Closing.of_stopping (hi : Inv s) {next : StopStep} (hl : s.lifecycle = .stopping next)
    (hne : next ≠ .stopRequested) : s.Closing := by
  have hph := hi.phase
  rw [hl] at hph
  refine ⟨?_, Or.inr ⟨next, hl⟩⟩
  cases next with
  | stopRequested => exact absurd rfl hne
  | generationLive | actualAddress | connect | notifyAll | takeHandle | join => exact hph.2.2.1
  | clearQueue | clearAddress => exact hph.2.2

end

theorem sound_of_reaches {s : State} (h : Reaches step .initial s) : Sound s :=
  h.invariant (fun _ _ _ h hs => h.kept hs) .initial

/-! ### When a stop returns -/

/-- A run brings the stop in progress to its return, although no peer connects and `incoming` does not fail. -/
def State.Returns (s : State) : Prop :=
  ∃ as t, (∀ act ∈ as, act.fromOutside = false) ∧ run step s as = some t ∧ t.lifecycle = .stopped

theorem Returning.returns {s : State} (h : Returning s) : s.Returns :=
  exists_run_of_rank (fun s => s.rank + s.holderRank) (fun _ h hl => h.exists_step hl) h

theorem not_returns_of_doomed {s : State} (hi : Inv s) (hd : s.Doomed) : ¬s.Returns := by
  rintro ⟨as, t, hinside, hrun, hl⟩
  have hall := run_invariant_of_meets (C := fun _ act => act.fromOutside = false) (I := fun s => Inv s ∧ s.Doomed)
    (fun s act t hact h hs => ⟨h.1.kept hs, h.2.kept h.1 hs hact⟩)
    (Meets.of_forall_mem (fun act hact _ => hinside act hact) s) hrun ⟨hi, hd⟩
  obtain ⟨next, hl', -⟩ := hall.2.waits
  rw [hl] at hl'
  cases hl'

/-- A stop in progress can return without help from outside exactly where it is not doomed: past its own connection,
    its listener thread must not be bound for `incoming` with nothing in its socket. -/
theorem stop_returns_iff {s : State} {next : StopStep} (h : Reaches step .initial s)
    (hl : s.lifecycle = .stopping next) : s.Returns ↔ ¬s.Doomed := by
  have hsound := sound_of_reaches h
  refine ⟨fun hreturns hd => not_returns_of_doomed hsound.inv hd hreturns, fun hd => ?_⟩
  by_cases hnext : next = .stopRequested
  · -- The first statement of `stop` sets the flag.
    subst hnext
    have hs : step s (.lifecycle false) =
        some { s with stopRequested := true, lifecycle := .stopping .generationLive } := by
      simp only [step, State.lifecycleStep, hl, State.stopStep]
    have hsound' := hsound.kept hs
    have hreturning : Returning { s with stopRequested := true, lifecycle := .stopping .generationLive } := by
      refine ⟨hsound', .of_stopping hsound'.inv rfl (by simp), ?_⟩
      rintro ⟨⟨next, hl', hwaits⟩, -⟩
      obtain rfl := Lifecycle.stopping.inj hl'
      exact hwaits
    obtain ⟨as, t, hinside, hrun, ht⟩ := hreturning.returns
    exact ⟨.lifecycle false :: as, t, List.forall_mem_cons.mpr ⟨rfl, hinside⟩, run_cons_eq_some.mpr ⟨_, hs, hrun⟩, ht⟩
  · exact Returning.returns ⟨hsound, .of_stopping hsound.inv hl hnext, hd⟩

/-- The listener thread has pushed a stream and not come back to `incoming` when the connection of `stop` is refused. -/
def refusedRun : List Action :=
  startedRun ++ countingRun ++ [.listener 1, .stop, .lifecycle false, .lifecycle false, .lifecycle false,
    .lifecycle false, .notifyOne 1 none]

theorem stop_returns_iff_refused :
    ∃ s, run step .initial refusedRun = some s ∧ s.lifecycle = .stopping .notifyAll ∧ ¬s.Returns := by
  obtain ⟨s, hs, hl, hg, hpc, hb⟩ : ∃ s, run step .initial refusedRun = some s ∧ s.lifecycle = .stopping .notifyAll ∧
      s.generation = 1 ∧ s.listeners 1 = .incoming ∧ s.backlog 1 = [] := ⟨_, rfl, rfl, rfl, rfl, rfl⟩
  refine ⟨s, hs, hl, fun hreturns => ?_⟩
  refine (stop_returns_iff ⟨refusedRun, hs⟩ hl).mp hreturns ⟨⟨_, hl, trivial⟩, ?_, ?_⟩
  · rw [hg, hpc]
    trivial
  · rw [hg, hb]

/-- Where no connection that a stop needs is refused, a stop that has set its flag has returned, or it, its listener
    thread or the holder of the queue mutex can go on; and until a start binds again the two threads take at most 15
    more steps together and each `accept` call at most 4, whatever the order. -/
theorem stop_terminates {s t : State} {as bs : List Action} (hs : run step .initial as = some s) (hc : s.Closing)
    (ht : run step s bs = some t) (hbounds : bounds bs = [])
    (hmeets : Meets step (fun s act => ¬Refused s act) .initial (as ++ bs)) :
    (t.lifecycle = .stopped ∨ ∃ act u, Works t act ∧ step t act = some u) ∧
    bs.countP Action.ofThread ≤ 15 ∧ ∀ a, bs.countP (· == .accept a) ≤ 4 := by
  have hi := inv_of_reaches ⟨as, hs⟩
  have hrun : run step .initial (as ++ bs) = some t := by
    rw [run_append, hs]
    exact ht
  refine ⟨?_, ?_, fun a => ?_⟩
  · obtain ⟨hsound, hd⟩ := run_invariant_of_meets (I := fun s => Sound s ∧ ¬s.Doomed)
      (fun s act t hrefused h hs => ⟨h.1.kept hs, fun hd => by
        obtain ⟨addresses, hpub⟩ := h.1.published
        exact (doomed_of_step h.1.inv hpub hs hd).elim h.2 hrefused⟩)
      hmeets hrun ⟨.initial, fun hd => by obtain ⟨next, hl, -⟩ := hd.waits; cases hl⟩
    have hc' := run_invariant_of_meets (C := fun _ act => act.bound? = none) (I := State.Closing)
      (fun s act t h hc hs => hc.kept hs h)
      (Meets.of_forall_mem (fun act hact _ => List.filterMap_eq_nil_iff.mp hbounds act hact) s) ht hc
    rcases hc'.lifecycle with hl | ⟨next, hl⟩
    · exact Or.inl hl
    · exact Or.inr (hsound.exists_work hl hd)
  · exact Nat.le_trans (hc.countP_le hi hbounds ht fun hi hc hs hb => step_rank hi hc hs hb) (hc.rank_le hi)
  · exact Nat.le_trans (hc.countP_le hi hbounds ht (p := (· == .accept a)) fun _ hc hs _ => step_acceptRank hc hs a)
      (AcceptPc.rank_le _)

/-- The connection of `stop` stands, and the listener thread takes it from its socket. -/
def stoppingRun : List Action := startedRun ++ [.stop, .lifecycle false]

def returningRun : List Action :=
  [.lifecycle false, .lifecycle false, .lifecycle true, .lifecycle false, .lifecycle false, .incoming 1 false]

theorem stop_terminates_returning : ∃ s t, run step .initial stoppingRun = some s ∧ run step s returningRun = some t ∧
    t.lifecycle = .stopping (.join 1) ∧ ∃ act u, Works t act ∧ step t act = some u := by
  obtain ⟨s, t, hs, ht, hstop, hl, hl'⟩ : ∃ s t, run step .initial stoppingRun = some s ∧
      run step s returningRun = some t ∧ s.stopRequested = true ∧ s.lifecycle = .stopping .generationLive ∧
      t.lifecycle = .stopping (.join 1) := ⟨_, _, rfl, rfl, rfl, rfl, rfl⟩
  have hstands : Meets step (fun s act => act = .lifecycle false → (match s.lifecycle with
      | .stopping (.connect _) => true
      | _ => false) = false) .initial (stoppingRun ++ returningRun) := by decide
  have hmeets : Meets step (fun s act => ¬Refused s act) .initial (stoppingRun ++ returningRun) := by
    refine hstands.imp (I := fun _ => True) (fun _ _ _ _ _ _ => trivial) (fun s act _ h hrefused => ?_) trivial
    obtain ⟨hact, ⟨address, hl⟩, -⟩ := hrefused
    have hfalse := h hact
    rw [hl] at hfalse
    cases hfalse
  obtain ⟨hwork, -⟩ := stop_terminates hs ⟨hstop, Or.inr ⟨_, hl⟩⟩ ht rfl hmeets
  exact ⟨s, t, hs, ht, hl', hwork.resolve_left (by simp [hl'])⟩

end Fabric.Tcp.Loopback
