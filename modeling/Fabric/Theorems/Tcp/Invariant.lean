import Fabric.Tcp.Loopback
import Mathlib.Tactic.Common

/-! The invariant of the loopback adapter. It says, for each statement that `start` or `stop` runs next, where
    the listener thread of the current generation can stand and how its history, the queue and the counter
    fit together; the threads of other generations do nothing. -/

namespace Fabric.Tcp.Loopback
open Transition

/-! ### Where a listener thread stands -/

namespace ListenerPc

/-- The thread has yet to be spawned, or it has ended. -/
def Idle : ListenerPc → Prop
  | .unspawned | .finished => True
  | _ => False

/-- The thread is in the loop over the accepted streams. -/
def Looping : ListenerPc → Prop
  | .incoming | .checkStop _ | .checkAccepted _ | .checkFailed | .count _ | .push _ | .notifyOne => True
  | _ => False

/-- The stream that the thread has counted and has yet to push. -/
def inHand : ListenerPc → List Stream
  | .push stream => [stream]
  | _ => []

/-- The stream that the thread has taken from its socket and has yet to push. -/
def stream? : ListenerPc → Option Stream
  | .checkStop accepted => accepted
  | .checkAccepted stream | .count stream | .push stream => some stream
  | _ => none

/-- The thread holds `stream` past the check at the head of the loop. -/
def Passed (stream : Stream) : ListenerPc → Prop
  | .checkAccepted st | .count st | .push st => st = stream
  | _ => False

theorem length_inHand_le (pc : ListenerPc) : pc.inHand.length ≤ 1 := by cases pc <;> simp [inHand]

end ListenerPc

/-- `stop` has stored `generation_live = false`, and no later start has stored it true. -/
def Lifecycle.Dead : Lifecycle → Prop
  | .stopped => True
  | .stopping .stopRequested | .stopping .generationLive => False
  | .stopping _ => True
  | _ => False

/-! ### The invariant -/

/-- Nothing has happened in the current generation, and its queue is empty. -/
structure Fresh (s : State) : Prop where
  unspawned : s.listeners s.generation = .unspawned
  queue : s.queue = []
  counted : s.counted s.generation = []
  pushed : s.pushed s.generation = []
  delivered : s.delivered s.generation = []
  backlog : ∀ st ∈ s.backlog s.generation, st.own = false

/-- The streams popped, followed by the queue, are the streams pushed, and one more may be counted. -/
structure Flow (s : State) : Prop where
  pushed : s.delivered s.generation ++ s.queue = s.pushed s.generation
  counted : s.counted s.generation = s.pushed s.generation ++ (s.listeners s.generation).inHand
  accepted : s.acceptedConnections = .ofNat (s.counted s.generation).length

/-- What holds of the current generation when the lifecycle stands at the given statement. -/
def Phase (s : State) : Lifecycle → Prop
  | .stopped => (s.listeners s.generation).Idle ∧ s.queue = []
  | .starting .stopRequested _ => Fresh s
  | .starting .generationLive _ | .starting .acceptedConnections _ => Fresh s ∧ s.stopRequested = false
  | .starting .clearQueue _ | .starting .actualAddress _ | .starting .spawn _ =>
    Fresh s ∧ s.stopRequested = false ∧ s.acceptedConnections = 0
  | .starting .handle _ => Flow s ∧ (s.listeners s.generation).Looping ∧ s.stopRequested = false
  | .running | .stopping .stopRequested =>
    Flow s ∧ (s.listeners s.generation).Looping ∧ s.stopRequested = false ∧ s.handle = some s.generation
  | .stopping (.join g) =>
    Flow s ∧ s.listeners s.generation ≠ .unspawned ∧ s.stopRequested = true ∧ g = s.generation
  | .stopping .clearQueue => Flow s ∧ s.listeners s.generation = .finished ∧ s.stopRequested = true
  | .stopping .clearAddress => s.listeners s.generation = .finished ∧ s.queue = [] ∧ s.stopRequested = true
  | .stopping _ =>
    Flow s ∧ s.listeners s.generation ≠ .unspawned ∧ s.stopRequested = true ∧ s.handle = some s.generation

structure Inv (s : State) : Prop where
  others : ∀ g, g ≠ s.generation → (s.listeners g).Idle
  future : ∀ g, s.generation < g →
    s.listeners g = .unspawned ∧ s.backlog g = [] ∧ s.counted g = [] ∧ s.pushed g = [] ∧ s.delivered g = []
  phase : Phase s s.lifecycle
  /-- Sockets, threads and histories hold streams of their own generation. -/
  origin : ∀ g st, st ∈ s.backlog g ∨ (s.listeners g).stream? = some st ∨ st ∈ s.counted g → st.generation = g
  /-- The connection of `stop` arrives after `stop_requested` is set, so the first check stops at it. -/
  own : ∀ st, st ∈ s.backlog s.generation ∨ (s.listeners s.generation).stream? = some st →
    st.own = true → s.stopRequested = true
  passed : ∀ g st, (s.listeners g).Passed st ∨ st ∈ s.counted g → st.own = false
  popped : ∀ g, ∀ st ∈ s.delivered g, st ∈ s.counted g
  dead : s.lifecycle.Dead → s.generationLive = false

theorem Inv.initial : Inv .initial where
  others _ _ := trivial
  future _ _ := ⟨rfl, rfl, rfl, rfl, rfl⟩
  phase := ⟨trivial, rfl⟩
  origin g st h := by simp [State.initial, ListenerPc.stream?] at h
  own st h := by simp [State.initial, ListenerPc.stream?] at h
  passed g st h := by simp [State.initial, ListenerPc.Passed] at h
  popped g st h := by cases h
  dead _ := rfl

section
variable {s t : State}

/-! ### Phases -/

/-- The parts of a state that a phase reads. -/
structure SamePhase (s t : State) : Prop where
  generation : t.generation = s.generation
  lifecycle : t.lifecycle = s.lifecycle
  stopRequested : t.stopRequested = s.stopRequested
  handle : t.handle = s.handle

/-- The thread of the current generation stands still, or is at work and moves, within its loop unless `stop_requested`
    is set. -/
def ThreadMoves (s t : State) : Prop :=
  t.listeners s.generation = s.listeners s.generation ∨ (¬(s.listeners s.generation).Idle ∧
    t.listeners s.generation ≠ .unspawned ∧ (s.stopRequested = false → (t.listeners s.generation).Looping))

theorem ThreadMoves.looping (h : ThreadMoves s t) (hat : (s.listeners s.generation).Looping)
    (hstop : s.stopRequested = false) : (t.listeners s.generation).Looping := by
  rcases h with heq | ⟨-, -, hloop⟩
  · exact heq ▸ hat
  · exact hloop hstop

theorem ThreadMoves.spawned (h : ThreadMoves s t) (hat : s.listeners s.generation ≠ .unspawned) :
    t.listeners s.generation ≠ .unspawned := by
  rcases h with heq | ⟨-, hne, -⟩
  · exact heq ▸ hat
  · exact hne

/-- A generation with a thread at work or a stream in the queue is in flow, and any step of that thread or
    of an `accept` call that keeps the flow keeps the phase. -/
theorem Phase.active (h : Phase s s.lifecycle) (hactive : ¬(s.listeners s.generation).Idle ∨ s.queue ≠ []) :
    Flow s ∧ ((s.listeners s.generation).Looping ∨ s.stopRequested = true) ∧
      ∀ t, SamePhase s t → Flow t → ThreadMoves s t → Phase t t.lifecycle := by
  have hfresh : ¬Fresh s := fun f => by
    rcases hactive with ha | ha
    · exact ha (f.unspawned ▸ trivial)
    · exact ha f.queue
  cases hl : s.lifecycle with
  | stopped =>
    rw [hl] at h
    exact absurd h.2 (hactive.resolve_left (not_not_intro h.1))
  | starting next actual =>
    rw [hl] at h
    cases next <;> try first | exact absurd h hfresh | exact absurd h.1 hfresh
    refine ⟨h.1, Or.inl h.2.1, fun t ht hf hlis => ?_⟩
    rw [ht.lifecycle, hl]
    exact ⟨hf, by rw [ht.generation]; exact hlis.looping h.2.1 h.2.2, ht.stopRequested.trans h.2.2⟩
  | running =>
    rw [hl] at h
    refine ⟨h.1, Or.inl h.2.1, fun t ht hf hlis => ?_⟩
    rw [ht.lifecycle, hl]
    exact ⟨hf, by rw [ht.generation]; exact hlis.looping h.2.1 h.2.2.1, ht.stopRequested.trans h.2.2.1,
      by rw [ht.handle, ht.generation]; exact h.2.2.2⟩
  | stopping next =>
    rw [hl] at h
    cases next with
    | stopRequested =>
      refine ⟨h.1, Or.inl h.2.1, fun t ht hf hlis => ?_⟩
      rw [ht.lifecycle, hl]
      exact ⟨hf, by rw [ht.generation]; exact hlis.looping h.2.1 h.2.2.1, ht.stopRequested.trans h.2.2.1,
        by rw [ht.handle, ht.generation]; exact h.2.2.2⟩
    | clearQueue =>
      refine ⟨h.1, Or.inr h.2.2, fun t ht hf hlis => ?_⟩
      rw [ht.lifecycle, hl]
      refine ⟨hf, ?_, ht.stopRequested.trans h.2.2⟩
      rw [ht.generation]
      rcases hlis with heq | ⟨hidle, -, -⟩
      · exact heq.trans h.2.1
      · exact absurd (h.2.1 ▸ trivial) hidle
    | clearAddress =>
      rcases hactive with ha | ha
      · exact absurd (h.1 ▸ trivial) ha
      · exact absurd h.2.1 ha
    | join g =>
      refine ⟨h.1, Or.inr h.2.2.1, fun t ht hf hlis => ?_⟩
      rw [ht.lifecycle, hl]
      exact ⟨hf, by rw [ht.generation]; exact hlis.spawned h.2.1, ht.stopRequested.trans h.2.2.1,
        h.2.2.2.trans ht.generation.symm⟩
    | generationLive | actualAddress | connect | notifyAll | takeHandle =>
      refine ⟨h.1, Or.inr h.2.2.1, fun t ht hf hlis => ?_⟩
      rw [ht.lifecycle, hl]
      exact ⟨hf, by rw [ht.generation]; exact hlis.spawned h.2.1, ht.stopRequested.trans h.2.2.1,
        by rw [ht.handle, ht.generation]; exact h.2.2.2⟩

theorem Flow.of_eq (hf : Flow s) (hg : t.generation = s.generation) (hlis : t.listeners = s.listeners)
    (hc : t.counted = s.counted) (hp : t.pushed = s.pushed) (hd : t.delivered = s.delivered)
    (hq : t.queue = s.queue) (ha : t.acceptedConnections = s.acceptedConnections) : Flow t where
  pushed := by
    rw [hg, hd, hq, hp]
    exact hf.pushed
  counted := by
    rw [hg, hc, hp, hlis]
    exact hf.counted
  accepted := by
    rw [hg, ha, hc]
    exact hf.accepted

theorem Fresh.of_eq (hf : Fresh s) (hg : t.generation = s.generation) (hlis : t.listeners = s.listeners)
    (hc : t.counted = s.counted) (hp : t.pushed = s.pushed) (hd : t.delivered = s.delivered)
    (hq : t.queue = s.queue) (hb : ∀ st ∈ t.backlog s.generation, st.own = false) : Fresh t where
  unspawned := by
    rw [hg, hlis]
    exact hf.unspawned
  queue := hq.trans hf.queue
  counted := by
    rw [hg, hc]
    exact hf.counted
  pushed := by
    rw [hg, hp]
    exact hf.pushed
  delivered := by
    rw [hg, hd]
    exact hf.delivered
  backlog := by
    rw [hg]
    exact hb

/-- A step outside the lifecycle that keeps the thread, the queue and the counter keeps the phase. -/
theorem Phase.of_eq (h : Phase s s.lifecycle) (hphase : SamePhase s t) (hlis : t.listeners = s.listeners)
    (hq : t.queue = s.queue) (ha : t.acceptedConnections = s.acceptedConnections) (hflow : Flow s → Flow t)
    (hfresh : Fresh s → Fresh t) : Phase t t.lifecycle := by
  have hg := hphase.generation
  have hst := hphase.stopRequested
  have hh := hphase.handle
  rw [hphase.lifecycle]
  cases hl : s.lifecycle with
  | stopped =>
    rw [hl] at h
    exact ⟨by rw [hg, hlis]; exact h.1, hq.trans h.2⟩
  | running =>
    rw [hl] at h
    exact ⟨hflow h.1, by rw [hg, hlis]; exact h.2.1, hst.trans h.2.2.1, by rw [hh, hg]; exact h.2.2.2⟩
  | starting next actual =>
    rw [hl] at h
    cases next with
    | stopRequested => exact hfresh h
    | generationLive | acceptedConnections => exact ⟨hfresh h.1, hst.trans h.2⟩
    | clearQueue | actualAddress | spawn => exact ⟨hfresh h.1, hst.trans h.2.1, ha.trans h.2.2⟩
    | handle => exact ⟨hflow h.1, by rw [hg, hlis]; exact h.2.1, hst.trans h.2.2⟩
  | stopping next =>
    rw [hl] at h
    cases next with
    | stopRequested =>
      exact ⟨hflow h.1, by rw [hg, hlis]; exact h.2.1, hst.trans h.2.2.1, by rw [hh, hg]; exact h.2.2.2⟩
    | join g => exact ⟨hflow h.1, by rw [hg, hlis]; exact h.2.1, hst.trans h.2.2.1, h.2.2.2.trans hg.symm⟩
    | clearQueue => exact ⟨hflow h.1, by rw [hg, hlis]; exact h.2.1, hst.trans h.2.2⟩
    | clearAddress => exact ⟨by rw [hg, hlis]; exact h.1, hq.trans h.2.1, hst.trans h.2.2⟩
    | generationLive | actualAddress | connect | notifyAll | takeHandle =>
      exact ⟨hflow h.1, by rw [hg, hlis]; exact h.2.1, hst.trans h.2.2.1, by rw [hh, hg]; exact h.2.2.2⟩

/-- A step that leaves the threads, the sockets and the history alone. -/
theorem Inv.relocate (hi : Inv s) (hg : t.generation = s.generation) (hlis : t.listeners = s.listeners)
    (hb : t.backlog = s.backlog) (hc : t.counted = s.counted) (hp : t.pushed = s.pushed)
    (hd : t.delivered = s.delivered)
    (hown : ∀ st, st ∈ s.backlog s.generation ∨ (s.listeners s.generation).stream? = some st →
      st.own = true → t.stopRequested = true)
    (hph : Phase t t.lifecycle) (hdead : t.lifecycle.Dead → t.generationLive = false) : Inv t where
  others := by
    rw [hg, hlis]
    exact hi.others
  future := by
    rw [hg, hlis, hb, hc, hp, hd]
    exact hi.future
  phase := hph
  origin := by
    rw [hlis, hb, hc]
    exact hi.origin
  own := by
    rw [hg, hlis, hb]
    exact hown
  passed := by
    rw [hlis, hc]
    exact hi.passed
  popped := by
    rw [hd, hc]
    exact hi.popped
  dead := hdead

/-- A step that changes nothing the invariant reads. -/
theorem Inv.of_eq (hi : Inv s) (hphase : SamePhase s t) (hlis : t.listeners = s.listeners)
    (hb : t.backlog = s.backlog) (hc : t.counted = s.counted) (hp : t.pushed = s.pushed)
    (hd : t.delivered = s.delivered) (hq : t.queue = s.queue) (ha : t.acceptedConnections = s.acceptedConnections)
    (hlive : t.generationLive = s.generationLive) : Inv t := by
  have hg := hphase.generation
  refine hi.relocate hg hlis hb hc hp hd (hphase.stopRequested ▸ hi.own) ?_ ?_
  · exact hi.phase.of_eq hphase hlis hq ha (fun hf => hf.of_eq hg hlis hc hp hd hq ha)
      (fun hf => hf.of_eq hg hlis hc hp hd hq (hb ▸ hf.backlog))
  · rw [hphase.lifecycle, hlive]
    exact hi.dead

end

end Fabric.Tcp.Loopback
