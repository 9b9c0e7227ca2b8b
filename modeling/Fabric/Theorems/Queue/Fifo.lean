import Fabric.Queue.Memory

/-! The queue is a FIFO under any interleaving of its callers: what is received, followed by what is queued, is what
    was accepted. -/

namespace Fabric.Queue
open Rust Transition

variable {Party : Type} {capacity : Nat}

/-! ### The invariant -/

/-- What holds between any two calls. -/
structure Inv (capacity : Nat) (s : System Party) : Prop where
  config : s.queue.config.capacity = capacity
  conserved : s.received ++ s.contents = s.accepted
  bounded : s.queue.depth ≤ capacity

theorem inv_init {queue : InMemoryQueue} (h : memoryQueue capacity = .ok queue) :
    Inv capacity (System.init queue : System Party) := by
  unfold memoryQueue at h
  split at h
  · cases h
  · cases h
    exact ⟨rfl, rfl, Nat.zero_le _⟩

theorem send_of_full {queue : InMemoryQueue} (h : queue.config.capacity ≤ queue.depth) (payload : Bytes) :
    queue.send payload = (.full queue.config.capacity, queue) := if_pos h

theorem send_of_room {queue : InMemoryQueue} (h : queue.depth < queue.config.capacity) (payload : Bytes) :
    queue.send payload = (.accepted, { queue with state := ⟨queue.state.messages ++ [⟨payload⟩]⟩ }) :=
  if_neg (Nat.not_le_of_lt h)

section
variable {s t : System Party} {party : Party}

theorem step_eq_some {call : Call} : step s (party, call) = some t ↔
    t = ⟨(s.queue.call call).2, s.history ++ [⟨party, call, (s.queue.call call).1⟩]⟩ := by
  rw [step, Option.some.injEq, eq_comm]

/-- What a send does: it is refused by a full queue, and appends to any other. -/
theorem step_send {payload : Bytes} (h : step s (party, .send payload) = some t) :
    (s.queue.config.capacity ≤ s.queue.depth ∧ t.queue = s.queue ∧ t.accepted = s.accepted ∧
      t.received = s.received) ∨
    (s.queue.depth < s.queue.config.capacity ∧ t.queue.config = s.queue.config ∧
      t.contents = s.contents ++ [payload] ∧ t.accepted = s.accepted ++ [payload] ∧ t.received = s.received) := by
  obtain rfl := step_eq_some.mp h
  rcases Nat.lt_or_ge s.queue.depth s.queue.config.capacity with hroom | hfull
  · refine .inr ⟨hroom, ?_⟩
    simp [InMemoryQueue.call, send_of_room hroom, System.accepted, System.received, System.contents, Event.accepted,
      Event.received]
  · refine .inl ⟨hfull, ?_⟩
    simp [InMemoryQueue.call, send_of_full hfull, System.accepted, System.received, Event.accepted, Event.received]

/-- What a receive does: it takes the front of the queue, unless there is none. -/
theorem step_tryReceive (h : step s (party, .tryReceive) = some t) :
    (s.contents = [] ∧ t.queue = s.queue ∧ t.accepted = s.accepted ∧ t.received = s.received) ∨
    ∃ payload, s.contents = payload :: t.contents ∧ t.queue.config = s.queue.config ∧ t.accepted = s.accepted ∧
      t.received = s.received ++ [payload] := by
  obtain rfl := step_eq_some.mp h
  rcases hmessages : s.queue.state.messages with _ | ⟨message, rest⟩
  · left
    simp [InMemoryQueue.call, InMemoryQueue.tryReceive, hmessages, System.accepted, System.received, System.contents,
      Event.accepted, Event.received]
  · right
    simp [InMemoryQueue.call, InMemoryQueue.tryReceive, hmessages, System.accepted, System.received, System.contents,
      Event.accepted, Event.received]

theorem step_depth (h : step s (party, .depth) = some t) :
    t.queue = s.queue ∧ t.accepted = s.accepted ∧ t.received = s.received := by
  obtain rfl := step_eq_some.mp h
  simp [InMemoryQueue.call, System.accepted, System.received, Event.accepted, Event.received]

theorem depth_eq_length_contents (s : System Party) : s.queue.depth = s.contents.length := by
  simp [InMemoryQueue.depth, System.contents]

end

theorem inv_step (s : System Party) (action : Party × Call) (t : System Party) (hs : Inv capacity s)
    (h : step s action = some t) : Inv capacity t := by
  obtain ⟨party, call⟩ := action
  obtain ⟨hconfig, hconserved, hbounded⟩ := hs
  rw [depth_eq_length_contents] at hbounded
  cases call with
  | send payload =>
    rcases step_send h with ⟨-, hqueue, haccepted, hreceived⟩ | ⟨hroom, hconfig', hcontents, haccepted, hreceived⟩
    · refine ⟨hqueue ▸ hconfig, ?_, by rwa [hqueue, depth_eq_length_contents]⟩
      rw [hreceived, haccepted, System.contents, hqueue]
      exact hconserved
    · refine ⟨hconfig' ▸ hconfig, ?_, ?_⟩
      · rw [hreceived, hcontents, haccepted, ← hconserved, List.append_assoc]
      · rw [hconfig, depth_eq_length_contents] at hroom
        rw [depth_eq_length_contents, hcontents, List.length_append]
        exact hroom
  | tryReceive =>
    rcases step_tryReceive h with
      ⟨-, hqueue, haccepted, hreceived⟩ | ⟨payload, hcontents, hconfig', haccepted, hreceived⟩
    · refine ⟨hqueue ▸ hconfig, ?_, by rwa [hqueue, depth_eq_length_contents]⟩
      rw [hreceived, haccepted, System.contents, hqueue]
      exact hconserved
    · refine ⟨hconfig' ▸ hconfig, ?_, ?_⟩
      · rw [hreceived, haccepted, ← hconserved, hcontents, List.append_assoc, List.singleton_append]
      · rw [hcontents, List.length_cons] at hbounded
        rw [depth_eq_length_contents]
        omega
  | depth =>
    obtain ⟨hqueue, haccepted, hreceived⟩ := step_depth h
    refine ⟨hqueue ▸ hconfig, ?_, by rwa [hqueue, depth_eq_length_contents]⟩
    rw [hreceived, haccepted, System.contents, hqueue]
    exact hconserved

/-! ### Whole runs -/

/-- A bounded FIFO at one point of a run, whatever call comes next. -/
structure Fifo (capacity : Nat) (s : System Party) : Prop where
  order : s.received ++ s.contents = s.accepted
  depth_le : s.queue.depth ≤ capacity
  depth_eq : s.queue.depth = s.accepted.length - s.received.length
  send_total : ∀ payload, (s.queue.send payload).1 = .accepted ∨ (s.queue.send payload).1 = .full capacity
  send_full : ∀ payload, (s.queue.send payload).1 = .full capacity ↔ s.queue.depth = capacity
  send_full_unchanged : ∀ payload, (s.queue.send payload).1 = .full capacity → (s.queue.send payload).2 = s.queue
  receive_none : s.queue.tryReceive.1 = none ↔ s.received = s.accepted

theorem Inv.fifo {s : System Party} (h : Inv capacity s) : Fifo capacity s := by
  obtain ⟨rfl, hconserved, hbounded⟩ := h
  have hsend : ∀ payload, ((s.queue.send payload).1 = .full s.queue.config.capacity ∧
        s.queue.depth = s.queue.config.capacity ∧ (s.queue.send payload).2 = s.queue) ∨
      ((s.queue.send payload).1 = .accepted ∧ s.queue.depth ≠ s.queue.config.capacity) := by
    intro payload
    rcases Nat.lt_or_ge s.queue.depth s.queue.config.capacity with hroom | hfull
    · rw [send_of_room hroom]
      exact .inr ⟨rfl, hroom.ne⟩
    · rw [send_of_full hfull]
      exact .inl ⟨rfl, Nat.le_antisymm hbounded hfull, rfl⟩
  refine ⟨hconserved, hbounded, ?_, fun payload => ?_, fun payload => ?_, fun payload hfull => ?_, ?_⟩
  · rw [← hconserved, List.length_append, depth_eq_length_contents, Nat.add_sub_cancel_left]
  · exact (hsend payload).symm.imp And.left And.left
  · rcases hsend payload with ⟨hfull, hdepth, -⟩ | ⟨haccepted, hdepth⟩
    · exact iff_of_true hfull hdepth
    · exact iff_of_false (by simp [haccepted]) hdepth
  · rcases hsend payload with ⟨-, -, hqueue⟩ | ⟨haccepted, -⟩
    · exact hqueue
    · simp [haccepted] at hfull
  · rw [← hconserved, List.self_eq_append_right, InMemoryQueue.tryReceive, System.contents]
    rcases s.queue.state.messages with _ | ⟨message, rest⟩
    · simp
    · simp

/-- At every point of every run, the queue that `memory_queue` builds is a bounded FIFO. -/
theorem queue_fifo (queue : InMemoryQueue) (hqueue : memoryQueue capacity = .ok queue) (calls : List (Party × Call))
    (s : System Party) (hrun : run step (.init queue) calls = some s) : Fifo capacity s :=
  (run_invariant inv_step hrun (inv_init hqueue)).fifo

/-- Two producers fill a queue of two, and two consumers compete for what it holds. -/
def competingRun : List (Nat × Call) :=
  [(0, .send [1]), (1, .send [2]), (0, .send [3]), (2, .tryReceive), (3, .depth), (1, .send [4]), (3, .tryReceive)]

theorem queue_fifo_competing : ∃ s : System Nat, run step (.init ⟨⟨2⟩, {}⟩) competingRun = some s ∧
    s.accepted = [[1], [2], [4]] ∧ s.received = [[1], [2]] ∧ Fifo 2 s := by
  have hrun : run step (.init ⟨⟨2⟩, {}⟩) competingRun = some ((run step (.init ⟨⟨2⟩, {}⟩) competingRun).get rfl) := rfl
  exact ⟨_, hrun, rfl, rfl, queue_fifo ⟨⟨2⟩, {}⟩ rfl competingRun _ hrun⟩

end Fabric.Queue
