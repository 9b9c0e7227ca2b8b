import Fabric.Queue.Concurrent
import Fabric.Theorems.Queue.Fifo

/-! The calls on the queue under its lock are those on the queue whose calls are single steps. -/

namespace Fabric.Queue
open Rust Transition Linearizability Locked

variable {ι : Type} {capacity : Nat}

/-- The section of a call is its single step. -/
theorem body_run (queue : InMemoryQueue) (call : Call) :
    ((InMemoryQueue.object queue.config.capacity).body call).run queue.state.messages =
      (.returned (queue.call call).1, ⟨(queue.call call).2.state.messages, false⟩) ∧
    (queue.call call).2.config = queue.config := by
  obtain ⟨config, ⟨messages⟩⟩ := queue
  cases call with
  | send payload =>
    simp only [InMemoryQueue.object, InMemoryQueue.body, InMemoryQueue.sendBody, Body.run, InMemoryQueue.call,
      InMemoryQueue.send]
    split
    · exact ⟨rfl, rfl⟩
    · exact ⟨rfl, rfl⟩
  | tryReceive =>
    cases messages with
    | nil => exact ⟨rfl, rfl⟩
    | cons message rest => exact ⟨rfl, rfl⟩
  | depth => exact ⟨rfl, rfl⟩

theorem body_safe (call : Call) : ((InMemoryQueue.object capacity).body call).Safe := fun messages =>
  ⟨_, _, (body_run ⟨⟨capacity⟩, ⟨messages⟩⟩ call).1⟩

theorem body_accesses (call : Call) (messages : List QueueMessage) :
    ((InMemoryQueue.object capacity).body call).accesses messages ≤ 2 := by
  cases call with
  | send payload =>
    simp only [InMemoryQueue.object, InMemoryQueue.body, InMemoryQueue.sendBody, Body.accesses]
    split <;> simp [Body.accesses]
  | tryReceive => exact Nat.le_refl 2
  | depth => exact Nat.le_succ 1

/-- Only a send is answered like one. -/
theorem call_of_spec {g g' : Guarded (List QueueMessage)} {call : Call} {r : QueueSendResult}
    (h : (InMemoryQueue.object capacity).Spec g call (.returned (.send r)) g') : ∃ payload, call = .send payload := by
  unfold Object.Spec Object.call at h
  split at h
  · cases h
  · cases call with
    | send payload => exact ⟨payload, rfl⟩
    | tryReceive => cases h
    | depth => cases h

/-- A call that put a message into the queue. -/
def isSend (e : Entry ι Call (Outcome Output)) : Bool :=
  match e.ret with
  | .returned (.send .accepted) => true
  | _ => false

/-- A call that took a message from the queue. -/
def isReceive (e : Entry ι Call (Outcome Output)) : Bool :=
  match e.ret with
  | .returned (.tryReceive (some _)) => true
  | _ => false

/-- What was put into the queue was taken from it or is there. -/
theorem Legal.conserved {g g' : Guarded (List QueueMessage)} {es : List (Entry ι Call (Outcome Output))}
    (h : Legal (InMemoryQueue.object capacity).Spec g es g') (hg : g.poisoned = false) :
    g.value.length + es.countP isSend = es.countP isReceive + g'.value.length := by
  induction h with
  | nil => simp
  | @cons g₀ g₁ g₂ e es he _ ih =>
    obtain ⟨c, call, r⟩ := e
    rw [Object.Spec, call_of_sound hg] at he
    cases call with
    | send payload =>
      simp only [InMemoryQueue.object, InMemoryQueue.body, InMemoryQueue.sendBody, Body.run] at he
      split at he
      · obtain ⟨rfl, rfl⟩ := Prod.mk.inj he
        have hrest := ih rfl
        simpa [List.countP_cons, isSend, isReceive] using hrest
      · obtain ⟨rfl, rfl⟩ := Prod.mk.inj he
        have hrest := ih rfl
        simp only [List.length_append, List.length_singleton] at hrest
        simp only [List.countP_cons, isSend, isReceive]
        simp
        omega
    | tryReceive =>
      obtain ⟨rfl, rfl⟩ := Prod.mk.inj he
      have hrest := ih rfl
      cases hvalue : g₀.value with
      | nil => simpa [List.countP_cons, isSend, isReceive, hvalue] using hrest
      | cons message rest =>
        simp only [hvalue, List.tail_cons] at hrest
        simp only [List.countP_cons, isSend, isReceive, List.head?_cons, List.length_cons]
        simp
        omega
    | depth =>
      obtain ⟨rfl, rfl⟩ := Prod.mk.inj he
      have hrest := ih rfl
      simpa [List.countP_cons, isSend, isReceive] using hrest

/-- The call that an event of the atomic queue stands for. -/
def Event.entry (event : Event ι) : Entry ι Call (Outcome Output) := ⟨event.party, event.call, .returned event.output⟩

/-- A sequential run of the locked queue is a run of the atomic one. -/
theorem run_of_legal {s : System ι} {g : Guarded (List QueueMessage)} {es : List (Entry ι Call (Outcome Output))}
    (hconfig : s.queue.config.capacity = capacity)
    (h : Legal (InMemoryQueue.object capacity).Spec ⟨s.queue.state.messages, false⟩ es g) :
    ∃ t, run step s (es.map fun e => (e.call, e.op)) = some t ∧
      t.history.map Event.entry = s.history.map Event.entry ++ es ∧
      g = ⟨t.queue.state.messages, false⟩ := by
  generalize hg₀ : (⟨s.queue.state.messages, false⟩ : Guarded (List QueueMessage)) = g₀ at h
  induction h generalizing s with
  | nil => exact ⟨s, rfl, by simp, hg₀.symm⟩
  | @cons g₀ g₁ g₂ e es he _ ih =>
    subst hg₀
    obtain ⟨hbody, hconfig'⟩ := body_run s.queue e.op
    rw [Object.Spec, call_of_sound rfl, ← hconfig, hbody] at he
    obtain ⟨hret, rfl⟩ := Prod.mk.inj he
    obtain ⟨t, hrun, hhistory, rfl⟩ := ih (s := ⟨(s.queue.call e.op).2,
      s.history ++ [⟨e.call, e.op, (s.queue.call e.op).1⟩]⟩) (by rw [hconfig', hconfig]) rfl
    refine ⟨t, run_cons_eq_some.mpr ⟨_, rfl, hrun⟩, ?_, rfl⟩
    rw [hhistory]
    simp [Event.entry, hret]

/-- Every run of overlapping calls on the queue that `memory_queue` builds is linearizable to a run of the queue whose
    calls are single steps, a bounded FIFO: no call panics, each takes at most six steps, and none waits for ever. -/
theorem queue_refines [DecidableEq ι] {queue : InMemoryQueue} (hqueue : memoryQueue capacity = .ok queue)
    (as : List (Locked.Action ι Call)) {s : Locked.State (List QueueMessage) ι Call Output}
    (hrun : run (Locked.step (InMemoryQueue.object capacity)) (.init []) as = some s) :
    (∃ t : System ι, run step (.init queue) (t.history.map fun event => (event.party, event.call)) = some t ∧
      Linearization (InMemoryQueue.object capacity).Spec ⟨[], false⟩ s.history (t.history.map Event.entry)
        ⟨t.queue.state.messages, false⟩ ∧
      t.received ++ t.contents = t.accepted ∧ t.queue.depth ≤ capacity) ∧
    (∀ c call r, .respond c call r ∈ s.history → r ≠ .panicked) ∧
    (∀ c, as.countP (Locked.Action.advances c) ≤ 6) ∧
    ∀ c, (s.calls c).inFlight = true →
      ∃ c' t, Locked.step (InMemoryQueue.object capacity) s (.advance c') = some t := by
  obtain ⟨es, hi⟩ := Locked.Inv.of_reaches ⟨as, hrun⟩
  have hlin := hi.points.linearization
  have hempty : queue.state.messages = [] ∧ queue.config.capacity = capacity := by
    unfold memoryQueue at hqueue
    split at hqueue
    · cases hqueue
    · cases hqueue
      exact ⟨rfl, rfl⟩
  have hlegal := hlin.legal
  rw [← hempty.1] at hlegal
  obtain ⟨t, ht, hhistory, hsettled⟩ := run_of_legal (s := (.init queue : System ι)) hempty.2 hlegal
  obtain rfl : t.history.map Event.entry = es := hhistory
  refine ⟨⟨t, ?_, hsettled ▸ hlin, ?_⟩, ?_, steps_le body_accesses hrun, fun c hc => hi.progress hc⟩
  · simpa [Event.entry, Function.comp_def] using ht
  · have hinv := run_invariant inv_step ht (inv_init hqueue)
    exact ⟨hinv.conserved, hinv.bounded⟩
  · intro c call r hr hpanicked
    obtain ⟨-, hreturned⟩ := Locked.Legal.of_safe body_safe rfl hlin.legal
    obtain ⟨a, ha⟩ := hreturned _ (hlin.complete ⟨c, call, r⟩ (mem_completed.mpr hr))
    cases ha.symm.trans hpanicked

/-- A producer and a consumer overlap: the consumer waits while the producer is between `len` and `push_back`. -/
def overlap : List (Locked.Action Nat Call) :=
  [.invoke 0 (.send [1]), .invoke 1 .tryReceive, .advance 0, .advance 0, .advance 0, .advance 0, .advance 0, .advance 1,
    .advance 1, .advance 0, .advance 1, .advance 1, .advance 1, .advance 1]

theorem queue_refines_overlap :
    ∃ s : Locked.State (List QueueMessage) Nat Call Output,
      run (Locked.step (InMemoryQueue.object 1)) (.init []) overlap = some s ∧
      s.history = [.invoke 0 (.send [1]), .invoke 1 .tryReceive, .respond 0 (.send [1]) (.returned (.send .accepted)),
        .respond 1 .tryReceive (.returned (.tryReceive (some ⟨[1]⟩)))] ∧
      ∃ t : System Nat, run step (.init ⟨⟨1⟩, {}⟩) (t.history.map fun event => (event.party, event.call)) = some t ∧
        Linearization (InMemoryQueue.object 1).Spec ⟨[], false⟩ s.history (t.history.map Event.entry)
          ⟨t.queue.state.messages, false⟩ ∧
        t.received ++ t.contents = t.accepted ∧ t.queue.depth ≤ 1 :=
  ⟨_, rfl, rfl, (queue_refines (rfl : memoryQueue 1 = .ok ⟨⟨1⟩, {}⟩) overlap rfl).1⟩

end Fabric.Queue
