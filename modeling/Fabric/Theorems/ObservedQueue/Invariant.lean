import Fabric.ObservedQueue.App
import Fabric.Theorems.Queue.Concurrent
import Fabric.Theorems.Counter.Calls

/-! What each call of the component has done on the queue and on the counters, at every point of a run. -/

namespace Fabric.ObservedQueue
open Rust Transition Linearizability Counter Queue

abbrev QueuePc := Locked.Pc (List QueueMessage) Queue.Call Queue.Output

/-- The queue has answered a send with `result`. -/
def Answered (q : QueuePc) (result : QueueSendResult) : Prop :=
  ∃ payload, q = .returned (.send payload) (.returned (.send result))

/-- Where the calls of a call on the queue and the two counters stand. -/
def CallInv (q : QueuePc) (s f : Counter.Pc) : Pc → Prop
  | .idle => q = .idle ∧ s = .idle ∧ f = .idle
  | .sending payload => q.op = some (.send payload) ∧ s = .idle ∧ f = .idle
  | .counting .accepted => Answered q .accepted ∧ s.op = some (.increment 1) ∧ f = .idle
  | .counting (.full capacity) => Answered q (.full capacity) ∧ s = .idle ∧ f.op = some (.increment 1)
  | .readingSuccesses => q = .idle ∧ s.op = some .current ∧ f = .idle
  | .readingFailures successes =>
    q = .idle ∧ s = .returned .current (.current (.ok successes)) ∧ f.op = some .current
  | .returned (.sendObserved (.ok .accepted)) =>
    Answered q .accepted ∧ (∃ r, s = .returned (.increment 1) r) ∧ f = .idle
  | .returned (.sendObserved (.ok (.full capacity))) =>
    Answered q (.full capacity) ∧ s = .idle ∧ ∃ r, f = .returned (.increment 1) r
  | .returned (.observedCounts (.ok counts)) =>
    q = .idle ∧ s = .returned .current (.current (.ok counts.successes)) ∧
      f = .returned .current (.current (.ok counts.failures))
  | .returned _ | .panicked => False
  | .direct => s = .idle ∧ f = .idle

theorem Answered.moves {q q' : QueuePc} {result : QueueSendResult} (hq : q.Moves q') (h : Answered q result) :
    Answered q' result := by
  obtain ⟨payload, h⟩ := h
  exact ⟨payload, hq.returned h⟩

theorem CallInv.moves {q q' : QueuePc} {s s' f f' : Counter.Pc} {pc : Pc} (hq : q.Moves q') (hs : s.Moves s')
    (hf : f.Moves f') (h : CallInv q s f pc) : CallInv q' s' f' pc := by
  cases pc with
  | idle => exact ⟨hq.idle h.1, hs.idle h.2.1, hf.idle h.2.2⟩
  | sending payload => exact ⟨hq.op h.1, hs.idle h.2.1, hf.idle h.2.2⟩
  | counting result =>
    cases result with
    | accepted => exact ⟨h.1.moves hq, hs.op h.2.1, hf.idle h.2.2⟩
    | full capacity => exact ⟨h.1.moves hq, hs.idle h.2.1, hf.op h.2.2⟩
  | readingSuccesses => exact ⟨hq.idle h.1, hs.op h.2.1, hf.idle h.2.2⟩
  | readingFailures successes => exact ⟨hq.idle h.1, hs.returned h.2.1, hf.op h.2.2⟩
  | returned output =>
    cases output with
    | sendObserved result =>
      rcases result with error | (_ | capacity)
      · exact h
      · exact ⟨h.1.moves hq, h.2.1.imp fun _ => hs.returned, hf.idle h.2.2⟩
      · exact ⟨h.1.moves hq, hs.idle h.2.1, h.2.2.imp fun _ => hf.returned⟩
    | observedCounts result =>
      rcases result with error | counts
      · exact h
      · exact ⟨hq.idle h.1, hs.returned h.2.1, hf.returned h.2.2⟩
  | panicked => exact h
  | direct => exact ⟨hs.idle h.1, hf.idle h.2⟩

structure Inv (capacity : Nat) (s : State) : Prop where
  queue : Reaches (Locked.step (InMemoryQueue.object capacity)) (.init []) s.queue
  successes : Reaches Counter.step .default s.successes
  failures : Reaches Counter.step .default s.failures
  calls : ∀ c, CallInv (s.queue.calls c) (s.successes.calls c) (s.failures.calls c) (s.calls c)
  returned : ∀ c output, (c, output) ∈ s.history ↔ s.calls c = .returned output
  once : (s.history.map Prod.fst).Nodup

theorem Inv.init (capacity : Nat) : Inv capacity .init where
  queue := .refl _
  successes := .refl _
  failures := .refl _
  calls _ := ⟨rfl, rfl, rfl⟩
  returned _ _ := by simp [State.init]
  once := List.nodup_nil

section
variable {capacity : Nat} {s t : State} {c : Nat}

/-! ### Steps -/

/-- A step of call `c` that leaves the history alone keeps the invariant if it does so for `c`. -/
theorem Inv.frame {pc : Pc} (hi : Inv capacity s) (hnew : ∀ output, pc ≠ .returned output)
    (hold : ∀ output, s.calls c ≠ .returned output) (hcalls : t.calls = Function.update s.calls c pc)
    (hhistory : t.history = s.history)
    (hqueue : Reaches (Locked.step (InMemoryQueue.object capacity)) s.queue t.queue)
    (hsuccesses : Reaches Counter.step s.successes t.successes) (hfailures : Reaches Counter.step s.failures t.failures)
    (hother : ∀ c', c' ≠ c → t.queue.calls c' = s.queue.calls c' ∧ t.successes.calls c' = s.successes.calls c' ∧
      t.failures.calls c' = s.failures.calls c')
    (hpc : CallInv (t.queue.calls c) (t.successes.calls c) (t.failures.calls c) pc) : Inv capacity t := by
  have hself : t.calls c = pc := by rw [hcalls, Function.update_self]
  have hrest : ∀ c', c' ≠ c → t.calls c' = s.calls c' := fun c' hne => by rw [hcalls, Function.update_of_ne hne]
  refine ⟨hi.queue.trans hqueue, hi.successes.trans hsuccesses, hi.failures.trans hfailures, fun c' => ?_,
    fun c' output => ?_, hhistory ▸ hi.once⟩
  · rcases eq_or_ne c' c with rfl | hne
    · rw [hself]
      exact hpc
    · obtain ⟨hq, hs, hf⟩ := hother c' hne
      rw [hrest c' hne, hq, hs, hf]
      exact hi.calls c'
  · rw [hhistory, hi.returned]
    rcases eq_or_ne c' c with rfl | hne
    · rw [hself]
      exact iff_of_false (hold output) (hnew output)
    · rw [hrest c' hne]

theorem stepQueue_eq_some {a : Locked.Action Nat Queue.Call} (h : s.stepQueue capacity a = some t) :
    Locked.step (InMemoryQueue.object capacity) s.queue a = some t.queue ∧ t = { s with queue := t.queue } := by
  obtain ⟨queue, hqueue, rfl⟩ := Option.map_eq_some_iff.mp h
  exact ⟨hqueue, rfl⟩

theorem stepSuccesses_eq_some {a : Counter.Action} (h : s.stepSuccesses a = some t) :
    Counter.step s.successes a = some t.successes ∧ t = { s with successes := t.successes } := by
  obtain ⟨successes, hsuccesses, rfl⟩ := Option.map_eq_some_iff.mp h
  exact ⟨hsuccesses, rfl⟩

theorem stepFailures_eq_some {a : Counter.Action} (h : s.stepFailures a = some t) :
    Counter.step s.failures a = some t.failures ∧ t = { s with failures := t.failures } := by
  obtain ⟨failures, hfailures, rfl⟩ := Option.map_eq_some_iff.mp h
  exact ⟨hfailures, rfl⟩

/-- A step inside a resource. -/
theorem Inv.inside (hi : Inv capacity s) (hcalls : t.calls = s.calls) (hhistory : t.history = s.history)
    (hqueue : Reaches (Locked.step (InMemoryQueue.object capacity)) s.queue t.queue)
    (hsuccesses : Reaches Counter.step s.successes t.successes) (hfailures : Reaches Counter.step s.failures t.failures)
    (hmoves : ∀ c', (s.queue.calls c').Moves (t.queue.calls c') ∧ (s.successes.calls c').Moves (t.successes.calls c') ∧
      (s.failures.calls c').Moves (t.failures.calls c')) : Inv capacity t := by
  refine ⟨hi.queue.trans hqueue, hi.successes.trans hsuccesses, hi.failures.trans hfailures, fun c' => ?_, ?_,
    hhistory ▸ hi.once⟩
  · obtain ⟨hq, hs, hf⟩ := hmoves c'
    rw [hcalls]
    exact (hi.calls c').moves hq hs hf
  · rw [hhistory, hcalls]
    exact hi.returned

theorem Inv.stepQueue (hi : Inv capacity s) (h : s.stepQueue capacity (.advance c) = some t) : Inv capacity t := by
  obtain ⟨hstep, ht⟩ := stepQueue_eq_some h
  rw [ht]
  exact hi.inside rfl rfl (.single hstep) (.refl _) (.refl _) fun c' =>
    ⟨Locked.advance_moves hstep c', .inl rfl, .inl rfl⟩

theorem Inv.stepSuccesses (hi : Inv capacity s) (h : s.stepSuccesses (.advance c) = some t) : Inv capacity t := by
  obtain ⟨hstep, ht⟩ := stepSuccesses_eq_some h
  rw [ht]
  exact hi.inside rfl rfl (.refl _) (.single hstep) (.refl _) fun c' =>
    ⟨.inl rfl, Counter.advance_moves hstep c', .inl rfl⟩

theorem Inv.stepFailures (hi : Inv capacity s) (h : s.stepFailures (.advance c) = some t) : Inv capacity t := by
  obtain ⟨hstep, ht⟩ := stepFailures_eq_some h
  rw [ht]
  exact hi.inside rfl rfl (.refl _) (.refl _) (.single hstep) fun c' =>
    ⟨.inl rfl, .inl rfl, Counter.advance_moves hstep c'⟩

/-- Call `c` goes on to its next call on a resource. -/
theorem Inv.next {pc : Pc} (hi : Inv capacity s) (hnew : ∀ output, pc ≠ .returned output)
    (hold : ∀ output, s.calls c ≠ .returned output) :
    (∀ call, (s.setCall c pc).stepQueue capacity (.invoke c call) = some t →
      (∀ q, s.queue.calls c = .idle → q.op = some call → CallInv q (s.successes.calls c) (s.failures.calls c) pc) →
      Inv capacity t) ∧
    (∀ op, (s.setCall c pc).stepSuccesses (.invoke c op) = some t →
      (∀ k, k.op = some op → CallInv (s.queue.calls c) k (s.failures.calls c) pc) → Inv capacity t) ∧
    ∀ op, (s.setCall c pc).stepFailures (.invoke c op) = some t →
      (∀ k, k.op = some op → CallInv (s.queue.calls c) (s.successes.calls c) k pc) → Inv capacity t := by
  refine ⟨fun call h hpc => ?_, fun op h hpc => ?_, fun op h hpc => ?_⟩
  · obtain ⟨hstep, ht⟩ := stepQueue_eq_some h
    obtain ⟨hidle, hop, hothers⟩ := Locked.step_invoke hstep
    rw [ht]
    exact hi.frame hnew hold rfl rfl (.single hstep) (.refl _) (.refl _)
      (fun c' hne => ⟨hothers c' hne, rfl, rfl⟩) (hpc _ hidle hop)
  · obtain ⟨hstep, ht⟩ := stepSuccesses_eq_some h
    obtain ⟨-, hop, hothers⟩ := Counter.step_invoke hstep
    rw [ht]
    exact hi.frame hnew hold rfl rfl (.refl _) (.single hstep) (.refl _)
      (fun c' hne => ⟨rfl, hothers c' hne, rfl⟩) (hpc _ hop)
  · obtain ⟨hstep, ht⟩ := stepFailures_eq_some h
    obtain ⟨-, hop, hothers⟩ := Counter.step_invoke hstep
    rw [ht]
    exact hi.frame hnew hold rfl rfl (.refl _) (.refl _) (.single hstep)
      (fun c' hne => ⟨rfl, rfl, hothers c' hne⟩) (hpc _ hop)

theorem Inv.finish {output : Output} (hi : Inv capacity s) (hold : ∀ output, s.calls c ≠ .returned output)
    (hpc : CallInv (s.queue.calls c) (s.successes.calls c) (s.failures.calls c) (.returned output)) :
    Inv capacity (s.finish c output) := by
  have hself : (s.finish c output).calls c = .returned output := Function.update_self ..
  have hrest : ∀ c', c' ≠ c → (s.finish c output).calls c' = s.calls c' := fun c' hne => Function.update_of_ne hne ..
  refine ⟨hi.queue, hi.successes, hi.failures, fun c' => ?_, fun c' output' => ?_, ?_⟩
  · rcases eq_or_ne c' c with rfl | hne
    · rw [hself]
      exact hpc
    · rw [hrest c' hne]
      exact hi.calls c'
  · rw [State.finish, List.mem_append, List.mem_singleton]
    rcases eq_or_ne c' c with rfl | hne
    · rw [hi.returned]
      simp only [State.setCall, Function.update_self, Prod.mk.injEq, true_and, Pc.returned.injEq]
      exact ⟨fun h => (h.resolve_left (hold output')).symm, fun h => .inr h.symm⟩
    · simp [State.setCall, hi.returned, hne]
  · rw [State.finish, List.map_append]
    refine hi.once.append (List.nodup_singleton _) ?_
    simp only [List.map_cons, List.map_nil, List.disjoint_singleton]
    intro hmem
    obtain ⟨⟨c', output'⟩, hreturned, rfl⟩ := List.mem_map.mp hmem
    exact hold output' ((hi.returned _ _).mp hreturned)

/-- The next call of `send_observed` is the increment of the counter for its result. -/
theorem Inv.count {payload : Bytes} {result : QueueSendResult} (hi : Inv capacity s)
    (hc : s.calls c = .sending payload) (hanswered : Answered (s.queue.calls c) result)
    (h : s.count c result = some t) : Inv capacity t := by
  have hcall : CallInv _ _ _ (.sending payload) := hc ▸ hi.calls c
  have hold : ∀ output, s.calls c ≠ .returned output := by simp [hc]
  cases result with
  | accepted => exact (hi.next (by simp) hold).2.1 _ h fun k hk => ⟨hanswered, hk, hcall.2.2⟩
  | full n => exact (hi.next (by simp) hold).2.2 _ h fun k hk => ⟨hanswered, hcall.2.1, hk⟩

theorem Inv.resume_sending {payload : Bytes} (hi : Inv capacity s) (hc : s.calls c = .sending payload)
    (h : s.resume c = some t) : Inv capacity t := by
  have hcall : CallInv _ _ _ (.sending payload) := hc ▸ hi.calls c
  obtain ⟨es, hl⟩ := Locked.Inv.of_reaches hi.queue
  simp only [State.resume, hc] at h
  split at h
  · rename_i call result hq
    have hop := hcall.1
    rw [hq] at hop
    obtain rfl : call = .send payload := Option.some.inj hop
    exact hi.count hc ⟨payload, hq⟩ h
  · rename_i call hq
    -- The queue does not panic.
    have hmem := hl.points.complete ⟨c, call, .panicked⟩ (mem_completed.mpr (hl.respond_iff.mpr hq))
    obtain ⟨-, hreturned⟩ := Locked.Legal.of_safe body_safe rfl hl.points.legal
    obtain ⟨a, ha⟩ := hreturned _ hmem
    cases ha
  · cases h

theorem Inv.resume_counting {result : QueueSendResult} (hi : Inv capacity s) (hc : s.calls c = .counting result)
    (h : s.resume c = some t) : Inv capacity t := by
  have hcall : CallInv _ _ _ (.counting result) := hc ▸ hi.calls c
  have hold : ∀ output, s.calls c ≠ .returned output := by simp [hc]
  obtain ⟨es, hs⟩ := Counter.Inv.of_reaches hi.successes
  obtain ⟨fs, hf⟩ := Counter.Inv.of_reaches hi.failures
  simp only [State.resume, hc] at h
  cases result with
  | accepted =>
    simp only [State.counted] at h
    split at h
    · rename_i op value hk
      obtain rfl := Option.some.inj h
      have hop := hcall.2.1
      rw [hk] at hop
      obtain rfl : op = .increment 1 := Option.some.inj hop
      exact hi.finish hold ⟨hcall.1, ⟨_, hk⟩, hcall.2.2⟩
    · rename_i op error hk
      rcases hs.returned_ok hk with ⟨-, value, hr⟩ | ⟨amount, value, -, hr⟩ <;> cases hr
    · cases h
  | full n =>
    simp only [State.counted] at h
    split at h
    · rename_i op value hk
      obtain rfl := Option.some.inj h
      have hop := hcall.2.2
      rw [hk] at hop
      obtain rfl : op = .increment 1 := Option.some.inj hop
      exact hi.finish hold ⟨hcall.1, hcall.2.1, ⟨_, hk⟩⟩
    · rename_i op error hk
      rcases hf.returned_ok hk with ⟨-, value, hr⟩ | ⟨amount, value, -, hr⟩ <;> cases hr
    · cases h

theorem Inv.resume_readingSuccesses (hi : Inv capacity s) (hc : s.calls c = .readingSuccesses)
    (h : s.resume c = some t) : Inv capacity t := by
  have hcall : CallInv _ _ _ .readingSuccesses := hc ▸ hi.calls c
  have hold : ∀ output, s.calls c ≠ .returned output := by simp [hc]
  obtain ⟨es, hs⟩ := Counter.Inv.of_reaches hi.successes
  simp only [State.resume, hc] at h
  split at h
  · rename_i op value hk
    have hop := hcall.2.1
    rw [hk] at hop
    obtain rfl : op = .current := Option.some.inj hop
    exact (hi.next (by simp) hold).2.2 _ h fun k hk' => ⟨hcall.1, hk, hk'⟩
  · rename_i op error hk
    rcases hs.returned_ok hk with ⟨-, value, hr⟩ | ⟨amount, value, -, hr⟩ <;> cases hr
  · cases h

theorem Inv.resume_readingFailures {successes : UInt64} (hi : Inv capacity s)
    (hc : s.calls c = .readingFailures successes) (h : s.resume c = some t) : Inv capacity t := by
  have hcall : CallInv _ _ _ (.readingFailures successes) := hc ▸ hi.calls c
  have hold : ∀ output, s.calls c ≠ .returned output := by simp [hc]
  obtain ⟨fs, hf⟩ := Counter.Inv.of_reaches hi.failures
  simp only [State.resume, hc] at h
  split at h
  · rename_i op value hk
    obtain rfl := Option.some.inj h
    have hop := hcall.2.2
    rw [hk] at hop
    obtain rfl : op = .current := Option.some.inj hop
    exact hi.finish hold ⟨hcall.1, hcall.2.1, hk⟩
  · rename_i op error hk
    rcases hf.returned_ok hk with ⟨-, value, hr⟩ | ⟨amount, value, -, hr⟩ <;> cases hr
  · cases h

theorem Inv.resume (hi : Inv capacity s) (h : s.resume c = some t) : Inv capacity t := by
  cases hc : s.calls c with
  | sending payload => exact hi.resume_sending hc h
  | counting result => exact hi.resume_counting hc h
  | readingSuccesses => exact hi.resume_readingSuccesses hc h
  | readingFailures successes => exact hi.resume_readingFailures hc h
  | idle => simp [State.resume, hc] at h
  | returned output => simp [State.resume, hc] at h
  | panicked => simp [State.resume, hc] at h
  | direct => simp [State.resume, hc] at h

theorem Inv.invoke {op : Op} (hi : Inv capacity s) (h : s.invoke capacity c op = some t) : Inv capacity t := by
  simp only [State.invoke] at h
  split at h
  · rename_i hc
    have hcall : CallInv _ _ _ .idle := hc ▸ hi.calls c
    have hold : ∀ output, s.calls c ≠ .returned output := by simp [hc]
    cases op with
    | sendObserved payload => exact (hi.next (by simp) hold).1 _ h fun q _ hq => ⟨hq, hcall.2.1, hcall.2.2⟩
    | observedCounts => exact (hi.next (by simp) hold).2.1 _ h fun k hk => ⟨hcall.1, hk, hcall.2.2⟩
  · cases h

theorem inv_step (s : State) (a : Action) (t : State) (hi : Inv capacity s) (h : step capacity s a = some t) :
    Inv capacity t := by
  cases a with
  | invoke c op => exact hi.invoke h
  | queue c => exact hi.stepQueue h
  | successes c => exact hi.stepSuccesses h
  | failures c => exact hi.stepFailures h
  | resume c => exact hi.resume h
  | direct c call =>
    simp only [step] at h
    split at h
    · rename_i hc
      have hcall : CallInv _ _ _ .idle := hc ▸ hi.calls c
      exact (hi.next (by simp) (by simp [hc])).1 _ h fun q _ _ => hcall.2
    · cases h

theorem Inv.of_reaches (h : Reaches (step capacity) .init s) : Inv capacity s := h.invariant inv_step (.init capacity)

end

end Fabric.ObservedQueue
