import Fabric.Theorems.ObservedQueue.Invariant

/-! The two counters account for the sends of the component: each stands between the sends that have returned
    with its result and those that the queue has answered with it, up to `u64::MAX`. -/

namespace Fabric.ObservedQueue
open Rust Transition Linearizability Counter Queue

theorem length_le_of_forall_mem {α : Type} {l m : List α} (hl : l.Nodup) (h : ∀ a ∈ l, a ∈ m) : l.length ≤ m.length :=
  (hl.subperm h).length_le

section
variable {capacity : Nat} {s : State} {result : QueueSendResult → Bool}

/-- Call `c` has returned from a send that ended as `result` says. -/
def Returned (result : QueueSendResult → Bool) (s : State) (c : Nat) : Prop :=
  ∃ r, result r = true ∧ s.calls c = .returned (.sendObserved (.ok r))

/-- Call `c` is one of the component whose send the queue has answered as `result` says. -/
def AnsweredAs (result : QueueSendResult → Bool) (s : State) (c : Nat) : Prop :=
  s.calls c ≠ .direct ∧ ∃ r, result r = true ∧ Answered (s.queue.calls c) r

/-- The calls that `State.returned` counts. -/
theorem Inv.exists_returned (hi : Inv capacity s) (result : QueueSendResult → Bool) :
    ∃ cs : List Nat, cs.Nodup ∧ cs.length = s.returned result ∧ ∀ c, c ∈ cs ↔ Returned result s c := by
  refine ⟨(s.history.filter (endedAs result)).map Prod.fst, ?_, ?_, fun c => ?_⟩
  · exact hi.once.sublist (List.filter_sublist.map _)
  · rw [List.length_map, State.returned, List.countP_eq_length_filter]
  · simp only [List.mem_map, List.mem_filter]
    constructor
    · rintro ⟨⟨c', output⟩, ⟨hmem, hr⟩, rfl⟩
      rcases output with (error | r) | counts
      · cases hr
      · exact ⟨r, hr, (hi.returned _ _).mp hmem⟩
      · cases hr
    · rintro ⟨r, hr, hc⟩
      exact ⟨_, ⟨(hi.returned _ _).mpr hc, hr⟩, rfl⟩

theorem answers_eq_true {event : Linearizability.Event Nat Queue.Call (Locked.Outcome Queue.Output)} :
    s.answers result event = true ↔
      ∃ c call r, event = .respond c call (.returned (.send r)) ∧ s.calls c ≠ .direct ∧ result r = true := by
  constructor
  · intro h
    unfold State.answers at h
    split at h
    · rename_i c call r
      obtain ⟨hdirect, hr⟩ := Bool.and_eq_true_iff.mp h
      refine ⟨c, call, r, rfl, fun hc => ?_, hr⟩
      rw [hc] at hdirect
      cases hdirect
    · cases h
  · rintro ⟨c, call, r, rfl, hne, hr⟩
    rw [State.answers, hr, Bool.and_true]
    cases hc : s.calls c with
    | direct => exact absurd hc hne
    | _ => rfl

theorem countP_respond {ι Op Ret : Type} {h : List (Linearizability.Event ι Op Ret)}
    (p : Linearizability.Event ι Op Ret → Bool) (hp : ∀ c op, p (.invoke c op) = false) :
    h.countP p = (completed h).countP fun e => p (.respond e.call e.op e.ret) := by
  induction h with
  | nil => rfl
  | cons event h ih =>
    cases event with
    | invoke c op =>
      rw [List.countP_cons_of_neg (by simp [hp])]
      exact ih
    | respond c op r =>
      simp only [List.countP_cons, ih]
      simp [completed, List.countP_cons]

/-- The calls that `State.answered` counts. -/
theorem Inv.exists_answered (hi : Inv capacity s) (result : QueueSendResult → Bool) :
    ∃ cs : List Nat, cs.Nodup ∧ cs.length = s.answered result ∧ ∀ c, c ∈ cs ↔ AnsweredAs result s c := by
  obtain ⟨es, hl⟩ := Locked.Inv.of_reaches hi.queue
  refine ⟨((completed s.queue.history).filter fun e => s.answers result (.respond e.call e.op e.ret)).map (·.call),
    ?_, ?_, fun c => ?_⟩
  · exact hl.points.completed_nodup.sublist (List.filter_sublist.map _)
  · rw [List.length_map, State.answered, countP_respond _ fun _ _ => rfl, List.countP_eq_length_filter]
  · simp only [List.mem_map, List.mem_filter, answers_eq_true, mem_completed]
    constructor
    · rintro ⟨e, ⟨hmem, c', call, r, heq, hne, hr⟩, rfl⟩
      rw [heq, hl.respond_iff] at hmem
      obtain ⟨g, g', hspec⟩ := hl.points.legal.exists_spec
        (hl.points.complete ⟨c', call, _⟩ (mem_completed.mpr (hl.respond_iff.mpr hmem)))
      obtain ⟨payload, rfl⟩ := call_of_spec hspec
      obtain rfl : e.call = c' := (Linearizability.Event.respond.inj heq).1
      exact ⟨hne, r, hr, payload, hmem⟩
    · rintro ⟨hne, r, hr, payload, hq⟩
      exact ⟨⟨c, _, _⟩, ⟨hl.respond_iff.mpr hq, c, _, r, rfl, hne, hr⟩, rfl⟩

/-! ### A counter between the two -/

/-- A call that has returned was answered by the queue. -/
theorem Inv.answeredAs_of_returned (hi : Inv capacity s) {c : Nat} (h : Returned result s c) :
    AnsweredAs result s c := by
  obtain ⟨r, hr, hc⟩ := h
  have hcall : CallInv _ _ _ (.returned (.sendObserved (.ok r))) := hc ▸ hi.calls c
  refine ⟨by simp [hc], r, hr, ?_⟩
  cases r with
  | accepted => exact hcall.1
  | full n => exact hcall.1

/-- When no call of the component is in flight, one that was answered by the queue has returned. -/
theorem Inv.returned_of_answeredAs (hi : Inv capacity s) (hstill : ∀ c, (s.calls c).inFlight = false) {c : Nat}
    (h : AnsweredAs result s c) : Returned result s c := by
  obtain ⟨hne, r, hr, payload, hq⟩ := h
  have hcall := hi.calls c
  have hnot := hstill c
  rw [hq] at hcall
  cases hc : s.calls c with
  | direct => exact absurd hc hne
  | idle =>
    rw [hc] at hcall
    cases hcall.1
  | panicked =>
    rw [hc] at hcall
    exact hcall.elim
  | sending | counting | readingSuccesses | readingFailures => simp [hc, Pc.inFlight] at hnot
  | returned output =>
    rw [hc] at hcall
    rcases output with (error | (_ | n)) | (error | counts)
    · exact hcall.elim
    · obtain ⟨payload', hq'⟩ := hcall.1
      cases hq'
      exact ⟨_, hr, hc⟩
    · obtain ⟨payload', hq'⟩ := hcall.1
      cases hq'
      exact ⟨_, hr, hc⟩
    · exact hcall.elim
    · cases hcall.1

/-- `counter` is the one in which the component counts the sends that end as `result` says. -/
structure Counts (result : QueueSendResult → Bool) (s : State) (counter : Counter.State) : Prop where
  reaches : Reaches Counter.step .default counter
  ones : ∀ c op, (counter.calls c).op = some op → op = .current ∨ op = .increment 1
  counted : ∀ c, Returned result s c → ∃ r, counter.calls c = .returned (.increment 1) r
  answered : ∀ c amount, (counter.calls c).op = some (.increment amount) → AnsweredAs result s c

theorem Inv.value_bounds {counter : Counter.State} (hi : Inv capacity s) (hcounts : Counts result s counter) :
    min u64Max (s.returned result) ≤ counter.value.toNat ∧
      counter.value.toNat ≤ min u64Max (s.answered result) := by
  obtain ⟨es, hk⟩ := Counter.Inv.of_reaches hcounts.reaches
  obtain ⟨returned, hnodup, hlength, hreturned⟩ := hi.exists_returned result
  obtain ⟨answered, -, hlength', hanswered⟩ := hi.exists_answered result
  -- The increments that have taken effect are those of calls between the two.
  have hincrements : ((es.filter isIncrement).map (·.call)).Nodup := hk.points.once.sublist (List.filter_sublist.map _)
  have hlow : returned.length ≤ ((es.filter isIncrement).map (·.call)).length := by
    refine length_le_of_forall_mem hnodup fun c hc => ?_
    obtain ⟨r, hr⟩ := hcounts.counted c ((hreturned c).mp hc)
    exact List.mem_map.mpr ⟨⟨c, .increment 1, r⟩, List.mem_filter.mpr ⟨hk.mem_of_returned hr, rfl⟩, rfl⟩
  have hhigh : ((es.filter isIncrement).map (·.call)).length ≤ answered.length := by
    refine length_le_of_forall_mem hincrements fun c hc => ?_
    obtain ⟨e, he, rfl⟩ := List.mem_map.mp hc
    obtain ⟨hmem, hincrement⟩ := List.mem_filter.mp he
    have hop := hk.op_of_mem hmem
    rcases hcounts.ones _ _ hop with hcurrent | hone
    · simp [isIncrement, hcurrent] at hincrement
    · exact (hanswered _).mpr (hcounts.answered _ _ (hone ▸ hop))
  rw [List.length_map, ← List.countP_eq_length_filter] at hlow hhigh
  rw [hk.value_of_ones hcounts.ones, ← hlength, ← hlength']
  exact ⟨min_le_min_left _ hlow, min_le_min_left _ hhigh⟩

/-- A call on `successes` reads it, or counts an accepted send. -/
theorem CallInv.successes_op {q : QueuePc} {k f : Counter.Pc} {pc : Pc} {op : Counter.Op} (h : CallInv q k f pc)
    (hop : k.op = some op) : op = .current ∨ op = .increment 1 ∧ pc ≠ .direct ∧ Answered q .accepted := by
  have hidle : k = .idle → op = .current ∨ op = .increment 1 ∧ pc ≠ .direct ∧ Answered q .accepted := fun hk => by
    rw [hk] at hop
    cases hop
  cases pc with
  | idle => exact hidle h.2.1
  | sending payload => exact hidle h.2.1
  | counting result =>
    cases result with
    | accepted => exact .inr ⟨Option.some.inj (hop.symm.trans h.2.1), by simp, h.1⟩
    | full n => exact hidle h.2.1
  | readingSuccesses => exact .inl (Option.some.inj (hop.symm.trans h.2.1))
  | readingFailures successes =>
    rw [h.2.1] at hop
    exact .inl (Option.some.inj hop).symm
  | returned output =>
    rcases output with (error | (_ | n)) | (error | counts)
    · exact h.elim
    · obtain ⟨hq, ⟨r, hk⟩, -⟩ := h
      rw [hk] at hop
      exact .inr ⟨(Option.some.inj hop).symm, by simp, hq⟩
    · exact hidle h.2.1
    · exact h.elim
    · rw [h.2.1] at hop
      exact .inl (Option.some.inj hop).symm
  | panicked => exact h.elim
  | direct => exact hidle h.1

/-- A call on `failures` reads it, or counts a refused send. -/
theorem CallInv.failures_op {q : QueuePc} {k f : Counter.Pc} {pc : Pc} {op : Counter.Op} (h : CallInv q k f pc)
    (hop : f.op = some op) :
    op = .current ∨ op = .increment 1 ∧ pc ≠ .direct ∧ ∃ n, Answered q (.full n) := by
  have hidle : f = .idle → op = .current ∨ op = .increment 1 ∧ pc ≠ .direct ∧ ∃ n, Answered q (.full n) := fun hf => by
    rw [hf] at hop
    cases hop
  cases pc with
  | idle => exact hidle h.2.2
  | sending payload => exact hidle h.2.2
  | counting result =>
    cases result with
    | accepted => exact hidle h.2.2
    | full n => exact .inr ⟨Option.some.inj (hop.symm.trans h.2.2), by simp, n, h.1⟩
  | readingSuccesses => exact hidle h.2.2
  | readingFailures successes => exact .inl (Option.some.inj (hop.symm.trans h.2.2))
  | returned output =>
    rcases output with (error | (_ | n)) | (error | counts)
    · exact h.elim
    · exact hidle h.2.2
    · obtain ⟨hq, -, r, hf⟩ := h
      rw [hf] at hop
      exact .inr ⟨(Option.some.inj hop).symm, by simp, n, hq⟩
    · exact h.elim
    · rw [h.2.2] at hop
      exact .inl (Option.some.inj hop).symm
  | panicked => exact h.elim
  | direct => exact hidle h.2

def isRefused (result : QueueSendResult) : Bool := !isAccepted result

theorem Inv.counts_successes (hi : Inv capacity s) : Counts isAccepted s s.successes where
  reaches := hi.successes
  ones c op hop := ((hi.calls c).successes_op hop).imp_right And.left
  counted c h := by
    obtain ⟨r, hr, hc⟩ := h
    have hcall : CallInv _ _ _ (.returned (.sendObserved (.ok r))) := hc ▸ hi.calls c
    cases r with
    | accepted => exact hcall.2.1
    | full n => cases hr
  answered c amount hop := by
    rcases (hi.calls c).successes_op hop with hcurrent | ⟨-, hne, hq⟩
    · cases hcurrent
    · exact ⟨hne, _, rfl, hq⟩

theorem Inv.counts_failures (hi : Inv capacity s) : Counts isRefused s s.failures where
  reaches := hi.failures
  ones c op hop := ((hi.calls c).failures_op hop).imp_right And.left
  counted c h := by
    obtain ⟨r, hr, hc⟩ := h
    have hcall : CallInv _ _ _ (.returned (.sendObserved (.ok r))) := hc ▸ hi.calls c
    cases r with
    | accepted => cases hr
    | full n => exact hcall.2.2
  answered c amount hop := by
    rcases (hi.calls c).failures_op hop with hcurrent | ⟨-, hne, n, hq⟩
    · cases hcurrent
    · exact ⟨hne, _, rfl, hq⟩

/-- When no call of the component is in flight, as many sends have returned as the queue has answered. -/
theorem Inv.returned_eq_answered (hi : Inv capacity s) (hstill : ∀ c, (s.calls c).inFlight = false)
    (result : QueueSendResult → Bool) : s.returned result = s.answered result := by
  obtain ⟨returned, hnodup, hlength, hreturned⟩ := hi.exists_returned result
  obtain ⟨answered, hnodup', hlength', hanswered⟩ := hi.exists_answered result
  rw [← hlength, ← hlength']
  refine Nat.le_antisymm (length_le_of_forall_mem hnodup fun c hc => ?_)
    (length_le_of_forall_mem hnodup' fun c hc => ?_)
  · exact (hanswered c).mpr (hi.answeredAs_of_returned ((hreturned c).mp hc))
  · exact (hreturned c).mpr (hi.returned_of_answeredAs hstill ((hanswered c).mp hc))

/-- Two sends overlap on a queue of one, and a consumer takes the message. -/
def busyRun : List Action :=
  [.invoke 0 (.sendObserved [1]), .invoke 1 (.sendObserved [2])] ++ List.replicate 6 (.queue 0) ++
    List.replicate 5 (.queue 1) ++ [.resume 0, .resume 1, .successes 0, .failures 1, .successes 0, .failures 1,
      .successes 0, .failures 1, .successes 0, .failures 1, .resume 0, .direct 2 .tryReceive] ++
    List.replicate 6 (.queue 2) ++ [.resume 1]

def busy : State := (run (step 1) .init busyRun).get rfl

theorem run_busy : run (step 1) .init busyRun = some busy := rfl

/-- At every point of every run, however the calls of the component and the other users of its queue overlap, each
    counter stands between the sends that have returned with its result and those that the queue has answered with it,
    up to `u64::MAX`; so it is exact once no call is in flight. No call of the component fails or panics. -/
theorem counters_account (as : List Action) (hrun : run (step capacity) .init as = some s) :
    (min u64Max (s.returned isAccepted) ≤ s.successes.value.toNat ∧
        s.successes.value.toNat ≤ min u64Max (s.answered isAccepted)) ∧
      (min u64Max (s.returned isRefused) ≤ s.failures.value.toNat ∧
        s.failures.value.toNat ≤ min u64Max (s.answered isRefused)) ∧
      ((∀ c, (s.calls c).inFlight = false) →
        s.returned isAccepted = s.answered isAccepted ∧ s.returned isRefused = s.answered isRefused) ∧
      ∀ c, s.calls c ≠ .panicked ∧ ∀ error, s.calls c ≠ .returned (.sendObserved (.error error)) ∧
        s.calls c ≠ .returned (.observedCounts (.error error)) := by
  have hi : Inv capacity s := Inv.of_reaches ⟨as, hrun⟩
  refine ⟨hi.value_bounds hi.counts_successes, hi.value_bounds hi.counts_failures,
    fun hstill => ⟨hi.returned_eq_answered hstill _, hi.returned_eq_answered hstill _⟩, fun c => ?_⟩
  have hcall := hi.calls c
  refine ⟨fun hc => ?_, fun error => ⟨fun hc => ?_, fun hc => ?_⟩⟩
  all_goals
    rw [hc] at hcall
    exact hcall.elim

theorem counters_account_busy :
    (min u64Max (busy.returned isAccepted) ≤ busy.successes.value.toNat ∧
        busy.successes.value.toNat ≤ min u64Max (busy.answered isAccepted)) ∧
      min u64Max (busy.returned isRefused) ≤ busy.failures.value.toNat ∧
        busy.failures.value.toNat ≤ min u64Max (busy.answered isRefused) :=
  have h := counters_account busyRun run_busy
  ⟨h.1, h.2.1⟩

/-- When the queue is at rest and no other party has sent to it, the queue has answered as many sends of the component
    with `Accepted` as messages have been received or are in the queue. -/
theorem Inv.answered_eq (hi : Inv capacity s) (hqueue : ∀ c, (s.queue.calls c).inFlight = false)
    (hdirect : ∀ c payload, s.calls c = .direct → (s.queue.calls c).op ≠ some (.send payload)) :
    s.answered isAccepted = (completed s.queue.history).countP isReceive + s.queue.guarded.value.length := by
  obtain ⟨es, hl⟩ := Locked.Inv.of_reaches hi.queue
  have hconserved := Legal.conserved hl.points.legal rfl
  have hperm := hl.perm_completed hqueue
  rw [hl.settled_eq hqueue, List.length_nil, Nat.zero_add, hperm.countP_eq, hperm.countP_eq] at hconserved
  rw [← hconserved, State.answered, countP_respond _ fun _ _ => rfl]
  refine List.countP_congr fun e he => ?_
  rw [answers_eq_true]
  have hreturned := hl.respond_iff.mp (mem_completed.mp he)
  constructor
  · rintro ⟨c, call, r, heq, -, hr⟩
    cases r with
    | accepted => simp [isSend, (Linearizability.Event.respond.inj heq).2.2]
    | full n => cases hr
  · intro hsend
    unfold isSend at hsend
    split at hsend
    · rename_i hret
      rw [hret] at hreturned
      obtain ⟨g, g', hspec⟩ := hl.points.legal.exists_spec (hl.points.complete e he)
      rw [hret] at hspec
      obtain ⟨payload, hop⟩ := call_of_spec hspec
      refine ⟨e.call, e.op, _, by rw [hret], fun hc => ?_, rfl⟩
      exact hdirect e.call payload hc (by rw [hreturned, ← hop]; rfl)
    · cases hsend

/-- With the component and the queue at rest, and no other party sending, `successes` is the number of messages that
    have been received or are in the queue, up to `u64::MAX`. -/
theorem successes_conserved (as : List Action) (hrun : run (step capacity) .init as = some s)
    (hstill : ∀ c, (s.calls c).inFlight = false) (hqueue : ∀ c, (s.queue.calls c).inFlight = false)
    (hdirect : ∀ c payload, s.calls c = .direct → (s.queue.calls c).op ≠ some (.send payload)) :
    s.successes.value.toNat =
      min u64Max ((completed s.queue.history).countP isReceive + s.queue.guarded.value.length) := by
  have hi : Inv capacity s := Inv.of_reaches ⟨as, hrun⟩
  obtain ⟨hlow, hhigh⟩ := hi.value_bounds hi.counts_successes
  rw [hi.returned_eq_answered hstill] at hlow
  rw [← hi.answered_eq hqueue hdirect]
  exact Nat.le_antisymm hhigh hlow

theorem successes_conserved_busy :
    busy.successes.value.toNat =
      min u64Max ((completed busy.queue.history).countP isReceive + busy.queue.guarded.value.length) := by
  refine successes_conserved busyRun run_busy (fun c => ?_) (fun c => ?_) fun c payload => ?_
  · match c with
    | 0 | 1 | 2 => rfl
    | _ + 3 => rfl
  · match c with
    | 0 | 1 | 2 => rfl
    | _ + 3 => rfl
  · match c with
    | 0 | 1 => exact fun h => nomatch h
    | 2 => exact fun _ h => nomatch h
    | _ + 3 => exact fun h => nomatch h

/-! ### Reading the counters -/

/-- The counters of `t` are those of `s` after some more steps. -/
structure Extends (s t : State) : Prop where
  successes : Reaches Counter.step s.successes t.successes
  failures : Reaches Counter.step s.failures t.failures

theorem Extends.refl (s : State) : Extends s s := ⟨.refl _, .refl _⟩

theorem Extends.trans (s t u : State) (h : Extends s t) (h' : Extends t u) : Extends s u :=
  ⟨h.successes.trans h'.successes, h.failures.trans h'.failures⟩

theorem extends_of_eq {t u : State} (h : some u = some t) (hs : u.successes = s.successes)
    (hf : u.failures = s.failures) :
    Extends s t := by
  obtain rfl := Option.some.inj h
  exact ⟨hs ▸ .refl _, hf ▸ .refl _⟩

theorem extends_stepQueue {t : State} {a : Locked.Action Nat Queue.Call} (h : s.stepQueue capacity a = some t) :
    Extends s t := by
  obtain ⟨-, ht⟩ := stepQueue_eq_some h
  rw [ht]
  exact ⟨.refl _, .refl _⟩

theorem extends_stepSuccesses {t : State} {a : Counter.Action} (h : s.stepSuccesses a = some t) : Extends s t := by
  obtain ⟨hstep, ht⟩ := stepSuccesses_eq_some h
  rw [ht]
  exact ⟨.single hstep, .refl _⟩

theorem extends_stepFailures {t : State} {a : Counter.Action} (h : s.stepFailures a = some t) : Extends s t := by
  obtain ⟨hstep, ht⟩ := stepFailures_eq_some h
  rw [ht]
  exact ⟨.refl _, .single hstep⟩

theorem extends_resume {t : State} {c : Nat} (h : s.resume c = some t) : Extends s t := by
  unfold State.resume at h
  split at h
  · split at h
    · rename_i result _
      cases result with
      | accepted =>
        have hext := extends_stepSuccesses h
        exact ⟨hext.successes, hext.failures⟩
      | full n =>
        have hext := extends_stepFailures h
        exact ⟨hext.successes, hext.failures⟩
    · exact extends_of_eq h rfl rfl
    · cases h
  · split at h
    · exact extends_of_eq h rfl rfl
    · exact extends_of_eq h rfl rfl
    · cases h
  · split at h
    · have hext := extends_stepFailures h
      exact ⟨hext.successes, hext.failures⟩
    · exact extends_of_eq h rfl rfl
    · cases h
  · split at h
    · exact extends_of_eq h rfl rfl
    · exact extends_of_eq h rfl rfl
    · cases h
  · cases h

theorem extends_step {a : Action} {t : State} (h : step capacity s a = some t) : Extends s t := by
  cases a with
  | queue c => exact extends_stepQueue h
  | successes c => exact extends_stepSuccesses h
  | failures c => exact extends_stepFailures h
  | resume c => exact extends_resume h
  | direct c call =>
    simp only [step] at h
    split at h
    · have hext := extends_stepQueue h
      exact ⟨hext.successes, hext.failures⟩
    · cases h
  | invoke c op =>
    simp only [step, State.invoke] at h
    split at h
    · cases op with
      | sendObserved payload =>
        have hext := extends_stepQueue h
        exact ⟨hext.successes, hext.failures⟩
      | observedCounts =>
        have hext := extends_stepSuccesses h
        exact ⟨hext.successes, hext.failures⟩
    · cases h

/-- What `observed_counts` returns lies, for each counter, between its values when the call was made and when it
    returned. -/
theorem counts_between {t : State} {c : Nat} {counts : ObservedQueueCounts} (as bs : List Action)
    (hrun : run (step capacity) .init as = some s) (hidle : s.calls c = .idle)
    (hlater : run (step capacity) s bs = some t) (hreturned : t.calls c = .returned (.observedCounts (.ok counts))) :
    (s.successes.value.toNat ≤ counts.successes.toNat ∧ counts.successes.toNat ≤ t.successes.value.toNat) ∧
      (s.failures.value.toNat ≤ counts.failures.toNat ∧ counts.failures.toNat ≤ t.failures.value.toNat) := by
  have hi : Inv capacity s := Inv.of_reaches ⟨as, hrun⟩
  have hstart : CallInv _ _ _ .idle := hidle ▸ hi.calls c
  have hi' : Inv capacity t := Inv.of_reaches (Reaches.trans ⟨as, hrun⟩ ⟨bs, hlater⟩)
  have hend : CallInv _ _ _ (.returned (.observedCounts (.ok counts))) := hreturned ▸ hi'.calls c
  have hext : Extends s t := Reaches.relates (I := fun _ => True) (R := Extends) (fun _ _ _ _ _ => trivial)
    (fun _ _ _ _ h => extends_step h) Extends.refl Extends.trans ⟨bs, hlater⟩ trivial
  refine ⟨loaded_between hi.successes hstart.2.1 hext.successes ?_,
    loaded_between hi.failures hstart.2.2 hext.failures ?_⟩
  · rw [hend.2.1]
    rfl
  · rw [hend.2.2]
    rfl

/-- The counters are read after that. -/
def readRun : List Action :=
  [.invoke 3 .observedCounts, .successes 3, .successes 3, .resume 3, .failures 3, .failures 3, .resume 3]

theorem counts_between_busy :
    ∃ t, run (step 1) busy readRun = some t ∧ t.calls 3 = .returned (.observedCounts (.ok ⟨1, 1⟩)) ∧
      (busy.successes.value.toNat ≤ (1 : UInt64).toNat ∧ (1 : UInt64).toNat ≤ t.successes.value.toNat) ∧
        (busy.failures.value.toNat ≤ (1 : UInt64).toNat ∧ (1 : UInt64).toNat ≤ t.failures.value.toNat) :=
  ⟨_, rfl, rfl, counts_between (c := 3) busyRun readRun run_busy rfl rfl
    (rfl : _ = Pc.returned (.observedCounts (.ok ⟨1, 1⟩)))⟩

end

end Fabric.ObservedQueue
