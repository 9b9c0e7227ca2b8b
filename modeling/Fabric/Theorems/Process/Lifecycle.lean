import Fabric.Process.Lifecycle
import Fabric.Library.Transition

/-! Whether the lifecycle errors of the process runtime are honest. An operation that looks for the reason between the
    two stores of the stop is told that the runtime has not started. -/

namespace Fabric.Process.Lifecycle
open Transition

/-- What the returned operations were told: after the start none that it had not started, and after the stop each
    that it was stopped. -/
structure Honest (s : State) : Prop where
  started : ∀ i operation, s.operations i = some operation → operation.afterStart = true →
    operation.pc ≠ .returned (some .notStarted)
  stopped : ∀ i operation refusal, s.operations i = some operation → operation.afterStop = true →
    operation.pc = .returned refusal → refusal = some .stopped

/-- No operation that began after the start loads `stopped` between the two stores of the stop. -/
def Orderly (s : State) : Action → Prop
  | .operation i => ∀ operation ∈ s.operations i, operation.afterStart = true → operation.pc = .loadStopped →
      s.lifecycle ≠ .stopStopped
  | _ => True

instance (s : State) (act : Action) : Decidable (Orderly s act) := by
  unfold Orderly
  split <;> infer_instance

/-- What holds of an operation at each of its steps. -/
structure Fine (lifecycle : LifecyclePc) (operation : Operation) : Prop where
  begun : operation.afterStart = true → lifecycle.startReturned = true
  ended : operation.afterStop = true → lifecycle = .stopped ∧ operation.pc ≠ .execute ∧
    ∀ refusal, operation.pc = .returned refusal → refusal = some .stopped
  looking : operation.afterStart = true → operation.pc = .loadStopped → lifecycle ≠ .started

structure Inv (s : State) : Prop where
  live : s.live = decide (s.lifecycle = .started)
  stopped : s.stopped = decide (s.lifecycle = .stopped)
  operations : ∀ i operation, s.operations i = some operation → Fine s.lifecycle operation

theorem Inv.initial : Inv .initial := ⟨rfl, rfl, nofun⟩

section
variable {s t : State}

/-! ### What a step does -/

theorem lifecycleStep_cases (hs : s.lifecycleStep = some t) :
    (s.lifecycle = .created ∧ t = { s with stopped := false, lifecycle := .startLive }) ∨
      (s.lifecycle = .startLive ∧ t = { s with live := true, lifecycle := .started }) ∨
      (s.lifecycle = .started ∧ t = { s with live := false, lifecycle := .stopStopped }) ∨
      (s.lifecycle = .stopStopped ∧ t = { s with stopped := true, lifecycle := .stopped }) := by
  unfold State.lifecycleStep at hs
  split at hs <;> rename_i hpc <;> cases hs <;> simp [hpc]

/-- A step of the lifecycle leaves the operations alone, and a returned start stays returned. -/
theorem lifecycleStep_frame (hs : s.lifecycleStep = some t) : t.operations = s.operations ∧ s.lifecycle ≠ .stopped ∧
    (s.lifecycle.startReturned = true → t.lifecycle.startReturned = true ∧ t.lifecycle ≠ .started) := by
  rcases lifecycleStep_cases hs with ⟨hpc, rfl⟩ | ⟨hpc, rfl⟩ | ⟨hpc, rfl⟩ | ⟨hpc, rfl⟩ <;>
    simp [hpc, LifecyclePc.startReturned]

theorem Inv.lifecycle (hi : Inv s) (hs : s.lifecycleStep = some t) : Inv t := by
  obtain ⟨hoperations, hnot, hreturned⟩ := lifecycleStep_frame hs
  have hflags : t.live = decide (t.lifecycle = .started) ∧ t.stopped = decide (t.lifecycle = .stopped) := by
    have hlive := hi.live
    have hstopped := hi.stopped
    rcases lifecycleStep_cases hs with ⟨hpc, rfl⟩ | ⟨hpc, rfl⟩ | ⟨hpc, rfl⟩ | ⟨hpc, rfl⟩ <;> simp_all
  refine ⟨hflags.1, hflags.2, fun i operation hoperation => ?_⟩
  obtain ⟨hbegun, hended, -⟩ := hi.operations i operation (hoperations ▸ hoperation)
  exact ⟨fun h => (hreturned (hbegun h)).1, fun h => absurd (hended h).1 hnot, fun h _ => (hreturned (hbegun h)).2⟩

/-- A step of an operation moves it and changes nothing else. -/
theorem operation_frame {i : Nat} (hs : step s (.operation i) = some t) : ∃ operation pc,
    s.operations i = some operation ∧ s.operationStep operation.pc = some pc ∧
      t = s.setOperation i { operation with pc } := by
  obtain ⟨operation, hoperation, hstep⟩ := Option.bind_eq_some_iff.mp hs
  obtain ⟨pc, hpc, rfl⟩ := Option.map_eq_some_iff.mp hstep
  exact ⟨operation, pc, hoperation, hpc, rfl⟩

/-- Where an operation stands after a step. -/
theorem operationStep_cases {pc pc' : OperationPc} (h : s.operationStep pc = some pc') :
    (pc = .loadLive ∧ pc' = if s.live then .execute else .loadStopped) ∨
      (pc = .loadStopped ∧ pc' = .returned (some (if s.stopped then .stopped else .notStarted))) ∨
      (pc = .execute ∧ pc' = .returned none) := by
  cases pc with
  | loadLive => exact .inl ⟨rfl, (Option.some.inj h).symm⟩
  | loadStopped => exact .inr (.inl ⟨rfl, (Option.some.inj h).symm⟩)
  | execute => exact .inr (.inr ⟨rfl, (Option.some.inj h).symm⟩)
  | returned refusal => cases h

theorem Inv.operation (hi : Inv s) {i : Nat} (hs : step s (.operation i) = some t) : Inv t := by
  obtain ⟨operation, pc, hoperation, hpc, rfl⟩ := operation_frame hs
  have hfine := hi.operations i operation hoperation
  refine ⟨hi.live, hi.stopped, fun j other hother => ?_⟩
  rcases State.setOperation_eq_some.mp hother with ⟨-, rfl⟩ | ⟨-, hother⟩
  · rcases operationStep_cases hpc with ⟨hat, rfl⟩ | ⟨hat, rfl⟩ | ⟨hat, rfl⟩
    · refine ⟨hfine.begun, fun h => ⟨(hfine.ended h).1, ?_, ?_⟩, fun h hlooking hstarted => ?_⟩
      · simp [hi.live, (hfine.ended h).1]
      · simp [hi.live, (hfine.ended h).1]
      · have hlive : s.live = true := hi.live.trans (decide_eq_true hstarted)
        simp [hlive] at hlooking
    · refine ⟨hfine.begun, fun h => ⟨(hfine.ended h).1, nofun, ?_⟩, nofun⟩
      simp [hi.stopped, (hfine.ended h).1]
    · exact ⟨hfine.begun, fun h => absurd hat (hfine.ended h).2.1, nofun⟩
  · exact hi.operations j other hother

/-- A call adds an operation that is about to load `live`. -/
theorem call_frame {i : Nat} (hs : step s (.call i) = some t) : s.operations i = none ∧
    t = s.setOperation i ⟨.loadLive, s.lifecycle.startReturned, decide (s.lifecycle = .stopped)⟩ := by
  simp only [step] at hs
  split at hs
  · rename_i hnone
    exact ⟨hnone, (Option.some.inj hs).symm⟩
  · cases hs

theorem Inv.call (hi : Inv s) {i : Nat} (hs : step s (.call i) = some t) : Inv t := by
  obtain ⟨hnone, rfl⟩ := call_frame hs
  refine ⟨hi.live, hi.stopped, fun j other hother => ?_⟩
  rcases State.setOperation_eq_some.mp hother with ⟨-, rfl⟩ | ⟨-, hother⟩
  · exact ⟨id, fun h => ⟨of_decide_eq_true h, nofun, nofun⟩, nofun⟩
  · exact hi.operations j other hother

theorem Inv.kept (hi : Inv s) {act : Action} (hs : step s act = some t) : Inv t := by
  cases act with
  | lifecycle => exact hi.lifecycle hs
  | call i => exact hi.call hs
  | operation i => exact hi.operation hs

/-! ### Honest runs -/

theorem Inv.honest (hi : Inv s) (hstarted : ∀ i operation, s.operations i = some operation →
    operation.afterStart = true → operation.pc ≠ .returned (some .notStarted)) : Honest s :=
  ⟨hstarted, fun i operation refusal hoperation hafter =>
    ((hi.operations i operation hoperation).ended hafter).2.2 refusal⟩

/-- What an operation was told does not change. -/
theorem returned_kept {i : Nat} {operation : Operation} {refusal : Option ProcessExecutionError}
    (hoperation : s.operations i = some operation) (hpc : operation.pc = .returned refusal) {act : Action}
    (hs : step s act = some t) : t.operations i = some operation := by
  cases act with
  | lifecycle => rw [(lifecycleStep_frame hs).1, hoperation]
  | call j =>
    obtain ⟨hnone, rfl⟩ := call_frame hs
    refine State.setOperation_eq_some.mpr (.inr ⟨fun hij => ?_, hoperation⟩)
    cases (hij ▸ hoperation).symm.trans hnone
  | operation j =>
    obtain ⟨other, pc, hother, hstep, rfl⟩ := operation_frame hs
    refine State.setOperation_eq_some.mpr (.inr ⟨fun hij => ?_, hoperation⟩)
    obtain rfl := Option.some.inj ((hij ▸ hoperation).symm.trans hother)
    rw [hpc] at hstep
    cases hstep

/-- An operation that is told that the runtime has not started was told before, or looks for the reason in this
    step. -/
theorem notStarted_cases (hi : Inv s) {act : Action} (hs : step s act = some t) {i : Nat} {operation : Operation}
    (hoperation : t.operations i = some operation) (hpc : operation.pc = .returned (some .notStarted)) :
    s.operations i = some operation ∨ ∃ before, act = .operation i ∧ s.operations i = some before ∧
      before.pc = .loadStopped ∧ before.afterStart = operation.afterStart ∧ s.lifecycle ≠ .stopped := by
  cases act with
  | lifecycle => exact .inl ((lifecycleStep_frame hs).1 ▸ hoperation)
  | call j =>
    obtain ⟨-, rfl⟩ := call_frame hs
    rcases State.setOperation_eq_some.mp hoperation with ⟨-, rfl⟩ | ⟨-, hoperation⟩
    · cases hpc
    · exact .inl hoperation
  | operation j =>
    obtain ⟨before, pc, hbefore, hstep, rfl⟩ := operation_frame hs
    rcases State.setOperation_eq_some.mp hoperation with ⟨rfl, rfl⟩ | ⟨-, hoperation⟩
    · refine .inr ⟨before, rfl, hbefore, ?_⟩
      rcases operationStep_cases hstep with ⟨hat, rfl⟩ | ⟨hat, rfl⟩ | ⟨hat, rfl⟩
      · cases hlive : s.live <;> simp [hlive] at hpc
      · refine ⟨hat, rfl, fun hstopped => ?_⟩
        simp [hi.stopped, hstopped, ProcessExecutionError.stopped, ProcessExecutionError.notStarted] at hpc
      · simp at hpc
    · exact .inl hoperation

theorem Honest.kept (h : Honest s) (hi : Inv s) {act : Action} (horderly : Orderly s act)
    (hs : step s act = some t) : Honest t := by
  refine (hi.kept hs).honest fun i operation hoperation hafter hpc => ?_
  rcases notStarted_cases hi hs hoperation hpc with hbefore | ⟨before, rfl, hbefore, hat, hsame, hnot⟩
  · exact h.started i operation hbefore hafter hpc
  · have hafter : before.afterStart = true := hsame.trans hafter
    have hfine := hi.operations i before hbefore
    have hbegun := hfine.begun hafter
    have hstarted := hfine.looking hafter hat
    have hbetween := horderly before hbefore hafter hat
    cases hpc : s.lifecycle <;> simp_all [LifecyclePc.startReturned]

/-- A load of `stopped` between the two stores of the stop. -/
theorem not_honest_of_not_orderly (hi : Inv s) {act : Action} (horderly : ¬Orderly s act)
    (hs : step s act = some t) : ¬Honest t := by
  cases act with
  | lifecycle => exact absurd trivial horderly
  | call i => exact absurd trivial horderly
  | operation i =>
    simp only [Orderly, not_forall, not_not] at horderly
    obtain ⟨operation, hoperation, hafter, hat, hbetween⟩ := horderly
    obtain ⟨operation', pc, hoperation', hstep, rfl⟩ := operation_frame hs
    obtain rfl := Option.some.inj (hoperation.symm.trans hoperation')
    have htold : pc = .returned (some .notStarted) := by
      rw [hat] at hstep
      simpa [State.operationStep, hi.stopped, hbetween, eq_comm] using hstep
    intro hhonest
    exact hhonest.started i _ (State.setOperation_eq_some.mpr (.inl ⟨rfl, rfl⟩)) hafter htold

theorem not_honest_kept (hi : Inv s) (h : ¬Honest s) {act : Action} (hs : step s act = some t) : ¬Honest t := by
  intro ht
  refine h (hi.honest fun i operation hoperation hafter hpc => ?_)
  exact ht.started i operation (returned_kept hoperation hpc hs) hafter hpc

end

/-- The errors are honest exactly along the runs that avoid the gap between the two stores of the stop. -/
theorem honest_iff_orderly {as : List Action} {s : State} (hrun : run step .initial as = some s) :
    Honest s ↔ Meets step Orderly .initial as :=
  run_iff_meets (fun _ _ _ hi hs => hi.kept hs) (fun _ _ _ hi ho hg hs => hg.kept hi ho hs)
    (fun _ _ _ hi ho hs => not_honest_of_not_orderly hi ho hs) (fun _ _ _ hi hn hs => not_honest_kept hi hn hs)
    .initial ⟨nofun, nofun⟩ hrun

/-- An operation loads both flags between the two stores of the stop. -/
def gapRun : List Action := [.lifecycle, .lifecycle, .call 0, .lifecycle, .operation 0, .operation 0]

end Fabric.Process.Lifecycle
