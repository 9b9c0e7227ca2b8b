import Fabric.Sqlite.State
import Fabric.Theorems.Process.Lifecycle

/-! Whether the lifecycle errors of the database are honest while its generation stops. An operation is told that the
    database has not started where it looks for the reason between the two stores of the stop, and where it looks for
    the connection after the stop has taken it. -/

namespace Fabric.Sqlite
open Transition

/-- What the returned operations were told, and what the running bodies run on. -/
structure Honest (s : State) : Prop where
  started : ∀ i operation, s.operations i = some operation → operation.afterStart = true →
    operation.pc ≠ .returned (some .notStarted)
  stopped : ∀ i operation, s.operations i = some operation → operation.afterStop = true →
    operation.pc ≠ .panicked ∧ ∀ refusal, operation.pc = .returned refusal → refusal = some .stopped
  body : ∀ i operation connection, s.operations i = some operation → operation.pc = .body connection →
    s.connection = some connection ∧ s.taken ≠ some connection

/-- No operation that began after the start loads `stopped` between the two stores of the stop, or looks for the
    connection once the stop has taken it. -/
def Orderly (s : State) : Action → Prop
  | .operation i _ => ∀ operation ∈ s.operations i, operation.afterStart = true →
      (operation.pc = .loadStopped → s.lifecycle ≠ .stopStopped) ∧ (operation.pc = .guard → s.taken = none)
  | _ => True

instance (s : State) (act : Action) : Decidable (Orderly s act) := by
  unfold Orderly
  split <;> infer_instance

/-! ### The invariant -/

/-- `stop` has stored `stopped`. -/
def LifecyclePc.stopStored : LifecyclePc → Bool
  | .stopLock | .stopTake | .stopClose | .stopped => true
  | _ => false

/-- `mark_started` has put the connection under the lock. -/
def LifecyclePc.connected : LifecyclePc → Bool
  | .created | .startSet | .startFailed => false
  | _ => true

/-- Where the connection is. -/
structure Stored (connection taken : Option Nat) (lifecycle : LifecyclePc) : Prop where
  moved : taken ≠ none → connection = none
  untaken : lifecycle ≠ .stopClose → lifecycle ≠ .stopped → taken = none
  present : lifecycle.connected = true → taken = none → connection ≠ none

/-- An operation under the lock. -/
def OperationPc.holds : OperationPc → Bool
  | .guard | .body _ => true
  | _ => false

/-- What holds of an operation at each of its steps. -/
structure Fine (lifecycle : LifecyclePc) (operation : Operation) : Prop where
  begun : operation.afterStart = true → lifecycle.startReturned = true
  ended : operation.afterStop = true → lifecycle = .stopped ∧
    (operation.pc = .loadLive ∨ operation.pc = .loadStopped ∨ operation.pc = .returned (some .stopped))
  looking : operation.afterStart = true → operation.pc = .loadStopped → lifecycle ≠ .started

structure Inv (s : State) : Prop where
  live : s.live = decide (s.lifecycle = .started)
  stopped : s.stopped = s.lifecycle.stopStored
  stored : Stored s.connection s.taken s.lifecycle
  holder : s.lifecycle = .startSet ∨ s.lifecycle = .stopTake → s.lock = some .lifecycle
  held : ∀ i operation, s.operations i = some operation → operation.pc.holds = true → s.lock = some (.operation i)
  body : ∀ i operation connection, s.operations i = some operation → operation.pc = .body connection →
    s.connection = some connection
  operations : ∀ i operation, s.operations i = some operation → Fine s.lifecycle operation

theorem Inv.initial : Inv .initial :=
  ⟨rfl, rfl, ⟨fun _ => rfl, fun _ _ => rfl, nofun⟩, by simp [State.initial], nofun, nofun, nofun⟩

section
variable {s t : State}

/-! ### What a step does -/

/-- A step of the lifecycle. -/
inductive LifecycleStep (s : State) : State → Prop where
  | startFailed : s.lifecycle = .created → LifecycleStep s { s with lifecycle := .startFailed }
  | startLocks : s.lifecycle = .created → s.lock = none →
    LifecycleStep s { s with lock := some .lifecycle, lifecycle := .startSet }
  | startSet {connection : Nat} : s.lifecycle = .startSet →
    LifecycleStep s { s with connection := some connection, lock := none, lifecycle := .startStopped }
  | startStopped : s.lifecycle = .startStopped → LifecycleStep s { s with stopped := false, lifecycle := .startLive }
  | startLive : s.lifecycle = .startLive → LifecycleStep s { s with live := true, lifecycle := .started }
  | stopLive : s.lifecycle = .started → LifecycleStep s { s with live := false, lifecycle := .stopStopped }
  | stopStopped : s.lifecycle = .stopStopped → LifecycleStep s { s with stopped := true, lifecycle := .stopLock }
  | stopFailed : s.lifecycle = .stopLock → LifecycleStep s { s with lifecycle := .stopped }
  | stopLocks : s.lifecycle = .stopLock → s.lock = none →
    LifecycleStep s { s with lock := some .lifecycle, lifecycle := .stopTake }
  | stopTakes : s.lifecycle = .stopTake →
    LifecycleStep s { s with connection := none, taken := s.connection, lock := none, lifecycle := .stopClose }
  | stopCloses : s.lifecycle = .stopClose → LifecycleStep s { s with lifecycle := .stopped }

theorem lifecycleStep_cases {connection : Nat} (hs : s.lifecycleStep connection = some t) : LifecycleStep s t := by
  unfold State.lifecycleStep at hs
  split at hs <;> rename_i hpc
  · split at hs
    · rename_i hlock
      split at hs
      · exact Option.some.inj hs ▸ .startFailed hpc
      · exact Option.some.inj hs ▸ .startLocks hpc hlock
    · cases hs
  · exact Option.some.inj hs ▸ .startSet hpc
  · exact Option.some.inj hs ▸ .startStopped hpc
  · exact Option.some.inj hs ▸ .startLive hpc
  · exact Option.some.inj hs ▸ .stopLive hpc
  · exact Option.some.inj hs ▸ .stopStopped hpc
  · split at hs
    · rename_i hlock
      split at hs
      · exact Option.some.inj hs ▸ .stopFailed hpc
      · exact Option.some.inj hs ▸ .stopLocks hpc hlock
    · cases hs
  · exact Option.some.inj hs ▸ .stopTakes hpc
  · exact Option.some.inj hs ▸ .stopCloses hpc
  · cases hs
  · cases hs

/-- A step of the lifecycle leaves the operations alone, and a returned start stays returned. -/
theorem LifecycleStep.frame (h : LifecycleStep s t) : t.operations = s.operations ∧ s.lifecycle ≠ .stopped ∧
    (s.lifecycle.startReturned = true → t.lifecycle.startReturned = true ∧ t.lifecycle ≠ .started) := by
  cases h <;> rename_i hpc <;> simp_all [LifecyclePc.startReturned]

theorem Inv.flags (hi : Inv s) (h : LifecycleStep s t) :
    t.live = decide (t.lifecycle = .started) ∧ t.stopped = t.lifecycle.stopStored := by
  have hlive := hi.live
  have hstopped := hi.stopped
  cases h <;> rename_i hpc <;> simp_all [LifecyclePc.stopStored]

theorem Inv.storedKept (hi : Inv s) (h : LifecycleStep s t) : Stored t.connection t.taken t.lifecycle := by
  obtain ⟨hmoved, huntaken, hpresent⟩ := hi.stored
  cases h with
  | startSet hpc =>
    have htaken : s.taken = none := huntaken (by simp [hpc]) (by simp [hpc])
    exact ⟨fun h => absurd htaken h, fun _ _ => htaken, fun _ _ => nofun⟩
  | stopTakes hpc =>
    have htaken : s.taken = none := huntaken (by simp [hpc]) (by simp [hpc])
    have hconnection : s.connection ≠ none := hpresent (by rw [hpc]; rfl) htaken
    exact ⟨fun _ => rfl, fun h => absurd rfl h, fun _ h => absurd h hconnection⟩
  | startFailed hpc | startLocks hpc _ =>
    rw [hpc] at huntaken
    exact ⟨hmoved, fun _ _ => huntaken nofun nofun, nofun⟩
  | startStopped hpc | startLive hpc | stopLive hpc | stopStopped hpc | stopLocks hpc _ =>
    rw [hpc] at huntaken hpresent
    exact ⟨hmoved, fun _ _ => huntaken nofun nofun, fun _ => hpresent rfl⟩
  | stopFailed hpc | stopCloses hpc =>
    rw [hpc] at hpresent
    exact ⟨hmoved, fun _ h => absurd rfl h, fun _ => hpresent rfl⟩

/-- No operation is under the lock while the lock is free or the lifecycle holds it. -/
theorem Inv.alone (hi : Inv s) (hlock : s.lock = none ∨ s.lock = some .lifecycle) {i : Nat} {operation : Operation}
    (hoperation : s.operations i = some operation) : operation.pc.holds = false := by
  refine Bool.eq_false_iff.mpr fun hholds => ?_
  rw [hi.held i operation hoperation hholds] at hlock
  rcases hlock with hlock | hlock <;> cases hlock

theorem LifecycleStep.lock (h : LifecycleStep s t) (hi : Inv s) :
    (t.lifecycle = .startSet ∨ t.lifecycle = .stopTake → t.lock = some .lifecycle) ∧
      ((t.lock = s.lock ∧ t.connection = s.connection) ∨ s.lock = none ∨ s.lock = some .lifecycle) := by
  have hholder := hi.holder
  cases h with
  | startSet hpc => exact ⟨by simp, .inr (.inr (hholder (.inl hpc)))⟩
  | stopTakes hpc => exact ⟨by simp, .inr (.inr (hholder (.inr hpc)))⟩
  | startLocks hpc hlock | stopLocks hpc hlock => exact ⟨fun _ => rfl, .inr (.inl hlock)⟩
  | startFailed hpc | startStopped hpc | startLive hpc | stopLive hpc | stopStopped hpc | stopFailed hpc
    | stopCloses hpc => exact ⟨by simp, .inl ⟨rfl, rfl⟩⟩

/-- The mutex excludes: the lifecycle takes the lock and changes the connection only while no operation holds it. -/
theorem Inv.lockKept (hi : Inv s) (h : LifecycleStep s t) {i : Nat} {operation : Operation}
    (hoperation : s.operations i = some operation) (hholds : operation.pc.holds = true) :
    t.lock = some (.operation i) ∧ t.connection = s.connection := by
  rcases (h.lock hi).2 with ⟨hlock, hconnection⟩ | hfree
  · exact ⟨hlock.trans (hi.held i operation hoperation hholds), hconnection⟩
  · exact absurd hholds (Bool.eq_false_iff.mp (hi.alone hfree hoperation))

theorem Inv.lifecycle (hi : Inv s) (h : LifecycleStep s t) : Inv t := by
  obtain ⟨hoperations, hnot, hreturned⟩ := h.frame
  obtain ⟨hlive, hstopped⟩ := hi.flags h
  refine ⟨hlive, hstopped, hi.storedKept h, (h.lock hi).1, fun i operation hoperation hholds => ?_,
    fun i operation connection hoperation hpc => ?_, fun i operation hoperation => ?_⟩
  · exact (hi.lockKept h (hoperations ▸ hoperation) hholds).1
  · have hoperation := hoperations ▸ hoperation
    rw [(hi.lockKept h hoperation (by rw [hpc]; rfl)).2]
    exact hi.body i operation connection hoperation hpc
  · obtain ⟨hbegun, hended, -⟩ := hi.operations i operation (hoperations ▸ hoperation)
    exact ⟨fun h => (hreturned (hbegun h)).1, fun h => absurd (hended h).1 hnot, fun h _ => (hreturned (hbegun h)).2⟩

/-- Where a step takes an operation, and what becomes of the lock. -/
inductive Moves (s : State) (i : Nat) (request : Request) :
    OperationPc → OperationPc → Option Holder → Bool → Prop where
  | loadLive : Moves s i request .loadLive (if s.live then .lock else .loadStopped) s.lock s.poisoned
  | loadStopped : Moves s i request .loadStopped (.returned (some (if s.stopped then .stopped else .notStarted)))
      s.lock s.poisoned
  | poisoned : s.lock = none → Moves s i request .lock
      (.returned (some ⟨request.failureKind, "sqlite connection lock poisoned"⟩)) s.lock s.poisoned
  | locks : s.lock = none → Moves s i request .lock .guard (some (.operation i)) s.poisoned
  | present {connection : Nat} : s.connection = some connection →
      Moves s i request .guard (.body connection) s.lock s.poisoned
  | absent : s.connection = none → Moves s i request .guard (.returned (some .notStarted)) none s.poisoned
  | panics {connection : Nat} : Moves s i request (.body connection) .panicked none true
  | finishes {connection : Nat} : Moves s i request (.body connection) (.returned none) none s.poisoned

theorem operationStep_cases {i : Nat} {operation : Operation} {panics : Bool}
    (hs : s.operationStep i operation panics = some t) : ∃ pc lock poisoned,
      Moves s i operation.request operation.pc pc lock poisoned ∧
      t = { s with lock, poisoned }.setOperation i { operation with pc } := by
  unfold State.operationStep at hs
  split at hs <;> rename_i hpc <;> rw [hpc]
  · exact ⟨_, _, _, .loadLive, (Option.some.inj hs).symm⟩
  · exact ⟨_, _, _, .loadStopped, (Option.some.inj hs).symm⟩
  · split at hs
    · rename_i hlock
      split at hs
      · exact ⟨_, _, _, .poisoned hlock, (Option.some.inj hs).symm⟩
      · exact ⟨_, _, _, .locks hlock, (Option.some.inj hs).symm⟩
    · cases hs
  · split at hs
    · rename_i hconnection
      exact ⟨_, _, _, .present hconnection, (Option.some.inj hs).symm⟩
    · rename_i hconnection
      exact ⟨_, _, _, .absent hconnection, (Option.some.inj hs).symm⟩
  · split at hs
    · exact ⟨_, _, _, .panics, (Option.some.inj hs).symm⟩
    · exact ⟨_, _, _, .finishes, (Option.some.inj hs).symm⟩
  · cases hs
  · cases hs

/-- A step of an operation moves it, and changes nothing else but the lock. -/
theorem operation_frame {i : Nat} {panics : Bool} (hs : step s (.operation i panics) = some t) :
    ∃ operation pc lock poisoned, s.operations i = some operation ∧
      Moves s i operation.request operation.pc pc lock poisoned ∧
      t = { s with lock, poisoned }.setOperation i { operation with pc } := by
  obtain ⟨operation, hoperation, hstep⟩ := Option.bind_eq_some_iff.mp hs
  obtain ⟨pc, lock, poisoned, hmoves, rfl⟩ := operationStep_cases hstep
  exact ⟨operation, pc, lock, poisoned, hoperation, hmoves, rfl⟩

section
variable {i : Nat} {request : Request} {pc pc' : OperationPc} {lock : Option Holder} {poisoned : Bool}

/-- An operation under the lock holds it, and only takes or releases it for itself. -/
theorem Moves.holder (h : Moves s i request pc pc' lock poisoned)
    (hheld : pc.holds = true → s.lock = some (.operation i)) :
    (pc'.holds = true → lock = some (.operation i)) ∧
      (lock = s.lock ∨ s.lock = none ∨ s.lock = some (.operation i)) := by
  cases h with
  | loadLive => exact ⟨by cases s.live <;> nofun, .inl rfl⟩
  | loadStopped => exact ⟨nofun, .inl rfl⟩
  | poisoned hlock => exact ⟨nofun, .inl rfl⟩
  | locks hlock => exact ⟨fun _ => rfl, .inr (.inl hlock)⟩
  | present hconnection => exact ⟨fun _ => hheld rfl, .inl rfl⟩
  | absent hconnection => exact ⟨nofun, .inr (.inr (hheld rfl))⟩
  | panics => exact ⟨nofun, .inr (.inr (hheld rfl))⟩
  | finishes => exact ⟨nofun, .inr (.inr (hheld rfl))⟩

theorem Moves.body (h : Moves s i request pc pc' lock poisoned) {connection : Nat} (hpc : pc' = .body connection) :
    s.connection = some connection := by
  cases h with
  | loadLive => cases hlive : s.live <;> simp [hlive] at hpc
  | present hconnection =>
    cases hpc
    exact hconnection
  | loadStopped | poisoned _ | locks _ | absent _ | panics | finishes => cases hpc

end

theorem Fine.moves (hi : Inv s) {i : Nat} {operation : Operation} {pc : OperationPc} {lock : Option Holder}
    {poisoned : Bool} (h : Fine s.lifecycle operation)
    (hmoves : Moves s i operation.request operation.pc pc lock poisoned) :
    Fine s.lifecycle { operation with pc } := by
  obtain ⟨request, before, afterStart, afterStop⟩ := operation
  obtain ⟨hbegun, hended, hlooking⟩ := h
  cases hmoves with
  | loadLive =>
    refine ⟨hbegun, fun hafter => ⟨(hended hafter).1, .inr (.inl ?_)⟩, fun _ hpc hstarted => ?_⟩
    · simp [hi.live, (hended hafter).1]
    · simp [hi.live, hstarted] at hpc
  | loadStopped =>
    refine ⟨hbegun, fun hafter => ⟨(hended hafter).1, .inr (.inr ?_)⟩, fun _ => nofun⟩
    simp [hi.stopped, (hended hafter).1, LifecyclePc.stopStored]
  | poisoned _ | locks _ | present _ | absent _ | panics | finishes =>
    refine ⟨hbegun, fun hafter => ?_, fun _ => nofun⟩
    rcases (hended hafter).2 with hpc | hpc | hpc <;> cases hpc

theorem Inv.operation (hi : Inv s) {i : Nat} {panics : Bool} (hs : step s (.operation i panics) = some t) : Inv t := by
  obtain ⟨operation, pc, lock, poisoned, hoperation, hmoves, rfl⟩ := operation_frame hs
  obtain ⟨hheld, hlock⟩ := hmoves.holder (hi.held i operation hoperation)
  refine ⟨hi.live, hi.stopped, hi.stored, fun hpc => ?_, fun j other hother hholds => ?_,
    fun j other connection hother hbody => ?_, fun j other hother => ?_⟩
  · have hholder : s.lock = some .lifecycle := hi.holder hpc
    rw [hholder] at hlock
    rcases hlock with hlock | hlock | hlock
    · exact hlock
    · cases hlock
    · cases hlock
  · rcases State.setOperation_eq_some.mp hother with ⟨rfl, rfl⟩ | ⟨hij, hother⟩
    · exact hheld hholds
    · have hother' : s.lock = some (.operation j) := hi.held j other hother hholds
      rw [hother'] at hlock
      rcases hlock with hlock | hlock | hlock
      · exact hlock
      · cases hlock
      · cases hlock
        exact absurd rfl hij
  · rcases State.setOperation_eq_some.mp hother with ⟨rfl, rfl⟩ | ⟨-, hother⟩
    · exact hmoves.body hbody
    · exact hi.body j other connection hother hbody
  · rcases State.setOperation_eq_some.mp hother with ⟨rfl, rfl⟩ | ⟨-, hother⟩
    · exact (hi.operations j operation hoperation).moves hi hmoves
    · exact hi.operations j other hother

/-- A call adds an operation that is about to load `live`. -/
theorem call_frame {i : Nat} {request : Request} (hs : step s (.call i request) = some t) : s.operations i = none ∧
    t = s.setOperation i ⟨request, .loadLive, s.lifecycle.startReturned, decide (s.lifecycle = .stopped)⟩ := by
  simp only [step] at hs
  split at hs
  · rename_i hnone
    exact ⟨hnone, (Option.some.inj hs).symm⟩
  · cases hs

theorem Inv.call (hi : Inv s) {i : Nat} {request : Request} (hs : step s (.call i request) = some t) : Inv t := by
  obtain ⟨hnone, rfl⟩ := call_frame hs
  refine ⟨hi.live, hi.stopped, hi.stored, hi.holder, fun j other hother hholds => ?_,
    fun j other connection hother hbody => ?_, fun j other hother => ?_⟩
  · rcases State.setOperation_eq_some.mp hother with ⟨-, rfl⟩ | ⟨-, hother⟩
    · cases hholds
    · exact hi.held j other hother hholds
  · rcases State.setOperation_eq_some.mp hother with ⟨-, rfl⟩ | ⟨-, hother⟩
    · cases hbody
    · exact hi.body j other connection hother hbody
  · rcases State.setOperation_eq_some.mp hother with ⟨-, rfl⟩ | ⟨-, hother⟩
    · exact ⟨id, fun h => ⟨of_decide_eq_true h, .inl rfl⟩, nofun⟩
    · exact hi.operations j other hother

theorem Inv.kept (hi : Inv s) {act : Action} (hs : step s act = some t) : Inv t := by
  cases act with
  | lifecycle connection => exact hi.lifecycle (lifecycleStep_cases hs)
  | call i request => exact hi.call hs
  | operation i panics => exact hi.operation hs

/-! ### Honest runs -/

theorem Inv.honest (hi : Inv s) (hstarted : ∀ i operation, s.operations i = some operation →
    operation.afterStart = true → operation.pc ≠ .returned (some .notStarted)) : Honest s where
  started := hstarted
  stopped i operation hoperation hafter := by
    rcases ((hi.operations i operation hoperation).ended hafter).2 with hpc | hpc | hpc <;> simp [hpc]
  body i operation connection hoperation hpc := by
    have hconnection : s.connection = some connection := hi.body i operation connection hoperation hpc
    refine ⟨hconnection, fun htaken => ?_⟩
    have hnone : s.connection = none := hi.stored.moved (by simp [htaken])
    cases hconnection.symm.trans hnone

/-- What an operation was told does not change. -/
theorem returned_kept {i : Nat} {operation : Operation} {refusal : Option RelationalDatabaseError}
    (hoperation : s.operations i = some operation) (hpc : operation.pc = .returned refusal) {act : Action}
    (hs : step s act = some t) : t.operations i = some operation := by
  cases act with
  | lifecycle connection => rw [(lifecycleStep_cases hs).frame.1, hoperation]
  | call j request =>
    obtain ⟨hnone, rfl⟩ := call_frame hs
    refine State.setOperation_eq_some.mpr (.inr ⟨fun hij => ?_, hoperation⟩)
    cases (hij ▸ hoperation).symm.trans hnone
  | operation j panics =>
    obtain ⟨other, pc, lock, poisoned, hother, hmoves, rfl⟩ := operation_frame hs
    refine State.setOperation_eq_some.mpr (.inr ⟨fun hij => ?_, hoperation⟩)
    obtain rfl := Option.some.inj ((hij ▸ hoperation).symm.trans hother)
    rw [hpc] at hmoves
    cases hmoves

/-- The steps that tell an operation that the database has not started. -/
theorem Moves.notStarted_iff {i : Nat} {request : Request} {pc pc' : OperationPc} {lock : Option Holder}
    {poisoned : Bool} (h : Moves s i request pc pc' lock poisoned) :
    pc' = .returned (some .notStarted) ↔
      (pc = .loadStopped ∧ s.stopped = false) ∨ (pc = .guard ∧ s.connection = none) := by
  cases h with
  | loadLive => cases s.live <;> simp
  | loadStopped =>
    cases s.stopped <;> simp [RelationalDatabaseError.stopped, RelationalDatabaseError.notStarted]
  | poisoned hlock => cases request <;> simp [Request.failureKind, RelationalDatabaseError.notStarted]
  | present hconnection => simp [hconnection]
  | absent hconnection => simp [hconnection]
  | locks hlock | panics | finishes => simp

/-- An operation that is told that the database has not started was told before, or is told in this step. -/
theorem notStarted_cases {act : Action} (hs : step s act = some t) {i : Nat} {operation : Operation}
    (hoperation : t.operations i = some operation) (hpc : operation.pc = .returned (some .notStarted)) :
    s.operations i = some operation ∨ ∃ before panics, act = .operation i panics ∧ s.operations i = some before ∧
      before.afterStart = operation.afterStart ∧
      ((before.pc = .loadStopped ∧ s.stopped = false) ∨ (before.pc = .guard ∧ s.connection = none)) := by
  cases act with
  | lifecycle connection => exact .inl ((lifecycleStep_cases hs).frame.1 ▸ hoperation)
  | call j request =>
    obtain ⟨-, rfl⟩ := call_frame hs
    rcases State.setOperation_eq_some.mp hoperation with ⟨-, rfl⟩ | ⟨-, hoperation⟩
    · cases hpc
    · exact .inl hoperation
  | operation j panics =>
    obtain ⟨before, pc, lock, poisoned, hbefore, hmoves, rfl⟩ := operation_frame hs
    rcases State.setOperation_eq_some.mp hoperation with ⟨rfl, rfl⟩ | ⟨-, hoperation⟩
    · exact .inr ⟨before, panics, rfl, hbefore, rfl, hmoves.notStarted_iff.mp hpc⟩
    · exact .inl hoperation

theorem Honest.kept (h : Honest s) (hi : Inv s) {act : Action} (horderly : Orderly s act)
    (hs : step s act = some t) : Honest t := by
  refine (hi.kept hs).honest fun i operation hoperation hafter hpc => ?_
  rcases notStarted_cases hs hoperation hpc with hbefore | ⟨before, panics, rfl, hbefore, hsame, hat⟩
  · exact h.started i operation hbefore hafter hpc
  · have hafter : before.afterStart = true := hsame.trans hafter
    have hfine := hi.operations i before hbefore
    have hbegun := hfine.begun hafter
    obtain ⟨hbetween, htaken⟩ := horderly before hbefore hafter
    rcases hat with ⟨hat, hstopped⟩ | ⟨hat, hconnection⟩
    · have hstarted := hfine.looking hafter hat
      have hnot := hbetween hat
      rw [hi.stopped] at hstopped
      cases hpc : s.lifecycle <;> simp_all [LifecyclePc.startReturned, LifecyclePc.stopStored]
    · have hconnected : s.lifecycle.connected = true := by
        cases hpc : s.lifecycle <;> simp_all [LifecyclePc.startReturned, LifecyclePc.connected]
      exact hi.stored.present hconnected (htaken hat) hconnection

/-- Either step outside the condition tells an operation that the database has not started. -/
theorem not_honest_of_not_orderly (hi : Inv s) {act : Action} (horderly : ¬Orderly s act)
    (hs : step s act = some t) : ¬Honest t := by
  cases act with
  | lifecycle connection => exact absurd trivial horderly
  | call i request => exact absurd trivial horderly
  | operation i panics =>
    simp only [Orderly, not_forall] at horderly
    obtain ⟨operation, hoperation, hafter, hat⟩ := horderly
    obtain ⟨operation', pc, lock, poisoned, hoperation', hmoves, rfl⟩ := operation_frame hs
    obtain rfl := Option.some.inj (hoperation.symm.trans hoperation')
    have htold : pc = .returned (some .notStarted) := by
      refine hmoves.notStarted_iff.mpr ?_
      rcases Classical.not_and_iff_not_or_not.mp hat with hat | hat
      · simp only [not_forall, not_not] at hat
        obtain ⟨hpc, hbetween⟩ := hat
        exact .inl ⟨hpc, by rw [hi.stopped, hbetween]; rfl⟩
      · simp only [not_forall] at hat
        obtain ⟨hpc, htaken⟩ := hat
        exact .inr ⟨hpc, hi.stored.moved htaken⟩
    intro hhonest
    exact hhonest.started i _ (State.setOperation_eq_some.mpr (.inl ⟨rfl, rfl⟩)) hafter htold

theorem not_honest_kept (hi : Inv s) (h : ¬Honest s) {act : Action} (hs : step s act = some t) : ¬Honest t := by
  intro ht
  refine h (hi.honest fun i operation hoperation hafter hpc => ?_)
  exact ht.started i operation (returned_kept hoperation hpc hs) hafter hpc

end

theorem honest_iff_orderly {as : List Action} {s : State} (hrun : run step .initial as = some s) :
    Honest s ↔ Meets step Orderly .initial as :=
  run_iff_meets (fun _ _ _ hi hs => hi.kept hs) (fun _ _ _ hi ho hg hs => hg.kept hi ho hs)
    (fun _ _ _ hi ho hs => not_honest_of_not_orderly hi ho hs) (fun _ _ _ hi hn hs => not_honest_kept hi hn hs)
    .initial ⟨nofun, nofun, nofun⟩ hrun

/-! ### Both systems -/

/-- The errors of the database and of the process runtime are honest exactly along the runs that keep the condition. -/
theorem lifecycle_honest_iff {as : List Action} {s : State} (hrun : run step .initial as = some s)
    {as' : List Process.Lifecycle.Action} {s' : Process.Lifecycle.State}
    (hrun' : run Process.Lifecycle.step .initial as' = some s') :
    (Honest s ↔ Meets step Orderly .initial as) ∧
      (Process.Lifecycle.Honest s' ↔ Meets Process.Lifecycle.step Process.Lifecycle.Orderly .initial as') :=
  ⟨honest_iff_orderly hrun, Process.Lifecycle.honest_iff_orderly hrun'⟩

/-- The start of a database whose connection is the first. -/
def startRun : List Action := [.lifecycle 1, .lifecycle 1, .lifecycle 1, .lifecycle 1]

/-- A query runs while the stop waits for the lock, and an operation after the stop is refused. -/
def stoppedRun : List Action :=
  startRun ++ [.call 0 .query, .operation 0 false, .operation 0 false, .operation 0 false, .lifecycle 1, .lifecycle 1,
    .operation 0 false, .lifecycle 1, .lifecycle 1, .lifecycle 1, .call 1 .execute, .operation 1 false,
    .operation 1 false]

theorem lifecycle_honest_iff_stoppedRun : ∃ s s', run step .initial stoppedRun = some s ∧
    s.operations 0 = some ⟨.query, .returned none, true, false⟩ ∧
    s.operations 1 = some ⟨.execute, .returned (some .stopped), true, true⟩ ∧
    run Process.Lifecycle.step .initial [.lifecycle, .lifecycle, .call 0, .operation 0] = some s' ∧
    Honest s ∧ Process.Lifecycle.Honest s' := by
  have hrun : ∃ s, run step .initial stoppedRun = some s ∧
      s.operations 0 = some ⟨.query, .returned none, true, false⟩ ∧
      s.operations 1 = some ⟨.execute, .returned (some .stopped), true, true⟩ := ⟨_, rfl, rfl, rfl⟩
  have hrun' : ∃ s', run Process.Lifecycle.step .initial [.lifecycle, .lifecycle, .call 0, .operation 0] = some s' :=
    ⟨_, rfl⟩
  obtain ⟨s, hs, hquery, hexecute⟩ := hrun
  obtain ⟨s', hs'⟩ := hrun'
  have hboth := lifecycle_honest_iff hs hs'
  exact ⟨s, s', hs, hquery, hexecute, hs', hboth.1.mpr (by decide), hboth.2.mpr (by decide)⟩

/-- An operation loads both flags between the two stores of the stop. -/
def gapRun : List Action := startRun ++ [.call 0 .execute, .lifecycle 1, .operation 0 false, .operation 0 false]

/-- An operation loads `live` before the stop, and takes the lock after it. -/
def takenRun : List Action :=
  startRun ++ [.call 0 .query, .operation 0 false, .lifecycle 1, .lifecycle 1, .lifecycle 1, .lifecycle 1,
    .operation 0 false, .operation 0 false]

theorem lifecycle_not_honest :
    (∃ s, run step .initial gapRun = some s ∧ ¬Honest s) ∧ (∃ s, run step .initial takenRun = some s ∧ ¬Honest s) ∧
      ∃ s, run Process.Lifecycle.step .initial Process.Lifecycle.gapRun = some s ∧ ¬Process.Lifecycle.Honest s :=
  ⟨⟨_, rfl, fun h => h.started 0 _ rfl rfl rfl⟩, ⟨_, rfl, fun h => h.started 0 _ rfl rfl rfl⟩,
    ⟨_, rfl, fun h => h.started 0 _ rfl rfl rfl⟩⟩

end Fabric.Sqlite
