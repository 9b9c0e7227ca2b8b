import Fabric.Theorems.Sqlite.Serializable

/-! Which statements the SQLite adapter refuses, in any generation. -/

namespace Fabric.Sqlite.Adapter
open Rust Transition Linearizability
open Locked (Outcome)

variable {driver : Rusqlite} {ι : Type}

/-! ### The flags -/

/-- A connection is stored, whether an operation has panicked or not. -/
def LifecyclePc.connected : LifecyclePc driver → Bool
  | .startStopped | .startLive | .starting (.ok _) | .up | .stopLive | .stopStopped | .stopLock | .stopTake => true
  | _ => false

/-- A stop is about to store `stopped`. -/
def LifecyclePc.stops : LifecyclePc driver → Bool
  | .stopLive | .stopStopped => true
  | _ => false

/-- `stopped` tells whether there has been a stop. -/
def LifecyclePc.tells : LifecyclePc driver → Bool
  | .startLive | .starting (.ok _) | .up | .stopLive | .stopStopped => false
  | _ => true

/-- There has been a stop. -/
def StopInvoked (s : State driver ι) : Prop := ∃ n, .invoke (.inr n) .stop ∈ s.history

structure Flags (s : State driver ι) : Prop where
  connected : s.lifecycle.connected = true → s.connection ≠ none
  stops : s.lifecycle.stops = true → StopInvoked s
  tells : s.lifecycle.tells = true → (s.stopped = true ↔ StopInvoked s)

section
variable {s t : State driver ι} {path : SqliteDatabasePath}

theorem Flags.init (world : driver.World) : Flags (.init world : State driver ι) where
  connected h := by cases h
  stops h := by cases h
  tells _ := iff_of_false Bool.false_ne_true fun ⟨_, h⟩ => by cases h

/-- An event that is no stop tells nothing. -/
theorem stopInvoked_iff {ev : Event (CallId ι) Op Output} (hhistory : t.history = s.history ++ [ev])
    (hev : ∀ n, ev ≠ .invoke (.inr n) .stop) : StopInvoked t ↔ StopInvoked s := by
  unfold StopInvoked
  rw [hhistory]
  constructor
  · rintro ⟨n, hmem⟩
    rcases List.mem_append.mp hmem with hmem | hmem
    · exact ⟨n, hmem⟩
    · exact absurd (List.mem_singleton.mp hmem).symm (hev n)
  · rintro ⟨n, hmem⟩
    exact ⟨n, List.mem_append_left _ hmem⟩

theorem Flags.lifecycleStep (hs : Flags s) (h : s.lifecycleStep path = some t) : Flags t := by
  have hend : ∀ {op : Op} {result : Except String Unit} {pc : LifecyclePc driver},
      StopInvoked (s.endLifecycle op result pc) ↔ StopInvoked s := stopInvoked_iff rfl fun n heq => by cases heq
  cases lifecycleStep_cases h with
  | starts hpc =>
    have hinvoked : StopInvoked { s.invoke (.inr s.number) .start with lifecycle := .opening } ↔ StopInvoked s :=
      stopInvoked_iff rfl fun n heq => by cases heq
    exact ⟨fun h => (by cases h), fun h => (by cases h), fun _ => (hs.tells (by rw [hpc]; rfl)).trans hinvoked.symm⟩
  | opened hpc | openFailed hpc | startRefused hpc | startLocks hpc | stopRefused hpc | stopTakes hpc
  | stopCloses hpc =>
    exact ⟨fun h => (by cases h), fun h => (by cases h), fun _ => hs.tells (by rw [hpc]; rfl)⟩
  | @startSet connection hpc =>
    exact ⟨fun _ => Option.some_ne_none connection, fun h => (by cases h), fun _ => hs.tells (by rw [hpc]; rfl)⟩
  | startStopped hpc | startLive hpc | started hpc =>
    exact ⟨fun _ => hs.connected (by rw [hpc]; rfl), fun h => (by cases h), fun h => (by cases h)⟩
  | startFailed hpc | stopReturns hpc =>
    exact ⟨fun h => (by cases h), fun h => (by cases h), fun _ => (hs.tells (by rw [hpc]; rfl)).trans hend.symm⟩
  | stops hpc =>
    exact ⟨fun _ => hs.connected (by rw [hpc]; rfl), fun _ => ⟨s.number, List.mem_append_right _ List.mem_cons_self⟩,
      fun h => (by cases h)⟩
  | stopLive hpc =>
    exact ⟨fun _ => hs.connected (by rw [hpc]; rfl), fun _ => hs.stops (by rw [hpc]; rfl), fun h => (by cases h)⟩
  | stopStopped hpc =>
    exact ⟨fun _ => hs.connected (by rw [hpc]; rfl), fun h => (by cases h),
      fun _ => iff_of_true rfl (hs.stops (by rw [hpc]; rfl))⟩
  | stopLocks hpc =>
    exact ⟨fun _ => hs.connected (by rw [hpc]; rfl), fun h => (by cases h), fun _ => hs.tells (by rw [hpc]; rfl)⟩

variable [DecidableEq ι]

/-- What a step of a call leaves alone. -/
theorem CallStep.frame {i : ι} (h : CallStep s i t) : t.lifecycle = s.lifecycle ∧ t.live = s.live ∧
    t.stopped = s.stopped ∧ (s.connection ≠ none → t.connection ≠ none) ∧ (∀ j, j ≠ i → t.calls j = s.calls j) := by
  cases h with
  | ran => exact ⟨rfl, rfl, rfl, fun _ => Option.some_ne_none _, fun j hj => Function.update_of_ne hj _ _⟩
  | _ => exact ⟨rfl, rfl, rfl, id, fun j hj => Function.update_of_ne hj _ _⟩

/-- A call answers once it has its result. -/
theorem CallStep.history {i : ι} (h : CallStep s i t) : t.history = s.history ∨ ∃ statement result,
    s.calls i = .returning statement result ∧
      t.history = s.history ++ [.respond (.inl i) (.statement statement) (.answer result)] := by
  cases h with
  | responded hpc => exact .inr ⟨_, _, hpc, rfl⟩
  | _ => exact .inl rfl

theorem Flags.kept {act : Action ι} (hs : Flags s) (h : step path s act = some t) : Flags t := by
  cases act with
  | call i statement =>
    obtain ⟨-, rfl⟩ := call_eq_some h
    have hinvoked : StopInvoked ((s.invoke (.inl i) (.statement statement)).setCall i (.loadLive statement)) ↔
        StopInvoked s := stopInvoked_iff rfl fun n heq => by cases heq
    exact ⟨hs.connected, fun hpc => hinvoked.mpr (hs.stops hpc), fun hpc => (hs.tells hpc).trans hinvoked.symm⟩
  | advance i =>
    have hstep : CallStep s i t := advance_cases h
    obtain ⟨hlifecycle, -, hstopped, hconnection, -⟩ := hstep.frame
    have hinvoked : StopInvoked t ↔ StopInvoked s := by
      rcases hstep.history with hhistory | ⟨statement, result, -, hhistory⟩
      · unfold StopInvoked
        rw [hhistory]
      · exact stopInvoked_iff hhistory fun n heq => by cases heq
    refine ⟨fun hpc => ?_, fun hpc => ?_, fun hpc => ?_⟩
    · exact hconnection (hs.connected (hlifecycle ▸ hpc))
    · exact hinvoked.mpr (hs.stops (hlifecycle ▸ hpc))
    · rw [hstopped]
      exact (hs.tells (hlifecycle ▸ hpc)).trans hinvoked.symm
  | lifecycle => exact hs.lifecycleStep h

/-! ### Between a start and a stop -/

/-- A call that stands where it may, in a time without a start or stop, and whose answers are all good. -/
structure Meanwhile (pc : LifecyclePc driver) (told : Bool) (i : ι) (allowed : CallPc driver → Prop)
    (good : StatementResult → Prop) (s : State driver ι) : Prop where
  lifecycle : s.lifecycle = pc
  stopped : s.stopped = told
  call : allowed (s.calls i)
  answers : ∀ op output, .respond (.inl i) op output ∈ s.history → ∃ result, output = .answer result ∧ good result

variable {pc : LifecyclePc driver} {told : Bool} {i : ι} {allowed : CallPc driver → Prop}
    {good : StatementResult → Prop}

theorem Meanwhile.kept (hgood : ∀ statement result, allowed (.returning statement result) → good result)
    (hallowed : ∀ s t : State driver ι, Safe s → Flags s → s.lifecycle = pc → s.stopped = told → allowed (s.calls i) →
      CallStep s i t → allowed (t.calls i)) (hidle : ¬allowed .idle) (hsafe : Safe s) (hflags : Flags s)
    (hs : Meanwhile pc told i allowed good s) {act : Action ι} (hact : act ≠ .lifecycle)
    (h : step path s act = some t) : Meanwhile pc told i allowed good t := by
  cases act with
  | call j statement =>
    obtain ⟨hpc, rfl⟩ := call_eq_some h
    have hne : i ≠ j := by
      rintro rfl
      exact hidle (hpc ▸ hs.call)
    refine ⟨hs.lifecycle, hs.stopped, ?_, fun op output hmem => ?_⟩
    · have hcall : ((s.invoke (.inl j) (.statement statement)).setCall j (.loadLive statement)).calls i = s.calls i :=
        Function.update_of_ne hne _ _
      rw [hcall]
      exact hs.call
    · rcases List.mem_append.mp hmem with hmem | hmem
      · exact hs.answers op output hmem
      · cases List.mem_singleton.mp hmem
  | advance j =>
    have hstep : CallStep s j t := advance_cases h
    obtain ⟨hlifecycle, -, hstopped, -, hcalls⟩ := hstep.frame
    refine ⟨hlifecycle.trans hs.lifecycle, hstopped.trans hs.stopped, ?_, fun op output hmem => ?_⟩
    · by_cases hij : i = j
      · subst hij
        exact hallowed s t hsafe hflags hs.lifecycle hs.stopped hs.call hstep
      · rw [hcalls i hij]
        exact hs.call
    · rcases hstep.history with hhistory | ⟨statement, result, hpc, hhistory⟩
      · exact hs.answers op output (hhistory ▸ hmem)
      · rw [hhistory] at hmem
        rcases List.mem_append.mp hmem with hmem | hmem
        · exact hs.answers op output hmem
        · cases List.mem_singleton.mp hmem
          exact ⟨result, rfl, hgood statement result (hpc ▸ hs.call)⟩
  | lifecycle => exact absurd rfl hact

/-- The statement ran on a connection, or an operation had panicked. -/
def Ran (driver : Rusqlite) (statement : Statement) (result : StatementResult) : Prop :=
  (∃ connection world, result = (runStatement driver statement connection world).1) ∨
    result = .returned (.error (lockPoisoned statement.request))

/-- Where a call stands that is not refused. -/
def Served (statement : Statement) : CallPc driver → Prop
  | .loadLive called | .lock called | .guard called | .body called _ => called = statement
  | .returning called result => called = statement ∧ Ran driver statement result
  | .returned => True
  | .idle | .loadStopped _ => False

/-- Where a call stands that is refused with this error. -/
def Refused (error : RelationalDatabaseError) : CallPc driver → Prop
  | .loadLive _ | .loadStopped _ | .returned => True
  | .returning _ result => result = .returned (.error error)
  | .idle | .lock _ | .guard _ | .body _ _ => False

theorem setCall_calls (s : State driver ι) (i : ι) (pc : CallPc driver) : (s.setCall i pc).calls i = pc := by
  simp [State.setCall]

theorem served_step {statement : Statement} (hsafe : Safe s) (hflags : Flags s) (hup : s.lifecycle = .up)
    (hserved : Served statement (s.calls i)) (h : CallStep s i t) : Served statement (t.calls i) := by
  have hlive : s.live = true := hsafe.live.trans (by rw [hup]; rfl)
  have hconnection : s.connection ≠ none := hflags.connected (by rw [hup]; rfl)
  cases h with
  | live hpc | locked hpc | found hpc =>
    rw [hpc] at hserved
    rw [setCall_calls]
    exact hserved
  | notLive _ hnot =>
    rw [hlive] at hnot
    cases hnot
  | refused hpc =>
    rw [hpc] at hserved
    exact hserved.elim
  | poisoned hpc =>
    rw [hpc] at hserved
    cases hserved
    rw [setCall_calls]
    exact ⟨rfl, .inr rfl⟩
  | missing _ hmissing => exact absurd hmissing hconnection
  | @ran called connection result connection' world hpc hrun =>
    rw [hpc] at hserved
    cases hserved
    rw [setCall_calls]
    exact ⟨rfl, .inl ⟨connection, s.world, by rw [hrun]⟩⟩
  | responded =>
    rw [setCall_calls]
    trivial

theorem refused_step {error : RelationalDatabaseError} (hsafe : Safe s) (hdown : s.lifecycle = .down)
    (herror : error = if s.stopped then .stopped else .notStarted) (hrefused : Refused error (s.calls i))
    (h : CallStep s i t) : Refused error (t.calls i) := by
  have hlive : s.live = false := hsafe.live.trans (by rw [hdown]; rfl)
  cases h with
  | live _ hlive' =>
    rw [hlive] at hlive'
    cases hlive'
  | notLive =>
    rw [setCall_calls]
    trivial
  | refused _ herror' =>
    rw [setCall_calls, herror, ← herror']
    rfl
  | responded =>
    rw [setCall_calls]
    trivial
  | poisoned hpc | locked hpc | found hpc | missing hpc | ran hpc =>
    -- The call never comes to the lock.
    rw [hpc] at hrefused
    exact hrefused.elim

variable {world : driver.World} {u : State driver ι}

omit [DecidableEq ι] in
/-- A call that is yet to come has not been answered. -/
theorem Serial.silent_of_idle (hs : Serial path world s) (hidle : s.calls i = .idle) (op : Op) (output : Output) :
    .respond (.inl i) op output ∉ s.history := by
  intro hmem
  obtain ⟨es, d, hstanding, -⟩ := hs
  have hfresh : ∀ op, .invoke (.inl i) op ∉ s.history := by
    have hholds := hstanding.holds (.inl i)
    simp only [State.stand, hidle, CallPc.stand] at hholds
    exact hholds
  exact hfresh op (hstanding.points.invoked _ (hstanding.mem_of_respond hmem))

/-- What is answered to a call that meets no start and no stop. -/
theorem Meanwhile.of_run {statement : Statement}
    (hgood : ∀ statement result, allowed (.returning statement result) → good result)
    (hallowed : ∀ s t : State driver ι, Safe s → Flags s → s.lifecycle = pc → s.stopped = told → allowed (s.calls i) →
      CallStep s i t → allowed (t.calls i)) (hidle : ¬allowed .idle) (hbegins : allowed (.loadLive statement))
    (hsafe : Safe s) (hflags : Flags s) (hserial : Serial path world s) (hpc : s.lifecycle = pc)
    (htold : s.stopped = told)
    (hcall : step path s (.call i statement) = some t) {bs : List (Action ι)} (hrest : run (step path) t bs = some u)
    (hquiet : ∀ act ∈ bs, act ≠ .lifecycle) : Meanwhile pc told i allowed good u := by
  have hinit : Meanwhile pc told i allowed good t := by
    obtain ⟨hfresh, rfl⟩ := call_eq_some hcall
    refine ⟨hpc, htold, by rw [setCall_calls]; exact hbegins, fun op output hmem => ?_⟩
    rcases List.mem_append.mp hmem with hmem | hmem
    · exact absurd hmem (hserial.silent_of_idle hfresh op output)
    · cases List.mem_singleton.mp hmem
  have hmeets : Meets (step path) (fun _ act => act ≠ .lifecycle) t bs :=
    .of_forall_mem (fun act hact _ => hquiet act hact) t
  obtain ⟨-, -, hkept⟩ := run_invariant_of_meets
    (I := fun s => Safe s ∧ Flags s ∧ Meanwhile pc told i allowed good s)
    (fun s act t hact ⟨hsafe, hflags, hs⟩ hstep =>
      ⟨hsafe.kept hstep, hflags.kept hstep, hs.kept hgood hallowed hidle hsafe hflags hact hstep⟩)
    hmeets hrest ⟨hsafe.kept hcall, hflags.kept hcall, hinit⟩
  exact hkept

/-- A call that meets no start and no stop, in any generation. Behind a start that has succeeded it is not refused: its
    statement runs on a connection, unless an operation has panicked. Behind a stop it is refused as stopped, also when
    a start has failed since, and as not started before the first stop. -/
theorem answered_between (as : List (Action ι)) (hrun : run (step path) (.init world) as = some s)
    {statement : Statement} (hcall : step path s (.call i statement) = some t) (bs : List (Action ι))
    (hrest : run (step path) t bs = some u) (hquiet : ∀ act ∈ bs, act ≠ .lifecycle) {op : Op} {output : Output}
    (hanswer : .respond (.inl i) op output ∈ u.history) :
    (s.lifecycle = .up → ∃ result, output = .answer result ∧ Ran driver statement result) ∧
    (s.lifecycle = .down → (StopInvoked s → output = .answer (.returned (.error .stopped))) ∧
      (¬StopInvoked s → output = .answer (.returned (.error .notStarted)))) := by
  obtain ⟨hsafe, hserial⟩ := inv_of_reaches ⟨as, hrun⟩
  have hflags : Flags s := run_invariant (fun _ _ _ hI hstep => Flags.kept hI hstep) hrun (.init world)
  refine ⟨fun hup => ?_, fun hdown => ?_⟩
  · have hserved : Meanwhile .up s.stopped i (Served statement) (Ran driver statement) u :=
      .of_run (fun _ _ h => h.2) (fun _ _ hsafe hflags hup _ => served_step hsafe hflags hup) id rfl hsafe hflags
        hserial
        hup rfl hcall hrest hquiet
    exact hserved.answers op output hanswer
  · have hrefused : Meanwhile .down s.stopped i (Refused (if s.stopped then .stopped else .notStarted))
        (· = .returned (.error (if s.stopped then .stopped else .notStarted))) u :=
      .of_run (fun _ _ h => h) (fun v _ hsafe _ hdown hstopped => refused_step hsafe hdown (by rw [hstopped])) id
        trivial
        hsafe hflags hserial hdown rfl hcall hrest hquiet
    obtain ⟨result, rfl, rfl⟩ := hrefused.answers op output hanswer
    have htells := hflags.tells (by rw [hdown]; rfl)
    exact ⟨fun h => by rw [if_pos (htells.mpr h)], fun h => by rw [if_neg fun hstopped => h (htells.mp hstopped)]⟩

end

def createMarkers : Statement := ⟨.execute, "CREATE TABLE marker (value TEXT NOT NULL)", []⟩

/-- A statement after a start and a stop. -/
theorem answered_between_stopped : ∃ s t u : State markersDriver (Fin 3), ∃ output,
    run (step .inMemory) (.init ()) (List.replicate 14 .lifecycle) = some s ∧ StopInvoked s ∧
      step .inMemory s (.call 0 createMarkers) = some t ∧
      run (step .inMemory) t (List.replicate 3 (.advance 0)) = some u ∧
      .respond (.inl 0) (.statement createMarkers) output ∈ u.history ∧
      output = .answer (.returned (.error .stopped)) := by
  obtain ⟨s, t, u, output, hrun, hdown, hstop, hcall, hrest, hanswer⟩ :
      ∃ s t u : State markersDriver (Fin 3), ∃ output,
        run (step .inMemory) (.init ()) (List.replicate 14 .lifecycle) = some s ∧ s.lifecycle = .down ∧
          s.history[2]? = some (.invoke (.inr 1) .stop) ∧ step .inMemory s (.call 0 createMarkers) = some t ∧
          run (step .inMemory) t (List.replicate 3 (.advance 0)) = some u ∧
          u.history.getLast? = some (.respond (.inl 0) (.statement createMarkers) output) :=
    ⟨_, _, _, _, rfl, rfl, rfl, rfl, rfl, rfl⟩
  have hinvoked : StopInvoked s := ⟨1, List.mem_of_getElem? hstop⟩
  have hmem := List.mem_of_getLast? hanswer
  have hquiet : ∀ act ∈ List.replicate 3 (Action.advance (0 : Fin 3)), act ≠ .lifecycle := by
    intro act hact
    obtain rfl := List.eq_of_mem_replicate hact
    exact fun heq => by cases heq
  obtain ⟨-, hrefused⟩ := answered_between _ hrun hcall _ hrest hquiet hmem
  exact ⟨s, t, u, output, hrun, hinvoked, hcall, hrest, hmem, (hrefused hdown).1 hinvoked⟩

end Fabric.Sqlite.Adapter
