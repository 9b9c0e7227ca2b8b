import Fabric.Sqlite.Adapter

/-! Overlapping statements, starts and stops of the SQLite adapter come to the same as one call at a time on one
    database. -/

namespace Fabric.Sqlite
open Rust Transition Linearizability
open Locked (Outcome)

namespace Adapter
variable {driver : Rusqlite} {ι : Type}

/-! ### Where calls stand -/

def CallPc.holds : CallPc driver → Bool
  | .guard _ | .body _ _ => true
  | _ => false

def LifecyclePc.holds : LifecyclePc driver → Bool
  | .startSet _ | .stopTake => true
  | _ => false

/-- No connection is stored, unless an operation has panicked. -/
def LifecyclePc.closed : LifecyclePc driver → Bool
  | .down | .opening | .opened _ | .startSet _ | .starting (.error _) | .stopClose _ | .stopping _ => true
  | _ => false

/-- `live` is set. -/
def LifecyclePc.live : LifecyclePc driver → Bool
  | .starting (.ok _) | .up | .stopLive => true
  | _ => false

def CallPc.stand : CallPc driver → Stand Op Output
  | .idle => .fresh
  | .loadLive statement | .loadStopped statement | .lock statement | .guard statement | .body statement _ =>
    .pending (.statement statement)
  | .returning statement result => .committed (.statement statement) (.answer result)
  | .returned => .responded

def LifecyclePc.stand (world : driver.World) : LifecyclePc driver → Stand Op Output
  | .down | .up => .fresh
  | .opening | .opened _ | .startSet _ => .pending .start
  | .startStopped | .startLive => .committed .start (.lifecycle (.ok ()))
  | .starting result => .committed .start (.lifecycle result)
  | .stopLive | .stopStopped | .stopLock | .stopTake => .pending .stop
  | .stopClose taken => .committed .stop (.lifecycle (closeTaken driver taken world).1)
  | .stopping result => .committed .stop (.lifecycle result)

def State.stand (s : State driver ι) : CallId ι → Stand Op Output
  | .inl i => (s.calls i).stand
  | .inr m =>
    if m < s.number then .responded else if m = s.number then s.lifecycle.stand s.world else .fresh

/-! ### The lock and the flags -/

structure Safe (s : State driver ι) : Prop where
  calls : ∀ i, (s.calls i).holds = true ↔ s.lock = some (.call i)
  lifecycle : s.lifecycle.holds = true ↔ s.lock = some .lifecycle
  sound : s.lock ≠ none → s.poisoned = false
  body : ∀ i statement connection, s.calls i = .body statement connection → s.connection = some connection
  closed : s.lifecycle.closed = true → s.poisoned = false → s.connection = none
  live : s.live = s.lifecycle.live

section
variable {s t : State driver ι}

theorem Safe.init (world : driver.World) : Safe (.init world : State driver ι) where
  calls _ := by simp [State.init, CallPc.holds]
  lifecycle := by simp [State.init, LifecyclePc.holds]
  sound h := absurd rfl h
  body _ _ _ h := by cases h
  closed _ _ := rfl
  live := rfl

variable {path : SqliteDatabasePath}

/-- Where `start` or `stop` works under the lock, no operation does. -/
theorem Safe.no_body (hs : Safe s) (hlock : s.lock = none ∨ s.lock = some .lifecycle) {i : ι} {statement : Statement}
    {connection : driver.Connection} : s.calls i ≠ .body statement connection := by
  intro hcall
  have hholds := (hs.calls i).mp (by rw [hcall]; rfl)
  rcases hlock with hlock | hlock
  · rw [hlock] at hholds
    cases hholds
  · rw [hlock] at hholds
    cases hholds

/-- What a step of the starting and stopping thread does with the lock and what it guards. -/
inductive LifecycleLock (s t : State driver ι) : Prop where
  | outside : s.lifecycle.holds = false → t.lifecycle.holds = false → t.lock = s.lock → t.connection = s.connection →
      (t.lifecycle.closed = true → s.poisoned = false → s.lifecycle.closed = true) → LifecycleLock s t
  | acquire : s.lock = none → s.poisoned = false → t.lock = some .lifecycle → t.lifecycle.holds = true →
      t.connection = s.connection → (t.lifecycle.closed = true → s.lifecycle.closed = true) → LifecycleLock s t
  | release : s.lifecycle.holds = true → t.lifecycle.holds = false → t.lock = none →
      (t.lifecycle.closed = true → t.connection = none) → LifecycleLock s t

/-- What a step of the starting and stopping thread does. -/
inductive LifecycleStep (path : SqliteDatabasePath) (s : State driver ι) : State driver ι → Prop where
  | starts : s.lifecycle = .down →
      LifecycleStep path s { s.invoke (.inr s.number) .start with lifecycle := .opening }
  | opened {connection : driver.Connection} {world : driver.World} :
      s.lifecycle = .opening → openConnection driver path s.world = (.ok connection, world) →
      LifecycleStep path s { s with world := world, lifecycle := .opened connection }
  | openFailed {error : String} {world : driver.World} :
      s.lifecycle = .opening → openConnection driver path s.world = (.error error, world) →
      LifecycleStep path s { s with world := world, lifecycle := .starting (.error error) }
  | startRefused {connection : driver.Connection} :
      s.lifecycle = .opened connection → s.poisoned = true →
      LifecycleStep path s
        { s with world := driver.drop connection s.world, lifecycle := .starting (.error startPoisoned) }
  | startLocks {connection : driver.Connection} :
      s.lifecycle = .opened connection → s.lock = none → s.poisoned = false →
      LifecycleStep path s { s with lock := some .lifecycle, lifecycle := .startSet connection }
  | startSet {connection : driver.Connection} : s.lifecycle = .startSet connection →
      LifecycleStep path s { s with
        connection := some connection, world := dropReplaced driver s.connection s.world, lock := none,
        lifecycle := .startStopped }
  | startStopped : s.lifecycle = .startStopped →
      LifecycleStep path s { s with stopped := false, lifecycle := .startLive }
  | startLive : s.lifecycle = .startLive →
      LifecycleStep path s { s with live := true, lifecycle := .starting (.ok ()) }
  | started : s.lifecycle = .starting (.ok ()) → LifecycleStep path s (s.endLifecycle .start (.ok ()) .up)
  | startFailed {error : String} : s.lifecycle = .starting (.error error) →
      LifecycleStep path s (s.endLifecycle .start (.error error) .down)
  | stops : s.lifecycle = .up → LifecycleStep path s { s.invoke (.inr s.number) .stop with lifecycle := .stopLive }
  | stopLive : s.lifecycle = .stopLive → LifecycleStep path s { s with live := false, lifecycle := .stopStopped }
  | stopStopped : s.lifecycle = .stopStopped →
      LifecycleStep path s { s with stopped := true, lifecycle := .stopLock }
  | stopRefused : s.lifecycle = .stopLock → s.poisoned = true →
      LifecycleStep path s { s with lifecycle := .stopping (.error stopPoisoned) }
  | stopLocks : s.lifecycle = .stopLock → s.lock = none → s.poisoned = false →
      LifecycleStep path s { s with lock := some .lifecycle, lifecycle := .stopTake }
  | stopTakes : s.lifecycle = .stopTake →
      LifecycleStep path s { s with connection := none, lock := none, lifecycle := .stopClose s.connection }
  | stopCloses {taken : Option driver.Connection} : s.lifecycle = .stopClose taken →
      LifecycleStep path s { s with
        world := (closeTaken driver taken s.world).2, lifecycle := .stopping (closeTaken driver taken s.world).1 }
  | stopReturns {result : Except String Unit} : s.lifecycle = .stopping result →
      LifecycleStep path s (s.endLifecycle .stop result .down)

theorem lifecycleStep_cases (h : s.lifecycleStep path = some t) : LifecycleStep path s t := by
  unfold State.lifecycleStep at h
  split at h <;> rename_i hpc
  · exact Option.some.inj h ▸ .starts hpc
  · split at h
    · rename_i hopened
      exact Option.some.inj h ▸ .opened hpc hopened
    · rename_i hopened
      exact Option.some.inj h ▸ .openFailed hpc hopened
  · split at h
    · rename_i hfree
      split at h
      · rename_i hpoisoned
        exact Option.some.inj h ▸ .startRefused hpc hpoisoned
      · rename_i hsound
        exact Option.some.inj h ▸ .startLocks hpc (Option.isNone_iff_eq_none.mp hfree) (Bool.not_eq_true _ ▸ hsound)
    · cases h
  · exact Option.some.inj h ▸ .startSet hpc
  · exact Option.some.inj h ▸ .startStopped hpc
  · exact Option.some.inj h ▸ .startLive hpc
  · exact Option.some.inj h ▸ .started hpc
  · exact Option.some.inj h ▸ .startFailed hpc
  · exact Option.some.inj h ▸ .stops hpc
  · exact Option.some.inj h ▸ .stopLive hpc
  · exact Option.some.inj h ▸ .stopStopped hpc
  · split at h
    · rename_i hfree
      split at h
      · rename_i hpoisoned
        exact Option.some.inj h ▸ .stopRefused hpc hpoisoned
      · rename_i hsound
        exact Option.some.inj h ▸ .stopLocks hpc (Option.isNone_iff_eq_none.mp hfree) (Bool.not_eq_true _ ▸ hsound)
    · cases h
  · exact Option.some.inj h ▸ .stopTakes hpc
  · exact Option.some.inj h ▸ .stopCloses hpc
  · exact Option.some.inj h ▸ .stopReturns hpc

theorem LifecycleStep.lock (hlive : s.live = s.lifecycle.live) (h : LifecycleStep path s t) :
    t.calls = s.calls ∧ t.poisoned = s.poisoned ∧ t.live = t.lifecycle.live ∧ LifecycleLock s t := by
  cases h with
  | starts hpc | opened hpc | openFailed hpc | startRefused hpc | startFailed hpc | stopCloses hpc | stopReturns hpc =>
    exact ⟨rfl, rfl, hlive.trans (by rw [hpc]; rfl),
      .outside (by rw [hpc]; rfl) rfl rfl rfl fun _ _ => by rw [hpc]; rfl⟩
  | startStopped hpc | started hpc | stops hpc | stopStopped hpc =>
    exact ⟨rfl, rfl, hlive.trans (by rw [hpc]; rfl), .outside (by rw [hpc]; rfl) rfl rfl rfl fun h => by cases h⟩
  | startLive hpc | stopLive hpc =>
    exact ⟨rfl, rfl, rfl, .outside (by rw [hpc]; rfl) rfl rfl rfl fun h => by cases h⟩
  | startLocks hpc hfree hsound =>
    exact ⟨rfl, rfl, hlive.trans (by rw [hpc]; rfl), .acquire hfree hsound rfl rfl rfl fun _ => by rw [hpc]; rfl⟩
  | stopLocks hpc hfree hsound =>
    exact ⟨rfl, rfl, hlive.trans (by rw [hpc]; rfl), .acquire hfree hsound rfl rfl rfl fun h => by cases h⟩
  | startSet hpc =>
    exact ⟨rfl, rfl, hlive.trans (by rw [hpc]; rfl), .release (by rw [hpc]; rfl) rfl rfl fun h => by cases h⟩
  | stopTakes hpc => exact ⟨rfl, rfl, hlive.trans (by rw [hpc]; rfl), .release (by rw [hpc]; rfl) rfl rfl fun _ => rfl⟩
  | stopRefused hpc hpoisoned =>
    refine ⟨rfl, rfl, hlive.trans (by rw [hpc]; rfl), .outside (by rw [hpc]; rfl) rfl rfl rfl fun _ hsound => ?_⟩
    rw [hpoisoned] at hsound
    cases hsound

theorem Safe.lifecycleStep (hs : Safe s) (h : s.lifecycleStep path = some t) : Safe t := by
  obtain ⟨hcalls, hpoisoned, hlive, hlock⟩ := (lifecycleStep_cases h).lock hs.live
  cases hlock with
  | outside hnot hnot' hlock hconnection hclosed =>
    refine ⟨fun i => ?_, ?_, fun h => ?_, fun i statement connection hcall => ?_, fun h hsound => ?_, hlive⟩
    · rw [hcalls, hlock, hs.calls]
    · rw [hlock, ← hs.lifecycle, hnot, hnot']
    · rw [hpoisoned]
      exact hs.sound (hlock ▸ h)
    · rw [hconnection]
      exact hs.body i statement connection (hcalls ▸ hcall)
    · rw [hpoisoned] at hsound
      rw [hconnection]
      exact hs.closed (hclosed h hsound) hsound
  | acquire hfree hsound hlock hholds hconnection hclosed =>
    refine ⟨fun i => ?_, ?_, fun _ => hpoisoned.trans hsound, fun i statement connection hcall => ?_, fun h _ => ?_,
      hlive⟩
    · rw [hcalls, hlock, hs.calls, hfree]
      simp
    · simp [hholds, hlock]
    · exact absurd (hcalls ▸ hcall) (hs.no_body (.inl hfree))
    · rw [hconnection]
      exact hs.closed (hclosed h) hsound
  | release hholds hnot hlock hclosed =>
    have hheld := hs.lifecycle.mp hholds
    refine ⟨fun i => ?_, ?_, fun h => absurd hlock h, fun i statement connection hcall => ?_, fun h _ => hclosed h,
      hlive⟩
    · rw [hcalls, hlock, hs.calls, hheld]
      simp
    · simp [hnot, hlock]
    · exact absurd (hcalls ▸ hcall) (hs.no_body (.inr hheld))

variable [DecidableEq ι]

/-- What a step of a call does. -/
inductive CallStep (s : State driver ι) (i : ι) : State driver ι → Prop where
  | live {statement : Statement} :
      s.calls i = .loadLive statement → s.live = true → CallStep s i (s.setCall i (.lock statement))
  | notLive {statement : Statement} :
      s.calls i = .loadLive statement → s.live = false → CallStep s i (s.setCall i (.loadStopped statement))
  | refused {statement : Statement} {error : RelationalDatabaseError} :
      s.calls i = .loadStopped statement → error = (if s.stopped then .stopped else .notStarted) →
      CallStep s i (s.setCall i (.returning statement (.returned (.error error))))
  | poisoned {statement : Statement} :
      s.calls i = .lock statement → s.poisoned = true →
      CallStep s i (s.setCall i (.returning statement (.returned (.error (lockPoisoned statement.request)))))
  | locked {statement : Statement} :
      s.calls i = .lock statement → s.lock = none → s.poisoned = false →
      CallStep s i ({ s with lock := some (.call i) }.setCall i (.guard statement))
  | found {statement : Statement} {connection : driver.Connection} :
      s.calls i = .guard statement → s.connection = some connection →
      CallStep s i (s.setCall i (.body statement connection))
  | missing {statement : Statement} :
      s.calls i = .guard statement → s.connection = none →
      CallStep s i ({ s with lock := none }.setCall i (.returning statement (.returned (.error .notStarted))))
  | ran {statement : Statement} {connection : driver.Connection} {result : StatementResult}
      {connection' : driver.Connection} {world : driver.World} :
      s.calls i = .body statement connection →
      runStatement driver statement connection s.world = (result, connection', world) →
      CallStep s i ({ s with
        connection := some connection', world := world, lock := none,
        poisoned := result.isPanic }.setCall i (.returning statement result))
  | responded {statement : Statement} {result : StatementResult} :
      s.calls i = .returning statement result →
      CallStep s i ((s.respond (.inl i) (.statement statement) (.answer result)).setCall i .returned)

theorem advance_cases {i : ι} (h : s.advance i = some t) : CallStep s i t := by
  unfold State.advance at h
  cases hpc : s.calls i with
  | idle => simp only [hpc, reduceCtorEq] at h
  | returned => simp only [hpc, reduceCtorEq] at h
  | loadLive statement =>
    simp only [hpc] at h
    cases h
    cases hlive : s.live with
    | true => exact .live hpc hlive
    | false => exact .notLive hpc hlive
  | loadStopped statement =>
    simp only [hpc] at h
    cases h
    exact .refused hpc rfl
  | lock statement =>
    simp only [hpc, Option.isNone_iff_eq_none] at h
    split at h
    · rename_i hfree
      split at h
      · rename_i hpoisoned
        cases h
        exact .poisoned hpc hpoisoned
      · rename_i hsound
        cases h
        exact .locked hpc hfree (by simpa using hsound)
    · cases h
  | guard statement =>
    simp only [hpc] at h
    split at h
    · rename_i hfound
      cases h
      exact .found hpc hfound
    · rename_i hmissing
      cases h
      exact .missing hpc hmissing
  | body statement connection =>
    rcases hrun : runStatement driver statement connection s.world with ⟨result, connection', world⟩
    simp only [hpc, hrun] at h
    cases h
    exact .ran hpc hrun
  | returning statement result =>
    simp only [hpc] at h
    cases h
    exact .responded hpc

/-- One call moves on, and the lock stays as it is or goes between none and this call. -/
theorem Safe.moves (i : ι) (pc : CallPc driver) (hs : Safe s) (hcalls : t.calls = Function.update s.calls i pc)
    (hlifecycle : t.lifecycle = s.lifecycle) (hlive : t.live = s.live)
    (hlock : t.lock = s.lock ∨
      (s.lock = none ∨ s.lock = some (.call i)) ∧ (t.lock = none ∨ t.lock = some (.call i)))
    (hholds : pc.holds = true ↔ t.lock = some (.call i)) (hsound : t.lock ≠ none → t.poisoned = false)
    (hconnection : t.connection = s.connection ∨ s.lock = some (.call i))
    (hbody : ∀ statement connection, pc = .body statement connection → t.connection = some connection)
    (hclosed : s.lifecycle.closed = true → t.poisoned = false → t.connection = none) : Safe t := by
  have hother : ∀ holder, holder ≠ .call i → (s.lock = some holder ↔ t.lock = some holder) := by
    intro holder hne
    rcases hlock with hlock | ⟨hbefore, hafter⟩
    · rw [hlock]
    · rcases hbefore with hbefore | hbefore <;> rcases hafter with hafter | hafter <;>
        simp [hbefore, hafter, hne.symm]
  refine ⟨fun j => ?_, ?_, hsound, fun j statement connection hcall => ?_, ?_, ?_⟩
  · by_cases hj : j = i
    · subst hj
      rw [hcalls, Function.update_self, hholds]
    · rw [hcalls, Function.update_of_ne hj, hs.calls]
      exact hother _ fun heq => hj (Holder.call.inj heq)
  · rw [hlifecycle, hs.lifecycle]
    exact hother _ (by simp)
  · by_cases hj : j = i
    · subst hj
      rw [hcalls, Function.update_self] at hcall
      exact hbody statement connection hcall
    · rw [hcalls, Function.update_of_ne hj] at hcall
      rcases hconnection with hconnection | hheld
      · rw [hconnection]
        exact hs.body j statement connection hcall
      · have hheld' := (hs.calls j).mp (by rw [hcall]; rfl)
        rw [hheld] at hheld'
        exact absurd (Holder.call.inj (Option.some.inj hheld')).symm hj
  · rw [hlifecycle]
    exact hclosed
  · rw [hlive, hlifecycle]
    exact hs.live

/-- A call that moves on outside of the lock. -/
theorem Safe.outside {i : ι} {pc : CallPc driver} (hs : Safe s) (hpc : (s.calls i).holds = false)
    (hpc' : pc.holds = false) : Safe (s.setCall i pc) := by
  have hfree := (hs.calls i).not.mp (by rw [hpc]; simp)
  exact hs.moves i pc rfl rfl rfl (.inl rfl) (by simp [State.setCall, hpc', hfree]) hs.sound (.inl rfl)
    (fun _ _ h => (by rw [h] at hpc'; cases hpc')) hs.closed

theorem call_eq_some {i : ι} {statement : Statement} (h : step path s (.call i statement) = some t) :
    s.calls i = .idle ∧ t = (s.invoke (.inl i) (.statement statement)).setCall i (.loadLive statement) := by
  unfold step at h
  cases hpc : s.calls i with
  | idle =>
    simp only [hpc] at h
    cases h
    exact ⟨rfl, rfl⟩
  | _ => simp only [hpc, reduceCtorEq] at h

theorem Safe.call {i : ι} (hs : Safe s) {statement : Statement} (h : step path s (.call i statement) = some t) :
    Safe t := by
  obtain ⟨hidle, rfl⟩ := call_eq_some h
  have hout : Safe (s.setCall i (.loadLive statement)) := hs.outside (by rw [hidle]; rfl) rfl
  exact ⟨hout.calls, hout.lifecycle, hout.sound, hout.body, hout.closed, hout.live⟩

omit [DecidableEq ι] in
/-- While a statement runs, the connection that it runs on is the adapter's. -/
theorem Safe.not_closed {i : ι} {statement : Statement} {connection : driver.Connection} (hs : Safe s)
    (hpc : s.calls i = .body statement connection) : s.poisoned = false ∧ s.lifecycle.closed = false := by
  have hheld := (hs.calls i).mp (by rw [hpc]; rfl)
  have hsound := hs.sound (by rw [hheld]; simp)
  refine ⟨hsound, ?_⟩
  rw [← Bool.not_eq_true]
  intro hclosed
  have hnone := hs.closed hclosed hsound
  rw [hs.body i statement connection hpc] at hnone
  cases hnone

theorem Safe.advance {i : ι} (hs : Safe s) (h : s.advance i = some t) : Safe t := by
  cases advance_cases h with
  | live hpc | notLive hpc | refused hpc | poisoned hpc => exact hs.outside (by rw [hpc]; rfl) rfl
  | responded hpc =>
    have hout : Safe (s.setCall i .returned) := hs.outside (by rw [hpc]; rfl) rfl
    exact ⟨hout.calls, hout.lifecycle, hout.sound, hout.body, hout.closed, hout.live⟩
  | @locked statement hpc hfree hsound =>
    exact hs.moves i (.guard statement) rfl rfl rfl (.inr ⟨.inl hfree, .inr rfl⟩) (iff_of_true rfl rfl)
      (fun _ => hsound) (.inl rfl) (fun _ _ h => (by cases h)) hs.closed
  | @found statement connection hpc hfound =>
    have hheld := (hs.calls i).mp (by rw [hpc]; rfl)
    exact hs.moves i (.body statement connection) rfl rfl rfl (.inl rfl) (iff_of_true rfl hheld) hs.sound
      (.inl rfl) (fun _ _ h => (by cases h; exact hfound)) hs.closed
  | @missing statement hpc hmissing =>
    have hheld := (hs.calls i).mp (by rw [hpc]; rfl)
    exact hs.moves i _ rfl rfl rfl (.inr ⟨.inr hheld, .inl rfl⟩) (iff_of_false (by simp [CallPc.holds])
      (by simp [State.setCall])) (fun h => absurd rfl h) (.inl rfl) (fun _ _ h => (by cases h)) hs.closed
  | @ran statement connection result connection' world hpc hrun =>
    have hheld := (hs.calls i).mp (by rw [hpc]; rfl)
    obtain ⟨-, hopen⟩ := hs.not_closed hpc
    exact hs.moves i _ rfl rfl rfl (.inr ⟨.inr hheld, .inl rfl⟩) (iff_of_false (by simp [CallPc.holds])
      (by simp [State.setCall])) (fun h => absurd rfl h) (.inr hheld) (fun _ _ h => (by cases h))
      fun hclosed _ => absurd (hopen ▸ hclosed) Bool.false_ne_true

theorem Safe.kept {act : Action ι} (hs : Safe s) (h : step path s act = some t) : Safe t := by
  cases act with
  | call i statement => exact hs.call h
  | advance i => exact hs.advance h
  | lifecycle => exact hs.lifecycleStep h

end

/-! ### The database -/

/-- What is outside of the connection, as the committed calls have it: a start that has opened a connection has yet to
    take effect, and a stop that has taken one has taken effect. -/
def LifecyclePc.Outside (path : SqliteDatabasePath) (before world : driver.World) : LifecyclePc driver → Prop
  | .opened connection | .startSet connection => openConnection driver path before = (.ok connection, world)
  | .stopClose taken => before = (closeTaken driver taken world).2
  | _ => before = world

theorem LifecyclePc.outside_of_open {path : SqliteDatabasePath} {before world : driver.World} {pc : LifecyclePc driver}
    (h : pc.closed = false) : pc.Outside path before world ↔ before = world := by
  cases pc <;> first | rfl | cases h

theorem LifecyclePc.stand_of_open {pc : LifecyclePc driver} (h : pc.closed = false) (world world' : driver.World) :
    pc.stand world = pc.stand world' := by
  cases pc <;> first | rfl | cases h

structure Settled (path : SqliteDatabasePath) (s : State driver ι) (d : Database driver) : Prop where
  connection : d.connection = s.connection
  poisoned : d.poisoned = s.poisoned
  world : s.lifecycle.Outside path d.world s.world

/-- The committed calls are those of one caller at a time. -/
def Serial (path : SqliteDatabasePath) (world : driver.World) (s : State driver ι) : Prop :=
  ∃ es d, Standing (Database.Spec path) ⟨none, world, false⟩ s.history es d s.stand ∧ Settled path s d

section
variable {s t : State driver ι} {path : SqliteDatabasePath} {world : driver.World}

theorem Serial.init (path : SqliteDatabasePath) (world : driver.World) :
    Serial path world (.init world : State driver ι) := by
  refine ⟨[], ⟨none, world, false⟩, ?_, rfl, rfl, rfl⟩
  have hstand : (State.init world : State driver ι).stand = fun _ => .fresh := by
    funext c
    rcases c with i | m
    · rfl
    · rcases Nat.eq_zero_or_pos m with rfl | hpos
      · rfl
      · simp [State.stand, State.init, Nat.pos_iff_ne_zero.mp hpos]
  rw [hstand]
  exact .init _ _

theorem stand_number : s.stand (.inr s.number) = s.lifecycle.stand s.world := by simp [State.stand]

theorem Settled.frame {d : Database driver} (hd : Settled path s d) (hconnection : t.connection = s.connection)
    (hpoisoned : t.poisoned = s.poisoned) (hlifecycle : t.lifecycle = s.lifecycle) (hworld : t.world = s.world) :
    Settled path t d :=
  ⟨hd.connection.trans hconnection.symm, hd.poisoned.trans hpoisoned.symm, by rw [hlifecycle, hworld]; exact hd.world⟩

theorem Settled.outside {d : Database driver} {pc : LifecyclePc driver} (hd : Settled path s d)
    (hpc : s.lifecycle = pc) :
    pc.Outside path d.world s.world := hpc ▸ hd.world

/-- A step of the starting and stopping thread that leaves the committed calls alone. -/
theorem Settled.moves {d : Database driver} {pc : LifecyclePc driver} (hd : Settled path s d) (hpc : s.lifecycle = pc)
    (hconnection : t.connection = s.connection) (hpoisoned : t.poisoned = s.poisoned)
    (hworld : pc.Outside path d.world s.world → t.lifecycle.Outside path d.world t.world) : Settled path t d :=
  ⟨hd.connection.trans hconnection.symm, hd.poisoned.trans hpoisoned.symm, hworld (hd.outside hpc)⟩

theorem Settled.closed {d : Database driver} (hd : Settled path s d) (hs : Safe s) (hclosed : s.lifecycle.closed = true)
    (hsound : d.poisoned = false) : d.connection = none :=
  hd.connection.trans (hs.closed hclosed (hd.poisoned.symm.trans hsound))

/-- Where no connection is on its way, the world is as the committed calls have it. -/
theorem Settled.world_eq {d : Database driver} (hd : Settled path s d) (hout : ∀ before,
    s.lifecycle.Outside path before s.world → before = s.world) : d = ⟨s.connection, s.world, s.poisoned⟩ := by
  obtain ⟨hconnection, hpoisoned, hworld⟩ := hd
  rw [← hconnection, ← hpoisoned, ← hout _ hworld]

theorem Settled.start_ok {connection : driver.Connection} {d : Database driver} (hd : Settled path s d)
    (hpc : s.lifecycle = .startSet connection) (hsound : s.poisoned = false) :
    d.start path = (.ok (), ⟨some connection, dropReplaced driver s.connection s.world, false⟩) := by
  have hopened := hd.world
  rw [hpc] at hopened
  have hnot : d.poisoned = false := hd.poisoned.trans hsound
  simp only [Database.start, show openConnection driver path d.world = _ from hopened, hnot, hd.connection,
    Bool.false_eq_true, if_false]

variable [DecidableEq ι]

theorem stand_call {i : ι} {pc : CallPc driver} (hcalls : t.calls = Function.update s.calls i pc)
    (hnumber : t.number = s.number) (hlifecycle : t.lifecycle.stand t.world = s.lifecycle.stand s.world) :
    t.stand = Function.update s.stand (.inl i) pc.stand := by
  funext c
  rcases c with j | m
  · by_cases hj : j = i
    · subst hj
      simp [State.stand, hcalls]
    · simp [State.stand, hcalls, hj]
  · simp [State.stand, hnumber, hlifecycle]

theorem stand_lifecycle (hcalls : t.calls = s.calls) (hnumber : t.number = s.number) :
    t.stand = Function.update s.stand (.inr s.number) (t.lifecycle.stand t.world) := by
  funext c
  rcases c with j | m
  · simp [State.stand, hcalls]
  · by_cases hm : m = s.number
    · subst hm
      simp [State.stand, hnumber]
    · simp [State.stand, hnumber, hm]

/-- The call of the number that has ended has responded, and the next one is fresh. -/
theorem stand_end (hcalls : t.calls = s.calls) (hnumber : t.number = s.number + 1)
    (hfresh : t.lifecycle.stand t.world = .fresh) : t.stand = Function.update s.stand (.inr s.number) .responded := by
  funext c
  rcases c with j | m
  · simp [State.stand, hcalls]
  · by_cases hm : m = s.number
    · subst hm
      simp [State.stand, hnumber]
    · have hlt : m < s.number + 1 ↔ m < s.number := by omega
      simp [State.stand, hnumber, hfresh, hm, hlt]

theorem Serial.invoke {op : Op} (hs : Serial path world s) (hcalls : t.calls = s.calls) (hnumber : t.number = s.number)
    (hhistory : t.history = s.history ++ [.invoke (.inr s.number) op]) (hfresh : s.lifecycle.stand s.world = .fresh)
    (hpending : t.lifecycle.stand t.world = .pending op) (hsettled : ∀ d, Settled path s d → Settled path t d) :
    Serial path world t := by
  obtain ⟨es, d, hstanding, hd⟩ := hs
  refine ⟨es, d, ?_, hsettled d hd⟩
  rw [hhistory, stand_lifecycle hcalls hnumber, hpending]
  exact hstanding.invoke (stand_number.trans hfresh) op

theorem Serial.silent (hs : Serial path world s) (hcalls : t.calls = s.calls) (hnumber : t.number = s.number)
    (hhistory : t.history = s.history) (hstand : t.lifecycle.stand t.world = s.lifecycle.stand s.world)
    (hsettled : ∀ d, Settled path s d → Settled path t d) : Serial path world t := by
  obtain ⟨es, d, hstanding, hd⟩ := hs
  refine ⟨es, d, ?_, hsettled d hd⟩
  rw [hhistory, stand_lifecycle hcalls hnumber, hstand, ← stand_number, Function.update_eq_self]
  exact hstanding

theorem Serial.commit {op : Op} {output : Output} (hs : Serial path world s) (hcalls : t.calls = s.calls)
    (hnumber : t.number = s.number) (hhistory : t.history = s.history)
    (hpending : s.lifecycle.stand s.world = .pending op) (hcommitted : t.lifecycle.stand t.world = .committed op output)
    (hspec : ∀ d, Settled path s d → ∃ d', Database.Spec path d op output d' ∧ Settled path t d') :
    Serial path world t := by
  obtain ⟨es, d, hstanding, hd⟩ := hs
  obtain ⟨d', hspec, hd'⟩ := hspec d hd
  refine ⟨es ++ [⟨.inr s.number, op, output⟩], d', ?_, hd'⟩
  rw [hhistory, stand_lifecycle hcalls hnumber, hcommitted]
  exact hstanding.commit (stand_number.trans hpending) hspec

theorem Serial.respond {op : Op} {output : Output} (hs : Serial path world s) (hcalls : t.calls = s.calls)
    (hnumber : t.number = s.number + 1) (hhistory : t.history = s.history ++ [.respond (.inr s.number) op output])
    (hcommitted : s.lifecycle.stand s.world = .committed op output) (hfresh : t.lifecycle.stand t.world = .fresh)
    (hsettled : ∀ d, Settled path s d → Settled path t d) : Serial path world t := by
  obtain ⟨es, d, hstanding, hd⟩ := hs
  refine ⟨es, d, ?_, hsettled d hd⟩
  rw [hhistory, stand_end hcalls hnumber hfresh]
  exact hstanding.respond (stand_number.trans hcommitted)

theorem Serial.lifecycleStep (hs : Serial path world s) (hsafe : Safe s) (h : s.lifecycleStep path = some t) :
    Serial path world t := by
  cases lifecycleStep_cases h with
  | starts hpc | stops hpc =>
    exact hs.invoke rfl rfl rfl (by rw [hpc]; rfl) rfl fun d hd => hd.moves hpc rfl rfl id
  | startStopped hpc | startLive hpc | stopLive hpc | stopStopped hpc | startLocks hpc | stopLocks hpc
  | stopCloses hpc =>
    exact hs.silent rfl rfl rfl (by rw [hpc]; rfl) fun d hd => hd.moves hpc rfl rfl id
  | started hpc | startFailed hpc | stopReturns hpc =>
    exact hs.respond rfl rfl rfl (by rw [hpc]; rfl) rfl fun d hd => hd.moves hpc rfl rfl id
  | opened hpc hopened =>
    refine hs.silent rfl rfl rfl (by rw [hpc]; rfl) fun d hd => ⟨hd.connection, hd.poisoned, ?_⟩
    have hworld : d.world = s.world := (hd.outside hpc :)
    rw [← hworld] at hopened
    exact hopened
  | @openFailed error world' hpc hopened =>
    refine hs.commit rfl rfl rfl (by rw [hpc]; rfl) rfl fun d hd => ?_
    have hworld : d.world = s.world := (hd.outside hpc :)
    have hspec := Database.spec_start path (hd.closed hsafe (by rw [hpc]; rfl))
    simp only [Database.start, hworld, hopened] at hspec
    exact ⟨_, hspec, hd.connection, hd.poisoned, rfl⟩
  | @startRefused connection hpc hpoisoned =>
    refine hs.commit rfl rfl rfl (by rw [hpc]; rfl) rfl fun d hd => ?_
    have hopened : openConnection driver path d.world = (.ok connection, s.world) := (hd.outside hpc :)
    have hspec := Database.spec_start path (hd.closed hsafe (by rw [hpc]; rfl))
    simp only [Database.start, hopened, hd.poisoned.trans hpoisoned, if_true] at hspec
    exact ⟨_, hspec, hd.connection, hpoisoned.symm, rfl⟩
  | startSet hpc =>
    refine hs.commit rfl rfl rfl (by rw [hpc]; rfl) rfl fun d hd => ?_
    have hsound := hsafe.sound (by rw [hsafe.lifecycle.mp (by rw [hpc]; rfl)]; simp)
    have hstart := hd.start_ok hpc hsound
    have hspec := Database.spec_start path (hd.closed hsafe (by rw [hpc]; rfl))
    rw [hstart] at hspec
    exact ⟨_, hspec, rfl, hsound.symm, rfl⟩
  | stopRefused hpc hpoisoned =>
    refine hs.commit rfl rfl rfl (by rw [hpc]; rfl) rfl fun d hd => ?_
    have hspec := Database.spec_stop path d
    simp only [Database.stop, hd.poisoned.trans hpoisoned, if_true] at hspec
    exact ⟨_, hspec, hd.moves hpc rfl rfl id⟩
  | stopTakes hpc =>
    refine hs.commit rfl rfl rfl (by rw [hpc]; rfl) rfl fun d hd => ?_
    have hworld : d.world = s.world := (hd.outside hpc :)
    have hsound := hsafe.sound (by rw [hsafe.lifecycle.mp (by rw [hpc]; rfl)]; simp)
    have hspec := Database.spec_stop path d
    simp only [Database.stop, hd.poisoned.trans hsound, hd.connection, hworld, Bool.false_eq_true, if_false] at hspec
    exact ⟨_, hspec, rfl, hsound.symm, rfl⟩

/-! ### Steps of a call -/

theorem Serial.call_silent (i : ι) (pc : CallPc driver) (hs : Serial path world s)
    (hcalls : t.calls = Function.update s.calls i pc) (hnumber : t.number = s.number)
    (hlifecycle : t.lifecycle.stand t.world = s.lifecycle.stand s.world) (hhistory : t.history = s.history)
    (hstand : pc.stand = (s.calls i).stand) (hsettled : ∀ d, Settled path s d → Settled path t d) :
    Serial path world t := by
  obtain ⟨es, d, hstanding, hd⟩ := hs
  refine ⟨es, d, ?_, hsettled d hd⟩
  have hsame : pc.stand = s.stand (.inl i) := hstand
  rw [hhistory, stand_call hcalls hnumber hlifecycle, hsame, Function.update_eq_self]
  exact hstanding

theorem Serial.call_commit {op : Op} {output : Output} (i : ι) (pc : CallPc driver) (hs : Serial path world s)
    (hcalls : t.calls = Function.update s.calls i pc) (hnumber : t.number = s.number)
    (hlifecycle : t.lifecycle.stand t.world = s.lifecycle.stand s.world) (hhistory : t.history = s.history)
    (hpending : (s.calls i).stand = .pending op) (hcommitted : pc.stand = .committed op output)
    (hspec : ∀ d, Settled path s d → ∃ d', Database.Spec path d op output d' ∧ Settled path t d') :
    Serial path world t := by
  obtain ⟨es, d, hstanding, hd⟩ := hs
  obtain ⟨d', hspec, hd'⟩ := hspec d hd
  refine ⟨es ++ [⟨.inl i, op, output⟩], d', ?_, hd'⟩
  rw [hhistory, stand_call hcalls hnumber hlifecycle, hcommitted]
  exact hstanding.commit hpending hspec

theorem Serial.call (hs : Serial path world s) {i : ι} {statement : Statement}
    (h : step path s (.call i statement) = some t) : Serial path world t := by
  obtain ⟨hidle, rfl⟩ := call_eq_some h
  obtain ⟨es, d, hstanding, hd⟩ := hs
  have hfresh : s.stand (.inl i) = .fresh := by simp [State.stand, hidle, CallPc.stand]
  have hstand : ((s.invoke (.inl i) (.statement statement)).setCall i (.loadLive statement)).stand =
      Function.update s.stand (.inl i) (CallPc.loadLive statement : CallPc driver).stand := stand_call rfl rfl rfl
  refine ⟨es, d, ?_, hd.frame rfl rfl rfl rfl⟩
  rw [hstand]
  exact hstanding.invoke hfresh _

theorem Serial.advance (hs : Serial path world s) (hsafe : Safe s) {i : ι} (h : s.advance i = some t) :
    Serial path world t := by
  cases advance_cases h with
  | @live statement hpc =>
    exact hs.call_silent i (.lock statement) rfl rfl rfl rfl (by rw [hpc]; rfl) fun d hd => hd.frame rfl rfl rfl rfl
  | @notLive statement hpc =>
    exact hs.call_silent i (.loadStopped statement) rfl rfl rfl rfl (by rw [hpc]; rfl) fun d hd =>
      hd.frame rfl rfl rfl rfl
  | @refused statement error hpc herror =>
    refine hs.call_commit i _ rfl rfl rfl rfl (by rw [hpc]; rfl) rfl fun d hd => ?_
    have hrefused : error = .notStarted ∨ error = .stopped := by
      rw [herror]
      split_ifs
      · exact .inr rfl
      · exact .inl rfl
    exact ⟨d, .refused hrefused, hd.frame rfl rfl rfl rfl⟩
  | @poisoned statement hpc hpoisoned =>
    refine hs.call_commit i _ rfl rfl rfl rfl (by rw [hpc]; rfl) rfl fun d hd => ?_
    have hspec := Database.spec_statement path statement d
    simp only [Database.statement, hd.poisoned.trans hpoisoned, if_true] at hspec
    exact ⟨d, hspec, hd.frame rfl rfl rfl rfl⟩
  | @locked statement hpc =>
    exact hs.call_silent i (.guard statement) rfl rfl rfl rfl (by rw [hpc]; rfl) fun d hd => hd.frame rfl rfl rfl rfl
  | @found statement connection hpc =>
    exact hs.call_silent i (.body statement connection) rfl rfl rfl rfl (by rw [hpc]; rfl)
      fun d hd => hd.frame rfl rfl rfl rfl
  | @missing statement hpc hmissing =>
    have hsound := hsafe.sound (by rw [(hsafe.calls i).mp (by rw [hpc]; rfl)]; simp)
    refine hs.call_commit i _ rfl rfl rfl rfl (by rw [hpc]; rfl) rfl fun d hd => ?_
    have hspec := Database.spec_statement path statement d
    simp only [Database.statement, hd.poisoned.trans hsound, hd.connection.trans hmissing, Bool.false_eq_true,
      if_false] at hspec
    exact ⟨d, hspec, hd.frame rfl rfl rfl rfl⟩
  | @ran statement connection result connection' world' hpc hrun =>
    have hopen := hsafe.body i statement connection hpc
    obtain ⟨hsound, hclosed⟩ := hsafe.not_closed hpc
    refine hs.call_commit i _ rfl rfl (LifecyclePc.stand_of_open hclosed _ _) rfl (by rw [hpc]; rfl) rfl fun d hd => ?_
    have hworld := (LifecyclePc.outside_of_open hclosed).mp hd.world
    have hspec := Database.spec_statement path statement d
    simp only [Database.statement, hd.poisoned.trans hsound, hd.connection.trans hopen, hworld, hrun,
      Bool.false_eq_true, if_false] at hspec
    exact ⟨_, hspec, rfl, rfl, (LifecyclePc.outside_of_open hclosed).mpr rfl⟩
  | @responded statement result hpc =>
    obtain ⟨es, d, hstanding, hd⟩ := hs
    have hcommitted : s.stand (.inl i) = .committed (.statement statement) (.answer result) := by
      simp [State.stand, hpc, CallPc.stand]
    have hstand : ((s.respond (.inl i) (.statement statement) (.answer result)).setCall i .returned).stand =
        Function.update s.stand (.inl i) (CallPc.returned : CallPc driver).stand := stand_call rfl rfl rfl
    refine ⟨es, d, ?_, hd.frame rfl rfl rfl rfl⟩
    rw [hstand]
    exact hstanding.respond hcommitted

theorem Serial.kept {act : Action ι} (hs : Serial path world s) (hsafe : Safe s) (h : step path s act = some t) :
    Serial path world t := by
  cases act with
  | call i statement => exact hs.call h
  | advance i => exact hs.advance hsafe h
  | lifecycle => exact hs.lifecycleStep hsafe h

end

/-! ### Whole runs -/

section
variable {s : State driver ι} {path : SqliteDatabasePath} {world : driver.World} [DecidableEq ι]

theorem inv_of_reaches (h : Reaches (step path) (.init world) s) : Safe s ∧ Serial path world s :=
  h.invariant (I := fun s => Safe s ∧ Serial path world s)
    (fun _ _ _ ⟨hsafe, hserial⟩ hs => ⟨hsafe.kept hs, hserial.kept hsafe hs⟩) ⟨.init world, .init path world⟩

/-- No call is in flight, and no start or stop. -/
structure AtRest (s : State driver ι) : Prop where
  calls : ∀ i, s.calls i = .idle ∨ s.calls i = .returned
  lifecycle : s.lifecycle = .down ∨ s.lifecycle = .up

omit [DecidableEq ι] in
theorem AtRest.still (h : AtRest s) (c : CallId ι) : (s.stand c).inFlight = false := by
  rcases c with i | m
  · rcases h.calls i with hcall | hcall <;> simp [State.stand, hcall, CallPc.stand, Stand.inFlight]
  · rcases h.lifecycle with hpc | hpc <;> simp only [State.stand, hpc, LifecyclePc.stand] <;> split_ifs <;> rfl

omit [DecidableEq ι] in
theorem AtRest.database (h : AtRest s) {d : Database driver} (hd : Settled path s d) :
    d = ⟨s.connection, s.world, s.poisoned⟩ := by
  refine hd.world_eq fun before hworld => ?_
  rcases h.lifecycle with hpc | hpc <;> rw [hpc] at hworld <;> exact hworld

/-- The next step of who holds the lock. -/
def Holder.action : Holder ι → Action ι
  | .lifecycle => .lifecycle
  | .call i => .advance i

/-- Who holds the lock can go on. -/
theorem Safe.holder_steps (hs : Safe s) (path : SqliteDatabasePath) {holder : Holder ι} (hlock : s.lock = some holder) :
    ∃ t, step path s holder.action = some t := by
  cases holder with
  | lifecycle =>
    have hholds := hs.lifecycle.mpr hlock
    cases hpc : s.lifecycle with
    | startSet connection => simp [Holder.action, step, State.lifecycleStep, hpc]
    | stopTake => simp [Holder.action, step, State.lifecycleStep, hpc]
    | _ => simp [hpc, LifecyclePc.holds] at hholds
  | call j =>
    have hholds := (hs.calls j).mpr hlock
    cases hpc : s.calls j with
    | guard statement =>
      cases hconnection : s.connection <;> simp [Holder.action, step, State.advance, hpc, hconnection]
    | body statement connection => simp [Holder.action, step, State.advance, hpc]
    | _ => simp [hpc, CallPc.holds] at hholds

/-- A call in flight can go on, or it waits for one that can. -/
theorem Safe.progress (hs : Safe s) (path : SqliteDatabasePath) {i : ι} (hi : (s.calls i).stand.inFlight = true) :
    (∃ t, s.advance i = some t) ∨ ∃ holder, s.lock = some holder ∧ ∃ t, step path s holder.action = some t := by
  cases hpc : s.calls i with
  | idle => simp [hpc, CallPc.stand, Stand.inFlight] at hi
  | returned => simp [hpc, CallPc.stand, Stand.inFlight] at hi
  | lock statement =>
    cases hlock : s.lock with
    | none =>
      refine .inl ?_
      by_cases hpoisoned : s.poisoned = true <;> simp [State.advance, hpc, hlock, hpoisoned]
    | some holder => exact .inr ⟨holder, rfl, hs.holder_steps path hlock⟩
  | loadLive statement => exact .inl ⟨_, by rw [State.advance, hpc]⟩
  | loadStopped statement => exact .inl ⟨_, by rw [State.advance, hpc]⟩
  | guard statement =>
    refine .inl ?_
    cases hconnection : s.connection <;> simp [State.advance, hpc, hconnection]
  | body statement connection => exact .inl ⟨_, by rw [State.advance, hpc]⟩
  | returning statement result => exact .inl ⟨_, by rw [State.advance, hpc]⟩

/-- So can the thread that starts and stops. -/
theorem Safe.lifecycle_progress (hs : Safe s) (path : SqliteDatabasePath) :
    (∃ t, s.lifecycleStep path = some t) ∨
      ∃ holder, s.lock = some holder ∧ ∃ t, step path s holder.action = some t := by
  have waits : (s.lock = none → ∃ t, s.lifecycleStep path = some t) → (∃ t, s.lifecycleStep path = some t) ∨
      ∃ holder, s.lock = some holder ∧ ∃ t, step path s holder.action = some t := fun hfree => by
    cases hlock : s.lock with
    | none => exact .inl (hfree hlock)
    | some holder => exact .inr ⟨holder, rfl, hs.holder_steps path hlock⟩
  cases hpc : s.lifecycle with
  | opened connection =>
    refine waits fun hlock => ?_
    by_cases hpoisoned : s.poisoned = true <;> simp [State.lifecycleStep, hpc, hlock, hpoisoned]
  | stopLock =>
    refine waits fun hlock => ?_
    by_cases hpoisoned : s.poisoned = true <;> simp [State.lifecycleStep, hpc, hlock, hpoisoned]
  | opening =>
    rcases hopen : openConnection driver path s.world with ⟨error | connection, world⟩ <;>
      simp [State.lifecycleStep, hpc, hopen]
  | starting result => cases result <;> simp [State.lifecycleStep, hpc]
  | _ => simp [State.lifecycleStep, hpc]

/-- Every run of overlapping statements, starts and stops is one of a database that one caller at a time uses, in an
    order that keeps that of calls that do not overlap: each statement that is not refused runs alone on the connection
    of the last start, after which no stop has taken it, and a refused one changes nothing. A call, a start and a stop
    wait only for one that can go on, and at rest the connection and what is outside of it are as that order leaves
    them. -/
theorem adapter_serializable (as : List (Action ι)) (hrun : run (step path) (.init world) as = some s) :
    ∃ es d, Linearization (Database.Spec path) ⟨none, world, false⟩ s.history es d ∧
      (AtRest s → es.Perm (completed s.history) ∧ d = ⟨s.connection, s.world, s.poisoned⟩) ∧
      (s.live = true ↔ s.lifecycle = .starting (.ok ()) ∨ s.lifecycle = .up ∨ s.lifecycle = .stopLive) ∧
      (∀ i, (s.calls i).stand.inFlight = true →
        (∃ t, s.advance i = some t) ∨ ∃ holder, s.lock = some holder ∧ ∃ t, step path s holder.action = some t) ∧
      ((∃ t, s.lifecycleStep path = some t) ∨
        ∃ holder, s.lock = some holder ∧ ∃ t, step path s holder.action = some t) := by
  obtain ⟨hsafe, es, d, hstanding, hd⟩ := inv_of_reaches ⟨as, hrun⟩
  refine ⟨es, d, hstanding.points.linearization, fun hrest => ⟨hstanding.perm_completed hrest.still, hrest.database hd⟩,
    ?_, fun i hi => hsafe.progress path hi, hsafe.lifecycle_progress path⟩
  rw [hsafe.live]
  cases s.lifecycle with
  | starting result => cases result <;> simp [LifecyclePc.live]
  | _ => simp [LifecyclePc.live]

end

/-- The driver on in-memory databases and the three statements about a table of markers: a connection holds the rows,
    once the table has been created. -/
def markersDriver : Rusqlite where
  World := Unit
  Connection := Option (List String)
  createDirAll _ world := (.ok (), world)
  openFile _ world := (.error "unable to open database file", world)
  openInMemory world := (.ok none, world)
  execute connection world statement parameters :=
    if statement = "CREATE TABLE marker (value TEXT NOT NULL)" then
      match connection with
      | none => (.ok 0, some [], world)
      | some rows => (.error "table marker already exists", some rows, world)
    else
      match connection, parameters with
      | some rows, [.text value] => (.ok 1, some (rows ++ [value]), world)
      | connection, _ => (.error "no such table: marker", connection, world)
  prepare connection _ _ :=
    match connection with
    | some _ => .ok 1
    | none => .error "no such table: marker"
  queryMap connection world _ _ :=
    (.ok ((connection.getD []).map fun value => .ok fun _ => .value (.text value)), connection, world)
  close _ world := (.ok (), world)
  drop _ world := world

/-- A start, two statements of which the second waits for the first, and a query. -/
def markersRun : List (Action (Fin 3)) :=
  List.replicate 7 .lifecycle ++
    [.call 0 ⟨.execute, "CREATE TABLE marker (value TEXT NOT NULL)", []⟩,
      .call 1 ⟨.execute, "INSERT INTO marker (value) VALUES (?1)", [.text "primary"]⟩,
      .advance 1, .advance 0, .advance 0, .advance 0, .advance 0, .advance 0, .advance 1, .advance 1, .advance 1,
      .advance 1, .call 2 ⟨.query, "SELECT value FROM marker", []⟩] ++ List.replicate 5 (.advance 2)

theorem adapter_serializable_markers :
    ∃ s : State markersDriver (Fin 3), run (step .inMemory) (.init ()) markersRun = some s ∧
      .respond (.inl 2) (.statement ⟨.query, "SELECT value FROM marker", []⟩)
        (.answer (.returned (.ok (.queried ⟨[⟨[.text "primary"]⟩]⟩)))) ∈ s.history ∧
      ∃ es, ∃ d : Database markersDriver, Linearization (Database.Spec .inMemory) ⟨none, (), false⟩ s.history es d ∧
        es.Perm (completed s.history) ∧ d.connection = some (some ["primary"]) := by
  obtain ⟨s, hrun, hrest, hconnection, hquery⟩ : ∃ s : State markersDriver (Fin 3),
      run (step .inMemory) (.init ()) markersRun = some s ∧ AtRest s ∧ s.connection = some (some ["primary"]) ∧
        s.history.getLast? = some (.respond (.inl 2) (.statement ⟨.query, "SELECT value FROM marker", []⟩)
          (.answer (.returned (.ok (.queried ⟨[⟨[.text "primary"]⟩]⟩))))) :=
    ⟨_, rfl, ⟨fun | 0 => .inr rfl | 1 => .inr rfl | 2 => .inr rfl, .inr rfl⟩, rfl, rfl⟩
  obtain ⟨es, d, hlinear, hatRest, -⟩ := adapter_serializable markersRun hrun
  obtain ⟨hperm, rfl⟩ := hatRest hrest
  exact ⟨s, hrun, List.mem_of_getLast? hquery, es, _, hlinear, hperm, hconnection⟩

end Adapter

end Fabric.Sqlite
