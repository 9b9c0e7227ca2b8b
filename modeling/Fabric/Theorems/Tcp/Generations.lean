import Fabric.Tcp.Connection
import Fabric.Theorems.Tcp.Stranding

/-! Connections and the stop of their generation. `ensure_live` reads a flag that a later start sets again and
    that is not read after the operation has blocked. In the runs that avoid both, what returns after the stop
    of its generation fails with `Stopped`. -/

namespace Fabric.Tcp.Connection
open Transition
open Loopback (State)

/-! ### The condition and the bound -/

/-- The operation is past `ensure_live` and has yet to return. -/
def OperationPc.inFlight : OperationPc → Bool
  | .lock | .stream _ => true
  | _ => false

/-- `ensure_live` of an operation does not run on a connection of an earlier generation while the flag is up,
    and no operation on a connection of the generation that stops is past it when the stop returns. -/
def Orderly (s : System) : Action → Prop
  | .operation c _ => ∀ call conn, s.calls c = some call → s.connections call.connection = some conn →
      call.pc = .ensureLive → call.operation ≠ .readSome 0 → s.adapter.generationLive = true →
      conn.generation = s.adapter.generation
  | .adapter (.lifecycle _) => s.adapter.lifecycle = .stopping .clearAddress → ∀ c call conn, s.calls c = some call →
      s.connections call.connection = some conn → call.operation ≠ .readSome 0 → call.pc.inFlight = true →
      conn.generation ≠ s.adapter.generation
  | _ => True

/-- An operation that returns after the stop of its generation fails with `Stopped`, and no operation returns
    a byte that the peer sent after that stop. -/
def Bounded (s : System) : Prop :=
  ∀ c call outcome late, s.calls c = some call → call.pc = .returned outcome late → call.operation ≠ .readSome 0 →
    (late = true → outcome = .failed .stopped) ∧ ∀ bytes, outcome = .bytes bytes → ∀ b ∈ bytes, b.late = false

/-! ### The invariant -/

namespace System

def generationOf (s : System) (o : Origin) : Option Nat := (s.connections o).map TcpConnection.generation

/-- The stop of the generation of the connection `o` has not returned. -/
def Current (s : System) (o : Origin) : Prop := ∃ g, s.generationOf o = some g ∧ ¬s.adapter.StopReturned g

end System

/-- What holds of a call at each of its steps. -/
def Fine (s : System) (call : Call) : Prop :=
  match call.pc with
  | .ensureLive => s.generationOf call.connection ≠ none
  | .empty => call.operation = .readSome 0
  | .lock => call.operation ≠ .readSome 0 ∧ s.Current call.connection
  | .stream received =>
    call.operation ≠ .readSome 0 ∧ s.Current call.connection ∧ ∀ b ∈ received, b.late = false
  | .returned outcome late => call.operation ≠ .readSome 0 →
      (late = true → outcome = .failed .stopped) ∧ ∀ bytes, outcome = .bytes bytes → ∀ b ∈ bytes, b.late = false

structure Inv (s : System) : Prop where
  adapter : Loopback.Inv s.adapter
  generation : ∀ o conn, s.connections o = some conn → conn.generation ≤ s.adapter.generation
  unread : ∀ o conn, s.connections o = some conn → ∀ b ∈ conn.unread, b.late = true →
    s.adapter.StopReturned conn.generation
  /-- Each call makes one connection, and an accepted stream stays accepted. -/
  accepts : ∀ a, s.generationOf (.accept a) ≠ none → ∃ stream, s.adapter.acceptors a = .accepted stream
  connects : ∀ c, s.generationOf (.connect c) ≠ none → s.connects c = .connected

/-- Every call stands as `Fine` says. -/
def CallsFine (s : System) : Prop := ∀ c call, s.calls c = some call → Fine s call

theorem Inv.initial : Inv .initial where
  adapter := .initial
  generation o conn h := by cases h
  unread o conn h := by cases h
  accepts a h := absurd rfl h
  connects c h := absurd rfl h

section
variable {s t : System}

theorem generationOf_eq {s : System} {o : Origin} {conn : TcpConnection} (h : s.connections o = some conn) :
    s.generationOf o = some conn.generation := by
  simp [System.generationOf, h]

/-- A call keeps standing where its connection and the returned stops stay the same. -/
theorem Fine.of_eq {call : Call} (h : Fine s call)
    (hgen : s.generationOf call.connection ≠ none → t.generationOf call.connection = s.generationOf call.connection)
    (hstop : ∀ g, call.operation ≠ .readSome 0 → call.pc.inFlight = true → s.generationOf call.connection = some g →
      ¬s.adapter.StopReturned g → ¬t.adapter.StopReturned g) :
    Fine t call := by
  have current : call.operation ≠ .readSome 0 → call.pc.inFlight = true → s.Current call.connection →
      t.Current call.connection := by
    rintro hne hpc ⟨g, hg, hcur⟩
    exact ⟨g, (hgen (by simp [hg])).trans hg, hstop g hne hpc hg hcur⟩
  unfold Fine at h ⊢
  cases hpc : call.pc <;> rw [hpc] at h
  case ensureLive => exact (hgen h).symm ▸ h
  case empty => exact h
  case lock => exact ⟨h.1, current h.1 (by rw [hpc]; rfl) h.2⟩
  case stream received => exact ⟨h.1, current h.1 (by rw [hpc]; rfl) h.2.1, h.2.2⟩
  case returned outcome late => exact h

/-! ### Steps of an operation -/

/-- Where an operation stands after a step. -/
def Advances (s : System) (call : Call) (conn : TcpConnection) (pc : OperationPc) : Prop :=
  match call.pc with
  | .ensureLive =>
    (s.adapter.generationLive = true ∧ call.operation = .readSome 0 ∧ pc = .empty) ∨
    (s.adapter.generationLive = true ∧ call.operation ≠ .readSome 0 ∧ pc = .lock) ∨
    ∃ late, s.adapter.generationLive = false ∧ pc = .returned (.failed .stopped) late
  | .empty => ∃ late, pc = .returned (.bytes []) late
  | .lock => pc = .stream []
  | .stream received =>
    (∃ more, pc = .stream more ∧ ∀ b ∈ more, b ∈ received ∨ b ∈ conn.unread) ∨
    ∃ outcome, pc = .returned outcome (decide (s.adapter.StopReturned conn.generation)) ∧
      outcome ≠ .failed .stopped ∧
      ∀ bytes, outcome = .bytes bytes → ∀ b ∈ bytes, b ∈ received ∨ b ∈ conn.unread
  | .returned _ _ => False

/-- A step of the call `c` moves it and changes nothing but the stream of its connection. -/
structure CallFrame (s t : System) (c : Nat) (call : Call) (conn : TcpConnection) : Prop where
  adapter : t.adapter = s.adapter
  connects : t.connects = s.connects
  moves : ∃ pc, t.calls = Function.update s.calls c (some { call with pc := pc }) ∧ Advances s call conn pc
  connection : ∃ conn', t.connections = Function.update s.connections call.connection (some conn') ∧
    conn'.generation = conn.generation ∧ conn'.unread ⊆ conn.unread

theorem finish_frame {c : Nat} {call : Call} {conn conn' : TcpConnection} {received : List PeerByte}
    {outcome : Outcome} (hpc : call.pc = .stream received) (hne : outcome ≠ .failed .stopped)
    (hbytes : ∀ bytes, outcome = .bytes bytes → ∀ b ∈ bytes, b ∈ received ∨ b ∈ conn.unread)
    (hgen : conn'.generation = conn.generation) (hunread : conn'.unread ⊆ conn.unread) :
    CallFrame s (s.finish c call conn' outcome) c call conn := by
  refine ⟨rfl, rfl, ⟨_, rfl, ?_⟩, _, rfl, hgen, hunread⟩
  unfold Advances
  rw [hpc]
  exact Or.inr ⟨outcome, by rw [hgen], hne, hbytes⟩

theorem answerStep_frame {c : Nat} {call : Call} {conn : TcpConnection} {received : List PeerByte} {answer : Answer}
    (hpc : call.pc = .stream received) (hs : s.answerStep c call conn received answer = some t) :
    CallFrame s t c call conn := by
  have done : ∀ {conn' : TcpConnection} {outcome : Outcome}, outcome ≠ .failed .stopped →
      (∀ bytes, outcome ≠ .bytes bytes) → conn'.generation = conn.generation → conn'.unread ⊆ conn.unread →
      CallFrame s (s.finish c call conn' outcome) c call conn := fun hne hbytes hgen hunread =>
    finish_frame hpc hne (fun bytes h => absurd h (hbytes bytes)) hgen hunread
  cases answer with
  | done =>
    simp only [System.answerStep] at hs
    split at hs <;> first
      | exact Option.some.inj hs ▸ done (by simp) (by simp) rfl (fun _ => id)
      | cases hs
  | error detail =>
    simp only [System.answerStep] at hs
    split at hs <;>
      exact Option.some.inj hs ▸ done (by simp [TcpTransportError.stopped]) (by simp) rfl (fun _ => id)
  | read count =>
    cases hop : call.operation with
    | writeAll _ | shutdownWrite | shutdownBoth => simp [System.answerStep, hop] at hs
    | readSome maxBytes =>
      simp only [System.answerStep, hop] at hs
      split at hs
      · obtain rfl := Option.some.inj hs
        refine finish_frame hpc (by simp) (fun bytes h b hb => ?_) rfl (List.drop_subset _ _)
        cases h
        exact Or.inr (List.mem_of_mem_take hb)
      · cases hs
    | readToEnd =>
      simp only [System.answerStep, hop] at hs
      split at hs
      · split at hs
        · obtain rfl := Option.some.inj hs
          refine finish_frame hpc (by simp) (fun bytes h b hb => ?_) rfl (fun _ => id)
          cases h
          exact Or.inl hb
        · obtain rfl := Option.some.inj hs
          refine ⟨rfl, rfl, ⟨_, by rw [hop]; rfl, ?_⟩, _, rfl, rfl, List.drop_subset _ _⟩
          unfold Advances
          rw [hpc]
          refine Or.inl ⟨_, rfl, fun b hb => ?_⟩
          rcases List.mem_append.mp hb with hb | hb
          · exact Or.inl hb
          · exact Or.inr (List.mem_of_mem_take hb)
      · cases hs

theorem callStep_frame {c : Nat} {call : Call} {conn : TcpConnection} {answer : Answer}
    (hconn : s.connections call.connection = some conn) (hs : s.callStep c call conn answer = some t) :
    CallFrame s t c call conn := by
  have stays : ∀ {pc : OperationPc}, Advances s call conn pc →
      CallFrame s (s.setCall c { call with pc := pc }) c call conn := fun h =>
    ⟨rfl, rfl, ⟨_, rfl, h⟩, conn, (by rw [← hconn, Function.update_eq_self]; rfl), rfl, fun _ => id⟩
  unfold System.callStep at hs
  cases hpc : call.pc with
  | ensureLive =>
    simp only [hpc] at hs
    split at hs
    · rename_i hlive
      obtain rfl := Option.some.inj hs
      refine stays ?_
      unfold Advances
      rw [hpc]
      by_cases hzero : call.operation = .readSome 0
      · exact Or.inl ⟨hlive, hzero, if_pos hzero⟩
      · exact Or.inr (Or.inl ⟨hlive, hzero, if_neg hzero⟩)
    · rename_i hlive
      obtain rfl := Option.some.inj hs
      refine stays ?_
      unfold Advances
      rw [hpc]
      exact Or.inr (Or.inr ⟨_, by simpa using hlive, rfl⟩)
  | empty =>
    simp only [hpc, Option.some.injEq] at hs
    subst hs
    refine stays ?_
    unfold Advances
    rw [hpc]
    exact ⟨_, rfl⟩
  | lock =>
    simp only [hpc] at hs
    split at hs
    · obtain rfl := Option.some.inj hs
      refine ⟨rfl, rfl, ⟨_, rfl, ?_⟩, _, rfl, rfl, fun _ => id⟩
      unfold Advances
      rw [hpc]
    · cases hs
  | stream received =>
    simp only [hpc] at hs
    exact answerStep_frame hpc hs
  | returned outcome late =>
    simp only [hpc] at hs
    cases hs

theorem operation_frame {c : Nat} {answer : Answer} (hs : s.operation c answer = some t) :
    ∃ call conn, s.calls c = some call ∧ s.connections call.connection = some conn ∧ CallFrame s t c call conn := by
  simp only [System.operation, Option.bind_eq_some_iff] at hs
  obtain ⟨call, hcall, conn, hconn, hs⟩ := hs
  exact ⟨call, conn, hcall, hconn, callStep_frame hconn hs⟩

theorem CallFrame.generationOf {c : Nat} {call : Call} {conn : TcpConnection} (h : CallFrame s t c call conn)
    (hconn : s.connections call.connection = some conn) (o : Origin) : t.generationOf o = s.generationOf o := by
  obtain ⟨conn', hconn', hgen, -⟩ := h.connection
  unfold System.generationOf
  by_cases ho : o = call.connection
  · subst ho
    rw [hconn', Function.update_self, hconn]
    simp [hgen]
  · rw [hconn', Function.update_of_ne ho]

/-! ### Steps of the adapter -/

theorem adapterStep_cases {act : Loopback.Action} (hs : s.adapterStep act = some t) :
    ∃ adapter, Loopback.step s.adapter act = some adapter ∧
      (t = { s with adapter } ∨ ∃ a stream, act = .accept a ∧ adapter.acceptors a = .accepted stream ∧
        t = { s with adapter }.new (.accept a)) := by
  simp only [System.adapterStep, Option.map_eq_some_iff] at hs
  obtain ⟨adapter, hstep, rfl⟩ := hs
  refine ⟨adapter, hstep, ?_⟩
  split
  · split
    · rename_i hacc
      exact Or.inr ⟨_, _, rfl, hacc, rfl⟩
    · exact Or.inl rfl
  · exact Or.inl rfl

/-! ### Every step keeps the invariant -/

theorem generationOf_setConnection_of_ne {o o' : Origin} {conn : TcpConnection} (h : o' ≠ o) :
    (s.setConnection o conn).generationOf o' = s.generationOf o' := by
  simp [System.generationOf, System.setConnection, Function.update_of_ne h]

/-- A step outside the adapter keeps the connections of their generations. -/
theorem Inv.of_connection (hi : Inv s) (ha : t.adapter = s.adapter) (hc : t.connects = s.connects)
    (hgen : ∀ o, t.generationOf o = s.generationOf o)
    (hunread : ∀ o conn, t.connections o = some conn → ∀ b ∈ conn.unread, b.late = true →
      s.adapter.StopReturned conn.generation) : Inv t where
  adapter := ha ▸ hi.adapter
  generation o conn h := by
    have hg := (hgen o).symm.trans (generationOf_eq h)
    simp only [System.generationOf, Option.map_eq_some_iff] at hg
    obtain ⟨old, hold, heq⟩ := hg
    rw [ha, ← heq]
    exact hi.generation o old hold
  unread := by
    rw [ha]
    exact hunread
  accepts a h := by
    rw [ha]
    exact hi.accepts a (hgen _ ▸ h)
  connects c h := by
    rw [hc]
    exact hi.connects c (hgen _ ▸ h)

/-- A new connection belongs to the current generation, and nothing has arrived on it. -/
theorem Inv.new (hi : Inv s) {o : Origin}
    (haccepts : ∀ a, o = .accept a → ∃ stream, s.adapter.acceptors a = .accepted stream)
    (hconnects : ∀ c, o = .connect c → s.connects c = .connected) : Inv (s.new o) where
  adapter := hi.adapter
  generation o' conn h := by
    rcases update_eq_some.mp h with ⟨-, rfl⟩ | ⟨-, h⟩
    · exact Nat.le_refl _
    · exact hi.generation o' conn h
  unread o' conn h b hb := by
    rcases update_eq_some.mp h with ⟨-, rfl⟩ | ⟨-, h⟩
    · cases hb
    · exact hi.unread o' conn h b hb
  accepts a h := by
    by_cases ho : Origin.accept a = o
    · exact haccepts a ho.symm
    · exact hi.accepts a (by rwa [System.new, generationOf_setConnection_of_ne ho] at h)
  connects c h := by
    by_cases ho : Origin.connect c = o
    · exact hconnects c ho.symm
    · exact hi.connects c (by rwa [System.new, generationOf_setConnection_of_ne ho] at h)

theorem Inv.adapterStep (hi : Inv s) {act : Loopback.Action} (hs : s.adapterStep act = some t) : Inv t := by
  obtain ⟨adapter, hstep, ht⟩ := adapterStep_cases hs
  have moved : Inv { s with adapter } := {
    adapter := hi.adapter.kept hstep
    generation := fun o conn h => Nat.le_trans (hi.generation o conn h) (Loopback.step_generation hstep).1
    unread := fun o conn h b hb hlate => Loopback.StopReturned.kept (hi.unread o conn h b hb hlate) hstep
    accepts := fun a h => by
      obtain ⟨stream, hacc⟩ := hi.accepts a h
      exact ⟨stream, Loopback.step_accepted hstep hacc⟩
    connects := hi.connects }
  rcases ht with rfl | ⟨a, stream, -, hacc, rfl⟩
  · exact moved
  · exact moved.new (fun a' h => by cases h; exact ⟨stream, hacc⟩) (fun c h => by cases h)

theorem Inv.setConnect (hi : Inv s) {c : Nat} {pc : ConnectPc} (hne : s.connects c ≠ .connected) :
    Inv (s.setConnect c pc) where
  adapter := hi.adapter
  generation := hi.generation
  unread := hi.unread
  accepts := hi.accepts
  connects c' h := by
    by_cases hc : c' = c
    · subst hc
      exact absurd (hi.connects c' h) hne
    · simpa [System.setConnect, Function.update_of_ne hc] using hi.connects c' h

theorem Inv.connectStep (hi : Inv s) {c : Nat} {answer : ConnectAnswer} (hs : s.connectStep c answer = some t) :
    Inv t := by
  unfold System.connectStep at hs
  cases hpc : s.connects c with
  | uncalled | connected | failed error => simp [hpc] at hs
  | checkLive =>
    simp only [hpc, Option.some.injEq] at hs
    exact hs ▸ hi.setConnect (by simp [hpc])
  | connecting =>
    simp only [hpc] at hs
    cases answer <;> obtain rfl := Option.some.inj hs
    case connected =>
      exact (hi.setConnect (by simp [hpc])).new (fun a h => by cases h)
        (fun c' h => by cases h; simp [System.setConnect])
    all_goals exact hi.setConnect (by simp [hpc])

theorem Inv.operation (hi : Inv s) {c : Nat} {answer : Answer} (hs : s.operation c answer = some t) : Inv t := by
  obtain ⟨call, conn, -, hconn, hframe⟩ := operation_frame hs
  refine hi.of_connection hframe.adapter hframe.connects (hframe.generationOf hconn) fun o conn' h b hb hlate => ?_
  obtain ⟨conn'', hconns, hgen, hunread⟩ := hframe.connection
  rw [hconns] at h
  rcases update_eq_some.mp h with ⟨rfl, rfl⟩ | ⟨-, h⟩
  · rw [hgen]
    exact hi.unread _ conn hconn b (hunread hb) hlate
  · exact hi.unread o conn' h b hb hlate

theorem send_cases {o : Origin} {bytes : List UInt8} (hs : s.send o bytes = some t) :
    ∃ conn, s.connections o = some conn ∧ t = s.setConnection o { conn with
      unread := conn.unread ++ bytes.map (⟨·, decide (s.adapter.StopReturned conn.generation)⟩) } := by
  unfold System.send at hs
  split at hs
  · rename_i conn hconn
    split at hs
    · cases hs
    · exact ⟨conn, hconn, (Option.some.inj hs).symm⟩
  · cases hs

theorem generationOf_setConnection {o : Origin} {conn conn' : TcpConnection} (hconn : s.connections o = some conn)
    (hgen : conn'.generation = conn.generation) (o' : Origin) :
    (s.setConnection o conn').generationOf o' = s.generationOf o' := by
  by_cases ho : o' = o
  · subst ho
    simp [System.generationOf, System.setConnection, hconn, hgen]
  · exact generationOf_setConnection_of_ne ho

/-- A connection may change when it keeps its generation and holds no late byte that it should not. -/
theorem Inv.setConnection (hi : Inv s) {o : Origin} {conn conn' : TcpConnection} (hconn : s.connections o = some conn)
    (hgen : conn'.generation = conn.generation)
    (hunread : ∀ b ∈ conn'.unread, b.late = true → s.adapter.StopReturned conn.generation) :
    Inv (s.setConnection o conn') := by
  refine hi.of_connection rfl rfl (generationOf_setConnection hconn hgen) fun o' other h b hb hlate => ?_
  rcases update_eq_some.mp h with ⟨-, rfl⟩ | ⟨-, h⟩
  · rw [hgen]
    exact hunread b hb hlate
  · exact hi.unread o' other h b hb hlate

theorem Inv.send (hi : Inv s) {o : Origin} {bytes : List UInt8} (hs : s.send o bytes = some t) : Inv t := by
  obtain ⟨conn, hconn, rfl⟩ := send_cases hs
  refine hi.setConnection hconn rfl fun b hb hlate => ?_
  rcases List.mem_append.mp hb with hb | hb
  · exact hi.unread _ conn hconn b hb hlate
  · obtain ⟨byte, -, rfl⟩ := List.mem_map.mp hb
    exact of_decide_eq_true hlate

theorem Inv.close (hi : Inv s) {o : Origin} (hs : s.close o = some t) : Inv t := by
  simp only [System.close, Option.map_eq_some_iff] at hs
  obtain ⟨conn, hconn, rfl⟩ := hs
  exact hi.setConnection hconn rfl (hi.unread _ conn hconn)

theorem Inv.kept (hi : Inv s) {act : Action} (hs : step s act = some t) : Inv t := by
  cases act with
  | adapter act => exact hi.adapterStep hs
  | connecting c answer => exact hi.connectStep hs
  | operation c answer => exact hi.operation hs
  | send o bytes => exact hi.send hs
  | close o => exact hi.close hs
  | connect c =>
    simp only [step, System.connect] at hs
    split at hs
    · rename_i hpc
      exact Option.some.inj hs ▸ hi.setConnect (by simp [hpc])
    · cases hs
  | call c o operation =>
    simp only [step, System.call] at hs
    split at hs
    · obtain rfl := Option.some.inj hs
      exact hi.of_connection rfl rfl (fun _ => rfl) hi.unread
    · cases hs

/-! ### Calls in orderly runs -/

/-- Before the stop has returned, its generation is the current one and the flag of a stopped adapter is down. -/
theorem Inv.current_of_live (hi : Inv s) {conn : TcpConnection} (hlive : s.adapter.generationLive = true)
    (hgen : conn.generation = s.adapter.generation) : ¬s.adapter.StopReturned conn.generation := by
  rintro (hlt | ⟨-, hl⟩)
  · omega
  · have hdead := hi.adapter.dead (by rw [hl]; trivial)
    rw [hdead] at hlive
    cases hlive

theorem Fine.advance (hi : Inv s) {c : Nat} {answer : Answer} {call : Call} {conn : TcpConnection}
    (hcall : s.calls c = some call) (hconn : s.connections call.connection = some conn)
    (hf : Fine s call) (horderly : Orderly s (.operation c answer)) {pc : OperationPc}
    (hadv : Advances s call conn pc) : Fine s { call with pc := pc } := by
  have current : s.Current call.connection → ¬s.adapter.StopReturned conn.generation := by
    rintro ⟨g, hg, hcur⟩
    rw [generationOf_eq hconn, Option.some.injEq] at hg
    exact hg ▸ hcur
  unfold Advances at hadv
  unfold Fine at hf
  cases hpc : call.pc with
  | ensureLive =>
    rw [hpc] at hadv
    rcases hadv with ⟨-, hzero, rfl⟩ | ⟨hlive, hne, rfl⟩ | ⟨late, -, rfl⟩
    · exact hzero
    · have hgen := horderly call conn hcall hconn hpc hne hlive
      exact ⟨hne, _, generationOf_eq hconn, hi.current_of_live hlive hgen⟩
    · exact fun _ => ⟨fun _ => rfl, fun bytes h => by cases h⟩
  | empty =>
    rw [hpc] at hadv hf
    obtain ⟨late, rfl⟩ := hadv
    exact fun hne => absurd hf hne
  | lock =>
    rw [hpc] at hadv hf
    subst hadv
    exact ⟨hf.1, hf.2, fun b hb => by cases hb⟩
  | stream received =>
    rw [hpc] at hadv hf
    obtain ⟨hne, hcur, hreceived⟩ := hf
    -- Before the stop has returned, every byte has been sent before it.
    have early : ∀ b, b ∈ received ∨ b ∈ conn.unread → b.late = false := by
      rintro b (hb | hb)
      · exact hreceived b hb
      · exact Bool.eq_false_iff.mpr fun hlate => current hcur (hi.unread _ conn hconn b hb hlate)
    rcases hadv with ⟨more, rfl, hmore⟩ | ⟨outcome, rfl, -, hbytes⟩
    · exact ⟨hne, hcur, fun b hb => early b (hmore b hb)⟩
    · refine fun _ => ⟨fun hlate => absurd (of_decide_eq_true hlate) (current hcur), fun bytes h b hb => ?_⟩
      exact early b (hbytes bytes h b hb)
  | returned outcome late =>
    rw [hpc] at hadv
    exact hadv.elim

/-- A connection is made where there is none. -/
theorem generationOf_new_of_none {o o' : Origin} (hfresh : s.generationOf o = none) (h : s.generationOf o' ≠ none) :
    (s.new o).generationOf o' = s.generationOf o' := by
  refine generationOf_setConnection_of_ne ?_
  rintro rfl
  exact h hfresh

/-- Connections keep the generation in which they were made. -/
theorem step_generationOf (hi : Inv s) {act : Action} (hs : step s act = some t) {o : Origin}
    (h : s.generationOf o ≠ none) : t.generationOf o = s.generationOf o := by
  cases act with
  | adapter act =>
    obtain ⟨adapter, hstep, rfl | ⟨a, stream, rfl, hacc, rfl⟩⟩ := adapterStep_cases hs
    · rfl
    · refine generationOf_new_of_none (s := { s with adapter }) ?_ h
      by_contra hsome
      obtain ⟨stream', hacc'⟩ := hi.accepts a hsome
      simp [Loopback.step, Loopback.State.acceptStep, hacc'] at hstep
  | operation c answer =>
    obtain ⟨call, conn, -, hconn, hframe⟩ := operation_frame hs
    exact hframe.generationOf hconn o
  | connecting c answer =>
    simp only [step, System.connectStep] at hs
    cases hpc : s.connects c with
    | uncalled | connected | failed error => simp [hpc] at hs
    | checkLive =>
      simp only [hpc, Option.some.injEq] at hs
      exact hs ▸ rfl
    | connecting =>
      simp only [hpc] at hs
      cases answer <;> obtain rfl := Option.some.inj hs
      case connected =>
        refine generationOf_new_of_none (s := s.setConnect c .connected) ?_ h
        by_contra hsome
        have hconnected := hi.connects c hsome
        rw [hpc] at hconnected
        cases hconnected
      all_goals rfl
  | connect c =>
    simp only [step, System.connect] at hs
    split at hs
    · exact Option.some.inj hs ▸ rfl
    · cases hs
  | call c o operation =>
    simp only [step, System.call] at hs
    split at hs
    · exact Option.some.inj hs ▸ rfl
    · cases hs
  | send o' bytes =>
    obtain ⟨conn, hconn, rfl⟩ := send_cases hs
    exact generationOf_setConnection hconn (by rfl) o
  | close o' =>
    simp only [step, System.close, Option.map_eq_some_iff] at hs
    obtain ⟨conn, hconn, rfl⟩ := hs
    exact generationOf_setConnection hconn (by rfl) o

/-- Only a new call and a step of an operation change the calls. -/
theorem step_calls {act : Action} (hs : step s act = some t) :
    t.calls = s.calls ∨
    (∃ c o operation, act = .call c o operation ∧ s.calls c = none ∧ s.generationOf o ≠ none ∧
      t.calls = Function.update s.calls c (some ⟨o, operation, .ensureLive⟩)) ∨
    ∃ c answer call conn, act = .operation c answer ∧ s.calls c = some call ∧
      s.connections call.connection = some conn ∧ CallFrame s t c call conn := by
  cases act with
  | adapter act =>
    obtain ⟨adapter, -, rfl | ⟨a, stream, -, -, rfl⟩⟩ := adapterStep_cases hs <;> exact Or.inl rfl
  | operation c answer =>
    obtain ⟨call, conn, hcall, hconn, hframe⟩ := operation_frame hs
    exact Or.inr (Or.inr ⟨c, answer, call, conn, rfl, hcall, hconn, hframe⟩)
  | call c o operation =>
    simp only [step, System.call] at hs
    split at hs
    · rename_i conn hnone hconn
      obtain rfl := Option.some.inj hs
      exact Or.inr (Or.inl ⟨c, o, operation, rfl, hnone, by simp [generationOf_eq hconn], rfl⟩)
    · cases hs
  | connect c =>
    simp only [step, System.connect] at hs
    split at hs
    · exact Or.inl (Option.some.inj hs ▸ rfl)
    · cases hs
  | connecting c answer =>
    simp only [step, System.connectStep] at hs
    repeat' split at hs
    all_goals first
      | exact Or.inl (Option.some.inj hs ▸ rfl)
      | cases hs
  | send o bytes =>
    obtain ⟨conn, -, rfl⟩ := send_cases hs
    exact Or.inl rfl
  | close o =>
    simp only [step, System.close, Option.map_eq_some_iff] at hs
    obtain ⟨conn, -, rfl⟩ := hs
    exact Or.inl rfl

/-- The adapter takes its own steps only. -/
theorem step_adapter {act : Action} (hs : step s act = some t) :
    t.adapter = s.adapter ∨ ∃ a, act = .adapter a ∧ Loopback.step s.adapter a = some t.adapter := by
  cases act with
  | adapter act =>
    obtain ⟨adapter, hstep, rfl | ⟨a, stream, -, -, rfl⟩⟩ := adapterStep_cases hs <;>
      exact Or.inr ⟨act, rfl, hstep⟩
  | operation c answer =>
    obtain ⟨call, conn, -, -, hframe⟩ := operation_frame hs
    exact Or.inl hframe.adapter
  | connecting c answer =>
    simp only [step, System.connectStep] at hs
    repeat' split at hs
    all_goals first
      | exact Or.inl (Option.some.inj hs ▸ rfl)
      | cases hs
  | connect c =>
    simp only [step, System.connect] at hs
    split at hs
    · exact Or.inl (Option.some.inj hs ▸ rfl)
    · cases hs
  | call c o operation =>
    simp only [step, System.call] at hs
    split at hs
    · exact Or.inl (Option.some.inj hs ▸ rfl)
    · cases hs
  | send o bytes =>
    obtain ⟨conn, -, rfl⟩ := send_cases hs
    exact Or.inl rfl
  | close o =>
    simp only [step, System.close, Option.map_eq_some_iff] at hs
    obtain ⟨conn, -, rfl⟩ := hs
    exact Or.inl rfl

theorem CallsFine.kept (h : CallsFine s) (hi : Inv s) {act : Action} (horderly : Orderly s act)
    (hs : step s act = some t) : CallsFine t := by
  intro c call hcall
  -- Only the last step of a stop can end the generation of a connection, and no call of its is then in flight.
  have keep : ∀ call', Fine s call' → (∀ a, act = .adapter a → s.calls c = some call') → Fine t call' := by
    intro call' hf hsame
    refine hf.of_eq (step_generationOf hi hs) fun g hne hflight hg hcur hret => ?_
    rcases step_adapter hs with heq | ⟨a, rfl, hstep⟩
    · rw [heq] at hret
      exact hcur hret
    · simp only [System.generationOf, Option.map_eq_some_iff] at hg
      obtain ⟨conn, hconn, rfl⟩ := hg
      obtain ⟨hgen, hl, connected, rfl⟩ := Loopback.step_stops hstep (hi.generation _ conn hconn) hcur hret
      exact horderly hl c call' conn (hsame _ rfl) hconn hne hflight hgen
  rcases step_calls hs with heq | ⟨c', o, operation, rfl, -, hgen, heq⟩ |
    ⟨c', answer, call', conn, rfl, hcall', hconn, hframe⟩
  · rw [heq] at hcall
    exact keep call (h c call hcall) fun _ _ => hcall
  · rw [heq] at hcall
    rcases update_eq_some.mp hcall with ⟨rfl, rfl⟩ | ⟨-, hcall⟩
    · exact keep _ hgen fun _ ha => by cases ha
    · exact keep call (h c call hcall) fun _ _ => hcall
  · obtain ⟨pc, heq, hadv⟩ := hframe.moves
    rw [heq] at hcall
    rcases update_eq_some.mp hcall with ⟨rfl, rfl⟩ | ⟨-, hcall⟩
    · exact keep _ ((h c call' hcall').advance hi hcall' hconn horderly hadv) fun _ ha => by cases ha
    · exact keep call (h c call hcall) fun _ _ => hcall

end

/-- In every run in which `ensure_live` never finds the flag of a later generation up and no operation is past it
    when its generation stops, what returns after that stop fails with `Stopped` and reads nothing sent after it. -/
theorem bounded {s : System} (as : List Action) (hrun : run step .initial as = some s)
    (horderly : Meets step Orderly .initial as) : Bounded s := by
  have hall := run_invariant_of_meets (I := fun s => Inv s ∧ CallsFine s)
    (fun s act t ho h hs => ⟨h.1.kept hs, h.2.kept h.1 ho hs⟩) horderly hrun ⟨.initial, fun c call h => by cases h⟩
  intro c call outcome late hcall hpc
  have hfine := hall.2 c call hcall
  unfold Fine at hfine
  rw [hpc] at hfine
  exact hfine

/-- A start, as steps of the adapter. -/
def startRun : List Action :=
  [.adapter (.start (some ⟨"127.0.0.1", 8080⟩)), .adapter (.lifecycle false), .adapter (.lifecycle false),
    .adapter (.lifecycle false), .adapter (.lifecycle false), .adapter (.lifecycle false), .adapter (.lifecycle false),
    .adapter (.lifecycle false)]

/-- A stop of generation `g`, which wakes its listener thread and joins it. -/
def stopRun (g : Nat) : List Action :=
  [.adapter .stop, .adapter (.lifecycle false), .adapter (.lifecycle false), .adapter (.lifecycle false),
    .adapter (.lifecycle true), .adapter (.incoming g false), .adapter (.listener g), .adapter (.listener g),
    .adapter (.listener g), .adapter (.lifecycle false), .adapter (.lifecycle false), .adapter (.lifecycle false),
    .adapter (.lifecycle false), .adapter (.lifecycle false)]

/-- A connection is made, and the first operation reads from it. -/
def connectRun : List Action := [.connect 0, .connecting 0 .connected, .connecting 0 .connected]

/-- The condition as a check, for runs that name their operations below `n`. -/
def OrderlyBelow (n : Nat) (s : System) : Action → Prop
  | .operation c _ => ∀ call ∈ s.calls c, call.pc = .ensureLive → s.adapter.generationLive = true →
      s.generationOf call.connection = some s.adapter.generation
  | .adapter (.lifecycle _) => s.adapter.lifecycle = .stopping .clearAddress → ∀ c < n, ∀ call ∈ s.calls c,
      call.pc.inFlight = false
  | .call c _ _ => c < n
  | _ => True

instance (n : Nat) (s : System) (act : Action) : Decidable (OrderlyBelow n s act) := by
  unfold OrderlyBelow
  split <;> infer_instance

theorem meets_orderly {n : Nat} {as : List Action} (h : Meets step (OrderlyBelow n) .initial as) :
    Meets step Orderly .initial as := by
  refine h.imp (I := fun s => ∀ c, n ≤ c → s.calls c = none) (fun s act t hb hn hs c hc => ?_)
    (fun s act hn hb => ?_) (fun c hc => rfl)
  · rcases step_calls hs with heq | ⟨c', o, operation, rfl, -, -, heq⟩ | ⟨c', answer, call, conn, -, hcall, -, hframe⟩
    · rw [heq]
      exact hn c hc
    · have hne : c ≠ c' := by
        rintro rfl
        exact absurd hb (Nat.not_lt.mpr hc)
      rw [heq, Function.update_of_ne hne]
      exact hn c hc
    · obtain ⟨pc, heq, -⟩ := hframe.moves
      have hne : c ≠ c' := by
        rintro rfl
        rw [hn c hc] at hcall
        cases hcall
      rw [heq, Function.update_of_ne hne]
      exact hn c hc
  · unfold Orderly
    split
    · intro call conn hcall hconn hpc _ hlive
      have hgen := hb call hcall hpc hlive
      rw [generationOf_eq hconn] at hgen
      exact Option.some.inj hgen
    · intro hl c call conn hcall _ _ hflight
      by_cases hc : c < n
      · rw [hb hl c hc call hcall] at hflight
        cases hflight
      · rw [hn c (Nat.not_lt.mp hc)] at hcall
        cases hcall
    · trivial

/-- A write succeeds, the adapter stops, and a second write on the same connection fails with `Stopped`. -/
def staleRun : List Action :=
  startRun ++ connectRun ++ [.call 0 (.connect 0) (.writeAll [1]), .operation 0 .done, .operation 0 .done,
    .operation 0 .done] ++ stopRun 1 ++ [.call 1 (.connect 0) (.writeAll [2]), .operation 1 .done]

theorem bounded_staleRun :
    ∃ s, run step .initial staleRun = some s ∧
      s.calls 0 = some ⟨.connect 0, .writeAll [1], .returned .ok false⟩ ∧
      s.calls 1 = some ⟨.connect 0, .writeAll [2], .returned (.failed .stopped) true⟩ ∧ Bounded s :=
  ⟨_, rfl, rfl, rfl, bounded staleRun rfl (meets_orderly (n := 2) (by decide))⟩

/-- A read blocks, the adapter stops, and then the peer sends a byte. -/
def blockedRun : List Action :=
  startRun ++ connectRun ++ [.call 0 (.connect 0) (.readSome 16), .operation 0 .done, .operation 0 .done] ++
    stopRun 1 ++ [.send (.connect 0) [7], .operation 0 (.read 1)]

/-- A connection outlives its generation. -/
theorem blockedRun_not_bounded : ¬∀ as s, run step .initial as = some s → Bounded s := by
  intro h
  have hbounded := h blockedRun _ rfl 0 ⟨.connect 0, .readSome 16, .returned (.bytes [⟨7, true⟩]) true⟩ _ _ rfl rfl
    (by simp)
  exact absurd (hbounded.1 rfl) (by simp)

/-! ### The condition is exact -/

section
variable {s t : System}

/-- The call `c` is in flight after the stop of its generation, or it has returned then without `Stopped`. -/
def Outlives (s : System) (c : Nat) : Prop :=
  ∃ call, s.calls c = some call ∧ call.operation ≠ .readSome 0 ∧
    ((call.pc.inFlight = true ∧ ∃ g, s.generationOf call.connection = some g ∧ s.adapter.StopReturned g) ∨
      ∃ outcome, call.pc = .returned outcome true ∧ outcome ≠ .failed .stopped)

theorem Outlives.kept {c : Nat} (h : Outlives s c) (hi : Inv s) {act : Action} (hs : step s act = some t) :
    Outlives t c := by
  obtain ⟨call, hcall, hne, hpc⟩ := h
  have returned : ∀ g, s.adapter.StopReturned g → t.adapter.StopReturned g := fun g hret => by
    rcases step_adapter hs with heq | ⟨a, -, hstep⟩
    · rwa [heq]
    · exact Loopback.StopReturned.kept hret hstep
  have same : t.calls c = some call → Outlives t c := fun hcall' => by
    refine ⟨call, hcall', hne, hpc.imp (fun ⟨hflight, g, hg, hret⟩ => ⟨hflight, g, ?_, returned g hret⟩) id⟩
    exact (step_generationOf hi hs (by simp [hg])).trans hg
  rcases step_calls hs with heq | ⟨c', o, operation, -, hnone, -, heq⟩ |
    ⟨c', answer, call', conn, -, hcall', hconn, hframe⟩
  · exact same (heq ▸ hcall)
  · have hcc : c ≠ c' := by
      rintro rfl
      rw [hnone] at hcall
      cases hcall
    exact same (by rw [heq, Function.update_of_ne hcc, hcall])
  · obtain ⟨pc, heq, hadv⟩ := hframe.moves
    by_cases hcc : c = c'
    · subst hcc
      obtain rfl := Option.some.inj (hcall.symm.trans hcall')
      refine ⟨{ call with pc := pc }, by rw [heq, Function.update_self], hne, ?_⟩
      unfold Advances at hadv
      rcases hpc with ⟨hflight, g, hg, hret⟩ | ⟨outcome, hpc, -⟩
      · have hg' : t.generationOf call.connection = some g := (step_generationOf hi hs (by simp [hg])).trans hg
        rw [generationOf_eq hconn, Option.some.injEq] at hg
        cases hpc : call.pc with
        | ensureLive | empty | returned _ _ =>
          rw [hpc] at hflight
          cases hflight
        | lock =>
          rw [hpc] at hadv
          subst hadv
          exact Or.inl ⟨rfl, g, hg', returned g hret⟩
        | stream received =>
          rw [hpc] at hadv
          rcases hadv with ⟨more, rfl, -⟩ | ⟨outcome, rfl, hstopped, -⟩
          · exact Or.inl ⟨rfl, g, hg', returned g hret⟩
          · exact Or.inr ⟨outcome, by simp [hg, hret], hstopped⟩
      · rw [hpc] at hadv
        exact hadv.elim
    · exact same (by rw [heq, Function.update_of_ne hcc, hcall])

/-- A step that breaks the condition leaves an operation in flight after the stop of its generation. -/
theorem outlives_of_not_orderly (hi : Inv s) {act : Action} (hs : step s act = some t) (horderly : ¬Orderly s act) :
    ∃ c, Outlives t c := by
  unfold Orderly at horderly
  split at horderly
  · rename_i c answer
    simp only [not_forall] at horderly
    obtain ⟨call, conn, hcall, hconn, hpc, hne, hlive, hgen⟩ := horderly
    obtain ⟨call', conn', hcall', hconn', hframe⟩ := operation_frame hs
    obtain rfl := Option.some.inj (hcall.symm.trans hcall')
    obtain rfl := Option.some.inj (hconn.symm.trans hconn')
    obtain ⟨pc, heq, hadv⟩ := hframe.moves
    unfold Advances at hadv
    rw [hpc] at hadv
    rcases hadv with ⟨-, hzero, -⟩ | ⟨-, -, rfl⟩ | ⟨late, hdead, -⟩
    · exact absurd hzero hne
    · refine ⟨c, { call with pc := .lock }, by rw [heq, Function.update_self], hne,
        Or.inl ⟨rfl, conn.generation, ?_, ?_⟩⟩
      · exact (hframe.generationOf hconn _).trans (generationOf_eq hconn)
      · rw [hframe.adapter]
        exact Or.inl (Nat.lt_of_le_of_ne (hi.generation _ conn hconn) hgen)
    · rw [hlive] at hdead
      cases hdead
  · rename_i connected
    simp only [not_forall, not_not] at horderly
    obtain ⟨hl, c, call, conn, hcall, hconn, hne, hflight, hgen⟩ := horderly
    obtain ⟨adapter, hstep, rfl | ⟨a, stream, ha, -, -⟩⟩ := adapterStep_cases hs
    · refine ⟨c, call, hcall, hne, Or.inl ⟨hflight, conn.generation, generationOf_eq hconn, ?_⟩⟩
      simp only [Loopback.step, State.lifecycleStep, hl, State.stopStep, Option.some.injEq] at hstep
      subst hstep
      exact Or.inr ⟨hgen, rfl⟩
    · cases ha
  · exact absurd trivial horderly

end

/-- The condition is exact: after a step that breaks it some operation is in flight past the stop of its generation,
    and where it returns it does so without `Stopped`. -/
theorem not_bounded_of_not_orderly {s t : System} {act : Action} (h : Reaches step .initial s)
    (hs : step s act = some t) (horderly : ¬Orderly s act) :
    ∃ c, ∀ as u, run step t as = some u →
      ∀ call outcome late, u.calls c = some call → call.pc = .returned outcome late → ¬Bounded u := by
  have hi := h.invariant (fun _ _ _ hi hs => Inv.kept hi hs) .initial
  obtain ⟨c, hc⟩ := outlives_of_not_orderly hi hs horderly
  refine ⟨c, fun as u hrun call outcome late hcall hpc hbounded => ?_⟩
  obtain ⟨-, call', hcall', hne, hpc'⟩ := run_invariant (I := fun u => Inv u ∧ Outlives u c)
    (fun u act v h hv => ⟨h.1.kept hv, h.2.kept h.1 hv⟩) hrun ⟨hi.kept hs, hc⟩
  obtain rfl := Option.some.inj (hcall.symm.trans hcall')
  rcases hpc' with ⟨hflight, -⟩ | ⟨outcome', hpc', hstopped⟩
  · rw [hpc] at hflight
    cases hflight
  · exact hstopped ((hbounded c call outcome' true hcall hpc' hne).1 rfl)

end Fabric.Tcp.Connection
