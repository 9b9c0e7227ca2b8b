import Fabric.Tcp.Loopback

/-! Connections of one loopback adapter and the operations on them, next to the steps of the adapter. An
    operation samples `generation_live` once, takes the mutex on its stream and then waits for the operating
    system, whose outcome is part of the step. -/

namespace Fabric.Tcp.Connection

/-- A byte that the peer sent. `late` marks one sent after the stop of the connection's generation returned. -/
structure PeerByte where
  byte : UInt8
  late : Bool
  deriving DecidableEq, Repr

/-- A connection is named by the call that made it. -/
inductive Origin where
  | accept (a : Nat)
  | connect (c : Nat)
  deriving DecidableEq, Repr

/-- A connection and the socket behind it. `generation` is that of its making, which the code does not keep:
    all connections share the flag `generation_live` of the adapter. -/
structure TcpConnection where
  generation : Nat
  /-- The call that holds the mutex on the stream. -/
  stream : Option Nat
  unread : List PeerByte
  peerClosed : Bool
  shut : Bool
  deriving DecidableEq, Repr

inductive Operation where
  | writeAll (bytes : List UInt8)
  | readSome (maxBytes : Nat)
  | readToEnd
  | shutdownWrite
  | shutdownBoth
  deriving DecidableEq, Repr

inductive Outcome where
  | ok
  | bytes (received : List PeerByte)
  | failed (error : TcpTransportError)
  deriving DecidableEq, Repr

/-- An operation, at what it does next. -/
inductive OperationPc where
  | ensureLive
  /-- The return of `read_some(0)`. -/
  | empty
  | lock
  /-- In the call to the operating system, with the bytes that `read_to_end` has received. -/
  | stream (received : List PeerByte)
  /-- `late` records that the stop of the connection's generation had returned before. -/
  | returned (outcome : Outcome) (late : Bool)
  deriving DecidableEq, Repr

structure Call where
  connection : Origin
  operation : Operation
  pc : OperationPc
  deriving DecidableEq, Repr

/-- A `connect` call. -/
inductive ConnectPc where
  | uncalled
  | checkLive
  | connecting
  | connected
  | failed (error : TcpTransportError)
  deriving DecidableEq, Repr

structure System where
  adapter : Loopback.State
  connections : Origin → Option TcpConnection
  connects : Nat → ConnectPc
  calls : Nat → Option Call

def System.initial : System where
  adapter := .initial
  connections _ := none
  connects _ := .uncalled
  calls _ := none

/-- What the operating system answers to a write, a read or a shutdown. -/
inductive Answer where
  | done
  | read (count : Nat)
  | error (detail : String)
  deriving DecidableEq, Repr

/-- What `connect_tcp` gets: the parsing of the address fails, the connection fails, or it stands. -/
inductive ConnectAnswer where
  | invalidAddress (detail : String)
  | connectFailed (detail : String)
  | connected
  deriving DecidableEq, Repr

inductive Action where
  | adapter (act : Loopback.Action)
  | connect (c : Nat)
  | connecting (c : Nat) (answer : ConnectAnswer)
  | call (c : Nat) (connection : Origin) (operation : Operation)
  | operation (c : Nat) (answer : Answer)
  | send (connection : Origin) (bytes : List UInt8)
  | close (connection : Origin)
  deriving DecidableEq, Repr

/-- A read of `count` bytes can return: they have arrived, and none of them only at the end of the stream. -/
def TcpConnection.readable (conn : TcpConnection) (count : Nat) : Prop :=
  count ≤ conn.unread.length ∧ (count = 0 → conn.unread = [] ∧ (conn.peerClosed = true ∨ conn.shut = true))

instance (conn : TcpConnection) (count : Nat) : Decidable (conn.readable count) :=
  inferInstanceAs (Decidable (_ ∧ _))

namespace System

def setCall (s : System) (c : Nat) (call : Call) : System :=
  { s with calls := Function.update s.calls c (some call) }

def setConnection (s : System) (o : Origin) (conn : TcpConnection) : System :=
  { s with connections := Function.update s.connections o (some conn) }

def setConnect (s : System) (c : Nat) (pc : ConnectPc) : System :=
  { s with connects := Function.update s.connects c pc }

/-- `TcpConnection::new`; what the peer has sent already arrives next. -/
def new (s : System) (o : Origin) : System :=
  s.setConnection o
    { generation := s.adapter.generation, stream := none, unread := [], peerClosed := false, shut := false }

/-- A step of the adapter; an `accept` call that hands out a stream makes a connection of it. -/
def adapterStep (s : System) (act : Loopback.Action) : Option System :=
  (Loopback.step s.adapter act).map fun adapter =>
    match act with
    | .accept a =>
      match adapter.acceptors a with
      | .accepted _ => { s with adapter }.new (.accept a)
      | _ => { s with adapter }
    | _ => { s with adapter }

def connect (s : System) (c : Nat) : Option System :=
  match s.connects c with
  | .uncalled => some (s.setConnect c .checkLive)
  | _ => none

def connectStep (s : System) (c : Nat) (answer : ConnectAnswer) : Option System :=
  match s.connects c with
  | .checkLive => some (s.setConnect c (if s.adapter.generationLive then .connecting else .failed .notStarted))
  | .connecting =>
    match answer with
    | .invalidAddress detail => some (s.setConnect c (.failed ⟨.invalidAddress, detail⟩))
    | .connectFailed detail => some (s.setConnect c (.failed ⟨.connectFailed, detail⟩))
    | .connected => some ((s.setConnect c .connected).new (.connect c))
  | _ => none

def call (s : System) (c : Nat) (o : Origin) (operation : Operation) : Option System :=
  match s.calls c, s.connections o with
  | none, some _ => some (s.setCall c ⟨o, operation, .ensureLive⟩)
  | _, _ => none

/-- The operation returns, and its mutex guard is dropped. -/
def finish (s : System) (c : Nat) (call : Call) (conn : TcpConnection) (outcome : Outcome) : System :=
  (s.setCall c { call with pc := .returned outcome (decide (s.adapter.StopReturned conn.generation)) }).setConnection
    call.connection { conn with stream := none }

/-- The call to the operating system inside an operation. -/
def answerStep (s : System) (c : Nat) (call : Call) (conn : TcpConnection) (received : List PeerByte) :
    Answer → Option System
  | .done =>
    match call.operation with
    | .writeAll _ | .shutdownWrite => some (s.finish c call conn .ok)
    | .shutdownBoth => some (s.finish c call { conn with shut := true } .ok)
    | .readSome _ | .readToEnd => none
  | .read count =>
    match call.operation with
    | .readSome maxBytes =>
      if count ≤ maxBytes ∧ conn.readable count then
        some (s.finish c call { conn with unread := conn.unread.drop count } (.bytes (conn.unread.take count)))
      else none
    | .readToEnd =>
      if conn.readable count then
        if count = 0 then some (s.finish c call conn (.bytes received))
        else
          some ((s.setCall c { call with pc := .stream (received ++ conn.unread.take count) }).setConnection
            call.connection { conn with unread := conn.unread.drop count })
      else none
    | .writeAll _ | .shutdownWrite | .shutdownBoth => none
  | .error detail =>
    match call.operation with
    | .writeAll _ => some (s.finish c call conn (.failed ⟨.writeFailed, detail⟩))
    | .readSome _ | .readToEnd => some (s.finish c call conn (.failed ⟨.readFailed, detail⟩))
    | .shutdownWrite | .shutdownBoth => some (s.finish c call conn (.failed ⟨.shutdownFailed, detail⟩))

def callStep (s : System) (c : Nat) (call : Call) (conn : TcpConnection) (answer : Answer) : Option System :=
  let returned outcome :=
    s.setCall c { call with pc := .returned outcome (decide (s.adapter.StopReturned conn.generation)) }
  match call.pc with
  | .ensureLive =>
    if s.adapter.generationLive then
      some (s.setCall c { call with pc := if call.operation = .readSome 0 then .empty else .lock })
    else some (returned (.failed .stopped))
  | .empty => some (returned (.bytes []))
  | .lock =>
    if conn.stream = none then
      some ((s.setCall c { call with pc := .stream [] }).setConnection call.connection { conn with stream := some c })
    else none
  | .stream received => s.answerStep c call conn received answer
  | .returned _ _ => none

def operation (s : System) (c : Nat) (answer : Answer) : Option System :=
  (s.calls c).bind fun call => (s.connections call.connection).bind fun conn => s.callStep c call conn answer

def send (s : System) (o : Origin) (bytes : List UInt8) : Option System :=
  match s.connections o with
  | some conn =>
    if conn.peerClosed then none
    else
      let late := decide (s.adapter.StopReturned conn.generation)
      some (s.setConnection o { conn with unread := conn.unread ++ bytes.map (⟨·, late⟩) })
  | none => none

def close (s : System) (o : Origin) : Option System :=
  (s.connections o).map fun conn => s.setConnection o { conn with peerClosed := true }

end System

def step (s : System) : Action → Option System
  | .adapter act => s.adapterStep act
  | .connect c => s.connect c
  | .connecting c answer => s.connectStep c answer
  | .call c o operation => s.call c o operation
  | .operation c answer => s.operation c answer
  | .send o bytes => s.send o bytes
  | .close o => s.close o

end Fabric.Tcp.Connection
