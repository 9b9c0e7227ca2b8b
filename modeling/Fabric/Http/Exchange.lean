import Fabric.Http.Server
import Fabric.Library.Interaction

/-! The life of an exchange as the calls that it makes on its connection, and what the connection hands to its
    stream. -/

namespace Fabric.Http
open Rust Tcp

inductive ConnectionCall where
  | writeAll (bytes : Bytes)
  | shutdownBoth
  deriving DecidableEq, Repr

abbrev ConnectionAnswer := Except TcpTransportError Unit

abbrev Exchanging := Interaction ConnectionCall ConnectionAnswer

section
variable (debug : String → String)

def writeHttpResponseCalls (response : HttpResponse) : Exchanging (Except HttpError Unit) :=
  match encodeHttpResponse debug response with
  | .error error => .done (.error error)
  | .ok bytes => .call (.writeAll bytes) fun
    | .error error => .done (.error ⟨.writeResponseFailed, "failed to write HTTP response: " ++ error.detail⟩)
    | .ok () => .done (.ok ())

/-- `Drop` of the exchange. -/
def dropCalls : Exchanging Unit := .call .shutdownBoth fun _ => .done ()

/-- `HttpExchange::respond`, which consumes the exchange: it is dropped on both ways out. -/
def respondCalls (response : HttpResponse) : Exchanging (Except HttpError Unit) :=
  (writeHttpResponseCalls debug response).bind fun
    | .error error => dropCalls.bind fun () => .done (.error error)
    | .ok () => .call .shutdownBoth fun _ => dropCalls.bind fun () => .done (.ok ())

/-- The life of an exchange, which is dropped or responds. -/
def lifeCalls : Option HttpResponse → Exchanging (Option (Except HttpError Unit))
  | none => dropCalls.bind fun () => .done none
  | some response => (respondCalls debug response).bind fun result => .done (some result)

end

/-! ### The connection -/

/-- What a connection finds at a call: the flag of its generation, and how the stream fails; a write that fails has
    sent some of its bytes. -/
structure Conditions where
  generationLive : Bool
  streamFailure : Option (String × Nat)
  deriving DecidableEq, Repr

inductive StreamCall where
  | writeAll (bytes : Bytes)
  | shutdown
  deriving DecidableEq, Repr

/-- A stream after some calls on its connection: those that were handed to it, and the bytes that it has sent. -/
structure Wire where
  answered : Nat
  handed : List StreamCall
  sent : Bytes
  deriving DecidableEq, Repr

def Wire.opened : Wire := ⟨0, [], []⟩

def StreamCall.written? : StreamCall → Option Bytes
  | .writeAll bytes => some bytes
  | .shutdown => none

/-- The byte strings of the writes that were handed to the stream. -/
def Wire.written (wire : Wire) : List Bytes := wire.handed.filterMap StreamCall.written?

def Conditions.ensureLive (conditions : Conditions) : ConnectionAnswer :=
  if conditions.generationLive then .ok () else .error .stopped

/-- `TcpConnection::write_all`. -/
def writeAll (conditions : Conditions) (wire : Wire) (bytes : Bytes) : ConnectionAnswer × Wire :=
  match conditions.ensureLive with
  | .error error => (.error error, { wire with answered := wire.answered + 1 })
  | .ok () =>
    let wire := { wire with answered := wire.answered + 1, handed := wire.handed ++ [StreamCall.writeAll bytes] }
    match conditions.streamFailure with
    | some (detail, count) => (.error ⟨.writeFailed, detail⟩, { wire with sent := wire.sent ++ bytes.take count })
    | none => (.ok (), { wire with sent := wire.sent ++ bytes })

/-- `TcpConnection::shutdown_both`. -/
def shutdownBoth (conditions : Conditions) (wire : Wire) : ConnectionAnswer × Wire :=
  match conditions.ensureLive with
  | .error error => (.error error, { wire with answered := wire.answered + 1 })
  | .ok () =>
    let wire := { wire with answered := wire.answered + 1, handed := wire.handed ++ [StreamCall.shutdown] }
    match conditions.streamFailure with
    | some (detail, _) => (.error ⟨.shutdownFailed, detail⟩, wire)
    | none => (.ok (), wire)

/-- A connection under any conditions at each of its calls. -/
def connection (conditions : Nat → Conditions) (wire : Wire) : ConnectionCall → ConnectionAnswer × Wire
  | .writeAll bytes => writeAll (conditions wire.answered) wire bytes
  | .shutdownBoth => shutdownBoth (conditions wire.answered) wire

/-- The calls on a connection whose generation and stream stay as they are. -/
def ByteStream.answer (conn : ByteStream) : ConnectionCall → ConnectionAnswer × ByteStream
  | .writeAll bytes => conn.writeAll bytes
  | .shutdownBoth => (conn.ensureLive, conn.shutdownBoth)

end Fabric.Http
