import Fabric.Http.Calls
import Fabric.Http.Exchange
import Fabric.Library.Pipe
import Fabric.Library.Transition

/-! A client and the server over one connection, step by step: the thread of `client::get` once it is connected, and
    what the server does with the connection once it has accepted it. -/

namespace Fabric.Http.Conversation
open Rust Tcp

/-- How many bytes can be on their way to the server and to the client. -/
structure Buffers where
  server : Nat
  client : Nat
  server_pos : 0 < server
  client_pos : 0 < client

inductive ClientError where
  | io
  /-- `response was not UTF-8`. -/
  | invalidData
  deriving DecidableEq, Repr

inductive ClientPc where
  /-- In `write_all`, with the bytes that are yet to be written. -/
  | writeAll (rest : Bytes)
  | readToEnd
  | returned (result : Except ClientError String)
  deriving DecidableEq, Repr

inductive ServerPc where
  /-- In `read_http_request`. -/
  | reading (rest : Reading (Except Fault HttpRequest))
  /-- In `read_some`, past the check of the generation. -/
  | readSome (maxBytes : Nat) (next : ReadAnswer → Reading (Except Fault HttpRequest))
  /-- In `respond`. -/
  | responding (request : HttpRequest) (rest : Exchanging (Except HttpError Unit))
  /-- In `write_all`, past the check of the generation, with the bytes that are yet to be written. -/
  | writeAll (request : HttpRequest) (rest : Bytes) (next : ConnectionAnswer → Exchanging (Except HttpError Unit))
  /-- With the connection dropped. -/
  | ended (result : Except Fault (HttpRequest × Except HttpError Unit))

structure State (b : Buffers) where
  client : ClientPc
  /-- The `response` of the client, with what its reads have returned. -/
  response : Bytes
  server : ServerPc
  toServer : Pipe UInt8 b.server
  toClient : Pipe UInt8 b.client
  /-- The server has shut its end down or dropped it. -/
  closed : Bool
  generationLive : Bool

/-- A write of many bytes is a step for each of them, since a write to a buffer goes on as far as there is room. -/
inductive Action where
  | clientWrite
  | clientShutdown
  | clientRead (n : Nat)
  | clientEof
  /-- An operation of the client fails. -/
  | clientFail
  | serverStep
  | serverRead (n : Nat)
  | serverEof
  | serverWrite
  /-- The adapter is stopped. -/
  | stop
  deriving DecidableEq, Repr

/-- `String::from_utf8(response)`. -/
def responseText (response : Bytes) : Except ClientError String :=
  match fromUtf8 response with
  | some text => .ok text
  | none => .error .invalidData

variable {b : Buffers}

/-- The client has connected to send these bytes, and its connection has been accepted. -/
def State.connected (parse : Httparse.Parser) (sent : Bytes) : State b where
  client := .writeAll sent
  response := []
  server := .reading (readHttpRequestCalls parse defaultMaxHeadBytes defaultMaxBodyBytes)
  toServer := .empty
  toClient := .empty
  closed := false
  generationLive := true

section
variable (debug : String → String) (answer : HttpRequest → HttpResponse)

/-- The server between its operations on the stream. Every call on the connection looks at the generation first, and
    `read_some(0)` reads nothing. -/
def State.serverStep (s : State b) : Option (State b) :=
  match s.server with
  | .reading (.done (.error fault)) => some { s with server := .ended (.error fault), closed := true }
  | .reading (.done (.ok request)) =>
    some { s with server := .responding request (respondCalls debug (answer request)) }
  | .reading (.call maxBytes next) =>
    if s.generationLive then
      some { s with server := if maxBytes = 0 then .reading (next (.ok [])) else .readSome maxBytes next }
    else some { s with server := .reading (next (.error .stopped)) }
  | .responding request (.done result) => some { s with server := .ended (.ok (request, result)), closed := true }
  | .responding request (.call (.writeAll bytes) next) =>
    if s.generationLive then some { s with server := .writeAll request bytes next }
    else some { s with server := .responding request (next (.error .stopped)) }
  | .responding request (.call .shutdownBoth next) =>
    if s.generationLive then some { s with server := .responding request (next (.ok ())), closed := true }
    else some { s with server := .responding request (next (.error .stopped)) }
  | .writeAll request [] next => some { s with server := .responding request (next (.ok ())) }
  | _ => none

def step (s : State b) : Action → Option (State b)
  | .clientWrite =>
    match s.client with
    | .writeAll (byte :: rest) =>
      (s.toServer.write byte).map fun toServer => { s with client := .writeAll rest, toServer }
    | _ => none
  | .clientShutdown => if s.client = .writeAll [] then some { s with client := .readToEnd } else none
  | .clientRead n =>
    if s.client = .readToEnd then
      (s.toClient.read n).map fun (bytes, toClient) => { s with response := s.response ++ bytes, toClient }
    else none
  | .clientEof =>
    if s.client = .readToEnd ∧ s.toClient.content = [] ∧ s.closed then
      some { s with client := .returned (responseText s.response) }
    else none
  | .clientFail =>
    -- A connection that is dropped with bytes that have not been read is reset.
    match s.server, s.client with
    | .ended _, .writeAll _ | .ended _, .readToEnd =>
      if s.toServer.content ≠ [] then some { s with client := .returned (.error .io) } else none
    | _, _ => none
  | .serverStep => s.serverStep debug answer
  | .serverRead n =>
    match s.server with
    | .readSome maxBytes next =>
      if n ≤ maxBytes then
        (s.toServer.read n).map fun (bytes, toServer) => { s with server := .reading (next (.ok bytes)), toServer }
      else none
    | _ => none
  | .serverEof =>
    match s.server, s.client with
    | .readSome _ _, .writeAll _ => none
    | .readSome _ next, _ =>
      if s.toServer.content = [] then some { s with server := .reading (next (.ok [])) } else none
    | _, _ => none
  | .serverWrite =>
    match s.server with
    | .writeAll request (byte :: rest) next =>
      (s.toClient.write byte).map fun toClient => { s with server := .writeAll request rest next, toClient }
    | _ => none
  | .stop => if s.generationLive then some { s with generationLive := false } else none

end

/-- What `client::get` sends. -/
def getRequest (target : String) : Bytes :=
  asBytes ("GET " ++ target ++ " HTTP/1.1\r\nHost: example.local\r\n\r\n")

end Fabric.Http.Conversation
