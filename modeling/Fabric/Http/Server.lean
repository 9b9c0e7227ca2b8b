import Fabric.Http.Codec

/-! The HTTP server component, one exchange, and the serving loop of the server instance. -/

namespace Fabric.Http
open Rust Tcp

inductive TcpAcceptResult where
  | accepted (connection : ByteStream)
  | stopped
  | failed (error : TcpTransportError)
  deriving DecidableEq, Repr

structure HttpExchange where
  request : HttpRequest
  connection : ByteStream
  deriving DecidableEq, Repr

section
variable (parse : Httparse.Parser) (debug : String → String)

/-- `HttpServer::accept_exchange`, on the next result of the transport; the connection of a request that is not
    read is dropped. -/
def acceptExchange (accept : TcpAcceptResult) : Except Fault HttpExchange × Option ByteStream :=
  match accept with
  | .stopped => (.error (.error ⟨.stopped, "tcp transport stopped before accepting an HTTP request"⟩), none)
  | .failed error => (.error (.error (.transport error)), none)
  | .accepted connection =>
    match readHttpRequest parse connection defaultMaxHeadBytes defaultMaxBodyBytes with
    | (.error fault, connection) => (.error fault, some connection)
    | (.ok request, connection) => (.ok ⟨request, connection⟩, none)

/-- `HttpExchange::respond`; the exchange is dropped on both ways out, which shuts its connection down. -/
def HttpExchange.respond (exchange : HttpExchange) (response : HttpResponse) : Except HttpError Unit × ByteStream :=
  match writeHttpResponse debug exchange.connection response with
  | (.error error, connection) => (.error error, connection.shutdownBoth)
  | (.ok (), connection) => (.ok (), connection.shutdownBoth.shutdownBoth)

/-- What the server instance answers. -/
def greeting (request : HttpRequest) : HttpResponse := .new 200 (asBytes ("hello from " ++ request.target))

/-- A run of the serving loop: the connections that it has dealt with, in order, and how it was left; `none` waits in
    `accept`. -/
structure Served where
  connections : List ByteStream
  exit : Option Fault
  deriving DecidableEq, Repr

def Served.after (connection : ByteStream) (served : Served) : Served :=
  { served with connections := connection :: served.connections }

/-- The loop of `main`, over what the transport gives its `accept` calls. Its standard output is taken to work: a
    failing one would end the loop at the `println!` or the `flush` between two calls. -/
def serve : List TcpAcceptResult → Served
  | [] => ⟨[], none⟩
  | accept :: rest =>
    match acceptExchange parse accept with
    | (.error fault, connection) => ⟨connection.toList, some fault⟩
    | (.ok exchange, _) =>
      match exchange.respond debug (greeting exchange.request) with
      | (.error error, connection) => ⟨[connection], some (.error error)⟩
      | (.ok (), connection) => (serve rest).after connection

end

end Fabric.Http
