import Fabric.Tcp.Basic
import Fabric.Library.Net

/-! Addresses of the transport: the text they parse, the loopback check on the host, and the places that read them. -/

namespace Fabric.Tcp
open Rust.Net

namespace TcpSocketAddress

def loopbackEphemeral : TcpSocketAddress := ⟨"127.0.0.1", 0⟩

def parse (address : TcpSocketAddress) : Except TcpTransportError SocketAddr :=
  match parseSocketAddr s!"{address.host}:{address.port}" with
  | some socket => .ok socket
  | none => .error ⟨.invalidAddress, "invalid socket address syntax"⟩

def isLoopbackHost (address : TcpSocketAddress) : Bool :=
  ((parseIpAddr address.host).map IpAddr.isLoopback).getD false

/-- `From<SocketAddr>`. -/
def ofSocketAddr (value : SocketAddr) : TcpSocketAddress := ⟨value.ip.toString, value.port⟩

end TcpSocketAddress

/-- The addresses that a `TcpConnection` keeps. -/
structure Endpoints where
  localAddress : Option TcpSocketAddress
  peerAddress : Option TcpSocketAddress
  deriving DecidableEq, Repr

/-- `TcpConnection::new`, from what its stream says of its two ends. -/
def Endpoints.new (localAddr peerAddr : Except String SocketAddr) : Endpoints where
  localAddress := localAddr.toOption.map .ofSocketAddr
  peerAddress := peerAddr.toOption.map .ofSocketAddr

/-- `connect_tcp`, over the `TcpStream::connect` of the operating system. -/
def connectTcp {Stream : Type} (connect : SocketAddr → Except String Stream) (remote : TcpSocketAddress) :
    Except TcpTransportError Stream :=
  match remote.parse with
  | .ok socket => (connect socket).mapError fun detail => ⟨.connectFailed, detail⟩
  | .error error => .error error

/-- What `start` makes of its bind address before it binds; an error is the message of its `ModuleError`. -/
def requestedSocket (requestedBind : TcpSocketAddress) : Except String SocketAddr :=
  if !requestedBind.isLoopbackHost then
    .error s!"loopback tcp transport requires a loopback bind host, got {requestedBind.host}"
  else requestedBind.parse.mapError (·.detail)

end Fabric.Tcp
