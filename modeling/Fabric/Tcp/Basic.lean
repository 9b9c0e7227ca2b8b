/-! Errors and addresses of the TCP byte-stream transport. -/

namespace Fabric.Tcp

inductive TcpTransportErrorKind where
  | invalidAddress
  | notStarted
  | stopped
  | connectFailed
  | writeFailed
  | readFailed
  | shutdownFailed
  deriving DecidableEq, Repr

structure TcpTransportError where
  kind : TcpTransportErrorKind
  detail : String
  deriving DecidableEq, Repr

def TcpTransportError.stopped : TcpTransportError where
  kind := .stopped
  detail := "tcp transport generation is stopped"

def TcpTransportError.notStarted : TcpTransportError where
  kind := .notStarted
  detail := "tcp listener is not started"

structure TcpSocketAddress where
  host : String
  port : UInt16
  deriving DecidableEq, Repr

end Fabric.Tcp
