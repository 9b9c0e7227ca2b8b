import Fabric.Tcp.Loopback

/-! The inspector of the transport, which asks its transport three things one after the other. -/

namespace Fabric.Tcp
open Loopback

structure TcpTransportInspection where
  requested : TcpSocketAddress
  actual : Option TcpSocketAddress
  acceptedConnections : UInt64
  deriving DecidableEq, Repr

/-- `inspect_transport`, when it finds the adapter at `s` as it asks for the address and at `t` as it asks for the
    count. -/
def inspectTransport (requestedBind : TcpSocketAddress) (s t : State) : TcpTransportInspection where
  requested := requestedBind
  actual := s.actualAddress
  acceptedConnections := t.acceptedConnections

end Fabric.Tcp
