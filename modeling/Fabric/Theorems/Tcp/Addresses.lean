import Fabric.Tcp.Address

/-! When an address survives the representation of the package: `parse` joins host and port without brackets, so what it
    reads is an IPv4 address and a port. -/

namespace Fabric.Tcp
open Rust.Net

namespace TcpSocketAddress

/-- The host passed the loopback check and parses, with the port, to the address that the check saw. -/
def Reparses (address : TcpSocketAddress) : Prop :=
  ∃ ip : IpAddr, parseIpAddr address.host = some ip ∧ ip.isLoopback = true ∧
    address.parse = .ok (.new ip address.port)

/-- `start` goes on to bind the loopback address that its bind host names. -/
def Binds (address : TcpSocketAddress) : Prop :=
  ∃ ip : IpAddr, parseIpAddr address.host = some ip ∧ ip.isLoopback = true ∧
    requestedSocket address = .ok (.new ip address.port)

/-- Connecting to the address is connecting to the socket address. -/
def Reaches (address : TcpSocketAddress) (a : SocketAddr) : Prop :=
  ∀ (Stream : Type) (connect : SocketAddr → Except String Stream),
    connectTcp connect address = (connect a).mapError fun detail => ⟨.connectFailed, detail⟩

/-- A connection reports the address for an end of its stream at the socket address. -/
def Reported (a : SocketAddr) (address : TcpSocketAddress) : Prop :=
  ∃ localAddr peerAddr : Except String SocketAddr,
    (localAddr = .ok a ∧ (Endpoints.new localAddr peerAddr).localAddress = some address) ∨
      (peerAddr = .ok a ∧ (Endpoints.new localAddr peerAddr).peerAddress = some address)

theorem toList_text (address : TcpSocketAddress) :
    s!"{address.host}:{address.port}".toList = address.host.toList ++ ':' :: Nat.toDigits 10 address.port.toNat := by
  simp [toString]

/-- What `parse` reads behind a host without brackets. -/
theorem parse_of_head {address : TcpSocketAddress} (h : address.host.toList.head? ≠ some '[') :
    address.parse = (parseWith readIpv4Addr address.host.toList).elim
      (.error ⟨.invalidAddress, "invalid socket address syntax"⟩) fun ip => .ok (.v4 ip address.port) := by
  rw [parse, parseSocketAddr, toList_text, parseWith_readSocketAddr h]
  cases parseWith readIpv4Addr address.host.toList <;> rfl

theorem toList_host (a : SocketAddr) : (ofSocketAddr a).host.toList = a.ip.text := String.toList_ofList

theorem parse_v4 (ip : Ipv4Addr) (port : UInt16) : (ofSocketAddr (.v4 ip port)).parse = .ok (.v4 ip port) := by
  have hhost : (ofSocketAddr (.v4 ip port)).host.toList = ip.text := toList_host _
  rw [parse_of_head (hhost ▸ ip.head_text), hhost, parseWith_eq_some.mpr (readIpv4Addr_text ip)]
  rfl

theorem parse_v6 (ip : Ipv6Addr) (port : UInt16) (flowinfo scopeId : UInt32) :
    (ofSocketAddr (.v6 ip port flowinfo scopeId)).parse =
      .error ⟨.invalidAddress, "invalid socket address syntax"⟩ := by
  have hhost : (ofSocketAddr (.v6 ip port flowinfo scopeId)).host.toList = ip.text := toList_host _
  obtain ⟨hhead, htext⟩ := ip.parseWith_text
  rw [parse_of_head (hhost ▸ hhead), hhost, htext]
  rfl

theorem isLoopbackHost_iff {address : TcpSocketAddress} :
    address.isLoopbackHost = true ↔ ∃ ip : IpAddr, parseIpAddr address.host = some ip ∧ ip.isLoopback = true := by
  rw [isLoopbackHost]
  cases parseIpAddr address.host <;> simp

/-- A loopback host without a colon is an IPv4 address; `parse` rejects one with a colon. -/
theorem parse_cases {address : TcpSocketAddress} (h : address.isLoopbackHost = true) :
    (':' ∉ address.host.toList ∧ Reparses address) ∨
      (':' ∈ address.host.toList ∧ address.parse = .error ⟨.invalidAddress, "invalid socket address syntax"⟩) := by
  obtain ⟨ip, hip, hloopback⟩ := isLoopbackHost_iff.mp h
  have hhead := head_of_parseWith_readIpAddr hip
  rcases parseWith_readIpAddr hip with ⟨hcolon, v4, rfl, hv4⟩ | ⟨hcolon, hv4⟩
  · refine .inl ⟨hcolon, .v4 v4, hip, hloopback, ?_⟩
    rw [parse_of_head hhead, hv4]
    rfl
  · refine .inr ⟨hcolon, ?_⟩
    rw [parse_of_head hhead, hv4]
    rfl

end TcpSocketAddress

open TcpSocketAddress

theorem eq_of_reported {a : SocketAddr} {address : TcpSocketAddress} (h : Reported a address) :
    address = ofSocketAddr a := by
  obtain ⟨localAddr, peerAddr, ⟨rfl, haddress⟩ | ⟨rfl, haddress⟩⟩ := h
  · exact (Option.some.inj haddress).symm
  · exact (Option.some.inj haddress).symm

theorem reaches_iff (a : SocketAddr) : (ofSocketAddr a).Reaches a ↔ a.isIpv4 = true := by
  cases a with
  | v4 ip port =>
    refine iff_of_true (fun Stream connect => ?_) rfl
    rw [connectTcp, parse_v4]
  | v6 ip port flowinfo scopeId =>
    refine iff_of_false (fun hreaches => ?_) Bool.false_ne_true
    have hconnect := hreaches Unit fun _ => .ok ()
    rw [connectTcp, parse_v6] at hconnect
    cases hconnect

theorem parse_ofSocketAddr_iff (a : SocketAddr) : (ofSocketAddr a).parse = .ok a ↔ a.isIpv4 = true := by
  cases a with
  | v4 ip port => exact iff_of_true (parse_v4 ip port) rfl
  | v6 ip port flowinfo scopeId =>
    refine iff_of_false (fun hparse => ?_) Bool.false_ne_true
    rw [parse_v6] at hparse
    cases hparse

theorem reparses_iff {address : TcpSocketAddress} (h : address.isLoopbackHost = true) :
    address.Reparses ↔ ':' ∉ address.host.toList := by
  rcases parse_cases h with ⟨hcolon, hreparses⟩ | ⟨hcolon, hparse⟩
  · exact iff_of_true hreparses hcolon
  · refine iff_of_false (fun hreparses => ?_) (not_not.mpr hcolon)
    obtain ⟨ip, -, -, hok⟩ := hreparses
    rw [hparse] at hok
    cases hok

theorem requestedSocket_of_isLoopbackHost {address : TcpSocketAddress} (h : address.isLoopbackHost = true) :
    requestedSocket address = address.parse.mapError (·.detail) := by
  rw [requestedSocket, h]
  rfl

/-- Behind the loopback check, `start` binds what `parse` makes of the host. -/
theorem binds_iff_reparses {address : TcpSocketAddress} (h : address.isLoopbackHost = true) :
    address.Binds ↔ address.Reparses := by
  unfold Binds Reparses
  rw [requestedSocket_of_isLoopbackHost h]
  cases address.parse <;> simp [Except.mapError]

/-- A socket address survives its representation, and a loopback host its check, exactly where it is an IPv4 address. -/
theorem representation_survives_iff (a : SocketAddr) (address : TcpSocketAddress) :
    ((ofSocketAddr a).parse = .ok a ↔ a.isIpv4 = true) ∧
    (Reported a address → (address.Reaches a ↔ a.isIpv4 = true)) ∧
    (address.isLoopbackHost = true →
      (address.Reparses ↔ ':' ∉ address.host.toList) ∧ (address.Binds ↔ ':' ∉ address.host.toList)) := by
  refine ⟨parse_ofSocketAddr_iff a, fun hreported => ?_, fun h => ?_⟩
  · rw [eq_of_reported hreported]
    exact reaches_iff a
  · exact ⟨reparses_iff h, (binds_iff_reparses h).trans (reparses_iff h)⟩

theorem representation_survives_iff_ephemeral :
    (ofSocketAddr (.v4 ⟨127, 0, 0, 1⟩ 0)).parse = .ok (.v4 ⟨127, 0, 0, 1⟩ 0) ∧
      loopbackEphemeral.Reaches (.v4 ⟨127, 0, 0, 1⟩ 0) ∧ loopbackEphemeral.Binds := by
  obtain ⟨hparse, hreaches, hbinds⟩ := representation_survives_iff (.v4 ⟨127, 0, 0, 1⟩ 0) loopbackEphemeral
  have hreported : Reported (.v4 ⟨127, 0, 0, 1⟩ 0) loopbackEphemeral :=
    ⟨.ok (.v4 ⟨127, 0, 0, 1⟩ 0), .error "not connected", .inl ⟨rfl, by decide⟩⟩
  exact ⟨hparse.mpr rfl, (hreaches hreported).mpr rfl, (hbinds (by decide)).2.mpr (by decide)⟩

theorem localhost_not_survives :
    (ofSocketAddr (.new (.v6 .localhost) 8080)).parse ≠ .ok (.new (.v6 .localhost) 8080) ∧
      isLoopbackHost ⟨"::1", 8080⟩ = true ∧ ¬Reparses ⟨"::1", 8080⟩ ∧
      requestedSocket ⟨"::1", 8080⟩ = .error "invalid socket address syntax" := by
  have hparse : parse ⟨"::1", 8080⟩ = .error ⟨.invalidAddress, "invalid socket address syntax"⟩ := by decide
  refine ⟨by decide, by decide, fun hreparses => ?_, by decide⟩
  obtain ⟨ip, -, -, hok⟩ := hreparses
  rw [hparse] at hok
  cases hok

end Fabric.Tcp
