import Fabric.Library.Rust
import Fabric.Tcp.Basic

/-! A `TcpConnection` as the code that reads and writes it meets it: the bytes that its peer sends, cut into
    reads in any way, and then the end of the stream or a failure. -/

namespace Fabric.Tcp
open Rust

structure ByteStream where
  generationLive : Bool
  /-- What the peer sends and no read has returned. -/
  incoming : Bytes
  /-- For each read to come, how many bytes have arrived; a read waits for one, and past the list all have. -/
  cuts : List Nat
  /-- How reads fail once `incoming` is used up; `none` is the end of the stream. -/
  readFailure : Option String
  writeFailure : Option String
  outgoing : Bytes
  shutdown : Bool
  deriving DecidableEq, Repr

namespace ByteStream

def ensureLive (conn : ByteStream) : Except TcpTransportError Unit :=
  if conn.generationLive then .ok () else .error .stopped

/-- How many bytes the next read for at most `maxBytes` returns. -/
def ready (conn : ByteStream) (maxBytes : Nat) : Nat := min maxBytes (max 1 (conn.cuts.headD conn.incoming.length))

/-- The `read` of the operating system, for at most `maxBytes` bytes. -/
def read (conn : ByteStream) (maxBytes : Nat) : Except String Bytes × ByteStream :=
  match conn.incoming, conn.readFailure with
  | [], none => (.ok [], conn)
  | [], some detail => (.error detail, conn)
  | _ :: _, _ =>
    (.ok (conn.incoming.take (conn.ready maxBytes)),
      { conn with incoming := conn.incoming.drop (conn.ready maxBytes), cuts := conn.cuts.tail })

def readSome (conn : ByteStream) (maxBytes : Nat) : Except TcpTransportError Bytes × ByteStream :=
  match conn.ensureLive with
  | .error error => (.error error, conn)
  | .ok () =>
    if maxBytes = 0 then (.ok [], conn)
    else
      match conn.read maxBytes with
      | (.error detail, conn) => (.error ⟨.readFailed, detail⟩, conn)
      | (.ok bytes, conn) => (.ok bytes, conn)

def writeAll (conn : ByteStream) (bytes : Bytes) : Except TcpTransportError Unit × ByteStream :=
  match conn.ensureLive with
  | .error error => (.error error, conn)
  | .ok () =>
    match conn.writeFailure with
    | some detail => (.error ⟨.writeFailed, detail⟩, conn)
    | none => (.ok (), { conn with outgoing := conn.outgoing ++ bytes })

/-- `shutdown_both`, whose result its callers here drop. -/
def shutdownBoth (conn : ByteStream) : ByteStream :=
  if conn.generationLive then { conn with shutdown := true } else conn

/-! ### What a read does -/

/-- What every step of a reader keeps: the rest of the connection. -/
structure SameEnds (s t : ByteStream) : Prop where
  generationLive : t.generationLive = s.generationLive
  readFailure : t.readFailure = s.readFailure
  writeFailure : t.writeFailure = s.writeFailure
  outgoing : t.outgoing = s.outgoing
  shutdown : t.shutdown = s.shutdown

theorem SameEnds.refl (s : ByteStream) : SameEnds s s := ⟨rfl, rfl, rfl, rfl, rfl⟩

theorem SameEnds.trans {s t u : ByteStream} (h₁ : SameEnds s t) (h₂ : SameEnds t u) : SameEnds s u :=
  ⟨h₂.generationLive.trans h₁.generationLive, h₂.readFailure.trans h₁.readFailure,
    h₂.writeFailure.trans h₁.writeFailure, h₂.outgoing.trans h₁.outgoing, h₂.shutdown.trans h₁.shutdown⟩

/-- A read on a live connection returns the next bytes, between one and `maxBytes` of them, and at the end of what
    the peer sent it returns nothing or fails. -/
theorem readSome_cases {conn : ByteStream} {maxBytes : Nat} (hlive : conn.generationLive = true)
    (hpos : 0 < maxBytes) :
    (conn.incoming = [] ∧ conn.readFailure = none ∧ conn.readSome maxBytes = (.ok [], conn)) ∨
    (∃ detail, conn.incoming = [] ∧ conn.readFailure = some detail ∧
      conn.readSome maxBytes = (.error ⟨.readFailed, detail⟩, conn)) ∨
    ∃ bytes conn', conn.readSome maxBytes = (.ok bytes, conn') ∧ bytes ≠ [] ∧ bytes.length ≤ maxBytes ∧
      conn.incoming = bytes ++ conn'.incoming ∧ SameEnds conn conn' := by
  have hne : maxBytes ≠ 0 := by omega
  unfold readSome ensureLive
  rw [if_pos hlive]
  simp only [if_neg hne, read]
  cases hin : conn.incoming with
  | nil =>
    cases hfail : conn.readFailure with
    | none => exact Or.inl ⟨rfl, rfl, rfl⟩
    | some detail => exact Or.inr (Or.inl ⟨detail, rfl, rfl, rfl⟩)
  | cons b rest =>
    have hready : 0 < conn.ready maxBytes := by
      unfold ready
      omega
    refine Or.inr (Or.inr ⟨_, _, rfl, ?_, ?_, (List.take_append_drop _ _).symm, rfl, rfl, rfl, rfl, rfl⟩)
    · simp
      omega
    · simp only [List.length_take]
      exact Nat.le_trans (Nat.min_le_left _ _) (Nat.min_le_left _ _)

end ByteStream

end Fabric.Tcp
