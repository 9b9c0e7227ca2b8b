import Fabric.Http.Model

/-! A client's reading of a response. `readResponse` takes the body by `Content-Length` alone; `readFramed` frames it
    by the rules for a response to GET: the status codes without a body, `Transfer-Encoding`, `Content-Length`. -/

namespace Fabric.Http.Client
open Rust

/-- A line up to the first CRLF, and what follows it. -/
def readLine : Bytes → Option (Bytes × Bytes)
  | 13 :: 10 :: rest => some ([], rest)
  | b :: rest => (readLine rest).map fun (line, rest) => (b :: line, rest)
  | [] => none

/-- What stands before and after the first `separator`. -/
def cut (separator : UInt8) : Bytes → Option (Bytes × Bytes)
  | [] => none
  | b :: rest => if b = separator then some ([], rest) else (cut separator rest).map fun (l, r) => (b :: l, r)

theorem length_lt_of_readLine {bytes line rest : Bytes} (h : readLine bytes = some (line, rest)) :
    line.length + rest.length + 2 ≤ bytes.length := by
  induction bytes using readLine.induct generalizing line with
  | case1 rest =>
    rw [readLine, Option.some.injEq, Prod.mk.injEq] at h
    obtain ⟨rfl, rfl⟩ := h
    simp
  | case2 b rest hne ih =>
    rw [readLine] at h
    · obtain ⟨⟨line', rest'⟩, hline, heq⟩ := Option.map_eq_some_iff.mp h
      rw [Prod.mk.injEq] at heq
      obtain ⟨rfl, rfl⟩ := heq
      have := ih hline
      simp only [List.length_cons]
      omega
    · exact hne
  | case3 => rw [readLine] at h; cases h

/-- A header line, split at its first colon, without the one space that may follow it. -/
def readHeaderLine (line : Bytes) : Option HttpHeader := do
  let (name, value) ← cut 58 line
  let value := match value with
    | 32 :: value => value
    | value => value
  some ⟨← fromUtf8 name, ← fromUtf8 value⟩

/-- Header lines up to the first empty line. -/
def readHeaderLines (bytes : Bytes) : Option (List HttpHeader × Bytes) :=
  match _hline : readLine bytes with
  | none => none
  | some ([], rest) => some ([], rest)
  | some (b :: line, rest) => do
    let header ← readHeaderLine (b :: line)
    let (headers, rest) ← readHeaderLines rest
    some (header :: headers, rest)
termination_by bytes.length
decreasing_by
  have := length_lt_of_readLine _hline
  omega

theorem readHeaderLines_of_empty {bytes rest : Bytes} (h : readLine bytes = some ([], rest)) :
    readHeaderLines bytes = some ([], rest) := by
  rw [readHeaderLines]
  split <;> rename_i heq <;> rw [h] at heq <;> cases heq
  rfl

theorem readHeaderLines_of_line {bytes line rest : Bytes} (h : readLine bytes = some (line, rest)) (hne : line ≠ []) :
    readHeaderLines bytes = (readHeaderLine line).bind fun header =>
      (readHeaderLines rest).bind fun (headers, rest) => some (header :: headers, rest) := by
  rw [readHeaderLines]
  split <;> rename_i heq <;> rw [h] at heq <;> cases heq
  · exact absurd rfl hne
  · rfl

structure ResponseHead where
  version : HttpVersion
  statusCode : Nat
  reason : String
  headers : List HttpHeader
  deriving DecidableEq, Repr

def readVersion (text : String) : Option HttpVersion :=
  if text = "HTTP/1.0" then some .http10 else if text = "HTTP/1.1" then some .http11 else none

def readResponseHead (bytes : Bytes) : Option (ResponseHead × Bytes) := do
  let (line, rest) ← readLine bytes
  let (version, line) ← cut 32 line
  let (statusCode, reason) ← cut 32 line
  let version ← readVersion (← fromUtf8 version)
  let statusCode ← parseDecimal (← fromUtf8 statusCode).toList
  let reason ← fromUtf8 reason
  let (headers, rest) ← readHeaderLines rest
  some (⟨version, statusCode, reason, headers⟩, rest)

def named (headers : List HttpHeader) (name : String) : List HttpHeader :=
  headers.filter fun header => eqIgnoreAsciiCase header.name name

def contentLength (headers : List HttpHeader) : Option Nat :=
  (named headers "content-length").head?.bind (parseDecimal ·.value.toList)

/-- The body of `length` bytes, and what follows it. -/
def readFixed (length : Nat) (bytes : Bytes) : Option (Bytes × Bytes) :=
  if length ≤ bytes.length then some (bytes.take length, bytes.drop length) else none

def readResponse (bytes : Bytes) : Option (ResponseHead × Bytes × Bytes) := do
  let (head, rest) ← readResponseHead bytes
  let (body, rest) ← readFixed (← contentLength head.headers) rest
  some (head, body, rest)

/-! ### Framing -/

def isOws (c : Char) : Bool := c == ' ' || c == '\t'

/-- Where a text stands in regard to its quoted strings. -/
inductive Quoting where
  | outside
  | inside
  /-- Behind the backslash of a quoted pair. -/
  | escaped
  deriving DecidableEq, Repr

def Quoting.next : Quoting → Char → Quoting
  | outside, c => if c = '"' then inside else outside
  | inside, c => if c = '"' then outside else if c = '\\' then escaped else inside
  | escaped, _ => inside

/-- What stands between the separators that are not in a quoted string. -/
def splitUnquoted (separator : Char) : Quoting → List Char → List (List Char)
  | _, [] => [[]]
  | quoting, c :: rest =>
    if quoting = .outside ∧ c = separator then [] :: splitUnquoted separator .outside rest
    else (splitUnquoted separator (quoting.next c) rest).modifyHead (c :: ·)

/-- The name of a transfer coding, ahead of its parameters. -/
def codingName (element : List Char) : List Char :=
  (((splitUnquoted ';' .outside element).headD []).dropWhile isOws).rdropWhile isOws

/-- The names of the transfer codings of all `Transfer-Encoding` headers, in order. A parameter may have a quoted string
    for its value, in which a comma or semicolon ends nothing. -/
def transferCodings (headers : List HttpHeader) : List String :=
  let elements := (named headers "transfer-encoding").flatMap (splitUnquoted ',' .outside ·.value.toList)
  ((elements.map codingName).filter (· ≠ [])).map String.ofList

example : transferCodings [⟨"Transfer-Encoding", "foo;a=\"x, chunked ;y\""⟩] = ["foo"] := by decide

example : transferCodings [⟨"Transfer-Encoding", "gzip, chunked;a=\"b,\\\"c\""⟩] = ["gzip", "chunked"] := by decide

/-- The final transfer coding is the chunked one. -/
def finallyChunked (headers : List HttpHeader) : Bool :=
  (transferCodings headers).getLast?.any fun coding => eqIgnoreAsciiCase coding "chunked"

def hexValue (b : UInt8) : Option Nat :=
  if 48 ≤ b ∧ b ≤ 57 then some (b.toNat - 48)
  else if 97 ≤ b ∧ b ≤ 102 then some (b.toNat - 87)
  else if 65 ≤ b ∧ b ≤ 70 then some (b.toNat - 55)
  else none

/-- A chunk size: hexadecimal digits, up to an extension. -/
def readChunkSize (line : Bytes) : Option Nat :=
  match line.takeWhile (· != 59) with
  | [] => none
  | digits => digits.foldlM (fun n b => (hexValue b).map (16 * n + ·)) 0

/-- The chunked coding: chunks up to one of size 0, and then trailer lines up to an empty one. -/
def readChunks (bytes : Bytes) : Option (Bytes × Bytes) :=
  match _hline : readLine bytes with
  | none => none
  | some (line, rest) =>
    match readChunkSize line with
    | none => none
    | some 0 => (readHeaderLines rest).map fun (_, rest) => ([], rest)
    | some (size + 1) =>
      match _hafter : rest.drop (size + 1) with
      | 13 :: 10 :: after => (readChunks after).map fun (data, rest') => (rest.take (size + 1) ++ data, rest')
      | _ => none
termination_by bytes.length
decreasing_by
  have := length_lt_of_readLine _hline
  have := congrArg List.length _hafter
  simp only [List.length_drop, List.length_cons] at this
  omega

/-- The status codes whose responses have no body. -/
def bodiless (statusCode : Nat) : Bool :=
  (100 ≤ statusCode && statusCode < 200) || statusCode == 204 || statusCode == 304

/-- The body of a response to GET in the bytes that follow its head, up to the close of the connection. -/
def frameBody (head : ResponseHead) (bytes : Bytes) : Option (Bytes × Bytes) :=
  if bodiless head.statusCode then some ([], bytes)
  else
    match named head.headers "transfer-encoding" with
    | _ :: _ => if finallyChunked head.headers then readChunks bytes else some (bytes, [])
    | [] => do readFixed (← contentLength head.headers) bytes

/-- The body that a client reads, and the bytes that it leaves. -/
def readFramed (bytes : Bytes) : Option (Bytes × Bytes) := do
  let (head, rest) ← readResponseHead bytes
  frameBody head rest

end Fabric.Http.Client
