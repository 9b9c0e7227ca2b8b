import Fabric.Library.Rust

/-! `std::net`: internet addresses, their texts and the parser that reads them. The parser runs over the characters of
    the text; it compares bytes, and no byte of a character outside ASCII is a digit or a separator. -/

namespace Rust.Net

/-! ### Addresses -/

/-- `Ipv4Addr`, by its octets. -/
structure Ipv4Addr where
  a : UInt8
  b : UInt8
  c : UInt8
  d : UInt8
  deriving DecidableEq, Repr

/-- `Ipv6Addr`, by its segments. -/
structure Ipv6Addr where
  segments : List UInt16
  length_segments : segments.length = 8
  deriving DecidableEq, Repr

inductive IpAddr where
  | v4 (ip : Ipv4Addr)
  | v6 (ip : Ipv6Addr)
  deriving DecidableEq, Repr

inductive SocketAddr where
  | v4 (ip : Ipv4Addr) (port : UInt16)
  | v6 (ip : Ipv6Addr) (port : UInt16) (flowinfo scopeId : UInt32)
  deriving DecidableEq, Repr

/-- The two segments of an embedded address: `u16::from_be_bytes` of each pair of octets. -/
def Ipv4Addr.groups (ip : Ipv4Addr) : List UInt16 :=
  [ip.a.toUInt16 * 256 + ip.b.toUInt16, ip.c.toUInt16 * 256 + ip.d.toUInt16]

def Ipv6Addr.localhost : Ipv6Addr := ⟨[0, 0, 0, 0, 0, 0, 0, 1], rfl⟩

/-- `is_loopback`: 127.0.0.0/8, or `::1`. -/
def IpAddr.isLoopback : IpAddr → Bool
  | v4 ip => ip.a == 127
  | v6 ip => ip == Ipv6Addr.localhost

/-- `SocketAddr::new`. -/
def SocketAddr.new : IpAddr → UInt16 → SocketAddr
  | .v4 ip, port => v4 ip port
  | .v6 ip, port => v6 ip port 0 0

def SocketAddr.ip : SocketAddr → IpAddr
  | v4 ip _ => .v4 ip
  | v6 ip _ _ _ => .v6 ip

def SocketAddr.port : SocketAddr → UInt16
  | v4 _ port => port
  | v6 _ port _ _ => port

/-- `is_ipv4`. -/
def SocketAddr.isIpv4 : SocketAddr → Bool
  | v4 _ _ => true
  | v6 _ _ _ _ => false

/-! ### Texts -/

def Ipv4Addr.text (ip : Ipv4Addr) : List Char :=
  Nat.toDigits 10 ip.a.toNat ++ '.' :: (Nat.toDigits 10 ip.b.toNat ++ '.' :: (Nat.toDigits 10 ip.c.toNat ++
    '.' :: Nat.toDigits 10 ip.d.toNat))

/-- `to_ipv4_mapped`. -/
def Ipv6Addr.toIpv4Mapped (ip : Ipv6Addr) : Option Ipv4Addr :=
  match ip.segments.take 6 == [0, 0, 0, 0, 0, 0xffff], ip.segments.drop 6 with
  | true, [ab, cd] => some ⟨(ab / 256).toUInt8, ab.toUInt8, (cd / 256).toUInt8, cd.toUInt8⟩
  | _, _ => none

structure Span where
  start : Nat
  len : Nat
  deriving DecidableEq, Repr

/-- The body of the loop over the segments, from the longest span of zeroes and the current one. -/
def Span.scan (spans : Span × Span) (segment : UInt16 × Nat) : Span × Span :=
  if segment.1 = 0 then
    let current := ⟨if spans.2.len = 0 then segment.2 else spans.2.start, spans.2.len + 1⟩
    (if spans.1.len < current.len then current else spans.1, current)
  else (spans.1, ⟨0, 0⟩)

/-- The first of the longest spans of zeroes. -/
def zeroes (segments : List UInt16) : Span := (segments.zipIdx.foldl Span.scan (⟨0, 0⟩, ⟨0, 0⟩)).1

def fmtSubslice (chunk : List UInt16) : List Char :=
  [':'].intercalate (chunk.map fun segment => Nat.toDigits 16 segment.toNat)

def Ipv6Addr.text (ip : Ipv6Addr) : List Char :=
  match ip.toIpv4Mapped with
  | some ipv4 => "::ffff:".toList ++ ipv4.text
  | none =>
    let span := zeroes ip.segments
    if 1 < span.len then
      fmtSubslice (ip.segments.take span.start) ++ "::".toList ++ fmtSubslice (ip.segments.drop (span.start + span.len))
    else fmtSubslice ip.segments

def IpAddr.text : IpAddr → List Char
  | v4 ip => ip.text
  | v6 ip => ip.text

/-- `to_string`. -/
def IpAddr.toString (ip : IpAddr) : String := String.ofList ip.text

/-! ### The parser -/

/-- A reader takes characters off the front of the text or fails; an alternative starts over from where the reader
    before it started. -/
abbrev Read := StateT (List Char) Option

def readChar : Read Char
  | [] => none
  | c :: rest => some (c, rest)

def readGivenChar (target : Char) : Read Unit := do
  guard ((← readChar) = target)

/-- `read_separator`. -/
def readSeparator {α : Type} (separator : Char) (index : Nat) (inner : Read α) : Read α := do
  if 0 < index then readGivenChar separator
  inner

/-- `char::to_digit`. -/
def toDigit (radix : Nat) (c : Char) : Option Nat :=
  let digit :=
    if c.isDigit then c.toNat - '0'.toNat
    else if c.isLower then c.toNat - 'a'.toNat + 10
    else if c.isUpper then c.toNat - 'A'.toNat + 10
    else radix
  if digit < radix then some digit else none

/-- Whether the loop of `read_number` gives up: past its bound on the digits, which keeps the result in a `u32`, or,
    without one, where the checked arithmetic fails. -/
def exceeds (maxDigits : Option Nat) (max result count : Nat) : Bool :=
  match maxDigits with
  | some maxDigits => maxDigits < count
  | none => max < result

/-- The loop of `read_number`, from the result and the digit count so far. -/
def readDigits (radix : Nat) (maxDigits : Option Nat) (max : Nat) (result count : Nat) : Read (Nat × Nat)
  | [] => some ((result, count), [])
  | c :: rest =>
    match toDigit radix c with
    | none => some ((result, count), c :: rest)
    | some digit =>
      if exceeds maxDigits max (result * radix + digit) (count + 1) then none
      else readDigits radix maxDigits max (result * radix + digit) (count + 1) rest

/-- The checks of `read_number` after its loop. -/
def wellFormed (allowZeroPrefix hasLeadingZero : Bool) (max result count : Nat) : Bool :=
  if count = 0 then false
  else if !allowZeroPrefix && hasLeadingZero && 1 < count then false
  else result ≤ max

/-- `read_number` of a type whose largest value is `max`. -/
def readNumber (radix : Nat) (maxDigits : Option Nat) (allowZeroPrefix : Bool) (max : Nat) : Read Nat := do
  let hasLeadingZero := (← get).head? == some '0'
  let (result, count) ← readDigits radix maxDigits max 0 0
  guard (wellFormed allowZeroPrefix hasLeadingZero max result count)
  return result

/-- One of the four numbers of an IPv4 address. -/
def readOctet (index : Nat) : Read UInt8 :=
  readSeparator '.' index do return UInt8.ofNat (← readNumber 10 (some 3) false 255)

def readIpv4Addr : Read Ipv4Addr := do
  let a ← readOctet 0
  let b ← readOctet 1
  let c ← readOctet 2
  let d ← readOctet 3
  return ⟨a, b, c, d⟩

def readSegment (index : Nat) : Read UInt16 :=
  readSeparator ':' index do return UInt16.ofNat (← readNumber 16 (some 4) true 65535)

/-- An IPv4 address in place of the group at `index`, where two groups remain for it. -/
def readEmbedded (index remaining : Nat) : Read (Option Ipv4Addr) :=
  if 0 < remaining then optional (readSeparator ':' index readIpv4Addr) else pure none

/-- `read_groups`, from the group at `index`: the groups read, and whether an IPv4 address ended them. -/
def readGroups (index : Nat) : Nat → Read (List UInt16 × Bool)
  | 0 => return ([], false)
  | remaining + 1 => do
    match ← readEmbedded index remaining with
    | some ipv4 => return (ipv4.groups, true)
    | none =>
      match ← optional (readSegment index) with
      | some group =>
        let (groups, ipv4) ← readGroups (index + 1) remaining
        return (group :: groups, ipv4)
      | none => return ([], false)

/-- The head and the tail copied into eight zeroes. -/
def Ipv6Addr.ofGroups (head tail : List UInt16) : Ipv6Addr where
  segments := List.ofFn fun i : Fin 8 =>
    if 8 - tail.length ≤ i then tail.getD (i - (8 - tail.length)) 0 else head.getD i 0
  length_segments := List.length_ofFn

def readIpv6Addr : Read Ipv6Addr := do
  let (head, headIpv4) ← readGroups 0 8
  if head.length = 8 then return .ofGroups head []
  guard (!headIpv4)
  readGivenChar ':'
  readGivenChar ':'
  -- the `::` stands for one group of zeroes at least
  let (tail, _) ← readGroups 0 (8 - (head.length + 1))
  return .ofGroups head tail

def readIpAddr : Read IpAddr := (IpAddr.v4 <$> readIpv4Addr) <|> (IpAddr.v6 <$> readIpv6Addr)

def readPort : Read UInt16 := do
  readGivenChar ':'
  return UInt16.ofNat (← readNumber 10 none true 65535)

def readScopeId : Read UInt32 := do
  readGivenChar '%'
  return UInt32.ofNat (← readNumber 10 none true 4294967295)

def readSocketAddrV4 : Read SocketAddr := do
  let ip ← readIpv4Addr
  return .v4 ip (← readPort)

def readSocketAddrV6 : Read SocketAddr := do
  readGivenChar '['
  let ip ← readIpv6Addr
  let scopeId := (← optional readScopeId).getD 0
  readGivenChar ']'
  return .v6 ip (← readPort) 0 scopeId

def readSocketAddr : Read SocketAddr := readSocketAddrV4 <|> readSocketAddrV6

/-- `parse_with`: what a reader makes of the whole text. -/
def parseWith {α : Type} (inner : Read α) (text : List Char) : Option α :=
  (inner text).bind fun (result, rest) => if rest.isEmpty then some result else none

/-- `str::parse::<IpAddr>`. -/
def parseIpAddr (s : String) : Option IpAddr := parseWith readIpAddr s.toList

/-- `str::parse::<SocketAddr>`. -/
def parseSocketAddr (s : String) : Option SocketAddr := parseWith readSocketAddr s.toList

/-! ### Readers that stop at a character -/

section Stops
variable {α β : Type} {stop : Char} {p : Read α}

theorem bind_apply (p : Read α) (f : α → Read β) (s : List Char) :
    (p >>= f) s = (p s).bind fun r => f r.1 r.2 := rfl

theorem map_apply (f : α → β) (p : Read α) (s : List Char) : (f <$> p) s = (p s).map fun r => (f r.1, r.2) := by
  show (p s).bind _ = _
  rw [Option.map_eq_bind]
  rfl

theorem orElse_apply (p q : Read α) (s : List Char) : (p <|> q) s = (p s).or (q s) := by
  show StateT.orElse p (fun _ => q) s = _
  cases h : p s <;> simp [StateT.orElse, h]

/-- The reader looks at nothing from the next `stop` on. -/
def Stops (stop : Char) (p : Read α) : Prop :=
  ∀ s rest, p (s ++ stop :: rest) = (p s).map fun r => (r.1, r.2 ++ stop :: rest)

theorem stops_pure (a : α) : Stops stop (pure a : Read α) := fun _ _ => rfl

theorem stops_bind {f : α → Read β} (hp : Stops stop p) (hf : ∀ a, Stops stop (f a)) : Stops stop (p >>= f) := by
  intro s rest
  rw [bind_apply, bind_apply, hp]
  cases h : p s with
  | none => rfl
  | some r => exact hf r.1 r.2 rest

theorem stops_readGivenChar {target : Char} (h : target ≠ stop) : Stops stop (readGivenChar target) := by
  intro s rest
  cases s with
  | nil =>
    simp [readGivenChar, readChar, bind_apply, guard, h.symm]
    rfl
  | cons c s => by_cases hc : c = target <;> simp [readGivenChar, readChar, bind_apply, guard, hc] <;> rfl

theorem stops_readSeparator {separator : Char} (index : Nat) (h : separator ≠ stop) (hp : Stops stop p) :
    Stops stop (readSeparator separator index p) := by
  unfold readSeparator
  split
  · exact stops_bind (stops_readGivenChar h) fun _ => hp
  · exact hp

end Stops

/-! ### Numbers -/

theorem stops_readDigits {radix : Nat} {stop : Char} (h : toDigit radix stop = none) (maxDigits : Option Nat)
    (max result count : Nat) : Stops stop (readDigits radix maxDigits max result count) := by
  intro s rest
  induction s generalizing result count with
  | nil => simp [readDigits, h]
  | cons c s ih =>
    rw [List.cons_append, readDigits, readDigits]
    split
    · rfl
    · split
      · rfl
      · exact ih _ _

theorem readNumber_apply (radix : Nat) (maxDigits : Option Nat) (allowZeroPrefix : Bool) (max : Nat) (s : List Char) :
    readNumber radix maxDigits allowZeroPrefix max s =
      ((readDigits radix maxDigits max 0 0 s).filter fun r =>
        wellFormed allowZeroPrefix (s.head? == some '0') max r.1.1 r.1.2).map fun r => (r.1.1, r.2) := by
  show (readDigits radix maxDigits max 0 0 s).bind _ = _
  cases readDigits radix maxDigits max 0 0 s with
  | none => rfl
  | some r =>
    obtain ⟨⟨result, count⟩, rest⟩ := r
    show (guard _ >>= fun _ => pure result : Read Nat) rest = _
    rw [bind_apply, guard, Option.filter_some]
    split <;> rfl

theorem stops_readNumber {radix : Nat} {stop : Char} (h : toDigit radix stop = none) (maxDigits : Option Nat)
    (allowZeroPrefix : Bool) (max : Nat) : Stops stop (readNumber radix maxDigits allowZeroPrefix max) := by
  intro s rest
  rw [readNumber_apply, readNumber_apply]
  cases s with
  | nil => simp [readDigits, h, wellFormed, Option.filter_some]
  | cons c s =>
    rw [stops_readDigits h, Option.filter_map, Option.map_map, Option.map_map]
    rfl

theorem exceeds_mono {maxDigits : Option Nat} {max result result' count count' : Nat} (hresult : result ≤ result')
    (hcount : count ≤ count') (h : exceeds maxDigits max result' count' = false) :
    exceeds maxDigits max result count = false := by
  cases maxDigits <;> simp only [exceeds, decide_eq_false_iff_not, Nat.not_lt] at h ⊢ <;> omega

theorem toDigit_of_isDigit {c : Char} (h : c.isDigit = true) : toDigit 10 c = some (c.toNat - '0'.toNat) := by
  obtain ⟨-, hle⟩ : 48 ≤ c.toNat ∧ c.toNat ≤ 57 := Char.isDigit_iff_toNat.mp h
  have hlt : c.toNat - '0'.toNat < 10 := by
    have : '0'.toNat = 48 := rfl
    omega
  simp only [toDigit, h, if_true, if_pos hlt]

theorem le_ofDigitChars (digits : List Char) (result : Nat) : result ≤ Nat.ofDigitChars 10 digits result := by
  induction digits generalizing result with
  | nil => exact Nat.le_refl _
  | cons c digits ih =>
    rw [Nat.ofDigitChars_cons]
    have := ih (10 * result + (c.toNat - '0'.toNat))
    omega

/-- No digit starts the text. -/
def Ends (radix : Nat) (rest : List Char) : Prop := ∀ c, rest.head? = some c → toDigit radix c = none

theorem readDigits_of_ends {radix : Nat} {rest : List Char} (h : Ends radix rest) (maxDigits : Option Nat)
    (max result count : Nat) : readDigits radix maxDigits max result count rest = some ((result, count), rest) := by
  cases rest with
  | nil => rfl
  | cons c rest => rw [readDigits, h c rfl]

theorem readDigits_append {digits rest : List Char} {maxDigits : Option Nat} {max : Nat} (result count : Nat)
    (hdigits : ∀ c ∈ digits, c.isDigit = true) (hrest : Ends 10 rest)
    (h : exceeds maxDigits max (Nat.ofDigitChars 10 digits result) (count + digits.length) = false) :
    readDigits 10 maxDigits max result count (digits ++ rest) =
      some ((Nat.ofDigitChars 10 digits result, count + digits.length), rest) := by
  induction digits generalizing result count with
  | nil => exact readDigits_of_ends hrest _ _ _ _
  | cons c digits ih =>
    rw [Nat.ofDigitChars_cons, List.length_cons, ← Nat.add_assoc, Nat.add_right_comm, Nat.mul_comm 10] at h
    have hstep := exceeds_mono (le_ofDigitChars digits _) (Nat.le_add_right (count + 1) digits.length) h
    rw [List.cons_append, readDigits, toDigit_of_isDigit (hdigits c List.mem_cons_self)]
    simp only [hstep, Bool.false_eq_true, if_false]
    rw [ih _ _ (fun c hc => hdigits c (List.mem_cons_of_mem _ hc)) h, Nat.ofDigitChars_cons, List.length_cons,
      ← Nat.add_assoc, Nat.add_right_comm, Nat.mul_comm 10]

/-- The decimal text of a number is read back. -/
theorem readNumber_toDigits (maxDigits : Option Nat) (allowZeroPrefix : Bool) {n max : Nat} {rest : List Char}
    (hmax : n ≤ max) (h : exceeds maxDigits max n (Nat.toDigits 10 n).length = false) (hrest : Ends 10 rest) :
    readNumber 10 maxDigits allowZeroPrefix max (Nat.toDigits 10 n ++ rest) = some (n, rest) := by
  have hdigits : ∀ c ∈ Nat.toDigits 10 n, c.isDigit = true := fun c hc =>
    Nat.isDigit_of_mem_toDigits (by decide) (by decide) hc
  have hcount : 0 < (Nat.toDigits 10 n).length := Nat.length_toDigits_pos
  have hzero : (Nat.toDigits 10 n).head? = some '0' → (Nat.toDigits 10 n).length = 1 := by
    intro hhead
    rw [head_toDigits n hhead]
    rfl
  have hread := readDigits_append 0 0 hdigits hrest
    (by rw [Nat.ofDigitChars_ten_toDigits, Nat.zero_add]; exact h)
  rw [Nat.ofDigitChars_ten_toDigits, Nat.zero_add] at hread
  rw [readNumber_apply, hread, List.head?_append_of_ne_nil _ Nat.toDigits_ne_nil, Option.filter_some]
  have hformed :
      wellFormed allowZeroPrefix ((Nat.toDigits 10 n).head? == some '0') max n (Nat.toDigits 10 n).length = true := by
    simp only [wellFormed]
    rw [if_neg (by omega), if_neg, decide_eq_true_eq]
    · exact hmax
    · simp only [Bool.and_eq_true, beq_iff_eq, decide_eq_true_eq, not_and]
      intro hhead
      have := hzero hhead.2
      omega
  rw [if_pos hformed]
  rfl

/-! ### IPv4 addresses -/

theorem stops_readOctet (index : Nat) : Stops ':' (readOctet index) :=
  stops_readSeparator index (by decide) (stops_bind (stops_readNumber (by decide) _ _ _) fun _ => stops_pure _)

theorem stops_readIpv4Addr : Stops ':' readIpv4Addr :=
  stops_bind (stops_readOctet 0) fun _ => stops_bind (stops_readOctet 1) fun _ =>
    stops_bind (stops_readOctet 2) fun _ => stops_bind (stops_readOctet 3) fun _ => stops_pure _

theorem readGivenChar_cons (c : Char) (rest : List Char) : readGivenChar c (c :: rest) = some ((), rest) := by
  simp [readGivenChar, readChar, bind_apply, guard]
  rfl

theorem readGivenChar_of_head {c : Char} {s : List Char} (h : s.head? ≠ some c) : readGivenChar c s = none := by
  cases s with
  | nil => rfl
  | cons c' s =>
    have hne : c' ≠ c := by simpa using h
    simp [readGivenChar, readChar, bind_apply, guard, hne]
    rfl

theorem readSeparator_succ {α : Type} (separator : Char) (index : Nat) (inner : Read α) (s : List Char) :
    readSeparator separator (index + 1) inner s = (readGivenChar separator s).bind fun r => inner r.2 := by
  rw [readSeparator, if_pos (Nat.succ_pos index)]
  rfl

theorem ends_dot (rest : List Char) : Ends 10 ('.' :: rest) := by
  intro c hc
  rw [List.head?_cons, Option.some.injEq] at hc
  exact hc ▸ rfl

theorem readOctet_zero (n : UInt8) {rest : List Char} (h : Ends 10 rest) :
    readOctet 0 (Nat.toDigits 10 n.toNat ++ rest) = some (n, rest) := by
  have hn : n.toNat < 10 ^ 3 := by
    have := n.toNat_lt
    omega
  have hlength : (Nat.toDigits 10 n.toNat).length ≤ 3 := (Nat.length_toDigits_le_iff (by decide) (by decide)).mpr hn
  have hread := readNumber_toDigits (some 3) false (Nat.le_of_lt_succ n.toNat_lt)
    (decide_eq_false (Nat.not_lt.mpr hlength)) h
  show ((readNumber 10 (some 3) false 255 _).bind fun r => some (UInt8.ofNat r.1, r.2)) = _
  rw [hread, Option.bind_some, UInt8.ofNat_toNat]

theorem readOctet_succ (index : Nat) (s : List Char) :
    readOctet (index + 1) s = (readGivenChar '.' s).bind fun r => readOctet 0 r.2 :=
  readSeparator_succ '.' index _ s

/-- The text of an IPv4 address is read back. -/
theorem readIpv4Addr_text (ip : Ipv4Addr) : readIpv4Addr ip.text = some (ip, []) := by
  have hend : Ends 10 [] := fun c hc => nomatch hc
  have hd := readOctet_zero ip.d hend
  rw [List.append_nil] at hd
  simp only [readIpv4Addr, bind_apply, Ipv4Addr.text, readOctet_zero _ (ends_dot _), readOctet_succ, readGivenChar_cons,
    Option.bind_some, hd]
  rfl

theorem Ipv4Addr.head_text (ip : Ipv4Addr) : ip.text.head? ≠ some '[' := by
  intro h
  rw [Ipv4Addr.text, List.head?_append_of_ne_nil _ Nat.toDigits_ne_nil] at h
  have hdigit : '['.isDigit = true := Nat.isDigit_of_mem_toDigits (by decide) (by decide) (List.mem_of_head? h)
  exact absurd hdigit (by decide)

theorem suffix_of_readDigits {radix : Nat} {maxDigits : Option Nat} {max result count : Nat} {s rest : List Char}
    {read : Nat × Nat} (h : readDigits radix maxDigits max result count s = some (read, rest)) : rest <:+ s := by
  induction s generalizing result count with
  | nil =>
    obtain ⟨-, rfl⟩ := Prod.mk.inj (Option.some.inj h)
    exact List.suffix_refl _
  | cons c s ih =>
    rw [readDigits] at h
    split at h
    · obtain ⟨-, rfl⟩ := Prod.mk.inj (Option.some.inj h)
      exact List.suffix_refl _
    · split at h
      · cases h
      · exact (ih h).trans (List.suffix_cons c s)

theorem suffix_of_readNumber {radix : Nat} {maxDigits : Option Nat} {allowZeroPrefix : Bool} {max n : Nat}
    {s rest : List Char} (h : readNumber radix maxDigits allowZeroPrefix max s = some (n, rest)) : rest <:+ s := by
  rw [readNumber_apply, Option.map_eq_some_iff] at h
  obtain ⟨r, hr, heq⟩ := h
  obtain ⟨-, rfl⟩ := Prod.mk.inj heq
  exact suffix_of_readDigits (Option.filter_eq_some_iff.mp hr).1

/-- An IPv4 address has a dot. -/
theorem readIpv4Addr_of_not_mem {s : List Char} (h : '.' ∉ s) : readIpv4Addr s = none := by
  show (readOctet 0 s).bind _ = none
  rw [Option.bind_eq_none_iff]
  intro r hr
  obtain ⟨r', hr', heq⟩ := Option.bind_eq_some_iff.mp hr
  obtain rfl : (UInt8.ofNat r'.1, r'.2) = r := Option.some.inj heq
  have hmem : '.' ∉ r'.2 := fun hdot => h ((suffix_of_readNumber hr').subset hdot)
  have hhead : r'.2.head? ≠ some '.' := fun hc => hmem (List.mem_of_head? hc)
  show (readOctet 1 r'.2).bind _ = none
  rw [readOctet_succ, readGivenChar_of_head hhead]
  rfl

/-! ### IPv6 addresses -/

theorem optional_apply {α : Type} (p : Read α) (s : List Char) :
    (optional p : Read (Option α)) s = some ((p s).elim (none, s) fun r => (some r.1, r.2)) := by
  show ((some <$> p : Read (Option α)) <|> (pure none : Read (Option α))) s = _
  rw [orElse_apply, map_apply]
  cases p s <;> rfl

theorem parseWith_eq_some {α : Type} {p : Read α} {s : List Char} {a : α} :
    parseWith p s = some a ↔ p s = some (a, []) := by
  rw [parseWith, Option.bind_eq_some_iff]
  constructor
  · rintro ⟨⟨a', rest⟩, hread, h⟩
    obtain ⟨hempty, rfl⟩ : rest.isEmpty = true ∧ a' = a := by simpa using h
    rw [hread, List.isEmpty_iff.mp hempty]
  · intro hread
    exact ⟨(a, []), hread, rfl⟩

theorem parseWith_of_none {α : Type} {p : Read α} {s : List Char} (h : p s = none) : parseWith p s = none := by
  rw [parseWith, h]
  rfl

theorem head_ne_of_not_mem {c : Char} {s : List Char} (h : c ∉ s) : s.head? ≠ some c := fun hc =>
  h (List.mem_of_head? hc)

/-- What `read_groups` does with the outcomes of its two attempts. -/
theorem readGroups_succ (index remaining : Nat) (s : List Char) :
    readGroups index (remaining + 1) s = (readEmbedded index remaining s).bind fun r =>
      match r.1 with
      | some ipv4 => some ((ipv4.groups, true), r.2)
      | none => (readSegment index r.2).elim (some (([], false), r.2)) fun t =>
        (readGroups (index + 1) remaining t.2).map fun u => ((t.1 :: u.1.1, u.1.2), u.2) := by
  rw [readGroups, bind_apply]
  congr 1
  funext r
  obtain ⟨_ | ipv4, rest⟩ := r
  · show (optional (readSegment index) >>= _ : Read (List UInt16 × Bool)) rest = _
    rw [bind_apply, optional_apply, Option.bind_some]
    cases readSegment index rest with
    | none => rfl
    | some t =>
      show (readGroups (index + 1) remaining >>= _ : Read (List UInt16 × Bool)) t.2 = _
      rw [bind_apply, Option.elim_some]
      cases readGroups (index + 1) remaining t.2 <;> rfl
  · rfl

theorem readEmbedded_of_none {index : Nat} {s : List Char} (h : readSeparator ':' index readIpv4Addr s = none)
    (remaining : Nat) : readEmbedded index remaining s = some (none, s) := by
  unfold readEmbedded
  split
  · rw [optional_apply, h]
    rfl
  · rfl

/-- Past the first group a separator is due. -/
theorem readGroups_of_not_mem {s : List Char} (h : ':' ∉ s) (index remaining : Nat) :
    readGroups (index + 1) remaining s = some (([], false), s) := by
  have hnone : ∀ {α : Type} (inner : Read α), readSeparator ':' (index + 1) inner s = none := by
    intro α inner
    rw [readSeparator_succ, readGivenChar_of_head (head_ne_of_not_mem h)]
    rfl
  cases remaining with
  | zero => rfl
  | succ remaining =>
    rw [readGroups_succ, readEmbedded_of_none (hnone _), Option.bind_some]
    simp only [readSegment, hnone, Option.elim_none]

theorem readIpv6Addr_apply (s : List Char) :
    readIpv6Addr s = (readGroups 0 8 s).bind fun r =>
      if r.1.1.length = 8 then some (.ofGroups r.1.1 [], r.2)
      else if r.1.2 then none
      else (readGivenChar ':' r.2).bind fun t => (readGivenChar ':' t.2).bind fun u =>
        (readGroups 0 (8 - (r.1.1.length + 1)) u.2).map fun v => (.ofGroups r.1.1 v.1.1, v.2) := by
  rw [readIpv6Addr, bind_apply]
  congr 1
  funext r
  obtain ⟨⟨head, headIpv4⟩, rest⟩ := r
  by_cases hfull : head.length = 8
  · simp only [if_pos hfull]
    rfl
  · simp only [if_neg hfull]
    cases headIpv4 with
    | true => rfl
    | false =>
      simp only [Bool.false_eq_true, if_false, Option.map_eq_bind]
      rfl

theorem suffix_of_readSegment {n : UInt16} {s rest : List Char} (h : readSegment 0 s = some (n, rest)) :
    rest <:+ s := by
  obtain ⟨r, hr, heq⟩ := Option.bind_eq_some_iff.mp h
  obtain ⟨-, rfl⟩ : UInt16.ofNat r.1 = n ∧ r.2 = rest := Prod.mk.inj (Option.some.inj heq)
  exact suffix_of_readNumber hr

/-- An IPv6 address has a colon. -/
theorem readIpv6Addr_of_not_mem {s : List Char} (h : ':' ∉ s) : readIpv6Addr s = none := by
  have hcolon : ∀ {rest : List Char}, rest <:+ s → readGivenChar ':' rest = none := by
    intro rest hrest
    exact readGivenChar_of_head (head_ne_of_not_mem fun hc => h (hrest.subset hc))
  rw [readIpv6Addr_apply, readGroups_succ]
  cases hv4 : readIpv4Addr s with
  | some r =>
    have hembedded : readEmbedded 0 7 s = some (some r.1, r.2) := by
      show (optional readIpv4Addr : Read (Option Ipv4Addr)) s = _
      rw [optional_apply, hv4]
      rfl
    rw [hembedded]
    rfl
  | none =>
    have hseparator : readSeparator ':' 0 readIpv4Addr s = none := hv4
    rw [readEmbedded_of_none hseparator, Option.bind_some]
    cases hsegment : readSegment 0 s with
    | none =>
      simp only [Option.elim_none, Option.bind_some]
      rw [hcolon (List.suffix_refl s)]
      rfl
    | some t =>
      have hrest := suffix_of_readSegment hsegment
      simp only [Option.elim_some]
      rw [readGroups_of_not_mem (fun hc => h (hrest.subset hc))]
      simp only [Option.map_some, Option.bind_some]
      rw [hcolon hrest]
      rfl

theorem readIpv6Addr_bracket (rest : List Char) : readIpv6Addr ('[' :: rest) = none := by
  have hgroups : readGroups 0 8 ('[' :: rest) = some (([], false), '[' :: rest) := by
    rw [readGroups_succ, readEmbedded_of_none (by rfl)]
    rfl
  rw [readIpv6Addr_apply, hgroups]
  rfl

/-! ### Texts with a port -/

theorem ends_nil (radix : Nat) : Ends radix [] := fun _ hc => nomatch hc

theorem readPort_toDigits (port : UInt16) : readPort (':' :: Nat.toDigits 10 port.toNat) = some (port, []) := by
  have hread := readNumber_toDigits none true (Nat.le_of_lt_succ port.toNat_lt)
    (decide_eq_false (Nat.not_lt.mpr (Nat.le_of_lt_succ port.toNat_lt))) (ends_nil 10)
  rw [List.append_nil] at hread
  show ((readGivenChar ':' (':' :: Nat.toDigits 10 port.toNat)).bind fun r =>
    (readNumber 10 none true 65535 r.2).bind fun t => some (UInt16.ofNat t.1, t.2)) = _
  rw [readGivenChar_cons, Option.bind_some, hread, Option.bind_some, UInt16.ofNat_toNat]

/-- With text left before the port, no port ends the text. -/
theorem readPort_of_ne_nil {left rest : List Char} {r : UInt16 × List Char} (hne : left ≠ [])
    (h : readPort (left ++ ':' :: rest) = some r) : r.2 ≠ [] := by
  cases left with
  | nil => exact absurd rfl hne
  | cons c left =>
    obtain ⟨t, ht, hr⟩ := Option.bind_eq_some_iff.mp h
    obtain rfl : c = ':' := by
      by_contra hc
      rw [List.cons_append, readGivenChar_of_head (by simpa using hc)] at ht
      cases ht
    rw [List.cons_append, readGivenChar_cons, Option.some.injEq] at ht
    subst ht
    obtain ⟨u, hu, hr⟩ := Option.bind_eq_some_iff.mp hr
    obtain rfl : (UInt16.ofNat u.1, u.2) = r := Option.some.inj hr
    rw [stops_readNumber (by rfl) none true 65535 left rest, Option.map_eq_some_iff] at hu
    obtain ⟨v, -, rfl⟩ := hu
    simp

/-- A host without brackets and a port are read as an IPv4 address and the port, or not at all. -/
theorem parseWith_readSocketAddr {host : List Char} (h : host.head? ≠ some '[') (port : UInt16) :
    parseWith readSocketAddr (host ++ ':' :: Nat.toDigits 10 port.toNat) =
      (parseWith readIpv4Addr host).map fun ip => .v4 ip port := by
  have hv6 : readSocketAddrV6 (host ++ ':' :: Nat.toDigits 10 port.toNat) = none := by
    have hhead : (host ++ ':' :: Nat.toDigits 10 port.toNat).head? ≠ some '[' := by
      cases host with
      | nil => simp
      | cons c host => exact h
    rw [readSocketAddrV6, bind_apply, readGivenChar_of_head hhead]
    rfl
  rw [parseWith, readSocketAddr, orElse_apply, hv6, Option.or_none, readSocketAddrV4, bind_apply, stops_readIpv4Addr,
    parseWith]
  cases readIpv4Addr host with
  | none => rfl
  | some r =>
    obtain ⟨ip, left⟩ := r
    simp only [Option.map_some, Option.bind_some]
    cases left with
    | nil =>
      rw [List.nil_append, bind_apply, readPort_toDigits]
      rfl
    | cons c left =>
      rw [bind_apply]
      cases hport : readPort (c :: left ++ ':' :: Nat.toDigits 10 port.toNat) with
      | none => rfl
      | some t =>
        have hleft := readPort_of_ne_nil (List.cons_ne_nil c left) hport
        show (if t.2.isEmpty then some (SocketAddr.v4 ip t.1) else none) = none
        rw [if_neg (by simpa using hleft)]

theorem head_of_parseWith_readIpAddr {s : List Char} {ip : IpAddr} (h : parseWith readIpAddr s = some ip) :
    s.head? ≠ some '[' := by
  intro hhead
  obtain ⟨rest, rfl⟩ := List.head?_eq_some_iff.mp hhead
  have hv4 : readIpv4Addr ('[' :: rest) = none := rfl
  rw [parseWith_eq_some, readIpAddr, orElse_apply, map_apply, map_apply, hv4, readIpv6Addr_bracket] at h
  cases h

/-- An IPv4 address has no colon, an IPv6 address has one. -/
theorem parseWith_readIpAddr {s : List Char} {ip : IpAddr} (h : parseWith readIpAddr s = some ip) :
    (':' ∉ s ∧ ∃ v4, ip = .v4 v4 ∧ parseWith readIpv4Addr s = some v4) ∨
      (':' ∈ s ∧ parseWith readIpv4Addr s = none) := by
  rw [parseWith_eq_some, readIpAddr, orElse_apply, map_apply, map_apply] at h
  cases hv4 : readIpv4Addr s with
  | some r =>
    obtain ⟨v4, rest⟩ := r
    rw [hv4, Option.map_some, Option.or, Option.some.injEq] at h
    obtain ⟨rfl, rfl⟩ := Prod.mk.inj h
    refine .inl ⟨fun hcolon => ?_, v4, rfl, parseWith_eq_some.mpr hv4⟩
    obtain ⟨before, after, rfl⟩ := List.append_of_mem hcolon
    rw [stops_readIpv4Addr before after, Option.map_eq_some_iff] at hv4
    obtain ⟨t, -, ht⟩ := hv4
    simp at ht
  | none =>
    rw [hv4, Option.map_none, Option.none_or, Option.map_eq_some_iff] at h
    obtain ⟨t, ht, -⟩ := h
    refine .inr ⟨?_, parseWith_of_none hv4⟩
    by_contra hcolon
    rw [readIpv6Addr_of_not_mem hcolon] at ht
    cases ht

/-! ### Texts of IPv6 addresses -/

theorem digitChar_of_mem_toDigits {b n : Nat} (hb : 1 < b) {c : Char} (h : c ∈ Nat.toDigits b n) :
    ∃ d < b, c = d.digitChar := by
  induction n using Nat.strong_induction_on with
  | _ n ih =>
    by_cases hn : n < b
    · rw [Nat.toDigits_of_lt_base hn, List.mem_singleton] at h
      exact ⟨n, hn, h⟩
    · rw [Nat.toDigits_of_base_le hb (by omega), List.mem_append, List.mem_singleton] at h
      rcases h with h | h
      · exact ih (n / b) (Nat.div_lt_self (by omega) hb) h
      · exact ⟨n % b, Nat.mod_lt _ (by omega), h⟩

theorem not_mem_fmtSubslice {c : Char} (hcolon : c ≠ ':') (hdigit : ∀ d < 16, c ≠ Nat.digitChar d)
    (chunk : List UInt16) : c ∉ fmtSubslice chunk := by
  have hsegment : ∀ segment : UInt16, c ∉ Nat.toDigits 16 segment.toNat := by
    intro segment hc
    obtain ⟨d, hd, rfl⟩ := digitChar_of_mem_toDigits (by decide) hc
    exact hdigit d hd rfl
  induction chunk with
  | nil => simp [fmtSubslice]
  | cons segment chunk ih =>
    cases chunk with
    | nil => simpa [fmtSubslice] using hsegment segment
    | cons segment' chunk =>
      rw [fmtSubslice, List.map_cons, List.map_cons, List.intercalate_cons_cons]
      simp only [List.mem_append, List.mem_singleton, not_or]
      exact ⟨⟨hsegment segment, hcolon⟩, ih⟩

/-- The text of an IPv6 address starts with a colon or has no dot, so it is not read as an IPv4 address; nor does it
    start with a bracket. -/
theorem Ipv6Addr.parseWith_text (ip : Ipv6Addr) :
    ip.text.head? ≠ some '[' ∧ parseWith readIpv4Addr ip.text = none := by
  have hnot : ∀ c, c ≠ ':' → (∀ d < 16, c ≠ Nat.digitChar d) → ip.toIpv4Mapped = none → c ∉ ip.text := by
    intro c hcolon hdigit hmapped
    rw [Ipv6Addr.text, hmapped]
    simp only
    split
    · simp [not_mem_fmtSubslice hcolon hdigit, hcolon]
    · exact not_mem_fmtSubslice hcolon hdigit _
  cases hmapped : ip.toIpv4Mapped with
  | some ipv4 =>
    have htext : ip.text = ':' :: (":ffff:".toList ++ ipv4.text) := by
      rw [Ipv6Addr.text, hmapped]
      rfl
    rw [htext]
    exact ⟨by simp, rfl⟩
  | none =>
    exact ⟨head_ne_of_not_mem (hnot '[' (by decide) (by decide) hmapped),
      parseWith_of_none (readIpv4Addr_of_not_mem (hnot '.' (by decide) (by decide) hmapped))⟩

end Rust.Net
