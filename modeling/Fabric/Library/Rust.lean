import Mathlib.Data.List.DropRight
import Mathlib.Tactic.IntervalCases

/-! Strings and bytes as the standard library of Rust reads them: UTF-8, ASCII case, white space, decimal
    numbers, and `usize` on a 64-bit target. -/

namespace Rust

abbrev Bytes := List UInt8

/-- `str::as_bytes`. -/
def asBytes (s : String) : Bytes := s.toList.flatMap String.utf8EncodeChar

/-- `str::from_utf8`. -/
def fromUtf8 (bytes : Bytes) : Option String := String.fromUTF8? bytes.toByteArray

def asciiLowercase (s : String) : List Char := s.toList.map Char.toLower

/-- `str::eq_ignore_ascii_case`. -/
def eqIgnoreAsciiCase (a b : String) : Bool := asciiLowercase a == asciiLowercase b

/-- `char::is_whitespace`: the Unicode property `White_Space`. -/
def isWhitespace (c : Char) : Bool :=
  (9 ≤ c.toNat && c.toNat ≤ 13) || c.toNat == 0x20 || c.toNat == 0x85 || c.toNat == 0xA0 || c.toNat == 0x1680 ||
    (0x2000 ≤ c.toNat && c.toNat ≤ 0x200A) || c.toNat == 0x2028 || c.toNat == 0x2029 || c.toNat == 0x202F ||
    c.toNat == 0x205F || c.toNat == 0x3000

/-- `str::trim`. -/
def trim (s : String) : String := String.ofList ((s.toList.dropWhile isWhitespace).rdropWhile isWhitespace)

/-- `str::split` at a character. -/
def split (s : String) (separator : Char) : List String := (s.toList.splitOn separator).map String.ofList

/-- `str::starts_with` a character. -/
def startsWith (s : String) (c : Char) : Bool := s.toList.head? == some c

/-- `str::ends_with` a character. -/
def endsWith (s : String) (c : Char) : Bool := s.toList.getLast? == some c

/-- `str::contains` a character. -/
def contains (s : String) (c : Char) : Bool := s.toList.contains c

/-- `[String]::join` with a character between the pieces. -/
def join (pieces : List String) (separator : Char) : String :=
  String.ofList ([separator].intercalate (pieces.map String.toList))

/-- The number that a non-empty list of decimal digits spells. -/
def parseDecimal (digits : List Char) : Option Nat :=
  if digits ≠ [] ∧ digits.all Char.isDigit then some (Nat.ofDigitChars 10 digits 0) else none

def usizeMax : Nat := 18446744073709551615

/-- `str::parse::<usize>`, which takes a leading `+`. -/
def parseUsize (s : String) : Option Nat :=
  let digits := match s.toList with
    | '+' :: rest => rest
    | all => all
  (parseDecimal digits).filter (· ≤ usizeMax)

/-- `usize::checked_add`; the plain sum panics, or wraps, where this is `none`. -/
def checkedAdd (a b : Nat) : Option Nat := if a + b ≤ usizeMax then some (a + b) else none

/-- `usize::checked_sub`; the plain difference panics, or wraps, where this is `none`. -/
def checkedSub (a b : Nat) : Option Nat := if b ≤ a then some (a - b) else none

/-! ### Bytes of strings -/

@[simp] theorem asBytes_append (s t : String) : asBytes (s ++ t) = asBytes s ++ asBytes t := by
  simp [asBytes]

theorem toByteArray_asBytes (s : String) : (asBytes s).toByteArray = s.toByteArray :=
  String.utf8Encode_toList

@[simp] theorem fromUtf8_asBytes (s : String) : fromUtf8 (asBytes s) = some s := by
  have h : (asBytes s).toByteArray.IsValidUTF8 := toByteArray_asBytes s ▸ s.isValidUTF8
  simp only [fromUtf8, String.fromUTF8?, dif_pos h, Option.some.injEq]
  exact String.toByteArray_inj.mp (toByteArray_asBytes s)

/-- A byte below 128 stands for the character of its code. -/
theorem toNat_of_mem_utf8EncodeChar {c : Char} {byte : UInt8} (h : byte ∈ String.utf8EncodeChar c)
    (hascii : byte < 128) : c.toNat = byte.toNat := by
  have hbound : byte.toNat < 128 := UInt8.lt_iff_toNat_lt.mp hascii
  have hlead : ∀ n : Nat, 128 ≤ n → n < 256 → byte ≠ UInt8.ofNat n := by
    rintro n hn hn' rfl
    rw [UInt8.toNat_ofNat', Nat.mod_eq_of_lt hn'] at hbound
    omega
  simp only [String.utf8EncodeChar] at h
  split at h
  · rename_i hle
    rw [List.mem_singleton] at h
    rw [h, UInt8.toNat_ofNat', Nat.mod_eq_of_lt (by omega)]
    rfl
  · exfalso
    split at h
    · simp only [List.mem_cons, List.not_mem_nil, or_false] at h
      rcases h with h | h <;> exact hlead _ (by omega) (by omega) h
    · split at h <;> simp only [List.mem_cons, List.not_mem_nil, or_false] at h
      · rcases h with h | h | h <;> exact hlead _ (by omega) (by omega) h
      · rcases h with h | h | h | h <;> exact hlead _ (by omega) (by omega) h

/-- An ASCII character that stands in the bytes of a string stands in the string. -/
theorem mem_toList_of_mem_asBytes {s : String} {c : Char} (hascii : c.toNat < 128)
    (h : UInt8.ofNat c.toNat ∈ asBytes s) : c ∈ s.toList := by
  obtain ⟨d, hd, hbyte⟩ := List.mem_flatMap.mp h
  have hcode : (UInt8.ofNat c.toNat).toNat = c.toNat := by
    rw [UInt8.toNat_ofNat', Nat.mod_eq_of_lt (by omega)]
  have hlow : UInt8.ofNat c.toNat < 128 := by
    rw [UInt8.lt_iff_toNat_lt, hcode]
    exact hascii
  have heq : d.toNat = c.toNat := (toNat_of_mem_utf8EncodeChar hbyte hlow).trans hcode
  exact Char.toNat_inj.mp heq ▸ hd

/-! ### Decimal numbers -/

theorem utf8EncodeChar_of_isDigit {c : Char} (h : c.isDigit = true) :
    ∀ byte ∈ String.utf8EncodeChar c, 48 ≤ byte ∧ byte ≤ 57 := by
  rw [Char.isDigit_iff_toNat] at h
  rw [← Char.ofNat_toNat c]
  obtain ⟨hle, hge⟩ : 48 ≤ c.toNat ∧ c.toNat ≤ 57 := h
  generalize c.toNat = n at hle hge
  have hall : (String.utf8EncodeChar (Char.ofNat n)).all fun byte => 48 ≤ byte && byte ≤ 57 := by
    interval_cases n <;> decide
  simpa using hall

/-- The bytes of a number are digits. -/
theorem asBytes_toString (n : Nat) : ∀ byte ∈ asBytes (toString n), 48 ≤ byte ∧ byte ≤ 57 := by
  intro byte hb
  rw [asBytes, Nat.toString_eq_ofList_toDigits, String.toList_ofList, List.mem_flatMap] at hb
  obtain ⟨c, hc, hb⟩ := hb
  exact utf8EncodeChar_of_isDigit (Nat.isDigit_of_mem_toDigits (by decide) (by decide) hc) byte hb

theorem parseDecimal_toDigits (n : Nat) : parseDecimal (Nat.toDigits 10 n) = some n := by
  have hall : (Nat.toDigits 10 n).all Char.isDigit = true :=
    List.all_eq_true.mpr fun c hc => Nat.isDigit_of_mem_toDigits (by decide) (by decide) hc
  rw [parseDecimal, if_pos ⟨Nat.toDigits_ne_nil, hall⟩, Nat.ofDigitChars_ten_toDigits]

/-- Only zero starts with the digit zero. -/
theorem head_toDigits (n : Nat) (h : (Nat.toDigits 10 n).head? = some '0') : n = 0 := by
  induction n using Nat.strong_induction_on with
  | _ n ih =>
    by_cases hn : n < 10
    · rw [Nat.toDigits_of_lt_base hn] at h
      interval_cases n <;> simp_all
    · rw [Nat.toDigits_of_base_le (by decide) (by omega), List.head?_append_of_ne_nil _ Nat.toDigits_ne_nil] at h
      have := ih (n / 10) (by omega) h
      omega

@[simp] theorem parseDecimal_toString (n : Nat) : parseDecimal (toString n).toList = some n := by
  rw [Nat.toString_eq_ofList_toDigits, String.toList_ofList, parseDecimal_toDigits]

/-- The decimal digits of a number. -/
structure Decimal (digits : List Char) (n : Nat) : Prop where
  nonempty : digits ≠ []
  isDigit : ∀ c ∈ digits, c.isDigit = true
  value : Nat.ofDigitChars 10 digits 0 = n

theorem parseDecimal_eq_some {digits : List Char} {n : Nat} : parseDecimal digits = some n ↔ Decimal digits n := by
  unfold parseDecimal
  split
  · rename_i h
    rw [Option.some.injEq]
    exact ⟨fun hvalue => ⟨h.1, List.all_eq_true.mp h.2, hvalue⟩, fun hdecimal => hdecimal.value⟩
  · rename_i h
    exact iff_of_false (by simp) fun hdecimal => h ⟨hdecimal.nonempty, List.all_eq_true.mpr hdecimal.isDigit⟩

theorem parseUsize_eq_some {s : String} {n : Nat} : parseUsize s = some n ↔
    ∃ sign digits, s.toList = sign ++ digits ∧ (sign = [] ∨ sign = ['+']) ∧ Decimal digits n ∧ n ≤ usizeMax := by
  have hfilter : ∀ digits, (parseDecimal digits).filter (· ≤ usizeMax) = some n ↔
      Decimal digits n ∧ n ≤ usizeMax := by
    intro digits
    rw [Option.filter_eq_some_iff, parseDecimal_eq_some, decide_eq_true_eq]
  unfold parseUsize
  split
  · rename_i rest heq
    rw [hfilter]
    constructor
    · rintro ⟨hdecimal, hle⟩
      exact ⟨['+'], rest, heq, .inr rfl, hdecimal, hle⟩
    · rintro ⟨sign, digits, hs, rfl | rfl, hdecimal, hle⟩
      · have hplus := hdecimal.isDigit '+' (by rw [← List.nil_append digits, ← hs, heq]; exact List.mem_cons_self)
        exact absurd hplus (by decide)
      · rw [heq, List.singleton_append, List.cons.injEq] at hs
        obtain ⟨-, rfl⟩ := hs
        exact ⟨hdecimal, hle⟩
  · rename_i all hplus
    rw [hfilter]
    constructor
    · rintro ⟨hdecimal, hle⟩
      exact ⟨[], _, rfl, .inl rfl, hdecimal, hle⟩
    · rintro ⟨sign, digits, hs, rfl | rfl, hdecimal, hle⟩
      · rw [hs]
        exact ⟨hdecimal, hle⟩
      · exact absurd hs (hplus digits)

/-! ### Trimming -/

theorem not_isWhitespace_of_isDigit {c : Char} (h : c.isDigit = true) : isWhitespace c = false := by
  rw [Char.isDigit_iff_toNat] at h
  obtain ⟨hge, hle⟩ : 48 ≤ c.toNat ∧ c.toNat ≤ 57 := h
  simp only [isWhitespace, Bool.or_eq_false_iff, Bool.and_eq_false_iff, decide_eq_false_iff_not, beq_eq_false_iff_ne]
  omega

theorem trim_decomposes (s : String) : ∃ before after, s.toList = before ++ ((trim s).toList ++ after) ∧
    (∀ c ∈ before, isWhitespace c = true) ∧ ∀ c ∈ after, isWhitespace c = true := by
  refine ⟨s.toList.takeWhile isWhitespace, (s.toList.dropWhile isWhitespace).rtakeWhile isWhitespace, ?_, ?_, ?_⟩
  · rw [trim, String.toList_ofList, List.rdropWhile_append_rtakeWhile, List.takeWhile_append_dropWhile]
  · intro c hc
    exact List.mem_takeWhile_imp hc
  · intro c hc
    exact List.mem_rtakeWhile_imp hc

theorem toList_trim {s : String} {before middle after : List Char} (hs : s.toList = before ++ (middle ++ after))
    (hbefore : ∀ c ∈ before, isWhitespace c = true) (hafter : ∀ c ∈ after, isWhitespace c = true)
    (hne : middle ≠ []) (hmiddle : ∀ c ∈ middle, isWhitespace c = false) : (trim s).toList = middle := by
  obtain ⟨first, rest, rfl⟩ := List.exists_cons_of_ne_nil hne
  have hfront : s.toList.dropWhile isWhitespace = (first :: rest) ++ after := by
    rw [hs, List.dropWhile_append_of_pos hbefore, List.cons_append,
      List.dropWhile_cons_of_neg (by simp [hmiddle first List.mem_cons_self])]
  have hback : ((first :: rest) ++ after).rdropWhile isWhitespace = first :: rest := by
    rw [List.rdropWhile, List.reverse_append, List.dropWhile_append_of_pos (by simpa using hafter),
      List.reverse_eq_iff]
    refine List.dropWhile_eq_self_iff.mpr fun hlen => ?_
    have hmem := List.mem_reverse.mp (List.getElem_mem hlen)
    rw [hmiddle _ hmem]
    exact Bool.false_ne_true
  rw [trim, String.toList_ofList, hfront, hback]

/-! ### Splitting and joining -/

theorem not_mem_of_mem_splitOn {α : Type} [BEq α] [LawfulBEq α] {a : α} :
    ∀ {l piece : List α}, piece ∈ l.splitOn a → a ∉ piece
  | [], piece, h => by simp_all
  | x :: l, piece, h => by
    rw [List.splitOn_cons_eq_if_modifyHead] at h
    split at h
    · rcases List.mem_cons.mp h with rfl | h
      · exact List.not_mem_nil
      · exact not_mem_of_mem_splitOn h
    · rename_i hx
      obtain ⟨first, rest, hl⟩ := List.exists_cons_of_ne_nil (List.splitOn_ne_nil a l)
      rw [hl, List.modifyHead_cons] at h
      rcases List.mem_cons.mp h with rfl | h
      · have hfirst : a ∉ first := not_mem_of_mem_splitOn (hl ▸ List.mem_cons_self)
        rw [List.mem_cons, not_or]
        exact ⟨fun he => hx (by simp [he]), hfirst⟩
      · exact not_mem_of_mem_splitOn (hl ▸ List.mem_cons_of_mem _ h)

theorem split_ne_nil (s : String) (c : Char) : split s c ≠ [] := by
  simp [split, List.splitOn_ne_nil]

theorem not_mem_of_mem_split {s piece : String} {c : Char} (h : piece ∈ split s c) : c ∉ piece.toList := by
  obtain ⟨l, hl, rfl⟩ := List.mem_map.mp h
  rw [String.toList_ofList]
  exact not_mem_of_mem_splitOn hl

@[simp] theorem join_split (s : String) (c : Char) : join (split s c) c = s := by
  simp [join, split, Function.comp_def, List.intercalate_splitOn]

theorem split_join {pieces : List String} {c : Char} (hne : pieces ≠ []) (h : ∀ piece ∈ pieces, c ∉ piece.toList) :
    split (join pieces c) c = pieces := by
  have hpieces : ∀ l ∈ pieces.map String.toList, c ∉ l := by simpa using h
  rw [split, join, String.toList_ofList, List.splitOn_intercalate c hpieces (by simpa using hne)]
  simp [Function.comp_def]

theorem mem_join {pieces : List String} {c d : Char} (h : d ∈ (join pieces c).toList) :
    d = c ∨ ∃ piece ∈ pieces, d ∈ piece.toList := by
  rw [join, String.toList_ofList] at h
  induction pieces with
  | nil => simp at h
  | cons piece pieces ih =>
    cases pieces with
    | nil => exact .inr ⟨piece, List.mem_singleton_self _, by simpa using h⟩
    | cons piece' pieces =>
      rw [List.map_cons, List.map_cons, List.intercalate_cons_cons, List.mem_append, List.mem_append,
        List.mem_singleton] at h
      rcases h with (h | h) | h
      · exact .inr ⟨piece, List.mem_cons_self, h⟩
      · exact .inl h
      · exact (ih h).imp_right fun ⟨p, hp, hd⟩ => ⟨p, List.mem_cons_of_mem _ hp, hd⟩

theorem mem_join_of_mem {pieces : List String} {piece : String} {c d : Char} (hpiece : piece ∈ pieces)
    (hd : d ∈ piece.toList) : d ∈ (join pieces c).toList := by
  rw [join, String.toList_ofList]
  induction pieces with
  | nil => cases hpiece
  | cons first rest ih =>
    cases rest with
    | nil =>
      cases List.mem_singleton.mp hpiece
      simpa using hd
    | cons second rest =>
      rw [List.map_cons, List.map_cons, List.intercalate_cons_cons]
      rcases List.mem_cons.mp hpiece with rfl | hpiece
      · exact List.mem_append_left _ (List.mem_append_left _ hd)
      · exact List.mem_append_right _ (ih hpiece)

theorem empty_mem_split_of_startsWith {s : String} {c : Char} (h : startsWith s c = true) : "" ∈ split s c := by
  rw [startsWith, beq_iff_eq, List.head?_eq_some_iff] at h
  obtain ⟨l, hl⟩ := h
  have hsplit := List.splitOn_append_cons_self (a := c) [] l
  rw [List.nil_append] at hsplit
  rw [split, hl, hsplit]
  simp

theorem empty_mem_split_of_endsWith {s : String} {c : Char} (h : endsWith s c = true) : "" ∈ split s c := by
  rw [endsWith, beq_iff_eq, List.getLast?_eq_some_iff] at h
  obtain ⟨l, hl⟩ := h
  rw [split, hl, List.splitOn_append_cons_self]
  simp

end Rust
