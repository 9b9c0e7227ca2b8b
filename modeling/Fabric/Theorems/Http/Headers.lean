import Fabric.Http.Codec
import Fabric.Library.Fallible

/-! The framing headers of a request: what the header scan accepts, in whatever order the headers stand, and which
    values it takes as a length. -/

namespace Fabric.Http
open Rust Tcp

/-! ### One header -/

def isContentLength (name : String) : Bool := eqIgnoreAsciiCase name "content-length"

def isTransferEncoding (name : String) : Bool := eqIgnoreAsciiCase name "transfer-encoding"

/-- Every element of a `Transfer-Encoding` is empty or names the identity coding. -/
def IdentityOnly (value : String) : Prop :=
  ∀ part ∈ split value ',', trim part = "" ∨ eqIgnoreAsciiCase (trim part) "identity" = true

theorem contentLengthHeader_eq_ok {contentLength next : Option Nat} {value : String} :
    contentLengthHeader contentLength value = .ok next ↔
      ∃ n, parseUsize (trim value) = some n ∧ (∀ m, contentLength = some m → m = n) ∧ next = some n := by
  unfold contentLengthHeader
  rcases parseUsize (trim value) with _ | n
  · simp
  · rcases contentLength with _ | m
    · simp [eq_comm]
    · by_cases hm : m = n
      · simp [hm, eq_comm]
      · simp [hm]

/-- The headers that the scan has passed settle the length, from what it was before them. -/
structure Settles (headers : List HttpHeader) (contentLength next : Option Nat) : Prop where
  lengths : ∀ header ∈ headers, isContentLength header.name = true →
    ∃ n, parseUsize (trim header.value) = some n ∧ next = some n
  kept : ∀ n, contentLength = some n → next = some n
  none : (∀ header ∈ headers, isContentLength header.name = false) → next = contentLength
  codings : ∀ header ∈ headers, isTransferEncoding header.name = true → IdentityOnly header.value

/-- The header is a `Content-Length` whose value parses to `n`. -/
def Announces (header : Httparse.Header) (n : Nat) : Prop :=
  isContentLength header.name = true ∧ ∃ value, fromUtf8 header.value = some value ∧ parseUsize (trim value) = some n

/-- The common length that the headers announce, or 0 when none of them is a `Content-Length`. -/
structure BodyLength (parsed : List Httparse.Header) (n : Nat) : Prop where
  announced : ∀ header ∈ parsed, isContentLength header.name = true → Announces header n
  absent : (∀ header ∈ parsed, isContentLength header.name = false) → n = 0

section
variable {parsed : List Httparse.Header}

theorem Announces.unique {header : Httparse.Header} {n n' : Nat} (h : Announces header n) (h' : Announces header n') :
    n = n' := by
  obtain ⟨-, value, hvalue, hparse⟩ := h
  obtain ⟨-, value', hvalue', hparse'⟩ := h'
  cases hvalue.symm.trans hvalue'
  exact Option.some.inj (hparse.symm.trans hparse')

theorem BodyLength.unique {n n' : Nat} (h : BodyLength parsed n) (h' : BodyLength parsed n') : n = n' := by
  by_cases hsome : ∃ header ∈ parsed, isContentLength header.name = true
  · obtain ⟨header, hmem, hname⟩ := hsome
    exact (h.announced header hmem hname).unique (h'.announced header hmem hname)
  · have hnone : ∀ header ∈ parsed, isContentLength header.name = false := by simpa using hsome
    rw [h.absent hnone, h'.absent hnone]

end

/-! ### Accepted requests -/

section
variable {parse : Httparse.Parser} {maxHeadBytes maxBodyBytes : Nat} {connection connection' : ByteStream}

end

def isBlank (c : Char) : Bool := c == ' ' || c == '\t'

/-- The grammar: decimal digits between spaces and tabs, with a value that fits. -/
def IsLength (value : String) (n : Nat) : Prop :=
  ∃ before digits after, value.toList = before ++ (digits ++ after) ∧ (∀ c ∈ before ++ after, isBlank c = true) ∧
    Decimal digits n ∧ n ≤ usizeMax

/-- The value is a length but for a plus sign, or but for white space around it that is no space and no tab. -/
def AlmostLength (value : String) : Prop :=
  ∃ before sign digits after n, value.toList = before ++ ((sign ++ digits) ++ after) ∧
    (∀ c ∈ before ++ after, isWhitespace c = true) ∧ (sign = [] ∨ sign = ['+']) ∧ Decimal digits n ∧ n ≤ usizeMax ∧
    (sign = ['+'] ∨ ∃ c ∈ before ++ after, isBlank c = false)

theorem isWhitespace_of_isBlank {c : Char} (h : isBlank c = true) : isWhitespace c = true := by
  simp only [isBlank, Bool.or_eq_true, beq_iff_eq] at h
  rcases h with rfl | rfl
  · decide
  · decide

theorem IsLength.blank_or_digit {value : String} {n : Nat} (h : IsLength value n) {c : Char} (hc : c ∈ value.toList) :
    isBlank c = true ∨ c.isDigit = true := by
  obtain ⟨before, digits, after, hvalue, hblank, hdecimal, -⟩ := h
  rw [hvalue, List.mem_append, List.mem_append] at hc
  rcases hc with hc | hc | hc
  · exact .inl (hblank c (List.mem_append_left _ hc))
  · exact .inr (hdecimal.isDigit c hc)
  · exact .inl (hblank c (List.mem_append_right _ hc))

/-- What trimming and `parse::<usize>` accept together. -/
theorem contentLengthHeader_none_eq_ok {value : String} {n : Nat} :
    contentLengthHeader none value = .ok (some n) ↔
      ∃ before sign digits after, value.toList = before ++ ((sign ++ digits) ++ after) ∧
        (∀ c ∈ before ++ after, isWhitespace c = true) ∧ (sign = [] ∨ sign = ['+']) ∧ Decimal digits n ∧
        n ≤ usizeMax := by
  have haccept : contentLengthHeader none value = .ok (some n) ↔ parseUsize (trim value) = some n := by
    simp [contentLengthHeader_eq_ok]
  rw [haccept, parseUsize_eq_some]
  constructor
  · rintro ⟨sign, digits, htrim, hsign, hdecimal, hle⟩
    obtain ⟨before, after, hvalue, hbefore, hafter⟩ := trim_decomposes value
    rw [htrim] at hvalue
    refine ⟨before, sign, digits, after, hvalue, fun c hc => ?_, hsign, hdecimal, hle⟩
    exact (List.mem_append.mp hc).elim (hbefore c) (hafter c)
  · rintro ⟨before, sign, digits, after, hvalue, hspace, hsign, hdecimal, hle⟩
    refine ⟨sign, digits, toList_trim hvalue (fun c hc => hspace c (List.mem_append_left _ hc))
      (fun c hc => hspace c (List.mem_append_right _ hc)) ?_ fun c hc => ?_, hsign, hdecimal, hle⟩
    · exact List.append_ne_nil_of_right_ne_nil _ hdecimal.nonempty
    · rcases List.mem_append.mp hc with hc | hc
      · rcases hsign with rfl | rfl
        · cases hc
        · cases List.mem_singleton.mp hc
          decide
      · exact not_isWhitespace_of_isDigit (hdecimal.isDigit c hc)

theorem IsLength.accepted {value : String} {n : Nat} (h : IsLength value n) :
    contentLengthHeader none value = .ok (some n) := by
  obtain ⟨before, digits, after, hvalue, hblank, hdecimal, hle⟩ := h
  exact contentLengthHeader_none_eq_ok.mpr ⟨before, [], digits, after, hvalue,
    fun c hc => isWhitespace_of_isBlank (hblank c hc), .inl rfl, hdecimal, hle⟩

/-- `Content-Length` is accepted by its grammar exactly on the values that are not almost lengths. -/
theorem contentLength_grammar_iff (value : String) :
    (∀ n, contentLengthHeader none value = .ok (some n) ↔ IsLength value n) ↔ ¬AlmostLength value := by
  constructor
  · rintro hgrammar ⟨before, sign, digits, after, n, hvalue, hspace, hsign, hdecimal, hle, hoff⟩
    have hlength := (hgrammar n).mp
      (contentLengthHeader_none_eq_ok.mpr ⟨before, sign, digits, after, hvalue, hspace, hsign, hdecimal, hle⟩)
    rcases hoff with rfl | ⟨c, hc, hblank⟩
    · have hplus := hlength.blank_or_digit (c := '+') (by simp [hvalue])
      revert hplus
      decide
    · have hmem : c ∈ value.toList := by
        rw [hvalue]
        simp only [List.mem_append] at hc ⊢
        tauto
      rcases hlength.blank_or_digit hmem with hblank' | hdigit
      · simp [hblank] at hblank'
      · have hno := not_isWhitespace_of_isDigit hdigit
        simp [hspace c hc] at hno
  · intro hexact n
    refine ⟨fun haccept => ?_, IsLength.accepted⟩
    obtain ⟨before, sign, digits, after, hvalue, hspace, hsign, hdecimal, hle⟩ :=
      contentLengthHeader_none_eq_ok.mp haccept
    have hplain : ¬(sign = ['+'] ∨ ∃ c ∈ before ++ after, isBlank c = false) := fun hoff =>
      hexact ⟨before, sign, digits, after, n, hvalue, hspace, hsign, hdecimal, hle, hoff⟩
    rw [not_or] at hplain
    rcases hsign with rfl | rfl
    · refine ⟨before, digits, after, hvalue, fun c hc => ?_, hdecimal, hle⟩
      by_contra hblank
      exact hplain.2 ⟨c, hc, by simpa using hblank⟩
    · exact absurd rfl hplain.1

/-- A signed length and a length behind a no-break space, taken for 5. -/
theorem signed_length_accepted :
    contentLengthHeader none "+5" = .ok (some 5) ∧ ¬IsLength "+5" 5 ∧
    contentLengthHeader none "\u00A05" = .ok (some 5) ∧ ¬IsLength "\u00A05" 5 ∧
    ¬∀ value n, contentLengthHeader none value = .ok (some n) ↔ IsLength value n := by
  have hplus : ¬IsLength "+5" 5 := fun h => by
    have hsign := h.blank_or_digit (c := '+') (by decide)
    revert hsign
    decide
  have hspace : ¬IsLength "\u00A05" 5 := fun h => by
    have hsign := h.blank_or_digit (c := '\u00A0') (by decide)
    revert hsign
    decide
  have haccept : contentLengthHeader none "+5" = .ok (some 5) := by decide
  exact ⟨haccept, hplus, by decide, hspace, fun hgrammar => hplus ((hgrammar "+5" 5).mp haccept)⟩

end Fabric.Http
