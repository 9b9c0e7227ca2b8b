import Fabric.Library.Rust
import Mathlib.Data.List.Forall2

/-! JSON values and their text: a printer that breaks lines and indents, and a parser that reads back what it prints.
    The numbers are the unsigned 64-bit integers. -/

inductive Json where
  | null
  | bool (b : Bool)
  | num (n : UInt64)
  | str (s : String)
  | arr (items : List Json)
  | obj (members : List (String × Json))

namespace Json

mutual

/-- How deep arrays and objects are nested. -/
def depth : Json → Nat
  | arr items => depthItems items + 1
  | obj members => depthMembers members + 1
  | _ => 0

def depthItems : List Json → Nat
  | [] => 0
  | v :: rest => max v.depth (depthItems rest)

def depthMembers : List (String × Json) → Nat
  | [] => 0
  | (_, v) :: rest => max v.depth (depthMembers rest)

end

/-! ### Printing -/

def escape (c : Char) : List Char :=
  match c with
  | '"' => ['\\', '"']
  | '\\' => ['\\', '\\']
  | '\n' => ['\\', 'n']
  | '\r' => ['\\', 'r']
  | '\t' => ['\\', 't']
  | c =>
    if c.toNat = 8 then ['\\', 'b']
    else if c.toNat = 12 then ['\\', 'f']
    else if c.toNat < 32 then ['\\', 'u', '0', '0', Nat.digitChar (c.toNat / 16), Nat.digitChar (c.toNat % 16)]
    else [c]

def quote (s : String) : List Char := '"' :: (s.toList.flatMap escape ++ ['"'])

def newline (indent : Nat) : List Char := '\n' :: List.replicate (2 * indent) ' '

/-- Items between brackets, each on a line of its own. -/
def block (left right : Char) (indent : Nat) (texts : List (List Char)) : List Char :=
  if texts = [] then [left, right]
  else left :: newline (indent + 1) ++ (',' :: newline (indent + 1)).intercalate texts ++ newline indent ++ [right]

mutual

def pretty (indent : Nat) : Json → List Char
  | null => "null".toList
  | bool true => "true".toList
  | bool false => "false".toList
  | num n => Nat.toDigits 10 n.toNat
  | str s => quote s
  | arr items => block '[' ']' indent (prettyItems (indent + 1) items)
  | obj members => block '{' '}' indent (prettyMembers (indent + 1) members)

def prettyItems (indent : Nat) : List Json → List (List Char)
  | [] => []
  | v :: rest => pretty indent v :: prettyItems indent rest

def prettyMembers (indent : Nat) : List (String × Json) → List (List Char)
  | [] => []
  | (key, v) :: rest => (quote key ++ ':' :: ' ' :: pretty indent v) :: prettyMembers indent rest

end

/-! ### Parsing -/

abbrev Parser (α : Type) := List Char → Option (α × List Char)

def isBlank (c : Char) : Bool := c == ' ' || c == '\n' || c == '\r' || c == '\t'

def skipBlank (input : List Char) : List Char := input.dropWhile isBlank

def hexValue (c : Char) : Option Nat :=
  if '0' ≤ c ∧ c ≤ '9' then some (c.toNat - 48)
  else if 'a' ≤ c ∧ c ≤ 'f' then some (c.toNat - 87)
  else if 'A' ≤ c ∧ c ≤ 'F' then some (c.toNat - 55)
  else none

/-- The character of a four-digit escape. A surrogate is none. -/
def hexChar (a b c d : Char) : Option Char :=
  match hexValue a, hexValue b, hexValue c, hexValue d with
  | some a, some b, some c, some d =>
    let n := ((a * 16 + b) * 16 + c) * 16 + d
    if 0xD800 ≤ n ∧ n < 0xE000 then none else some (Char.ofNat n)
  | _, _, _, _ => none

def unescape : Char → Option Char
  | '"' => some '"'
  | '\\' => some '\\'
  | '/' => some '/'
  | 'n' => some '\n'
  | 'r' => some '\r'
  | 't' => some '\t'
  | 'b' => some (Char.ofNat 8)
  | 'f' => some (Char.ofNat 12)
  | _ => none

/-- The characters of a string up to its closing quote. -/
def readChars : Parser (List Char)
  | [] => none
  | '"' :: rest => some ([], rest)
  | '\\' :: 'u' :: a :: b :: c :: d :: rest =>
    (hexChar a b c d).bind fun char => (readChars rest).map (Prod.map (char :: ·) id)
  | '\\' :: e :: rest => (unescape e).bind fun char => (readChars rest).map (Prod.map (char :: ·) id)
  | c :: rest => if c.toNat < 32 then none else (readChars rest).map (Prod.map (c :: ·) id)

def readNumber : Parser Json := fun input =>
  let digits := input.takeWhile Char.isDigit
  let n := Nat.ofDigitChars 10 digits 0
  if digits = [] ∨ digits.head? = some '0' ∧ digits.length ≠ 1 ∨ 18446744073709551616 ≤ n then none
  else some (num (UInt64.ofNat n), input.dropWhile Char.isDigit)

def readScalar : Parser Json
  | 'n' :: 'u' :: 'l' :: 'l' :: rest => some (null, rest)
  | 't' :: 'r' :: 'u' :: 'e' :: rest => some (bool true, rest)
  | 'f' :: 'a' :: 'l' :: 's' :: 'e' :: rest => some (bool false, rest)
  | '"' :: rest => (readChars rest).map fun (chars, rest) => (str (String.ofList chars), rest)
  | input => readNumber input

section
variable {α : Type} (item : Parser α) (right : Char)

/-- One or more items with commas between them, up to the closing bracket. -/
def readItems : Nat → Parser (List α)
  | 0, _ => none
  | fuel + 1, input =>
    match item input with
    | none => none
    | some (a, rest) =>
      match skipBlank rest with
      | ',' :: rest => (readItems fuel (skipBlank rest)).map fun (items, rest) => (a :: items, rest)
      | c :: rest => if c = right then some ([a], rest) else none
      | [] => none

/-- The items of a block, after its opening bracket. -/
def readBlock : Parser (List α) := fun input =>
  match skipBlank input with
  | [] => none
  | c :: rest => if c = right then some ([], rest) else readItems item right (c :: rest).length (c :: rest)

end

def readMember (value : Parser Json) : Parser (String × Json)
  | '"' :: rest =>
    match readChars rest with
    | none => none
    | some (key, rest) =>
      match skipBlank rest with
      | ':' :: rest => (value (skipBlank rest)).map fun (v, rest) => ((String.ofList key, v), rest)
      | _ => none
  | _ => none

/-- A value that is nested no deeper than the limit. -/
def readValue : Nat → Parser Json
  | 0, input => readScalar input
  | limit + 1, input =>
    match input with
    | '[' :: rest => (readBlock (readValue limit) ']' rest).map fun (items, rest) => (arr items, rest)
    | '{' :: rest => (readBlock (readMember (readValue limit)) '}' rest).map fun (members, rest) => (obj members, rest)
    | input => readScalar input

def parse (limit : Nat) (input : List Char) : Option Json :=
  match readValue limit (skipBlank input) with
  | some (v, rest) => if skipBlank rest = [] then some v else none
  | none => none

/-! ### Strings and numbers -/

theorem hexChar_digitChar : ∀ n < 32,
    hexChar '0' '0' (Nat.digitChar (n / 16)) (Nat.digitChar (n % 16)) = some (Char.ofNat n) := by
  decide

theorem readChars_unescape {e c : Char} (he : e ≠ 'u') (hc : unescape e = some c) (rest : List Char) :
    readChars ('\\' :: e :: rest) = (readChars rest).map (Prod.map (c :: ·) id) := by
  rw [readChars.eq_4 e rest fun _ _ _ _ _ h => absurd h he, hc, Option.bind_some]

theorem readChars_escape (c : Char) (rest : List Char) :
    readChars (escape c ++ rest) = (readChars rest).map (Prod.map (c :: ·) id) := by
  have hchar : ∀ {n}, c.toNat = n → c = Char.ofNat n := fun h => by rw [← h, Char.ofNat_toNat]
  unfold escape
  split
  · exact readChars_unescape (by decide) rfl rest
  · exact readChars_unescape (by decide) rfl rest
  · exact readChars_unescape (by decide) rfl rest
  · exact readChars_unescape (by decide) rfl rest
  · exact readChars_unescape (by decide) rfl rest
  · rename_i hquote hback _ _ _
    split
    · rename_i h
      rw [hchar h]
      exact readChars_unescape (by decide) rfl rest
    split
    · rename_i h
      rw [hchar h]
      exact readChars_unescape (by decide) rfl rest
    split
    · rename_i h
      have hhex := hexChar_digitChar c.toNat h
      rw [Char.ofNat_toNat] at hhex
      simp only [List.cons_append, List.nil_append]
      rw [readChars.eq_3, hhex, Option.bind_some]
    · rename_i h
      rw [List.singleton_append, readChars.eq_5 c rest hquote (fun _ _ _ _ _ he => absurd he hback)
        fun _ _ he => absurd he hback, if_neg h]

theorem readChars_flatMap_escape (chars rest : List Char) :
    readChars (chars.flatMap escape ++ '"' :: rest) = some (chars, rest) := by
  induction chars with
  | nil => rfl
  | cons c chars ih =>
    rw [List.flatMap_cons, List.append_assoc, readChars_escape, ih]
    rfl

/-- What may follow a number. -/
def Follows (rest : List Char) : Prop := ∀ c, rest.head? = some c → c.isDigit = false

theorem takeWhile_of_follows {rest : List Char} (h : Follows rest) : rest.takeWhile Char.isDigit = [] := by
  cases rest with
  | nil => rfl
  | cons c rest => rw [List.takeWhile_cons_of_neg (by simp [h c rfl])]

theorem readNumber_toDigits (n : UInt64) {rest : List Char} (h : Follows rest) :
    readNumber (Nat.toDigits 10 n.toNat ++ rest) = some (num n, rest) := by
  have hall : ∀ c ∈ Nat.toDigits 10 n.toNat, c.isDigit = true := fun c hc =>
    Nat.isDigit_of_mem_toDigits (by decide) (by decide) hc
  have hdigits : (Nat.toDigits 10 n.toNat ++ rest).takeWhile Char.isDigit = Nat.toDigits 10 n.toNat := by
    rw [List.takeWhile_append_of_pos hall, takeWhile_of_follows h, List.append_nil]
  have hrest : (Nat.toDigits 10 n.toNat ++ rest).dropWhile Char.isDigit = rest := by
    have := List.takeWhile_append_dropWhile (p := Char.isDigit) (l := Nat.toDigits 10 n.toNat ++ rest)
    rw [hdigits] at this
    exact List.append_cancel_left this
  have hzero : ¬((Nat.toDigits 10 n.toNat).head? = some '0' ∧ (Nat.toDigits 10 n.toNat).length ≠ 1) := by
    rintro ⟨hhead, hlength⟩
    rw [Rust.head_toDigits _ hhead] at hlength
    exact hlength rfl
  have hlt := n.toNat_lt
  simp only [readNumber, hdigits, hrest, Nat.ofDigitChars_ten_toDigits]
  rw [if_neg, UInt64.ofNat_toNat]
  rintro (hnil | hhead | hle)
  · exact Nat.toDigits_ne_nil hnil
  · exact hzero hhead
  · omega

/-! ### Reading back -/

/-- The first characters of values and members: none is blank or closes a bracket. -/
def Opens (c : Char) : Prop := isBlank c = false ∧ c ≠ ']' ∧ c ≠ '}'

/-- A parser takes a text off its input, whatever follows, and yields the value. -/
structure Reads {α : Type} (item : Parser α) (text : List Char) (a : α) : Prop where
  opens : ∃ c rest, text = c :: rest ∧ Opens c
  reads : ∀ rest, Follows rest → item (text ++ rest) = some (a, rest)

theorem Reads.length_pos {α : Type} {item : Parser α} {text : List Char} {a : α} (h : Reads item text a) :
    0 < text.length := by
  obtain ⟨c, rest, rfl, -⟩ := h.opens
  exact Nat.succ_pos _

theorem skipBlank_of_opens {c : Char} {rest : List Char} (h : isBlank c = false) : skipBlank (c :: rest) = c :: rest :=
  List.dropWhile_cons_of_neg (by simp [h])

theorem skipBlank_newline (indent : Nat) (rest : List Char) : skipBlank (newline indent ++ rest) = skipBlank rest := by
  refine List.dropWhile_append_of_pos fun c hc => ?_
  rcases List.mem_cons.mp hc with rfl | hc
  · decide
  · rw [List.eq_of_mem_replicate hc]
    decide

theorem follows_newline (indent : Nat) (rest : List Char) : Follows (newline indent ++ rest) := by
  rintro c ⟨⟩
  decide

section
variable {α : Type} {item : Parser α} {right : Char} {texts : List (List Char)} {items : List α}

theorem readItems_last {fuel : Nat} {input rest rest' : List Char} {a : α} (hitem : item input = some (a, rest))
    (hrest : skipBlank rest = right :: rest') (hcomma : right ≠ ',') :
    readItems item right (fuel + 1) input = some ([a], rest') := by
  rw [readItems, hitem]
  simp [hrest]

theorem readItems_next {fuel : Nat} {input rest rest' : List Char} {a : α} (hitem : item input = some (a, rest))
    (hrest : skipBlank rest = ',' :: rest') :
    readItems item right (fuel + 1) input =
      (readItems item right fuel (skipBlank rest')).map (Prod.map (a :: ·) id) := by
  rw [readItems, hitem]
  simp only [hrest]
  rfl

theorem readItems_intercalate (hright : isBlank right = false) (hcomma : right ≠ ',') (inner outer : Nat)
    (h : List.Forall₂ (Reads item) texts items) (hne : texts ≠ []) (fuel : Nat) (hfuel : texts.length ≤ fuel)
    (rest : List Char) :
    readItems item right fuel ((',' :: newline inner).intercalate texts ++ (newline outer ++ right :: rest)) =
      some (items, rest) := by
  induction h generalizing fuel with
  | nil => exact absurd rfl hne
  | @cons text a texts items hitem htail ih =>
    obtain ⟨fuel, rfl⟩ : ∃ n, fuel = n + 1 := ⟨fuel - 1, by simp at hfuel; omega⟩
    cases htail with
    | nil =>
      rw [List.intercalate_singleton]
      exact readItems_last (hitem.reads _ (follows_newline _ _))
        ((skipBlank_newline _ _).trans (skipBlank_of_opens hright)) hcomma
    | @cons text' a' texts' items' hitem' htail =>
      have hfollows : ∀ l, Follows (',' :: l) := by
        rintro l c ⟨⟩
        decide
      have hopens : ∀ l, skipBlank ((',' :: newline inner).intercalate (text' :: texts') ++ l) =
          (',' :: newline inner).intercalate (text' :: texts') ++ l := fun l => by
        obtain ⟨c, text', rfl, hc, -⟩ := hitem'.opens
        rw [List.intercalate_cons_cons_left, List.cons_append, skipBlank_of_opens hc]
      rw [List.intercalate_cons_cons, List.append_assoc, List.append_assoc, List.cons_append,
        readItems_next (hitem.reads _ (hfollows _)) (skipBlank_of_opens rfl), skipBlank_newline, hopens,
        ih (List.cons_ne_nil _ _) _ (by simpa using hfuel)]
      rfl

theorem length_le_intercalate (between : List Char) (h : List.Forall₂ (Reads item) texts items) :
    texts.length ≤ (between.intercalate texts).length := by
  induction h with
  | nil => exact Nat.zero_le _
  | @cons text a texts items hitem htail ih =>
    have htext := hitem.length_pos
    cases texts with
    | nil =>
      rw [List.intercalate_singleton]
      exact htext
    | cons text' texts' =>
      rw [List.intercalate_cons_cons]
      simp only [List.length_append, List.length_cons] at ih ⊢
      omega

theorem readBlock_of_opens {input : List Char} {c : Char} {rest : List Char} (hskip : skipBlank input = c :: rest)
    (hc : c ≠ right) : readBlock item right input = readItems item right (c :: rest).length (c :: rest) := by
  simp only [readBlock, hskip]
  rw [if_neg hc]

theorem readBlock_block (hright : isBlank right = false) (hcomma : right ≠ ',') (hclose : right = ']' ∨ right = '}')
    (left : Char) (indent : Nat) (h : List.Forall₂ (Reads item) texts items) :
    ∃ body, block left right indent texts = left :: body ∧
      ∀ rest, readBlock item right (body ++ rest) = some (items, rest) := by
  unfold block
  split
  · rename_i hnil
    subst hnil
    cases h
    refine ⟨_, rfl, fun rest => ?_⟩
    simp [readBlock, skipBlank_of_opens hright]
  · rename_i hne
    refine ⟨newline (indent + 1) ++ (',' :: newline (indent + 1)).intercalate texts ++ newline indent ++ [right], rfl,
      fun rest => ?_⟩
    obtain ⟨c, tail, htail, hblank, hc⟩ : ∃ c tail, (',' :: newline (indent + 1)).intercalate texts = c :: tail ∧
        isBlank c = false ∧ c ≠ right := by
      cases h with
      | nil => exact absurd rfl hne
      | cons hitem _ =>
        obtain ⟨c, text, rfl, hc, hbracket, hbrace⟩ := hitem.opens
        exact ⟨c, _, List.intercalate_cons_cons_left, hc, by rcases hclose with rfl | rfl <;> assumption⟩
    have hlength := length_le_intercalate (',' :: newline (indent + 1)) h
    have hitems := readItems_intercalate hright hcomma (indent + 1) indent h hne
      (c :: tail ++ (newline indent ++ right :: rest)).length
      (by rw [htail] at hlength; rw [List.length_append]; omega) rest
    rw [htail] at hitems ⊢
    simp only [List.append_assoc, List.singleton_append]
    rw [← hitems, List.cons_append]
    exact readBlock_of_opens ((skipBlank_newline _ _).trans (skipBlank_of_opens hblank)) hc

end

theorem reads_quote (s : String) : Reads readScalar (quote s) (str s) where
  opens := ⟨_, _, rfl, by decide, by decide, by decide⟩
  reads rest _ := by
    simp only [quote, List.cons_append, List.append_assoc, List.nil_append]
    rw [readScalar.eq_4, readChars_flatMap_escape]
    simp

theorem reads_toDigits (n : UInt64) : Reads readScalar (Nat.toDigits 10 n.toNat) (num n) := by
  obtain ⟨c, text, htext⟩ := List.exists_cons_of_ne_nil (Nat.toDigits_ne_nil (n := n.toNat) (b := 10))
  have hdigit : c.isDigit = true :=
    Nat.isDigit_of_mem_toDigits (by decide) (by decide) (htext ▸ List.mem_cons_self)
  have hne : ∀ d : Char, d.isDigit = false → c ≠ d := by
    rintro d hd rfl
    rw [hdigit] at hd
    cases hd
  refine ⟨⟨c, text, htext, ?_, hne _ (by decide), hne _ (by decide)⟩, fun rest hrest => ?_⟩
  · simp [isBlank, hne]
  · have hread := readNumber_toDigits n hrest
    rw [htext, List.cons_append] at hread ⊢
    rw [readScalar.eq_5, hread]
    · exact fun _ h => hne 'n' (by decide) (List.cons.inj h).1
    · exact fun _ h => hne 't' (by decide) (List.cons.inj h).1
    · exact fun _ h => hne 'f' (by decide) (List.cons.inj h).1
    · exact fun _ h => hne '"' (by decide) (List.cons.inj h).1

/-- A scalar is read whatever the limit. -/
theorem Reads.of_scalar {text : List Char} {v : Json} (h : Reads readScalar text v)
    (hopen : text.head? ≠ some '[' ∧ text.head? ≠ some '{') (limit : Nat) : Reads (readValue limit) text v := by
  refine ⟨h.opens, fun rest hrest => ?_⟩
  rw [← h.reads rest hrest]
  obtain ⟨c, text, rfl, -⟩ := h.opens
  cases limit with
  | zero => rfl
  | succ limit =>
    rw [List.cons_append, readValue.eq_4]
    · exact fun _ h => hopen.1 (by rw [(List.cons.inj h).1, List.head?_cons])
    · exact fun _ h => hopen.2 (by rw [(List.cons.inj h).1, List.head?_cons])

theorem Reads.member {limit : Nat} {text : List Char} {v : Json} (h : Reads (readValue limit) text v) (key : String) :
    Reads (readMember (readValue limit)) (quote key ++ ':' :: ' ' :: text) (key, v) := by
  refine ⟨⟨_, _, rfl, by decide, by decide, by decide⟩, fun rest hrest => ?_⟩
  obtain ⟨c, text', htext, hc, -⟩ := h.opens
  have hread := h.reads rest hrest
  have hskip : skipBlank (' ' :: (text ++ rest)) = text ++ rest := by
    rw [htext, List.cons_append]
    exact (List.dropWhile_cons_of_pos rfl).trans (skipBlank_of_opens hc)
  simp only [quote, List.cons_append, List.append_assoc, List.nil_append, readMember, readChars_flatMap_escape]
  rw [skipBlank_of_opens rfl]
  simp [hskip, hread]

mutual

/-- What is printed is read back. -/
theorem reads_pretty : ∀ (v : Json) (indent limit : Nat), v.depth ≤ limit → Reads (readValue limit) (pretty indent v) v
  | null, _, limit, _ =>
    Reads.of_scalar ⟨⟨_, _, rfl, by decide, by decide, by decide⟩, fun rest _ => rfl⟩ (by decide) limit
  | bool true, _, limit, _ =>
    Reads.of_scalar ⟨⟨_, _, rfl, by decide, by decide, by decide⟩, fun rest _ => rfl⟩ (by decide) limit
  | bool false, _, limit, _ =>
    Reads.of_scalar ⟨⟨_, _, rfl, by decide, by decide, by decide⟩, fun rest _ => rfl⟩ (by decide) limit
  | num n, _, limit, _ => by
    have hdigit : ∀ c, (Nat.toDigits 10 n.toNat).head? = some c → c.isDigit = true := fun c hc =>
      Nat.isDigit_of_mem_toDigits (by decide) (by decide) (List.mem_of_mem_head? hc)
    exact (reads_toDigits n).of_scalar
      ⟨fun h => absurd (hdigit _ h) (by decide), fun h => absurd (hdigit _ h) (by decide)⟩ limit
  | str s, _, limit, _ => (reads_quote s).of_scalar ⟨by simp [quote], by simp [quote]⟩ limit
  | arr items, indent, limit + 1, h => by
    have hitems := reads_prettyItems items (indent + 1) limit (Nat.le_of_succ_le_succ h)
    obtain ⟨body, hbody, hread⟩ := readBlock_block (by decide) (by decide) (.inl rfl) '[' indent hitems
    refine ⟨⟨_, body, hbody, by decide, by decide, by decide⟩, fun rest _ => ?_⟩
    rw [pretty, hbody, List.cons_append, readValue.eq_2, hread]
    rfl
  | obj members, indent, limit + 1, h => by
    have hmembers := reads_prettyMembers members (indent + 1) limit (Nat.le_of_succ_le_succ h)
    obtain ⟨body, hbody, hread⟩ := readBlock_block (by decide) (by decide) (.inr rfl) '{' indent hmembers
    refine ⟨⟨_, body, hbody, by decide, by decide, by decide⟩, fun rest _ => ?_⟩
    rw [pretty, hbody, List.cons_append, readValue.eq_3, hread]
    rfl

theorem reads_prettyItems : ∀ (items : List Json) (indent limit : Nat), depthItems items ≤ limit →
    List.Forall₂ (Reads (readValue limit)) (prettyItems indent items) items
  | [], _, _, _ => .nil
  | v :: rest, indent, limit, h =>
    .cons (reads_pretty v indent limit (le_trans (le_max_left _ _) h))
      (reads_prettyItems rest indent limit (le_trans (le_max_right _ _) h))

theorem reads_prettyMembers : ∀ (members : List (String × Json)) (indent limit : Nat), depthMembers members ≤ limit →
    List.Forall₂ (Reads (readMember (readValue limit))) (prettyMembers indent members) members
  | [], _, _, _ => .nil
  | (key, v) :: rest, indent, limit, h =>
    .cons ((reads_pretty v indent limit (le_trans (le_max_left _ _) h)).member key)
      (reads_prettyMembers rest indent limit (le_trans (le_max_right _ _) h))

end

theorem isDigit_of_isBlank {c : Char} (h : isBlank c = true) : c.isDigit = false := by
  simp only [isBlank, Bool.or_eq_true, beq_iff_eq] at h
  rcases h with ((rfl | rfl) | rfl) | rfl <;> decide

/-- The parser reads back a printed value, also with blanks after it. -/
theorem parse_pretty {v : Json} {limit : Nat} (h : v.depth ≤ limit) {blanks : List Char}
    (hblanks : blanks.all isBlank = true) : parse limit (pretty 0 v ++ blanks) = some v := by
  have hv := reads_pretty v 0 limit h
  obtain ⟨c, text, htext, hc, -⟩ := hv.opens
  have hfollows : Follows blanks := fun c hc =>
    isDigit_of_isBlank (List.all_eq_true.mp hblanks c (List.mem_of_mem_head? hc))
  have hskip : skipBlank (pretty 0 v ++ blanks) = pretty 0 v ++ blanks := by
    rw [htext, List.cons_append, skipBlank_of_opens hc]
  have hrest : skipBlank blanks = [] := List.dropWhile_eq_nil_iff.mpr (List.all_eq_true.mp hblanks)
  rw [parse, hskip, hv.reads blanks hfollows]
  simp [hrest]

end Json
