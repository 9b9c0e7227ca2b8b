import Fabric.Library.Rust

/-! `std::io::Write::write_all`: one write after another until all bytes are taken or a write fails. -/

namespace Rust

/-- How a write of some bytes ends: the writer takes at most `count` of them, or the call is interrupted, or fails. -/
inductive WriteAnswer where
  | accepted (count : Nat)
  | interrupted
  | failed (detail : String)
  deriving DecidableEq, Repr

/-- A writer with the default `write_all`, which has taken nothing of a write that fails: how the writes to come end,
    and what it has taken. Past its answers a write does not return. -/
structure Writer where
  answers : List WriteAnswer
  written : Bytes
  deriving DecidableEq, Repr

namespace Writer

def writeAllFrom : List WriteAnswer → Bytes → Bytes → Option (Except String Unit) × Writer
  | answers, written, [] => (some (.ok ()), ⟨answers, written⟩)
  | [], written, _ :: _ => (none, ⟨[], written⟩)
  | .accepted 0 :: answers, written, _ :: _ => (some (.error "failed to write whole buffer"), ⟨answers, written⟩)
  | .accepted (count + 1) :: answers, written, byte :: rest =>
    writeAllFrom answers (written ++ byte :: rest.take count) (rest.drop count)
  | .interrupted :: answers, written, byte :: rest => writeAllFrom answers written (byte :: rest)
  | .failed detail :: answers, written, _ :: _ => (some (.error detail), ⟨answers, written⟩)

/-- `write_all`; `none` where it does not return. -/
def writeAll (writer : Writer) (bytes : Bytes) : Option (Except String Unit) × Writer :=
  writeAllFrom writer.answers writer.written bytes

/-! ### What it writes -/

theorem writeAllFrom_ok {answers : List WriteAnswer} {written bytes : Bytes} {writer : Writer}
    (h : writeAllFrom answers written bytes = (some (.ok ()), writer)) : writer.written = written ++ bytes := by
  induction answers generalizing written bytes with
  | nil =>
    cases bytes with
    | nil =>
      obtain ⟨-, rfl⟩ := Prod.mk.inj h
      exact (List.append_nil _).symm
    | cons byte rest => cases h
  | cons answer answers ih =>
    cases bytes with
    | nil =>
      obtain ⟨-, rfl⟩ := Prod.mk.inj h
      exact (List.append_nil _).symm
    | cons byte rest =>
      rcases answer with (_ | count) | _ | detail
      · cases h
      · rw [ih h, List.append_assoc, List.cons_append, List.take_append_drop]
      · exact ih h
      · cases h

/-- A `write_all` that succeeds has written all the bytes, in order. -/
theorem written_of_writeAll {writer writer' : Writer} {bytes : Bytes}
    (h : writer.writeAll bytes = (some (.ok ()), writer')) : writer'.written = writer.written ++ bytes :=
  writeAllFrom_ok h

/-- However `write_all` ends, it has written a beginning of the bytes, and all of them only where it succeeds. -/
theorem writeAllFrom_taken {answers : List WriteAnswer} {written bytes : Bytes} {result : Option (Except String Unit)}
    {writer : Writer} (h : writeAllFrom answers written bytes = (result, writer)) :
    ∃ taken rest, bytes = taken ++ rest ∧ writer.written = written ++ taken ∧ (result = some (.ok ()) ↔ rest = []) := by
  induction answers generalizing written bytes with
  | nil =>
    cases bytes with
    | nil =>
      obtain ⟨rfl, rfl⟩ := Prod.mk.inj h
      exact ⟨[], [], rfl, (List.append_nil _).symm, by simp⟩
    | cons byte rest =>
      obtain ⟨rfl, rfl⟩ := Prod.mk.inj h
      exact ⟨[], byte :: rest, rfl, (List.append_nil _).symm, by simp⟩
  | cons answer answers ih =>
    cases bytes with
    | nil =>
      obtain ⟨rfl, rfl⟩ := Prod.mk.inj h
      exact ⟨[], [], rfl, (List.append_nil _).symm, by simp⟩
    | cons byte rest =>
      rcases answer with (_ | count) | _ | detail
      · obtain ⟨rfl, rfl⟩ := Prod.mk.inj h
        exact ⟨[], byte :: rest, rfl, (List.append_nil _).symm, by simp⟩
      · obtain ⟨taken, left, hrest, hwritten, hresult⟩ := ih h
        refine ⟨byte :: (rest.take count ++ taken), left, ?_, by simp [hwritten], hresult⟩
        rw [List.cons_append, List.append_assoc, ← hrest, List.take_append_drop]
      · exact ih h
      · obtain ⟨rfl, rfl⟩ := Prod.mk.inj h
        exact ⟨[], byte :: rest, rfl, (List.append_nil _).symm, by simp⟩

end Writer

/-! ### When it fails -/

/-- A call has returned an error. -/
def failed {ε : Type} : Option (Except ε Unit) → Bool
  | some (.error _) => true
  | _ => false

@[simp] theorem failed_map {ε δ : Type} (f : ε → δ) (result : Option (Except ε Unit)) :
    failed (result.map (·.mapError f)) = failed result := by
  rcases result with _ | _ | _ <;> rfl

/-- A write that ends `write_all` with an error. -/
def WriteAnswer.Refuses : WriteAnswer → Prop
  | .accepted count => count = 0
  | .interrupted => False
  | .failed _ => True

instance : (answer : WriteAnswer) → Decidable answer.Refuses
  | .accepted count => inferInstanceAs (Decidable (count = 0))
  | .interrupted => inferInstanceAs (Decidable False)
  | .failed _ => inferInstanceAs (Decidable True)

/-- How many bytes a write takes when there are as many. -/
def WriteAnswer.count : WriteAnswer → Nat
  | .accepted count => count
  | .interrupted => 0
  | .failed _ => 0

/-- A write is refused before the writes that precede it could take `length` bytes. -/
def RefusedBefore (length : Nat) (answers : List WriteAnswer) : Prop :=
  ∃ before answer after, answers = before ++ answer :: after ∧ (∀ earlier ∈ before, ¬earlier.Refuses) ∧
    answer.Refuses ∧ (before.map WriteAnswer.count).sum < length

theorem not_refusedBefore_nil (length : Nat) : ¬RefusedBefore length [] := by
  intro ⟨before, answer, after, hanswers, _⟩
  cases List.append_eq_nil_iff.mp hanswers.symm with
  | intro _ hcons => cases hcons

theorem refusedBefore_cons {length : Nat} {answer : WriteAnswer} {answers : List WriteAnswer} :
    RefusedBefore length (answer :: answers) ↔
      0 < length ∧ (answer.Refuses ∨ RefusedBefore (length - answer.count) answers) := by
  constructor
  · intro ⟨before, refusal, after, hanswers, hbefore, hrefuses, hcount⟩
    cases before with
    | nil =>
      obtain ⟨rfl, rfl⟩ := List.cons.inj hanswers
      exact ⟨hcount, .inl hrefuses⟩
    | cons first before =>
      obtain ⟨rfl, rfl⟩ := List.cons.inj hanswers
      rw [List.map_cons, List.sum_cons] at hcount
      exact ⟨by omega, .inr ⟨before, refusal, after, rfl, (List.forall_mem_cons.mp hbefore).2, hrefuses, by omega⟩⟩
  · intro ⟨hlength, hcases⟩
    by_cases hfirst : answer.Refuses
    · exact ⟨[], answer, answers, rfl, nofun, hfirst, hlength⟩
    · obtain ⟨before, refusal, after, rfl, hbefore, hrefuses, hcount⟩ := hcases.resolve_left hfirst
      refine ⟨answer :: before, refusal, after, rfl, List.forall_mem_cons.mpr ⟨hfirst, hbefore⟩, hrefuses, ?_⟩
      rw [List.map_cons, List.sum_cons]
      omega

namespace Writer

/-- `write_all` fails exactly where a write is refused before the bytes are out. -/
theorem writeAllFrom_error_iff {answers : List WriteAnswer} {written bytes : Bytes} :
    (∃ error, (writeAllFrom answers written bytes).1 = some (.error error)) ↔ RefusedBefore bytes.length answers := by
  induction answers generalizing written bytes with
  | nil =>
    have hnone : ¬∃ error, (writeAllFrom [] written bytes).1 = some (.error error) := by
      cases bytes <;> simp [writeAllFrom]
    exact iff_of_false hnone (not_refusedBefore_nil _)
  | cons answer answers ih =>
    rw [refusedBefore_cons]
    cases bytes with
    | nil => simp [writeAllFrom]
    | cons byte rest =>
      rcases answer with (_ | count) | _ | detail
      · simp [writeAllFrom, WriteAnswer.Refuses]
      · simp [writeAllFrom, ih, WriteAnswer.Refuses, WriteAnswer.count]
      · simp [writeAllFrom, ih, WriteAnswer.Refuses, WriteAnswer.count]
      · simp [writeAllFrom, WriteAnswer.Refuses]

/-- The refused writes to come. -/
def refusals (writer : Writer) : Nat := writer.answers.countP (·.Refuses)

/-- A `write_all` uses up one refused write where it fails, and otherwise none. -/
theorem refusals_writeAllFrom {answers : List WriteAnswer} {written bytes : Bytes}
    {result : Option (Except String Unit)} {writer : Writer}
    (h : writeAllFrom answers written bytes = (result, writer)) :
    answers.countP (·.Refuses) = writer.refusals + (failed result).toNat := by
  induction answers generalizing written bytes with
  | nil =>
    cases bytes <;> obtain ⟨rfl, rfl⟩ := Prod.mk.inj h <;> rfl
  | cons answer answers ih =>
    cases bytes with
    | nil =>
      obtain ⟨rfl, rfl⟩ := Prod.mk.inj h
      rfl
    | cons byte rest =>
      rcases answer with (_ | count) | _ | detail
      · obtain ⟨rfl, rfl⟩ := Prod.mk.inj h
        exact List.countP_cons_of_pos (decide_eq_true rfl)
      · have htakes : ¬(WriteAnswer.accepted (count + 1)).Refuses := Nat.succ_ne_zero count
        rw [List.countP_cons_of_neg (by simpa using htakes)]
        exact ih h
      · have hagain : ¬WriteAnswer.interrupted.Refuses := id
        rw [List.countP_cons_of_neg (by simpa using hagain)]
        exact ih h
      · obtain ⟨rfl, rfl⟩ := Prod.mk.inj h
        exact List.countP_cons_of_pos (decide_eq_true trivial)

/-! ### When it succeeds -/

/-- No write to come is refused, and there are enough of them for `length` bytes, even if each takes one only. -/
def Takes (writer : Writer) (length : Nat) : Prop :=
  (∀ answer ∈ writer.answers, ¬answer.Refuses) ∧ length ≤ writer.answers.countP (0 < ·.count)

instance (writer : Writer) (length : Nat) : Decidable (writer.Takes length) := inferInstanceAs (Decidable (_ ∧ _))

theorem writeAllFrom_takes {answers : List WriteAnswer} {written bytes : Bytes} {more : Nat}
    (h : Takes ⟨answers, written⟩ (bytes.length + more)) :
    ∃ writer, writeAllFrom answers written bytes = (some (.ok ()), writer) ∧ writer.Takes more := by
  induction answers generalizing written bytes with
  | nil =>
    obtain ⟨-, hcount⟩ := h
    cases bytes with
    | nil => exact ⟨_, rfl, nofun, by simpa using hcount⟩
    | cons byte rest => simp at hcount
  | cons answer answers ih =>
    obtain ⟨hnone, hcount⟩ := h
    obtain ⟨hanswer, hanswers⟩ := List.forall_mem_cons.mp hnone
    cases bytes with
    | nil => exact ⟨_, rfl, hnone, by simpa using hcount⟩
    | cons byte rest =>
      rw [List.length_cons] at hcount
      rcases answer with (_ | count) | _ | detail
      · exact absurd rfl hanswer
      · have htaken : (.accepted (count + 1) :: answers).countP (0 < ·.count) = answers.countP (0 < ·.count) + 1 :=
          List.countP_cons_of_pos (by simp [WriteAnswer.count])
        have hleft := hcount.trans_eq htaken
        refine ih ⟨hanswers, ?_⟩
        rw [List.length_drop]
        exact Nat.le_of_succ_le_succ (Nat.le_trans (by omega) hleft)
      · have hsame : (.interrupted :: answers).countP (0 < ·.count) = answers.countP (0 < ·.count) :=
          List.countP_cons_of_neg (by simp [WriteAnswer.count])
        exact ih ⟨hanswers, hcount.trans_eq hsame⟩
      · exact absurd trivial hanswer

/-- A `write_all` succeeds on a writer that takes its bytes, which still takes what comes after them. -/
theorem writeAll_takes {writer : Writer} {bytes : Bytes} {more : Nat} (h : writer.Takes (bytes.length + more)) :
    ∃ writer', writer.writeAll bytes = (some (.ok ()), writer') ∧ writer'.Takes more :=
  writeAllFrom_takes h

end Writer

end Rust
