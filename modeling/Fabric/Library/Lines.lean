import Mathlib.Data.List.DropRight
import Mathlib.Data.String.Basic

/-! Lines: lists in which a separator ends each line, split at the separators, and the text of lines. -/

namespace Lines

/-! ### Texts -/

def text (lines : List String) : String := String.join (lines.map (· ++ "\n"))

@[simp] theorem text_nil : text [] = "" := rfl

@[simp] theorem text_cons (line : String) (lines : List String) :
    text (line :: lines) = line ++ "\n" ++ text lines := by
  simp [text]

@[simp] theorem text_append (lines later : List String) : text (lines ++ later) = text lines ++ text later := by
  induction lines with
  | nil => simp
  | cons line lines ih => simp [ih, String.append_assoc]

theorem toList_text (lines : List String) :
    (text lines).toList = (lines.map String.toList).flatMap (· ++ ['\n']) := by
  induction lines with
  | nil => rfl
  | cons line lines ih => simp [ih]

/-! ### Splitting -/

variable {α : Type} [DecidableEq α] {a : α} {lines : List (List α)}

/-- Lines that end in a separator each, and a rest without one. -/
theorem splitOn_append {rest : List α} (hlines : ∀ line ∈ lines, a ∉ line) (hrest : a ∉ rest) :
    (lines.flatMap (· ++ [a]) ++ rest).splitOn a = lines ++ [rest] := by
  induction lines with
  | nil => exact List.splitOn_eq_singleton hrest
  | cons line later ih =>
    obtain ⟨hline, hlater⟩ := List.forall_mem_cons.mp hlines
    rw [List.flatMap_cons, List.append_assoc, List.append_assoc, List.singleton_append, List.splitOn_append_cons_self,
      List.splitOn_eq_singleton hline, ih hlater]
    rfl

/-- Nothing follows the last line. -/
theorem splitOn_flatMap (hlines : ∀ line ∈ lines, a ∉ line) : (lines.flatMap (· ++ [a])).splitOn a = lines ++ [[]] := by
  have hsplit := splitOn_append hlines (List.not_mem_nil (a := a))
  rwa [List.append_nil] at hsplit

/-- What stands behind the last separator. -/
theorem getLast_splitOn (l : List α) :
    (l.splitOn a).getLast (List.splitOn_ne_nil a l) = l.rtakeWhile (· ≠ a) := by
  induction hn : l.length using Nat.strongRecOn generalizing l with
  | ind n ih =>
    by_cases hmem : a ∈ l
    · obtain ⟨before, after, rfl⟩ := List.append_of_mem hmem
      have hlast : (before ++ a :: after).rtakeWhile (· ≠ a) = after.rtakeWhile (· ≠ a) := by
        rw [List.rtakeWhile, List.reverse_append, List.reverse_cons, List.append_assoc, List.takeWhile_append]
        split
        · rename_i hlength
          rw [List.rtakeWhile, (List.takeWhile_prefix _).eq_of_length hlength]
          simp
        · rfl
      have hafter := ih after.length (by rw [← hn, List.length_append, List.length_cons]; omega) after rfl
      rw [hlast, ← hafter]
      simp only [List.splitOn_append_cons_self]
      exact List.getLast_append_of_ne_nil _ _
    · have hall : l.rtakeWhile (· ≠ a) = l := List.rtakeWhile_eq_self_iff.mpr fun b hb =>
        decide_eq_true fun h => hmem (h ▸ hb)
      rw [hall]
      simp only [List.splitOn_eq_singleton hmem, List.getLast_singleton]

end Lines
