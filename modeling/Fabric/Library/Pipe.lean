import Mathlib.Data.List.Basic

/-! Bounded pipes. A write to a full pipe and a read from an empty one block: there they are `none`. -/

/-- What has been written to a pipe and not yet read, oldest first. -/
structure Pipe (α : Type) (capacity : Nat) where
  content : List α
  bounded : content.length ≤ capacity

namespace Pipe

variable {α : Type} {capacity : Nat}

def empty : Pipe α capacity := ⟨[], Nat.zero_le _⟩

def Full (pipe : Pipe α capacity) : Prop := pipe.content.length = capacity

def write (pipe : Pipe α capacity) (a : α) : Option (Pipe α capacity) :=
  if h : pipe.content.length < capacity then
    some ⟨pipe.content ++ [a], by rw [List.length_append]; exact h⟩
  else none

/-- A read of `n` items, at least one and no more than there are. -/
def read (pipe : Pipe α capacity) (n : Nat) : Option (List α × Pipe α capacity) :=
  if 0 < n ∧ n ≤ pipe.content.length then
    some (pipe.content.take n, ⟨pipe.content.drop n, Nat.le_trans (List.drop_sublist n _).length_le pipe.bounded⟩)
  else none

@[simp] theorem content_empty : (empty : Pipe α capacity).content = [] := rfl

@[ext] theorem ext {p q : Pipe α capacity} (h : p.content = q.content) : p = q := by
  cases p
  cases q
  cases h
  rfl

theorem write_eq_some {pipe next : Pipe α capacity} {a : α} :
    pipe.write a = some next ↔ pipe.content.length < capacity ∧ next.content = pipe.content ++ [a] := by
  unfold write
  split
  · rename_i hroom
    rw [Option.some.injEq]
    constructor
    · intro h
      exact ⟨hroom, h ▸ rfl⟩
    · intro h
      exact ext h.2.symm
  · rename_i hfull
    exact iff_of_false (by simp) fun h => hfull h.1

theorem write_eq_none {pipe : Pipe α capacity} {a : α} : pipe.write a = none ↔ pipe.Full := by
  unfold write Full
  have hbounded := pipe.bounded
  split
  · rename_i hroom
    exact iff_of_false (by simp) (Nat.ne_of_lt hroom)
  · rename_i hfull
    exact iff_of_true rfl (Nat.le_antisymm hbounded (Nat.not_lt.mp hfull))

theorem exists_write {pipe : Pipe α capacity} (a : α) (h : pipe.content.length < capacity) :
    ∃ next, pipe.write a = some next ∧ next.content = pipe.content ++ [a] := by
  refine ⟨⟨pipe.content ++ [a], ?_⟩, write_eq_some.mpr ⟨h, rfl⟩, rfl⟩
  rw [List.length_append]
  exact h

theorem read_eq_some {pipe next : Pipe α capacity} {n : Nat} {items : List α} :
    pipe.read n = some (items, next) ↔ 0 < n ∧ items.length = n ∧ pipe.content = items ++ next.content := by
  unfold read
  split
  · rename_i h
    rw [Option.some.injEq, Prod.mk.injEq]
    constructor
    · rintro ⟨rfl, rfl⟩
      exact ⟨h.1, List.length_take_of_le h.2, (List.take_append_drop n _).symm⟩
    · rintro ⟨-, rfl, hcontent⟩
      have htake : pipe.content.take items.length = items := by rw [hcontent, List.take_left]
      have hdrop : pipe.content.drop items.length = next.content := by rw [hcontent, List.drop_left]
      exact ⟨htake, ext hdrop⟩
  · rename_i h
    refine iff_of_false (by simp) ?_
    rintro ⟨hpos, rfl, hcontent⟩
    exact h ⟨hpos, by rw [hcontent, List.length_append]; exact Nat.le_add_right _ _⟩

end Pipe
