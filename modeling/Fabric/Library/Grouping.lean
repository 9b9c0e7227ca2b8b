import Mathlib.Data.List.Dedup
import Mathlib.Data.List.Perm.Basic

/-! Grouping by a key: the items of a list key by key, each group in the order of the list. -/

namespace Grouping

variable {α κ : Type} [DecidableEq κ]

def group (keys : List κ) (key : α → κ) (l : List α) : List α := keys.flatMap fun k => l.filter (key · = k)

@[simp] theorem group_cons (k : κ) (keys : List κ) (key : α → κ) (l : List α) :
    group (k :: keys) key l = l.filter (key · = k) ++ group keys key l := List.flatMap_cons

theorem mem_group {keys : List κ} {key : α → κ} {l : List α} {a : α} :
    a ∈ group keys key l ↔ key a ∈ keys ∧ a ∈ l := by
  simp [group, and_comm]

/-- The items of other keys do not matter to a group. -/
theorem group_filter_ne {keys : List κ} {k : κ} (hk : k ∉ keys) (key : α → κ) (l : List α) :
    group keys key (l.filter (key · ≠ k)) = group keys key l := by
  refine List.flatMap_congr fun k' hk' => ?_
  have hne : k' ≠ k := fun h => hk (h ▸ hk')
  rw [List.filter_filter]
  refine List.filter_congr fun a _ => ?_
  by_cases h : key a = k'
  · simp [h, hne]
  · simp [h]

/-- No item is lost and none is repeated. -/
theorem perm_group {keys : List κ} (hkeys : keys.Nodup) {key : α → κ} {l : List α} (hcover : ∀ a ∈ l, key a ∈ keys) :
    (group keys key l).Perm l := by
  induction keys generalizing l with
  | nil =>
    obtain rfl : l = [] := List.eq_nil_iff_forall_not_mem.mpr fun a ha => List.not_mem_nil (hcover a ha)
    exact .refl _
  | cons k keys ih =>
    obtain ⟨hk, hkeys⟩ := List.nodup_cons.mp hkeys
    have hrest : (group keys key (l.filter (key · ≠ k))).Perm (l.filter (key · ≠ k)) := by
      refine ih hkeys fun a ha => ?_
      obtain ⟨ha, hne⟩ := List.mem_filter.mp ha
      exact (List.mem_cons.mp (hcover a ha)).resolve_left (of_decide_eq_true hne)
    rw [group_cons, ← group_filter_ne hk]
    have hsplit := List.filter_append_perm (fun a => decide (key a = k)) l
    simp only [← decide_not] at hsplit
    exact (hrest.append_left _).trans hsplit

/-- The keys come in their order. -/
theorem pairwise_group {R : κ → κ → Prop} {keys : List κ} (hkeys : keys.Pairwise R) (key : α → κ) (l : List α) :
    (group keys key l).Pairwise fun a b => key a = key b ∨ R (key a) (key b) := by
  refine List.pairwise_flatMap.mpr ⟨fun k _ => ?_, hkeys.imp fun {k k'} hR a ha b hb => ?_⟩
  · refine (List.pairwise_iff_forall_sublist.mpr fun {a b} hab => Or.inl ?_)
    have hkey : ∀ c ∈ [a, b], key c = k := fun c hc =>
      of_decide_eq_true (List.mem_filter.mp (hab.subset hc)).2
    rw [hkey a (by simp), hkey b (by simp)]
  · rw [of_decide_eq_true (List.mem_filter.mp ha).2, of_decide_eq_true (List.mem_filter.mp hb).2]
    exact Or.inr hR

theorem filter_group_of_not_mem {keys : List κ} {k : κ} (hk : k ∉ keys) (key : α → κ) (l : List α) :
    (group keys key l).filter (key · = k) = [] := by
  rw [List.filter_eq_nil_iff]
  intro a ha h
  exact hk (of_decide_eq_true h ▸ (mem_group.mp ha).1)

theorem filter_group_of_mem {keys : List κ} (hkeys : keys.Nodup) {k : κ} (hk : k ∈ keys) (key : α → κ) (l : List α) :
    (group keys key l).filter (key · = k) = l.filter (key · = k) := by
  induction keys with
  | nil => cases hk
  | cons k' keys ih =>
    obtain ⟨hk', hkeys⟩ := List.nodup_cons.mp hkeys
    rw [group_cons, List.filter_append]
    by_cases heq : k = k'
    · subst heq
      rw [filter_group_of_not_mem hk', List.append_nil, List.filter_filter]
      simp
    · have hother : (l.filter (key · = k')).filter (key · = k) = [] := by
        rw [List.filter_eq_nil_iff]
        intro a ha h
        exact heq ((of_decide_eq_true h).symm.trans (of_decide_eq_true (List.mem_filter.mp ha).2))
      rw [hother, List.nil_append]
      exact ih hkeys ((List.mem_cons.mp hk).resolve_left heq)

/-- The items of one key stay in their order. -/
theorem filter_group {keys : List κ} (hkeys : keys.Nodup) {key : α → κ} {l : List α} (hcover : ∀ a ∈ l, key a ∈ keys)
    (k : κ) : (group keys key l).filter (key · = k) = l.filter (key · = k) := by
  by_cases hk : k ∈ keys
  · exact filter_group_of_mem hkeys hk key l
  · rw [filter_group_of_not_mem hk, eq_comm, List.filter_eq_nil_iff]
    intro a ha h
    exact hk (of_decide_eq_true h ▸ hcover a ha)

/-- Groups within groups are the groups of the pairs of keys. -/
theorem group_pairs {μ : Type} [DecidableEq μ] (keys : List κ) (inner : κ → List μ) (key : α → κ) (sub : α → μ)
    (l : List α) : group (keys.flatMap fun k => (inner k).map (Prod.mk k)) (fun a => (key a, sub a)) l =
      keys.flatMap fun k => group (inner k) sub (l.filter (key · = k)) := by
  simp only [group, List.flatMap_assoc, List.flatMap_map, List.filter_filter, Prod.mk.injEq, Bool.decide_and,
    Bool.and_comm]

/-- A single key groups nothing. -/
theorem group_eq_self {keys : List κ} (hkeys : keys.Nodup) {key : α → κ} {l : List α} {k : κ} (hk : k ∈ keys)
    (hall : ∀ a ∈ l, key a = k) : group keys key l = l := by
  have hcover : ∀ a ∈ l, key a ∈ keys := fun a ha => hall a ha ▸ hk
  have hfilter : ∀ l' : List α, (∀ a ∈ l', key a = k) → l'.filter (key · = k) = l' := fun l' hl' =>
    List.filter_eq_self.mpr fun a ha => decide_eq_true (hl' a ha)
  rw [← hfilter (group keys key l) fun a ha => hall a (mem_group.mp ha).2, filter_group hkeys hcover, hfilter l hall]

end Grouping
