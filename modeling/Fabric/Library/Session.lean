import Fabric.Library.Interaction
import Fabric.Library.Locked

/-! Parties that each run a program against one locked object, a call at a time. The calls of a party take
    effect in the order of its program, whatever the other parties do. -/

namespace Session
open Transition Linearizability Locked

variable {σ ι Op Ret α : Type}

/-- The `n`-th call of party `p`. -/
abbrev CallId (ι : Type) := ι × Nat

/-- A program whose calls are answered by a locked object. -/
abbrev Program (Op Ret α : Type) := Interaction Op (Outcome Ret) α

/-- A party: the calls that were answered, what its program goes on with, and whether it waits for an answer. -/
structure Client (Op Ret α : Type) where
  made : List (Op × Outcome Ret)
  rest : Program Op Ret α
  waiting : Bool

structure State (σ ι Op Ret α : Type) where
  object : Locked.State σ (CallId ι) Op Ret
  clients : ι → Client Op Ret α

def State.init (value : σ) (programs : ι → Program Op Ret α) : State σ ι Op Ret α where
  object := .init value
  clients p := ⟨[], programs p, false⟩

inductive Action (ι : Type) where
  /-- Party `p` makes the next call of its program. -/
  | call (p : ι)
  /-- A call goes on inside the object. -/
  | advance (c : CallId ι)
  /-- Party `p` takes the answer of its call. -/
  | resume (p : ι)

section Step
variable [DecidableEq ι] (object : Object σ Op Ret)

def step (s : State σ ι Op Ret α) : Action ι → Option (State σ ι Op Ret α)
  | .call p =>
    match s.clients p with
    | ⟨made, .call op next, false⟩ =>
      (Locked.step object s.object (.invoke (p, made.length) op)).map fun object =>
        ⟨object, Function.update s.clients p ⟨made, .call op next, true⟩⟩
    | _ => none
  | .advance c => (Locked.step object s.object (.advance c)).map fun object => { s with object := object }
  | .resume p =>
    match s.clients p with
    | ⟨made, .call _ next, true⟩ =>
      match s.object.calls (p, made.length) with
      | .returned op r => some { s with clients := Function.update s.clients p ⟨made ++ [(op, r)], next r, false⟩ }
      | _ => none
    | _ => none

end Step

/-! ### The invariant -/

/-- What the history says of the calls that the parties have made. -/
structure Inv (object : Object σ Op Ret) (v : σ) (programs : ι → Program Op Ret α) [DecidableEq ι]
    (s : State σ ι Op Ret α) : Prop where
  reaches : Reaches (Locked.step object) (.init v) s.object
  steps : ∀ p, Interaction.Steps (programs p) (s.clients p).made (s.clients p).rest
  answered : ∀ p i op r, (s.clients p).made[i]? = some (op, r) → .respond (p, i) op r ∈ s.object.history
  invoked : ∀ p i op, .invoke (p, i) op ∈ s.object.history →
    i < (s.clients p).made.length ∨
      i = (s.clients p).made.length ∧ ∃ next, s.clients p = ⟨(s.clients p).made, .call op next, true⟩
  order : ∀ p i j op, i < j → .invoke (p, j) op ∈ s.object.history → Precedes s.object.history (p, i) (p, j)

section Steps
variable [DecidableEq ι] {object : Object σ Op Ret} {v : σ} {programs : ι → Program Op Ret α}
  {s t : State σ ι Op Ret α}

theorem Inv.init (object : Object σ Op Ret) (v : σ) (programs : ι → Program Op Ret α) :
    Inv object v programs (.init v programs) where
  reaches := .refl _
  steps _ := .refl _
  answered _ _ _ _ h := by simp [State.init] at h
  invoked _ _ _ h := by cases h
  order _ _ _ _ _ h := by cases h

theorem Inv.locked (hi : Inv object v programs s) : ∃ es, Locked.Inv object ⟨v, false⟩ s.object es :=
  Locked.Inv.of_reaches hi.reaches

theorem Inv.call {p : ι} (hi : Inv object v programs s) (hs : step object s (.call p) = some t) :
    Inv object v programs t := by
  simp only [step] at hs
  split at hs
  · rename_i made op next hclient
    obtain ⟨o, ho, rfl⟩ := Option.map_eq_some_iff.mp hs
    have hreaches := hi.reaches.trans (.single ho)
    simp only [Locked.step] at ho
    split at ho
    · obtain rfl := Option.some.inj ho
      have hmade : ∀ q, (Function.update s.clients p ⟨made, .call op next, true⟩ q).made = (s.clients q).made := by
        intro q
        rcases eq_or_ne q p with rfl | hne
        · rw [Function.update_self, hclient]
        · rw [Function.update_of_ne hne]
      refine ⟨hreaches, fun q => ?_, fun q i op' r h => ?_, fun q i op' h => ?_, fun q i j op' hij h => ?_⟩
      · rcases eq_or_ne q p with rfl | hne
        · simpa [hclient] using hi.steps q
        · simpa [hne] using hi.steps q
      · rw [hmade] at h
        exact List.mem_append_left _ (hi.answered q i op' r h)
      · rw [hmade]
        rcases List.mem_append.mp h with h | h
        · rcases hi.invoked q i op' h with hlt | ⟨heq, next', hq⟩
          · exact .inl hlt
          · have hne : q ≠ p := fun hqp => by rw [hqp, hclient] at hq; cases hq
            exact .inr ⟨heq, next', by simpa [hne] using hq⟩
        · obtain ⟨hc, rfl⟩ := Event.invoke.inj (List.mem_singleton.mp h)
          obtain ⟨rfl, rfl⟩ := Prod.mk.inj hc
          exact .inr ⟨by rw [hclient], next, by simp [hclient]⟩
      · rcases List.mem_append.mp h with h | h
        · exact (hi.order q i j op' hij h).append _
        · obtain ⟨hc, rfl⟩ := Event.invoke.inj (List.mem_singleton.mp h)
          obtain ⟨rfl, rfl⟩ := Prod.mk.inj hc
          obtain ⟨x, hget⟩ : ∃ x, (s.clients q).made[i]? = some x :=
            Option.isSome_iff_exists.mp (by simpa [hclient] using hij)
          exact ⟨s.object.history, _, rfl, ⟨_, _, hi.answered q i _ _ hget⟩, op', by simp⟩
    · cases ho
  · cases hs

theorem Inv.advance {c : CallId ι} (hi : Inv object v programs s) (hs : step object s (.advance c) = some t) :
    Inv object v programs t := by
  obtain ⟨o, ho, rfl⟩ := Option.map_eq_some_iff.mp hs
  obtain ⟨k, hk, hresponds⟩ := advance_history ho
  have hinvoke : ∀ c' op, .invoke c' op ∈ o.history → .invoke c' op ∈ s.object.history := by
    intro c' op h
    rw [hk] at h
    rcases List.mem_append.mp h with h | h
    · exact h
    · obtain ⟨_, _, hev⟩ := hresponds _ h
      cases hev
  refine ⟨hi.reaches.trans (.single ho), hi.steps, fun q i op r h => ?_, fun q i op h => ?_, fun q i j op hij h => ?_⟩
  · exact hk ▸ List.mem_append_left _ (hi.answered q i op r h)
  · exact hi.invoked q i op (hinvoke _ _ h)
  · exact hk ▸ (hi.order q i j op hij (hinvoke _ _ h)).append k

theorem Inv.resume {p : ι} (hi : Inv object v programs s) (hs : step object s (.resume p) = some t) :
    Inv object v programs t := by
  simp only [step] at hs
  split at hs
  · rename_i made op next hclient
    split at hs
    · rename_i op' r hreturned
      obtain rfl := Option.some.inj hs
      obtain ⟨es, hl⟩ := hi.locked
      have hcall := hl.calls (p, made.length)
      simp only [hreturned, CallInv] at hcall
      -- The call that returned is the one that the program made.
      obtain rfl : op' = op := by
        rcases hi.invoked p made.length op' (hl.points.invoked _ hcall.2) with hlt | ⟨-, next', hq⟩
        · rw [hclient] at hlt
          exact absurd hlt (Nat.lt_irrefl _)
        · rw [hclient] at hq
          cases hq
          rfl
      set clients := Function.update s.clients p ⟨made ++ [(op', r)], next r, false⟩ with hclients
      have hself : clients p = ⟨made ++ [(op', r)], next r, false⟩ := Function.update_self ..
      have hrest : ∀ q, q ≠ p → clients q = s.clients q := fun q hne => Function.update_of_ne hne ..
      refine ⟨hi.reaches, fun q => ?_, fun q i op r' h => ?_, fun q i op h => ?_, hi.order⟩
      · rcases eq_or_ne q p with rfl | hne
        · have hsteps := hi.steps q
          rw [hclient] at hsteps
          simp only [hself]
          exact hsteps.concat r
        · simp only [hrest q hne]
          exact hi.steps q
      · rcases eq_or_ne q p with rfl | hne
        · simp only [hself] at h
          rcases Nat.lt_or_ge i made.length with hlt | hge
          · rw [List.getElem?_append_left hlt] at h
            exact hi.answered q i op r' (by rw [hclient]; exact h)
          · rw [List.getElem?_append_right hge, List.getElem?_singleton] at h
            split at h
            · rename_i hzero
              obtain rfl : i = made.length := Nat.le_antisymm (Nat.sub_eq_zero_iff_le.mp hzero) hge
              obtain ⟨rfl, rfl⟩ := Prod.mk.inj (Option.some.inj h)
              exact hcall.1
            · cases h
        · simp only [hrest q hne] at h
          exact hi.answered q i op r' h
      · rcases eq_or_ne q p with rfl | hne
        · refine .inl ?_
          simp only [hself, List.length_append, List.length_singleton]
          rcases hi.invoked q i op h with hlt | ⟨heq, -⟩
          · rw [hclient] at hlt
            exact Nat.lt_succ_of_lt hlt
          · rw [hclient] at heq
            exact heq ▸ Nat.lt_succ_self _
        · simp only [hrest q hne]
          exact hi.invoked q i op h
    · cases hs
  · cases hs

theorem Inv.kept (s : State σ ι Op Ret α) (a : Action ι) (t : State σ ι Op Ret α) (hi : Inv object v programs s)
    (hs : step object s a = some t) : Inv object v programs t := by
  cases a with
  | call p => exact hi.call hs
  | advance c => exact hi.advance hs
  | resume p => exact hi.resume hs

theorem Inv.of_reaches (h : Reaches (step object) (.init v programs) s) : Inv object v programs s :=
  h.invariant Inv.kept (.init object v programs)

/-! ### Program order -/

section Order
variable {es : List (Entry (CallId ι) Op (Outcome Ret))} {p : ι}

/-- The committed calls of a party. -/
def ofParty (es : List (Entry (CallId ι) Op (Outcome Ret))) (p : ι) : List (Entry (CallId ι) Op (Outcome Ret)) :=
  es.filter fun e => e.call.1 = p

theorem mem_ofParty {e : Entry (CallId ι) Op (Outcome Ret)} : e ∈ ofParty es p ↔ e ∈ es ∧ e.call.1 = p := by
  simp [ofParty]

theorem Inv.pairwise_ofParty (hi : Inv object v programs s) (hl : Locked.Inv object ⟨v, false⟩ s.object es) :
    (ofParty es p).Pairwise fun a b => a.call.2 < b.call.2 := by
  refine List.pairwise_iff_forall_sublist.mpr fun {a b} hab => ?_
  have hcalls : [a.call, b.call].Sublist (es.map (·.call)) :=
    (hab.map Entry.call).trans (List.filter_sublist.map Entry.call)
  obtain ⟨ha, hap⟩ := mem_ofParty.mp (hab.subset (by simp : a ∈ [a, b]))
  obtain ⟨hb, hbp⟩ := mem_ofParty.mp (hab.subset (by simp : b ∈ [a, b]))
  have hne : a.call ≠ b.call := by simpa using hl.points.once.sublist hcalls
  rcases Nat.lt_trichotomy a.call.2 b.call.2 with hlt | heq | hgt
  · exact hlt
  · exact absurd (Prod.ext (hap.trans hbp.symm) heq) hne
  · have ha' : (p, a.call.2) = a.call := by rw [← hap]
    have hb' : (p, b.call.2) = b.call := by rw [← hbp]
    have hprec := hi.order p b.call.2 a.call.2 a.op hgt (ha' ▸ hl.points.invoked a ha)
    have hback := hl.points.order _ _ hprec (ha'.symm ▸ List.mem_map_of_mem (f := Entry.call) ha)
    rw [ha', hb'] at hback
    exact absurd hback (sublist_asymm hl.points.once hcalls)

/-- Elements in the order of their numbers, one of them for each place of a list from `k` on and none past its end,
    spell out that list, and at most one further element. -/
theorem map_eq_append {β γ : Type} {number : β → Nat} {f : β → γ} {m : List γ} {l : List β} {k : Nat}
    (hsorted : l.Pairwise fun a b => number a < number b) (hge : ∀ a ∈ l, k ≤ number a)
    (hle : ∀ a ∈ l, number a ≤ k + m.length)
    (hmem : ∀ i x, m[i]? = some x → ∃ a ∈ l, number a = k + i ∧ f a = x) :
    ∃ extra : List β, l.map f = m ++ extra.map f ∧ extra.length ≤ 1 ∧ ∀ a ∈ extra, a ∈ l ∧ number a = k + m.length := by
  induction m generalizing l k with
  | nil =>
    have heq : ∀ a ∈ l, number a = k := fun a ha => Nat.le_antisymm (hle a ha) (hge a ha)
    refine ⟨l, rfl, ?_, fun a ha => ⟨ha, heq a ha⟩⟩
    rcases l with _ | ⟨a, _ | ⟨b, l⟩⟩
    · exact Nat.zero_le _
    · exact Nat.le_refl _
    · have hlt := List.rel_of_pairwise_cons hsorted (List.mem_cons_self (a := b) (l := l))
      rw [heq a (by simp), heq b (by simp)] at hlt
      exact absurd hlt (Nat.lt_irrefl k)
  | cons x m ih =>
    obtain ⟨a, ha, hak, rfl⟩ := hmem 0 x rfl
    rcases l with _ | ⟨b, l⟩
    · cases ha
    · obtain ⟨hb, htail⟩ := List.pairwise_cons.mp hsorted
      rcases List.mem_cons.mp ha with rfl | ha
      · obtain ⟨extra, hmap, hlength, hextra⟩ := ih (k := k + 1) htail (fun c hc => by have := hb c hc; omega)
          (fun c hc => by have := hle c (List.mem_cons_of_mem _ hc); simp at this; omega) (fun i y hy => by
            obtain ⟨c, hc, hck, hcy⟩ := hmem (i + 1) y hy
            rcases List.mem_cons.mp hc with rfl | hc
            · omega
            · exact ⟨c, hc, by omega, hcy⟩)
        refine ⟨extra, by rw [List.map_cons, hmap, List.cons_append], hlength, fun c hc => ?_⟩
        obtain ⟨hcl, hck⟩ := hextra c hc
        exact ⟨List.mem_cons_of_mem _ hcl, by simp; omega⟩
      · have hlt := hb a ha
        have hle := hge b List.mem_cons_self
        omega

/-- The committed calls of a party are those of its program that were answered, in their order, and at most the one it
    waits for. -/
theorem Inv.program_order (hi : Inv object v programs s) (hl : Locked.Inv object ⟨v, false⟩ s.object es) (p : ι) :
    ∃ extra, (ofParty es p).map (fun e => (e.op, e.ret)) = (s.clients p).made ++ extra ∧ extra.length ≤ 1 ∧
      ∀ x ∈ extra, ∃ next, (s.clients p).rest = .call x.1 next := by
  have hinvoked : ∀ e ∈ ofParty es p, .invoke (p, e.call.2) e.op ∈ s.object.history := by
    intro e he
    obtain ⟨hmem, rfl⟩ := mem_ofParty.mp he
    exact hl.points.invoked e hmem
  obtain ⟨extra, hmap, hlength, hextra⟩ :=
    map_eq_append (f := fun e => (e.op, e.ret)) (m := (s.clients p).made) (k := 0)
    (hi.pairwise_ofParty hl) (fun _ _ => Nat.zero_le _) (fun e he => by
      rcases hi.invoked p _ _ (hinvoked e he) with hlt | ⟨heq, -⟩
      · omega
      · omega) (fun i x hx => by
      have hcompleted : (⟨(p, i), x.1, x.2⟩ : Entry (CallId ι) Op (Outcome Ret)) ∈ completed s.object.history :=
        mem_completed.mpr (hi.answered p i x.1 x.2 hx)
      exact ⟨⟨(p, i), x.1, x.2⟩, mem_ofParty.mpr ⟨hl.points.complete _ hcompleted, rfl⟩, by simp, rfl⟩)
  refine ⟨extra.map fun e => (e.op, e.ret), hmap, by simpa using hlength, fun x hx => ?_⟩
  obtain ⟨e, he, rfl⟩ := List.mem_map.mp hx
  obtain ⟨he, hnumber⟩ := hextra e he
  rcases hi.invoked p _ _ (hinvoked e he) with hlt | ⟨-, next, hclient⟩
  · omega
  · exact ⟨next, by rw [hclient]⟩

/-- Once its program has ended, the committed calls of a party are a whole run of it. -/
theorem Inv.steps_of_done (hi : Inv object v programs s) (hl : Locked.Inv object ⟨v, false⟩ s.object es) {a : α}
    (hdone : (s.clients p).rest = .done a) :
    Interaction.Steps (programs p) ((ofParty es p).map fun e => (e.op, e.ret)) (.done a) := by
  obtain ⟨extra, hmap, -, hextra⟩ := hi.program_order hl p
  obtain rfl : extra = [] := List.eq_nil_iff_forall_not_mem.mpr fun x hx => by
    obtain ⟨next, hnext⟩ := hextra x hx
    rw [hdone] at hnext
    cases hnext
  rw [hmap, List.append_nil, ← hdone]
  exact hi.steps p

/-- The committed calls of a party are ones that its program makes. -/
theorem Inv.only {allowed : Op → Prop} (hi : Inv object v programs s) (hl : Locked.Inv object ⟨v, false⟩ s.object es)
    (honly : (programs p).Only allowed) : ∀ e ∈ ofParty es p, allowed e.op := by
  obtain ⟨extra, hmap, -, hextra⟩ := hi.program_order hl p
  obtain ⟨hmade, hrest⟩ := honly.steps (hi.steps p)
  intro e he
  have hmem : (e.op, e.ret) ∈ (s.clients p).made ++ extra := hmap ▸ List.mem_map_of_mem he
  rcases List.mem_append.mp hmem with hmem | hmem
  · exact hmade _ hmem
  · obtain ⟨next, hnext⟩ := hextra _ hmem
    rw [hnext] at hrest
    exact hrest.1

end Order

end Steps

/-! ### Rely -/

section Rely
variable {τ : Type} (rely : τ → τ → Prop) (spec : τ → Op → Ret → τ → Prop) (post : α → Prop)

/-- From `s` on, the program can only end with a result as `post` says, if between its calls the others keep to `rely`.
    -/
def Ensures : Interaction Op Ret α → τ → Prop
  | .done a, _ => post a
  | .call op next, s => ∀ u r t, rely s u → spec u op r t → Ensures (next r) t

variable {rely spec post}

theorem Ensures.of_legal (hrefl : ∀ s, rely s s) (htrans : ∀ s t u, rely s t → rely t u → rely s u)
    {mine : Entry ι Op Ret → Bool} {es : List (Entry ι Op Ret)} {s₀ s t : τ} {program : Interaction Op Ret α} {a : α}
    (h : Legal spec s es t) (hothers : ∀ e ∈ es, mine e = false → ∀ u v, spec u e.op e.ret v → rely u v)
    (hsteps : Interaction.Steps program ((es.filter mine).map fun e => (e.op, e.ret)) (.done a)) (hs : rely s₀ s)
    (hensures : Ensures rely spec post program s₀) : post a := by
  induction h generalizing s₀ program with
  | nil =>
    cases hsteps
    exact hensures
  | @cons s u t e es he _ ih =>
    have hothers' := fun e' he' => hothers e' (List.mem_cons_of_mem _ he')
    cases hmine : mine e with
    | true =>
      rw [List.filter_cons_of_pos hmine, List.map_cons] at hsteps
      cases hsteps with
      | call hsteps => exact ih hothers' hsteps (hrefl u) (hensures s e.ret u hs he)
    | false =>
      rw [List.filter_cons_of_neg (by simp [hmine])] at hsteps
      exact ih hothers' hsteps (htrans _ _ _ hs (hothers e List.mem_cons_self hmine s u he)) hensures

end Rely

end Session
