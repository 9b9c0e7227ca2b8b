import Mathlib.Data.List.Nodup

/-! Linearizability of a history of overlapping calls on one object with a sequential specification.

    A call is invoked and later responds. A linearization orders all calls that responded, and possibly
    some that have taken effect and have yet to respond, so that the sequential object gives each its
    result and a call that responded before another was invoked comes first. `Points` builds one from
    linearization points: each call is committed once, after it is invoked and before it responds. -/

namespace Linearizability

variable {σ ι Op Ret : Type}

/-- An event of a history: call `c` starts operation `op`, or its operation `op` returns `r`. -/
inductive Event (ι Op Ret : Type) where
  | invoke (c : ι) (op : Op)
  | respond (c : ι) (op : Op) (r : Ret)
  deriving DecidableEq, Repr

/-- A call with its operation and its result. -/
structure Entry (ι Op Ret : Type) where
  call : ι
  op : Op
  ret : Ret
  deriving DecidableEq, Repr

/-- The call that an event belongs to. -/
def Event.call : Event ι Op Ret → ι
  | .invoke c _ => c
  | .respond c _ _ => c

/-- The calls that have responded, in the order of their responses. -/
def completed (h : List (Event ι Op Ret)) : List (Entry ι Op Ret) :=
  h.filterMap fun
    | .invoke _ _ => none
    | .respond c op r => some ⟨c, op, r⟩

/-- Call `a` responded before call `b` was invoked. -/
def Precedes (h : List (Event ι Op Ret)) (a b : ι) : Prop :=
  ∃ h₁ h₂, h = h₁ ++ h₂ ∧ (∃ op r, .respond a op r ∈ h₁) ∧ ∃ op, .invoke b op ∈ h₂

/-- The entries, run one after another on the sequential object, lead from `s` to `t`. -/
inductive Legal (spec : σ → Op → Ret → σ → Prop) : σ → List (Entry ι Op Ret) → σ → Prop where
  | nil {s : σ} : Legal spec s [] s
  | cons {s t u : σ} {e : Entry ι Op Ret} {es : List (Entry ι Op Ret)} :
      spec s e.op e.ret t → Legal spec t es u → Legal spec s (e :: es) u

/-- `es` orders the calls of the history `h` as one sequential run from `s₀` to `s`. -/
structure Linearization (spec : σ → Op → Ret → σ → Prop) (s₀ : σ) (h : List (Event ι Op Ret))
    (es : List (Entry ι Op Ret)) (s : σ) : Prop where
  once : (es.map (·.call)).Nodup
  legal : Legal spec s₀ es s
  complete : ∀ e ∈ completed h, e ∈ es
  invoked : ∀ e ∈ es, .invoke e.call e.op ∈ h
  order : ∀ a b, Precedes h a b → b ∈ es.map (·.call) → [a, b].Sublist (es.map (·.call))

/-- Histories with their linearization points: `es` lists the committed calls in order, `s` is the
    state of the sequential object after them. -/
inductive Points (spec : σ → Op → Ret → σ → Prop) (s₀ : σ) :
    List (Event ι Op Ret) → List (Entry ι Op Ret) → σ → Prop where
  | init : Points spec s₀ [] [] s₀
  | invoke {h es s c op} : Points spec s₀ h es s → (∀ op', .invoke c op' ∉ h) →
      Points spec s₀ (h ++ [.invoke c op]) es s
  | commit {h es s t c op r} : Points spec s₀ h es s → .invoke c op ∈ h → c ∉ es.map (·.call) →
      spec s op r t → Points spec s₀ h (es ++ [⟨c, op, r⟩]) t
  | respond {h es s c op r} : Points spec s₀ h es s → ⟨c, op, r⟩ ∈ es → (∀ op' r', .respond c op' r' ∉ h) →
      Points spec s₀ (h ++ [.respond c op r]) es s

/-! ### Histories -/

@[simp] theorem completed_nil : completed ([] : List (Event ι Op Ret)) = [] := rfl

@[simp] theorem completed_concat_invoke (h : List (Event ι Op Ret)) (c : ι) (op : Op) :
    completed (h ++ [.invoke c op]) = completed h := by simp [completed]

@[simp] theorem completed_concat_respond (h : List (Event ι Op Ret)) (c : ι) (op : Op) (r : Ret) :
    completed (h ++ [.respond c op r]) = completed h ++ [⟨c, op, r⟩] := by simp [completed]

theorem mem_completed {h : List (Event ι Op Ret)} {e : Entry ι Op Ret} :
    e ∈ completed h ↔ .respond e.call e.op e.ret ∈ h := by
  simp only [completed, List.mem_filterMap]
  constructor
  · rintro ⟨ev, hev, he⟩
    cases ev with
    | invoke c op => cases he
    | respond c op r =>
      cases he
      exact hev
  · exact fun h => ⟨_, h, rfl⟩

/-- The last event of a history that starts no call is not the later half of an order between calls. -/
theorem Precedes.of_concat {h : List (Event ι Op Ret)} {ev : Event ι Op Ret} {a b : ι}
    (hp : Precedes (h ++ [ev]) a b) (hb : ∀ op, ev ≠ .invoke b op) : Precedes h a b := by
  obtain ⟨h₁, h₂, heq, ha, op, hop⟩ := hp
  rcases List.eq_nil_or_concat h₂ with rfl | ⟨h₂', ev', rfl⟩
  · cases hop
  · rw [List.concat_eq_append, ← List.append_assoc] at heq
    obtain ⟨rfl, hev⟩ := List.append_inj' heq rfl
    cases hev
    rw [List.concat_eq_append, List.mem_append, List.mem_singleton] at hop
    rcases hop with hop | hop
    · exact ⟨h₁, h₂', rfl, ha, op, hop⟩
    · exact absurd hop.symm (hb op)

theorem Precedes.append {h : List (Event ι Op Ret)} {a b : ι} (hp : Precedes h a b) (k : List (Event ι Op Ret)) :
    Precedes (h ++ k) a b := by
  obtain ⟨h₁, h₂, rfl, ha, op, hop⟩ := hp
  exact ⟨h₁, h₂ ++ k, List.append_assoc .., ha, op, List.mem_append_left _ hop⟩

theorem Legal.concat {spec : σ → Op → Ret → σ → Prop} {s t u : σ} {es : List (Entry ι Op Ret)}
    {e : Entry ι Op Ret} (h : Legal spec s es t) (he : spec t e.op e.ret u) : Legal spec s (es ++ [e]) u := by
  induction h with
  | nil => exact .cons he .nil
  | cons h₀ _ ih => exact .cons h₀ (ih he)

section Simulate
variable {τ : Type} {spec : σ → Op → Ret → σ → Prop} {spec' : τ → Op → Ret → τ → Prop} {R : σ → τ → Prop}

/-- A sequential run of one object is one of another that simulates it call by call. -/
theorem Legal.simulate (hsim : ∀ s s' op r t, R s s' → spec s op r t → ∃ t', R t t' ∧ spec' s' op r t') {s t : σ}
    {s' : τ} {es : List (Entry ι Op Ret)} (h : Legal spec s es t) (hR : R s s') :
    ∃ t', R t t' ∧ Legal spec' s' es t' := by
  induction h generalizing s' with
  | nil => exact ⟨s', hR, .nil⟩
  | cons he _ ih =>
    obtain ⟨u, hu, he'⟩ := hsim _ _ _ _ _ hR he
    obtain ⟨t', ht, hes⟩ := ih hu
    exact ⟨t', ht, .cons he' hes⟩

theorem Linearization.simulate (hsim : ∀ s s' op r t, R s s' → spec s op r t → ∃ t', R t t' ∧ spec' s' op r t')
    {s t : σ} {s' : τ} {h : List (Event ι Op Ret)} {es : List (Entry ι Op Ret)} (hl : Linearization spec s h es t)
    (hR : R s s') : ∃ t', R t t' ∧ Linearization spec' s' h es t' := by
  obtain ⟨t', ht, hes⟩ := hl.legal.simulate hsim hR
  exact ⟨t', ht, { hl with legal := hes }⟩

/-- What a sequential run did before one of its calls. -/
theorem Legal.split {s t : σ} {es₁ es₂ : List (Entry ι Op Ret)} {e : Entry ι Op Ret}
    (h : Legal spec s (es₁ ++ e :: es₂) t) : ∃ u v, Legal spec s es₁ u ∧ spec u e.op e.ret v := by
  induction es₁ generalizing s with
  | nil =>
    cases h with
    | cons he _ => exact ⟨s, _, .nil, he⟩
  | cons e' es₁ ih =>
    cases h with
    | cons he' hes =>
      obtain ⟨u, v, hu, hv⟩ := ih hes
      exact ⟨u, v, .cons he' hu, hv⟩

theorem Legal.exists_spec {s t : σ} {es : List (Entry ι Op Ret)} (h : Legal spec s es t) {e : Entry ι Op Ret}
    (he : e ∈ es) : ∃ u v, spec u e.op e.ret v := by
  obtain ⟨es₁, es₂, rfl⟩ := List.append_of_mem he
  obtain ⟨u, v, -, hspec⟩ := h.split
  exact ⟨u, v, hspec⟩

/-- Where each operation writes a part of the state or leaves it, the part is what the last write made it. -/
theorem Legal.last_write {β : Type} {part : σ → β} {writes : Op → Option β}
    (hwrites : ∀ s op r t, spec s op r t → part t = (writes op).getD (part s)) {s t : σ} {es : List (Entry ι Op Ret)}
    (h : Legal spec s es t) : part t = ((es.map (·.op)).reverse.findSome? writes).getD (part s) := by
  induction h with
  | nil => rfl
  | cons he _ ih =>
    rw [ih, hwrites _ _ _ _ he, List.map_cons, List.reverse_cons, List.findSome?_append]
    cases List.findSome? writes _ with
    | some value => rfl
    | none => rw [List.findSome?_singleton, Option.getD_none, Option.none_or]

end Simulate

/-- Two calls do not stand in both orders. -/
theorem sublist_asymm {l : List ι} (hl : l.Nodup) {a b : ι} (hab : [a, b].Sublist l) : ¬[b, a].Sublist l := by
  induction l with
  | nil => cases hab
  | cons x l ih =>
    obtain ⟨hx, hl⟩ := List.nodup_cons.mp hl
    intro hba
    cases hab with
    | cons _ hab =>
      cases hba with
      | cons _ hba => exact ih hl hab hba
      | cons_cons _ hba => exact hx (hab.subset (by simp))
    | cons_cons _ hab =>
      cases hba with
      | cons _ hba => exact hx (hba.subset (by simp))
      | cons_cons _ hba => exact hx (hab.subset (by simp))

/-! ### Linearization points -/

namespace Points
variable {spec : σ → Op → Ret → σ → Prop} {s₀ s : σ} {h : List (Event ι Op Ret)} {es : List (Entry ι Op Ret)}

theorem invoked (hp : Points spec s₀ h es s) : ∀ e ∈ es, .invoke e.call e.op ∈ h := by
  induction hp with
  | init => intro e he; cases he
  | invoke _ _ ih => exact fun e he => List.mem_append_left _ (ih e he)
  | commit _ hinv _ _ ih =>
    intro e he
    rcases List.mem_append.mp he with he | he
    · exact ih e he
    · obtain rfl := List.mem_singleton.mp he
      exact hinv
  | respond _ _ _ ih => exact fun e he => List.mem_append_left _ (ih e he)

theorem complete (hp : Points spec s₀ h es s) : ∀ e ∈ completed h, e ∈ es := by
  induction hp with
  | init => intro e he; cases he
  | invoke _ _ ih => simpa using ih
  | commit _ _ _ _ ih => exact fun e he => List.mem_append_left _ (ih e he)
  | respond _ hmem _ ih =>
    intro e he
    rw [completed_concat_respond] at he
    rcases List.mem_append.mp he with he | he
    · exact ih e he
    · obtain rfl := List.mem_singleton.mp he
      exact hmem

theorem once (hp : Points spec s₀ h es s) : (es.map (·.call)).Nodup := by
  induction hp with
  | init => exact List.nodup_nil
  | invoke _ _ ih => exact ih
  | commit _ _ hc _ ih =>
    rw [List.map_append]
    exact ih.append (List.nodup_singleton _) (by simpa using hc)
  | respond _ _ _ ih => exact ih

theorem legal (hp : Points spec s₀ h es s) : Legal spec s₀ es s := by
  induction hp with
  | init => exact .nil
  | invoke _ _ ih => exact ih
  | commit _ _ _ hs ih => exact ih.concat hs
  | respond _ _ _ ih => exact ih

/-- A call is committed after every call that responded before it was invoked: when it is committed,
    those calls have been. -/
theorem order (hp : Points spec s₀ h es s) :
    ∀ a b, Precedes h a b → b ∈ es.map (·.call) → [a, b].Sublist (es.map (·.call)) := by
  induction hp with
  | init => intro a b _ hb; cases hb
  | @invoke h es s c op hp hc ih =>
    intro a b hprec hb
    refine ih a b (hprec.of_concat fun op' heq => ?_) hb
    cases heq
    obtain ⟨e, he, rfl⟩ := List.mem_map.mp hb
    exact hc _ (hp.invoked e he)
  | @commit h es s t c op r hp _ _ _ ih =>
    intro a b hprec hb
    rw [List.map_append, List.mem_append] at hb
    rw [List.map_append]
    rcases hb with hb | hb
    · exact (ih a b hprec hb).trans (List.sublist_append_left _ _)
    · obtain rfl := List.mem_singleton.mp hb
      obtain ⟨h₁, h₂, rfl, ⟨op', r', ha⟩, -⟩ := hprec
      have hmem : ⟨a, op', r'⟩ ∈ es := hp.complete _ (mem_completed.mpr (List.mem_append_left _ ha))
      have hsub : [a].Sublist (es.map (·.call)) := List.singleton_sublist.mpr (List.mem_map.mpr ⟨_, hmem, rfl⟩)
      exact hsub.append (List.Sublist.refl [b])
  | respond _ _ _ ih => exact fun a b hprec hb => ih a b (hprec.of_concat fun _ heq => by cases heq) hb

/-- The committed calls linearize the history. -/
theorem linearization (hp : Points spec s₀ h es s) : Linearization spec s₀ h es s :=
  ⟨hp.once, hp.legal, hp.complete, hp.invoked, hp.order⟩

/-- No call responds twice. -/
theorem completed_nodup (hp : Points spec s₀ h es s) : ((completed h).map (·.call)).Nodup := by
  induction hp with
  | init => exact List.nodup_nil
  | invoke _ _ ih => simpa using ih
  | commit _ _ _ _ ih => exact ih
  | respond _ _ hnew ih =>
    rw [completed_concat_respond, List.map_append]
    refine ih.append (List.nodup_singleton _) ?_
    simp only [List.map_cons, List.map_nil, List.disjoint_singleton]
    intro hmem
    obtain ⟨e, he, rfl⟩ := List.mem_map.mp hmem
    exact hnew _ _ (mem_completed.mp he)

end Points

end Linearizability
