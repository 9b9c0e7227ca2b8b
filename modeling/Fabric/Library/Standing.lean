import Fabric.Library.Linearizability
import Mathlib.Logic.Function.Basic

/-! Linearization points call by call: a call is fresh, then pending, then committed, and then it has responded. A
    system that takes each of its calls through these in turn, one call with each of its steps, is linearizable. -/

namespace Linearizability

variable {σ ι Op Ret : Type}

/-- Where a call stands. -/
inductive Stand (Op Ret : Type) where
  | fresh
  | pending (op : Op)
  | committed (op : Op) (r : Ret)
  | responded

/-- A call that has been invoked and has yet to respond. -/
def Stand.inFlight : Stand Op Ret → Bool
  | .pending _ | .committed _ _ => true
  | .fresh | .responded => false

/-- What the history and the committed calls say of a call. -/
def Stand.Holds (h : List (Event ι Op Ret)) (es : List (Entry ι Op Ret)) (c : ι) : Stand Op Ret → Prop
  | .fresh => ∀ op, .invoke c op ∉ h
  | .pending op => .invoke c op ∈ h ∧ c ∉ es.map (·.call)
  | .committed op r => ⟨c, op, r⟩ ∈ es ∧ ∀ op' r', .respond c op' r' ∉ h
  | .responded => ∃ op r, .respond c op r ∈ h

/-- Another call goes on. -/
theorem Stand.Holds.frame {h k : List (Event ι Op Ret)} {es f : List (Entry ι Op Ret)} {c c' : ι}
    {stand : Stand Op Ret} (hne : c' ≠ c) (hk : ∀ ev ∈ k, ev.call = c) (hf : ∀ e ∈ f, e.call = c)
    (hstand : stand.Holds h es c') : stand.Holds (h ++ k) (es ++ f) c' := by
  have hnot : ∀ ev ∈ k, ev.call ≠ c' := fun ev hev heq => hne (heq ▸ hk ev hev)
  cases stand with
  | fresh =>
    intro op hmem
    rcases List.mem_append.mp hmem with hmem | hmem
    · exact hstand op hmem
    · exact hnot _ hmem rfl
  | pending op =>
    obtain ⟨hinvoked, hfresh⟩ := hstand
    refine ⟨List.mem_append_left _ hinvoked, fun hmem => ?_⟩
    rw [List.map_append, List.mem_append] at hmem
    rcases hmem with hmem | hmem
    · exact hfresh hmem
    · obtain ⟨e, he, heq⟩ := List.mem_map.mp hmem
      exact hne (heq ▸ hf e he)
  | committed op r =>
    obtain ⟨hmem, hsilent⟩ := hstand
    refine ⟨List.mem_append_left _ hmem, fun op' r' hresponded => ?_⟩
    rcases List.mem_append.mp hresponded with hresponded | hresponded
    · exact hsilent op' r' hresponded
    · exact hnot _ hresponded rfl
  | responded =>
    obtain ⟨op, r, hresponded⟩ := hstand
    exact ⟨op, r, List.mem_append_left _ hresponded⟩

/-- The calls of a history, each where it stands, with the sequential state that the committed ones lead to. -/
structure Standing (spec : σ → Op → Ret → σ → Prop) (s₀ : σ) (h : List (Event ι Op Ret)) (es : List (Entry ι Op Ret))
    (s : σ) (stand : ι → Stand Op Ret) : Prop where
  points : Points spec s₀ h es s
  holds : ∀ c, (stand c).Holds h es c

namespace Standing
variable {spec : σ → Op → Ret → σ → Prop} {s₀ s t : σ} {h : List (Event ι Op Ret)} {es : List (Entry ι Op Ret)}
  {stand : ι → Stand Op Ret} {c : ι} {op : Op} {r : Ret}

theorem init (spec : σ → Op → Ret → σ → Prop) (s₀ : σ) : Standing spec s₀ [] [] s₀ fun _ : ι => .fresh where
  points := .init
  holds _ _ hmem := by cases hmem

/-- A committed call was invoked. -/
theorem not_mem_of_fresh (hs : Standing spec s₀ h es s stand) (hc : ∀ op, .invoke c op ∉ h) : c ∉ es.map (·.call) := by
  intro hmem
  obtain ⟨e, he, rfl⟩ := List.mem_map.mp hmem
  exact hc _ (hs.points.invoked e he)

/-- A call that responded was committed. -/
theorem mem_of_respond (hs : Standing spec s₀ h es s stand) (hr : .respond c op r ∈ h) : ⟨c, op, r⟩ ∈ es :=
  hs.points.complete _ (mem_completed.mpr hr)

variable [DecidableEq ι]

theorem holds_update {k : List (Event ι Op Ret)} {f : List (Entry ι Op Ret)} {next : Stand Op Ret}
    (hs : Standing spec s₀ h es s stand) (hk : ∀ ev ∈ k, ev.call = c) (hf : ∀ e ∈ f, e.call = c)
    (hnext : next.Holds (h ++ k) (es ++ f) c) :
    ∀ c', (Function.update stand c next c').Holds (h ++ k) (es ++ f) c' := by
  intro c'
  by_cases hne : c' = c
  · subst hne
    rwa [Function.update_self]
  · rw [Function.update_of_ne hne]
    exact (hs.holds c').frame hne hk hf

theorem invoke (hs : Standing spec s₀ h es s stand) (hc : stand c = .fresh) (op : Op) :
    Standing spec s₀ (h ++ [.invoke c op]) es s (Function.update stand c (.pending op)) := by
  have hfresh : ∀ op, .invoke c op ∉ h := by
    have hstand := hs.holds c
    rwa [hc] at hstand
  have hnext : (Stand.pending op : Stand Op Ret).Holds (h ++ [.invoke c op]) (es ++ []) c :=
    ⟨by simp, by simpa using hs.not_mem_of_fresh hfresh⟩
  have hholds := hs.holds_update (by simp [Event.call]) (by simp) hnext
  rw [List.append_nil] at hholds
  exact ⟨hs.points.invoke hfresh, hholds⟩

theorem commit (hs : Standing spec s₀ h es s stand) (hc : stand c = .pending op) (hspec : spec s op r t) :
    Standing spec s₀ h (es ++ [⟨c, op, r⟩]) t (Function.update stand c (.committed op r)) := by
  have hstand := hs.holds c
  rw [hc] at hstand
  obtain ⟨hinvoked, hfresh⟩ := hstand
  have hsilent : ∀ op' r', .respond c op' r' ∉ h := by
    intro op' r' hr
    exact hfresh (List.mem_map_of_mem (f := Entry.call) (hs.mem_of_respond hr))
  have hnext : (Stand.committed op r).Holds (h ++ []) (es ++ [⟨c, op, r⟩]) c := ⟨by simp, by simpa using hsilent⟩
  have hholds := hs.holds_update (by simp) (by simp) hnext
  rw [List.append_nil] at hholds
  exact ⟨hs.points.commit hinvoked hfresh hspec, hholds⟩

theorem respond (hs : Standing spec s₀ h es s stand) (hc : stand c = .committed op r) :
    Standing spec s₀ (h ++ [.respond c op r]) es s (Function.update stand c .responded) := by
  have hstand := hs.holds c
  rw [hc] at hstand
  obtain ⟨hmem, hsilent⟩ := hstand
  have hnext : (Stand.responded : Stand Op Ret).Holds (h ++ [.respond c op r]) (es ++ []) c := ⟨op, r, by simp⟩
  have hholds := hs.holds_update (by simp [Event.call]) (by simp) hnext
  rw [List.append_nil] at hholds
  exact ⟨hs.points.respond hmem hsilent, hholds⟩

omit [DecidableEq ι] in
/-- With no call in flight, the committed calls are those that responded. -/
theorem perm_completed (hs : Standing spec s₀ h es s stand) (hstill : ∀ c, (stand c).inFlight = false) :
    es.Perm (completed h) := by
  refine (List.perm_ext_iff_of_nodup ?_ ?_).mpr fun e => ⟨fun he => ?_, hs.points.complete e⟩
  · exact List.Nodup.of_map _ hs.points.once
  · exact List.Nodup.of_map _ hs.points.completed_nodup
  · have hstand := hs.holds e.call
    have hrest := hstill e.call
    cases hc : stand e.call with
    | fresh =>
      rw [hc] at hstand
      exact absurd (hs.points.invoked e he) (hstand e.op)
    | pending op => simp [hc, Stand.inFlight] at hrest
    | committed op r => simp [hc, Stand.inFlight] at hrest
    | responded =>
      rw [hc] at hstand
      obtain ⟨op, r, hr⟩ := hstand
      have heq := List.inj_on_of_nodup_map hs.points.once (hs.mem_of_respond hr) he rfl
      rw [← heq]
      exact mem_completed.mpr hr

end Standing

end Linearizability
