import Fabric.Library.Transition
import Fabric.Library.Linearizability

/-! Objects whose calls each run one critical section under a single lock, with lock poisoning.

    A call waits for the lock, goes through its section one access at a time, releases the lock and
    returns; calls interleave at each of these steps. A section that panics poisons the lock, and a
    call that then takes the lock runs no section. The object is linearizable to the sequential one
    that runs whole sections, no call is blocked for ever, and each call takes a bounded number of steps. -/

namespace Locked
open Transition Linearizability

variable {σ ι Op Ret α : Type}

/-- A critical section: the accesses that a call makes to the guarded value. -/
inductive Body (σ α : Type) where
  | done (result : α)
  | panic
  | read (next : σ → Body σ α)
  | update (f : σ → σ) (next : Body σ α)

/-- How a call ends. -/
inductive Outcome (α : Type) where
  | returned (result : α)
  | panicked
  deriving DecidableEq, Repr

/-- A value with the poison flag of its lock. -/
structure Guarded (σ : Type) where
  value : σ
  poisoned : Bool
  deriving DecidableEq, Repr

/-- The whole of a section. -/
def Body.run : Body σ α → σ → Outcome α × Guarded σ
  | .done a, v => (.returned a, ⟨v, false⟩)
  | .panic, v => (.panicked, ⟨v, true⟩)
  | .read next, v => (next v).run v
  | .update f next, v => next.run (f v)

/-- How many accesses a section makes at `v`. -/
def Body.accesses : Body σ α → σ → Nat
  | .done _, _ | .panic, _ => 0
  | .read next, v => (next v).accesses v + 1
  | .update f next, v => next.accesses (f v) + 1

structure Object (σ Op Ret : Type) where
  body : Op → Body σ Ret
  /-- How a call ends that finds the lock poisoned. -/
  onPoison : Op → Outcome Ret

/-- A call of the sequential object. -/
def Object.call (object : Object σ Op Ret) (guarded : Guarded σ) (op : Op) : Outcome Ret × Guarded σ :=
  if guarded.poisoned then (object.onPoison op, guarded) else (object.body op).run guarded.value

def Object.Spec (object : Object σ Op Ret) (g : Guarded σ) (op : Op) (r : Outcome Ret) (g' : Guarded σ) : Prop :=
  object.call g op = (r, g')

/-- What a call does next. -/
inductive Pc (σ Op Ret : Type) where
  | idle
  | locking (op : Op)
  /-- In its section, which has `rest` to go. -/
  | inside (op : Op) (rest : Body σ Ret)
  | unlocking (op : Op) (outcome : Outcome Ret)
  | returning (op : Op) (outcome : Outcome Ret)
  | returned (op : Op) (outcome : Outcome Ret)

/-- The object with the calls on it. `history` is read by no step. -/
structure State (σ ι Op Ret : Type) where
  guarded : Guarded σ
  holder : Option ι
  calls : ι → Pc σ Op Ret
  history : List (Event ι Op (Outcome Ret))

/-- A new object, before any call. -/
def State.init (value : σ) : State σ ι Op Ret where
  guarded := ⟨value, false⟩
  holder := none
  calls _ := .idle
  history := []

inductive Action (ι Op : Type) where
  | invoke (c : ι) (op : Op)
  | advance (c : ι)
  deriving DecidableEq, Repr

section Step
variable [DecidableEq ι]

def State.setCall (s : State σ ι Op Ret) (c : ι) (pc : Pc σ Op Ret) : State σ ι Op Ret :=
  { s with calls := Function.update s.calls c pc }

variable (object : Object σ Op Ret)

/-- One step of call `c`. -/
def State.advance (s : State σ ι Op Ret) (c : ι) : Option (State σ ι Op Ret) :=
  match s.calls c with
  | .idle => none
  | .locking op =>
    match s.holder with
    | some _ => none
    | none =>
      if s.guarded.poisoned then some ({ s with holder := some c }.setCall c (.unlocking op (object.onPoison op)))
      else some ({ s with holder := some c }.setCall c (.inside op (object.body op)))
  | .inside op (.done a) => some (s.setCall c (.unlocking op (.returned a)))
  | .inside op .panic =>
    some ({ s with guarded := ⟨s.guarded.value, true⟩ }.setCall c (.unlocking op .panicked))
  | .inside op (.read next) => some (s.setCall c (.inside op (next s.guarded.value)))
  | .inside op (.update f next) =>
    some ({ s with guarded := ⟨f s.guarded.value, s.guarded.poisoned⟩ }.setCall c (.inside op next))
  | .unlocking op outcome => some ({ s with holder := none }.setCall c (.returning op outcome))
  | .returning op outcome =>
    some { s.setCall c (.returned op outcome) with history := s.history ++ [.respond c op outcome] }
  | .returned _ _ => none

def step (s : State σ ι Op Ret) : Action ι Op → Option (State σ ι Op Ret)
  | .invoke c op =>
    match s.calls c with
    | .idle => some { s.setCall c (.locking op) with history := s.history ++ [.invoke c op] }
    | _ => none
  | .advance c => s.advance object c

end Step

/-! ### The invariant -/

def Pc.holds : Pc σ Op Ret → Bool
  | .inside _ _ | .unlocking _ _ => true
  | _ => false

/-- A call that has been invoked and has yet to return. -/
def Pc.inFlight : Pc σ Op Ret → Bool
  | .idle | .returned _ _ => false
  | _ => true

/-- The operation of a call. -/
def Pc.op : Pc σ Op Ret → Option Op
  | .idle => none
  | .locking op | .inside op _ | .unlocking op _ | .returning op _ | .returned op _ => some op

/-- A call stays where it stands, or it is in flight and goes on with its operation. -/
def Pc.Moves (pc pc' : Pc σ Op Ret) : Prop := pc' = pc ∨ pc.inFlight = true ∧ pc'.op = pc.op

namespace Pc.Moves
variable {pc pc' : Pc σ Op Ret}

theorem idle (h : pc.Moves pc') (hpc : pc = .idle) : pc' = .idle := by
  rcases h with rfl | ⟨hflight, -⟩
  · exact hpc
  · rw [hpc] at hflight
    cases hflight

theorem returned {op : Op} {r : Outcome Ret} (h : pc.Moves pc') (hpc : pc = .returned op r) :
    pc' = .returned op r := by
  rcases h with rfl | ⟨hflight, -⟩
  · exact hpc
  · rw [hpc] at hflight
    cases hflight

theorem op {op : Op} (h : pc.Moves pc') (hpc : pc.op = some op) : pc'.op = some op := by
  rcases h with rfl | ⟨-, heq⟩
  · exact hpc
  · exact heq.trans hpc

end Pc.Moves

/-- What the object comes to once the section that is open, if one is, has run to its end. -/
def State.settled (s : State σ ι Op Ret) : Guarded σ :=
  match s.holder with
  | none => s.guarded
  | some c =>
    match s.calls c with
    | .inside _ rest => (rest.run s.guarded.value).2
    | _ => s.guarded

/-- Call `c` has been invoked with `op`, and has yet to take the lock. -/
structure Pending (h : List (Event ι Op Ret)) (es : List (Entry ι Op Ret)) (c : ι) (op : Op) : Prop where
  invoked : .invoke c op ∈ h
  fresh : c ∉ es.map (·.call)
  silent : ∀ op' r', .respond c op' r' ∉ h

/-- Call `c` has taken the lock, which decides its result `r`, and has yet to return it. -/
structure Committed (h : List (Event ι Op Ret)) (es : List (Entry ι Op Ret)) (c : ι) (op : Op) (r : Ret) : Prop where
  mem : ⟨c, op, r⟩ ∈ es
  silent : ∀ op' r', .respond c op' r' ∉ h

/-- What the history and the committed calls say of a call that stands at `pc` while the guarded value is `v`. -/
def CallInv (h : List (Event ι Op (Outcome Ret))) (es : List (Entry ι Op (Outcome Ret))) (v : σ) (c : ι) :
    Pc σ Op Ret → Prop
  | .idle => ∀ op, .invoke c op ∉ h
  | .locking op => Pending h es c op
  | .inside op rest => Committed h es c op (rest.run v).1
  | .unlocking op r | .returning op r => Committed h es c op r
  | .returned op r => .respond c op r ∈ h ∧ ⟨c, op, r⟩ ∈ es

/-- `es` are the calls that have taken the lock, in that order. -/
structure Inv (object : Object σ Op Ret) (g₀ : Guarded σ) (s : State σ ι Op Ret)
    (es : List (Entry ι Op (Outcome Ret))) : Prop where
  points : Points object.Spec g₀ s.history es s.settled
  calls : ∀ c, CallInv s.history es s.guarded.value c (s.calls c)
  holder : ∀ c, (s.calls c).holds = true ↔ s.holder = some c
  sound : ∀ c op rest, s.calls c = .inside op rest → s.guarded.poisoned = false

section Frame
variable {h k : List (Event ι Op (Outcome Ret))} {es f : List (Entry ι Op (Outcome Ret))} {c c' : ι}

theorem Pending.frame {op : Op} (hc : c' ≠ c) (hk : ∀ ev ∈ k, ev.call = c) (hf : ∀ e ∈ f, e.call = c)
    (hp : Pending h es c' op) : Pending (h ++ k) (es ++ f) c' op where
  invoked := List.mem_append_left _ hp.invoked
  fresh hmem := by
    rw [List.map_append, List.mem_append] at hmem
    rcases hmem with hmem | hmem
    · exact hp.fresh hmem
    · obtain ⟨e, he, heq⟩ := List.mem_map.mp hmem
      exact hc (heq.symm.trans (hf e he))
  silent op' r' hmem := by
    rcases List.mem_append.mp hmem with hmem | hmem
    · exact hp.silent op' r' hmem
    · exact hc (hk _ hmem)

theorem Committed.frame {op : Op} {r : Outcome Ret} (hc : c' ≠ c) (hk : ∀ ev ∈ k, ev.call = c)
    (hp : Committed h es c' op r) : Committed (h ++ k) (es ++ f) c' op r where
  mem := List.mem_append_left _ hp.mem
  silent op' r' hmem := by
    rcases List.mem_append.mp hmem with hmem | hmem
    · exact hp.silent op' r' hmem
    · exact hc (hk _ hmem)

/-- A step of call `c` keeps what holds of another call, as long as it leaves the value of an open section alone. -/
theorem CallInv.frame {pc : Pc σ Op Ret} {v w : σ} (hc : c' ≠ c) (hk : ∀ ev ∈ k, ev.call = c)
    (hf : ∀ e ∈ f, e.call = c) (hv : pc.holds = true → w = v) (hi : CallInv h es v c' pc) :
    CallInv (h ++ k) (es ++ f) w c' pc := by
  cases pc with
  | idle =>
    intro op hmem
    rcases List.mem_append.mp hmem with hmem | hmem
    · exact hi op hmem
    · exact hc (hk _ hmem)
  | locking op => exact Pending.frame hc hk hf hi
  | inside op rest =>
    rw [hv rfl]
    exact Committed.frame hc hk hi
  | unlocking op r => exact Committed.frame hc hk hi
  | returning op r => exact Committed.frame hc hk hi
  | returned op r => exact ⟨List.mem_append_left _ hi.1, List.mem_append_left _ hi.2⟩

variable [DecidableEq ι] {object : Object σ Op Ret} {g₀ : Guarded σ} {s t : State σ ι Op Ret} {p : Pc σ Op Ret}

/-- A step of call `c` keeps the invariant if it does so for `c`: it touches the guarded value only while `c`
    holds the lock, and takes or releases the lock for `c` alone. -/
theorem Inv.frame (hi : Inv object g₀ s es) (hcalls : t.calls = Function.update s.calls c p)
    (hhist : t.history = s.history ++ k) (hk : ∀ ev ∈ k, ev.call = c) (hf : ∀ e ∈ f, e.call = c)
    (hguarded : t.guarded = s.guarded ∨ s.holder = some c)
    (hother : ∀ c', c' ≠ c → (t.holder = some c' ↔ s.holder = some c')) (hholder : p.holds = true ↔ t.holder = some c)
    (hsound : ∀ op rest, p = .inside op rest → t.guarded.poisoned = false)
    (hpc : CallInv t.history (es ++ f) t.guarded.value c p)
    (hpoints : Points object.Spec g₀ t.history (es ++ f) t.settled) : Inv object g₀ t (es ++ f) := by
  have hsame : ∀ c', c' ≠ c → (s.calls c').holds = true → t.guarded = s.guarded := by
    intro c' hc hholds
    rcases hguarded with hguarded | hown
    · exact hguarded
    · exact absurd (Option.some.inj (((hi.holder c').mp hholds).symm.trans hown)) hc
  have hself : t.calls c = p := by rw [hcalls, Function.update_self]
  have hrest : ∀ c', c' ≠ c → t.calls c' = s.calls c' := fun c' hc => by rw [hcalls, Function.update_of_ne hc]
  refine ⟨hpoints, fun c' => ?_, fun c' => ?_, fun c' op rest hinside => ?_⟩
  · rcases eq_or_ne c' c with rfl | hc
    · rw [hself]
      exact hpc
    · rw [hrest c' hc, hhist]
      exact (hi.calls c').frame hc hk hf fun hholds => by rw [hsame c' hc hholds]
  · rcases eq_or_ne c' c with rfl | hc
    · rw [hself]
      exact hholder
    · rw [hrest c' hc, hi.holder c', hother c' hc]
  · rcases eq_or_ne c' c with rfl | hc
    · exact hsound op rest (hself ▸ hinside)
    · rw [hrest c' hc] at hinside
      rw [hsame c' hc (by rw [hinside]; rfl)]
      exact hi.sound c' op rest hinside

end Frame

/-! ### Steps -/

section Steps
variable {object : Object σ Op Ret} {g₀ : Guarded σ} {s t : State σ ι Op Ret}
  {es : List (Entry ι Op (Outcome Ret))} {c : ι} {op : Op}

theorem call_of_poisoned {g : Guarded σ} (h : g.poisoned = true) : object.call g op = (object.onPoison op, g) := by
  rw [Object.call, if_pos h]

theorem call_of_sound {g : Guarded σ} (h : g.poisoned = false) : object.call g op = (object.body op).run g.value := by
  rw [Object.call, h]
  rfl

theorem settled_of_none (h : s.holder = none) : s.settled = s.guarded := by rw [State.settled, h]

theorem settled_of_inside {rest : Body σ Ret} (h : s.holder = some c) (hc : s.calls c = .inside op rest) :
    s.settled = (rest.run s.guarded.value).2 := by
  simp only [State.settled, h, hc]

theorem settled_of_unlocking {r : Outcome Ret} (h : s.holder = some c) (hc : s.calls c = .unlocking op r) :
    s.settled = s.guarded := by
  simp only [State.settled, h, hc]

theorem Inv.init (v : σ) : Inv object ⟨v, false⟩ (.init v : State σ ι Op Ret) [] where
  points := .init
  calls _ _ hmem := by cases hmem
  holder _ := by simp [State.init, Pc.holds]
  sound _ _ _ h := by cases h

variable [DecidableEq ι]

@[simp] theorem setCall_guarded (s : State σ ι Op Ret) (c : ι) (pc : Pc σ Op Ret) :
    (s.setCall c pc).guarded = s.guarded := rfl
@[simp] theorem setCall_holder (s : State σ ι Op Ret) (c : ι) (pc : Pc σ Op Ret) :
    (s.setCall c pc).holder = s.holder := rfl
@[simp] theorem setCall_history (s : State σ ι Op Ret) (c : ι) (pc : Pc σ Op Ret) :
    (s.setCall c pc).history = s.history := rfl
@[simp] theorem setCall_calls (s : State σ ι Op Ret) (c : ι) (pc : Pc σ Op Ret) :
    (s.setCall c pc).calls = Function.update s.calls c pc := rfl

theorem settled_setCall_inside {rest : Body σ Ret} (h : s.holder = some c) :
    (s.setCall c (.inside op rest)).settled = (rest.run s.guarded.value).2 :=
  settled_of_inside h (Function.update_self ..)

theorem settled_setCall_unlocking {r : Outcome Ret} (h : s.holder = some c) :
    (s.setCall c (.unlocking op r)).settled = s.guarded :=
  settled_of_unlocking h (Function.update_self ..)

/-- Taking the lock decides how the call ends. -/
theorem Inv.lock {pc : Pc σ Op Ret} {r : Outcome Ret} (hi : Inv object g₀ s es) (hp : Pending s.history es c op)
    (hfree : s.holder = none) (hholds : pc.holds = true)
    (hsound : ∀ op rest, pc = .inside op rest → s.guarded.poisoned = false)
    (hspec : object.Spec s.guarded op r ({ s with holder := some c }.setCall c pc).settled)
    (hpc : ∀ h, Committed h (es ++ [⟨c, op, r⟩]) c op r → CallInv h (es ++ [⟨c, op, r⟩]) s.guarded.value c pc) :
    Inv object g₀ ({ s with holder := some c }.setCall c pc) (es ++ [⟨c, op, r⟩]) := by
  have hpoints : Points object.Spec g₀ s.history es s.guarded := settled_of_none hfree ▸ hi.points
  have hcommitted : Committed s.history (es ++ [⟨c, op, r⟩]) c op r := ⟨by simp, hp.silent⟩
  refine hi.frame (k := []) (c := c) rfl (by simp) (by simp) (by simp) (.inl rfl) (fun c' hne => ?_) ?_ hsound ?_ ?_
  · simp [hfree, hne.symm]
  · simp [hholds]
  · exact hpc _ hcommitted
  · exact hpoints.commit hp.invoked hp.fresh hspec

theorem Inv.locking (hi : Inv object g₀ s es) (hc : s.calls c = .locking op) (hfree : s.holder = none)
    (hs : s.advance object c = some t) : ∃ f, Inv object g₀ t (es ++ f) := by
  have hp : Pending s.history es c op := by simpa only [hc, CallInv] using hi.calls c
  simp only [State.advance, hc, hfree] at hs
  split at hs
  · rename_i hpoisoned
    obtain rfl := Option.some.inj hs
    refine ⟨_, hi.lock (r := object.onPoison op) hp hfree rfl (fun _ _ h => by cases h) ?_ fun _ h => h⟩
    rw [settled_setCall_unlocking rfl]
    exact call_of_poisoned hpoisoned
  · rename_i hsound
    obtain rfl := Option.some.inj hs
    rw [Bool.not_eq_true] at hsound
    refine ⟨_, hi.lock hp hfree rfl (fun _ _ _ => hsound) ?_ fun _ h => h⟩
    rw [settled_setCall_inside rfl]
    exact call_of_sound hsound

/-- An access keeps what the rest of its section comes to. -/
theorem Inv.access {rest : Body σ Ret} {v : σ} {pc : Pc σ Op Ret} {b : Bool} (hi : Inv object g₀ s es)
    (hc : s.calls c = .inside op rest) (hholds : pc.holds = true) (hsound : ∀ op rest, pc = .inside op rest → b = false)
    (hpc : ∀ h, CallInv h es s.guarded.value c (.inside op rest) → CallInv h es v c pc)
    (hsettled : ({ s with guarded := ⟨v, b⟩ }.setCall c pc).settled = (rest.run s.guarded.value).2) :
    Inv object g₀ ({ s with guarded := ⟨v, b⟩ }.setCall c pc) es := by
  have hholder : s.holder = some c := (hi.holder c).mp (by rw [hc]; rfl)
  have hcall : CallInv s.history es s.guarded.value c (.inside op rest) := hc ▸ hi.calls c
  have h := hi.frame (t := { s with guarded := ⟨v, b⟩ }.setCall c pc) (k := []) (f := []) (c := c) rfl (by simp)
    (by simp) (by simp) (.inr hholder) (fun c' _ => Iff.rfl) (by simp [hholds, hholder]) hsound
    (by simpa using hpc _ hcall) (by rw [hsettled, ← settled_of_inside hholder hc]; simpa using hi.points)
  simpa using h

theorem Inv.inside {rest : Body σ Ret} (hi : Inv object g₀ s es) (hc : s.calls c = .inside op rest)
    (hs : s.advance object c = some t) : Inv object g₀ t es := by
  have hholder : s.holder = some c := (hi.holder c).mp (by rw [hc]; rfl)
  have hsound : s.guarded.poisoned = false := hi.sound c op rest hc
  have hguarded : s.guarded = ⟨s.guarded.value, false⟩ := by rw [← hsound]
  cases rest with
  | done a =>
    simp only [State.advance, hc, Option.some.injEq] at hs
    subst hs
    refine hi.access (b := s.guarded.poisoned) hc rfl (fun _ _ h => by cases h) (fun _ h => h) ?_
    exact (settled_setCall_unlocking hholder).trans hguarded
  | panic =>
    simp only [State.advance, hc, Option.some.injEq] at hs
    subst hs
    refine hi.access hc rfl (fun _ _ h => by cases h) (fun _ h => h) ?_
    exact settled_setCall_unlocking (s := { s with guarded := ⟨s.guarded.value, true⟩ }) hholder
  | read next =>
    simp only [State.advance, hc, Option.some.injEq] at hs
    subst hs
    refine hi.access (b := s.guarded.poisoned) hc rfl (fun _ _ _ => hsound) (fun _ h => h) ?_
    exact settled_setCall_inside hholder
  | update f next =>
    simp only [State.advance, hc, Option.some.injEq] at hs
    subst hs
    refine hi.access hc rfl (fun _ _ _ => hsound) (fun _ h => h) ?_
    exact settled_setCall_inside (s := { s with guarded := ⟨f s.guarded.value, s.guarded.poisoned⟩ }) hholder

theorem Inv.unlock {r : Outcome Ret} (hi : Inv object g₀ s es) (hc : s.calls c = .unlocking op r)
    (hs : s.advance object c = some t) : Inv object g₀ t es := by
  have hholder : s.holder = some c := (hi.holder c).mp (by rw [hc]; rfl)
  have hcall : Committed s.history es c op r := by simpa only [hc, CallInv] using hi.calls c
  simp only [State.advance, hc, Option.some.injEq] at hs
  subst hs
  have h := hi.frame (t := { s with holder := none }.setCall c (.returning op r)) (k := []) (f := []) (c := c) rfl
    (by simp) (by simp) (by simp) (.inl rfl) (fun c' hne => by simp [hholder, hne.symm]) (by simp [Pc.holds])
    (fun _ _ h => by cases h) (by simpa [CallInv] using hcall)
    (by rw [settled_of_none rfl]; simpa [settled_of_unlocking hholder hc] using hi.points)
  simpa using h

/-- What the object settles to is not touched by a call that does not hold the lock. -/
theorem settled_of_not_holds {p : Pc σ Op Ret} (hi : Inv object g₀ s es) (hc : (s.calls c).holds = false)
    (hguarded : t.guarded = s.guarded) (hholder : t.holder = s.holder)
    (hcalls : t.calls = Function.update s.calls c p) : t.settled = s.settled := by
  unfold State.settled
  rw [hholder, hguarded, hcalls]
  cases hs : s.holder with
  | none => rfl
  | some c' =>
    have hne : c' ≠ c := by
      intro heq
      rw [(hi.holder c).mpr (heq ▸ hs)] at hc
      cases hc
    simp only [Function.update_of_ne hne]

theorem Inv.respond {r : Outcome Ret} (hi : Inv object g₀ s es) (hc : s.calls c = .returning op r)
    (hs : s.advance object c = some t) : Inv object g₀ t es := by
  have hcall : Committed s.history es c op r := by simpa only [hc, CallInv] using hi.calls c
  have hnot : (s.calls c).holds = false := by rw [hc]; rfl
  simp only [State.advance, hc, Option.some.injEq] at hs
  have hsettled : t.settled = s.settled :=
    settled_of_not_holds (p := .returned op r) hi hnot (by subst hs; rfl) (by subst hs; rfl) (by subst hs; rfl)
  have h := hi.frame (t := t) (p := .returned op r) (k := [.respond c op r]) (f := []) (c := c) (by subst hs; rfl)
    (by subst hs; rfl) (by simp [Event.call]) (by simp) (.inl (by subst hs; rfl))
    (fun c' _ => by subst hs; rfl) (by subst hs; simpa [Pc.holds, hnot] using (hi.holder c).not.mp (by simp [hnot]))
    (fun _ _ h => by cases h) (by subst hs; simpa [CallInv] using hcall.mem)
    (by rw [hsettled]; subst hs; simpa using hi.points.respond hcall.mem hcall.silent)
  simpa using h

theorem Inv.advance (hi : Inv object g₀ s es) (hs : s.advance object c = some t) :
    ∃ f, Inv object g₀ t (es ++ f) := by
  cases hc : s.calls c with
  | idle => simp [State.advance, hc] at hs
  | locking op =>
    cases hfree : s.holder with
    | none => exact hi.locking hc hfree hs
    | some c' => simp [State.advance, hc, hfree] at hs
  | inside op rest => exact ⟨[], by simpa using hi.inside hc hs⟩
  | unlocking op r => exact ⟨[], by simpa using hi.unlock hc hs⟩
  | returning op r => exact ⟨[], by simpa using hi.respond hc hs⟩
  | returned op r => simp [State.advance, hc] at hs

theorem advance_calls_of_ne {c' : ι} (hne : c ≠ c') (hs : s.advance object c' = some t) : t.calls c = s.calls c := by
  unfold State.advance at hs
  repeat' split at hs
  all_goals cases hs
  all_goals simp [hne]

theorem advance_moves (hs : s.advance object c = some t) (c' : ι) : (s.calls c').Moves (t.calls c') := by
  rcases eq_or_ne c' c with rfl | hne
  · refine .inr ?_
    cases hpc : s.calls c' with
    | idle => simp [State.advance, hpc] at hs
    | returned op r => simp [State.advance, hpc] at hs
    | locking op =>
      simp only [State.advance, hpc] at hs
      repeat' split at hs
      all_goals cases hs
      all_goals simp [Pc.inFlight, Pc.op]
    | inside op rest =>
      cases rest
      all_goals
        simp only [State.advance, hpc, Option.some.injEq] at hs
        subst hs
        simp [Pc.inFlight, Pc.op]
    | unlocking op r =>
      simp only [State.advance, hpc, Option.some.injEq] at hs
      subst hs
      simp [Pc.inFlight, Pc.op]
    | returning op r =>
      simp only [State.advance, hpc, Option.some.injEq] at hs
      subst hs
      simp [Pc.inFlight, Pc.op]
  · exact .inl (advance_calls_of_ne hne hs)

theorem step_invoke (hs : step object s (.invoke c op) = some t) :
    s.calls c = .idle ∧ (t.calls c).op = some op ∧ ∀ c', c' ≠ c → t.calls c' = s.calls c' := by
  simp only [step] at hs
  split at hs
  · rename_i hidle
    obtain rfl := Option.some.inj hs
    exact ⟨hidle, by simp [Pc.op], fun c' hne => by simp [hne]⟩
  · cases hs

/-- What a call in flight adds to the history is its response. -/
theorem advance_history (hs : s.advance object c = some t) :
    ∃ k, t.history = s.history ++ k ∧ ∀ ev ∈ k, ∃ op r, ev = .respond c op r := by
  have hnone : t.history = s.history → ∃ k, t.history = s.history ++ k ∧ ∀ ev ∈ k, ∃ op r, ev = .respond c op r :=
    fun h => ⟨[], by simpa using h, by simp⟩
  unfold State.advance at hs
  repeat' split at hs
  all_goals cases hs
  all_goals first
    | exact hnone rfl
    | exact ⟨[.respond c _ _], rfl, by simp⟩

/-- A call that does not hold the lock leaves the guarded value alone. -/
theorem advance_guarded (hc : (s.calls c).holds = false) (hs : s.advance object c = some t) :
    t.guarded = s.guarded := by
  cases hpc : s.calls c with
  | inside op rest => simp [hpc, Pc.holds] at hc
  | unlocking op r => simp [hpc, Pc.holds] at hc
  | idle => simp [State.advance, hpc] at hs
  | returned op r => simp [State.advance, hpc] at hs
  | returning op r =>
    simp only [State.advance, hpc, Option.some.injEq] at hs
    subst hs
    rfl
  | locking op =>
    simp only [State.advance, hpc] at hs
    repeat' split at hs
    all_goals cases hs
    all_goals rfl

theorem Inv.invoke (hi : Inv object g₀ s es) (hidle : s.calls c = .idle) :
    Inv object g₀ { s.setCall c (.locking op) with history := s.history ++ [.invoke c op] } es := by
  have hc : ∀ op, .invoke c op ∉ s.history := by simpa only [hidle, CallInv] using hi.calls c
  have hfresh : c ∉ es.map (·.call) := by
    intro hmem
    obtain ⟨e, he, rfl⟩ := List.mem_map.mp hmem
    exact hc _ (hi.points.invoked e he)
  have hsilent : ∀ op' r', .respond c op' r' ∉ s.history := by
    intro op' r' hmem
    exact hfresh (List.mem_map.mpr ⟨⟨c, op', r'⟩, hi.points.complete _ (mem_completed.mpr hmem), rfl⟩)
  have hnot : (s.calls c).holds = false := by rw [hidle]; rfl
  have hsettled : State.settled { s.setCall c (.locking op) with history := s.history ++ [.invoke c op] } = s.settled :=
    settled_of_not_holds (p := .locking op) hi hnot rfl rfl rfl
  have h := hi.frame (t := { s.setCall c (.locking op) with history := s.history ++ [.invoke c op] })
    (k := [.invoke c op]) (f := []) (c := c) rfl rfl (by simp [Event.call]) (by simp) (.inl rfl) (fun c' _ => Iff.rfl)
    (by simpa [Pc.holds, hnot] using (hi.holder c).not.mp (by simp [hnot])) (fun _ _ h => by cases h)
    (by simpa [CallInv] using (⟨by simp, hfresh, by simpa using hsilent⟩ : Pending _ es c op))
    (by rw [hsettled]; simpa using hi.points.invoke hc)
  simpa using h

theorem Inv.kept {a : Action ι Op} (hi : Inv object g₀ s es) (hs : step object s a = some t) :
    ∃ f, Inv object g₀ t (es ++ f) := by
  cases a with
  | invoke c op =>
    simp only [step] at hs
    split at hs
    · rename_i hidle
      obtain rfl := Option.some.inj hs
      exact ⟨[], by simpa using hi.invoke hidle⟩
    · cases hs
  | advance c => exact hi.advance hs

end Steps

/-! ### Whole runs -/

section Runs
variable {object : Object σ Op Ret} {g₀ : Guarded σ} {s t : State σ ι Op Ret}
  {es : List (Entry ι Op (Outcome Ret))}

/-- At most one call is in its section. -/
theorem Inv.exclusive (hi : Inv object g₀ s es) {c c' : ι} (hc : (s.calls c).holds = true)
    (hc' : (s.calls c').holds = true) : c = c' :=
  Option.some.inj (((hi.holder c).mp hc).symm.trans ((hi.holder c').mp hc'))

/-- A call that has responded has returned. -/
theorem Inv.respond_iff (hi : Inv object g₀ s es) {c : ι} {op : Op} {r : Outcome Ret} :
    .respond c op r ∈ s.history ↔ s.calls c = .returned op r := by
  have hcall := hi.calls c
  refine ⟨fun hr => ?_, fun hc => ?_⟩
  · have hmem : ⟨c, op, r⟩ ∈ es := hi.points.complete _ (mem_completed.mpr hr)
    cases hc : s.calls c with
    | idle =>
      simp only [hc, CallInv] at hcall
      exact absurd (hi.points.invoked _ hmem) (hcall op)
    | locking op' =>
      simp only [hc, CallInv] at hcall
      exact absurd hr (hcall.silent op r)
    | inside op' rest =>
      simp only [hc, CallInv] at hcall
      exact absurd hr (hcall.silent op r)
    | unlocking op' r' =>
      simp only [hc, CallInv] at hcall
      exact absurd hr (hcall.silent op r)
    | returning op' r' =>
      simp only [hc, CallInv] at hcall
      exact absurd hr (hcall.silent op r)
    | returned op' r' =>
      simp only [hc, CallInv] at hcall
      cases List.inj_on_of_nodup_map hi.points.once hcall.2 hmem rfl
      rfl
  · simp only [hc, CallInv] at hcall
    exact hcall.1

/-- When no call is in flight, the lock is free and the object has settled. -/
theorem Inv.settled_eq (hi : Inv object g₀ s es) (hstill : ∀ c, (s.calls c).inFlight = false) :
    s.settled = s.guarded := by
  cases hs : s.holder with
  | none => exact settled_of_none hs
  | some c =>
    have hholds := (hi.holder c).mpr hs
    have hnot := hstill c
    cases hc : s.calls c <;> rw [hc] at hholds hnot <;> simp [Pc.holds, Pc.inFlight] at hholds hnot

/-- When no call is in flight, the calls that took the lock are the completed ones. -/
theorem Inv.perm_completed (hi : Inv object g₀ s es) (hstill : ∀ c, (s.calls c).inFlight = false) :
    es.Perm (completed s.history) := by
  refine (List.perm_ext_iff_of_nodup ?_ ?_).mpr fun e => ⟨fun he => ?_, hi.points.complete e⟩
  · exact List.Nodup.of_map _ hi.points.once
  · exact List.Nodup.of_map _ hi.points.completed_nodup
  · have hcall := hi.calls e.call
    have hnot := hstill e.call
    cases hc : s.calls e.call with
    | idle =>
      simp only [hc, CallInv] at hcall
      exact absurd (hi.points.invoked e he) (hcall _)
    | returned op r =>
      simp only [hc, CallInv] at hcall
      have heq : (⟨e.call, op, r⟩ : Entry ι Op (Outcome Ret)) = e :=
        List.inj_on_of_nodup_map hi.points.once hcall.2 he rfl
      exact heq ▸ mem_completed.mpr hcall.1
    | locking op => simp [hc, Pc.inFlight] at hnot
    | inside op rest => simp [hc, Pc.inFlight] at hnot
    | unlocking op r => simp [hc, Pc.inFlight] at hnot
    | returning op r => simp [hc, Pc.inFlight] at hnot

variable [DecidableEq ι]

theorem Inv.of_reaches {v : σ} (h : Reaches (step object) (.init v) s) : ∃ es, Inv object ⟨v, false⟩ s es :=
  h.invariant (I := fun s => ∃ es, Inv object ⟨v, false⟩ s es)
    (fun _ _ _ ⟨_, hi⟩ hs => (hi.kept hs).imp' _ fun _ h => h) ⟨[], .init v⟩

/-- A call that waits for the lock waits for one that can go on. -/
theorem Inv.progress (hi : Inv object g₀ s es) {c : ι} (hc : (s.calls c).inFlight = true) :
    ∃ c' t, s.advance object c' = some t := by
  have hgo : ∀ c', (s.calls c').holds = true → ∃ t, s.advance object c' = some t := by
    intro c' hholds
    cases hc' : s.calls c' with
    | inside op rest => cases rest <;> simp [State.advance, hc']
    | unlocking op r => simp [State.advance, hc']
    | idle | locking op | returning op r | returned op r => simp [hc', Pc.holds] at hholds
  cases hpc : s.calls c with
  | idle => simp [hpc, Pc.inFlight] at hc
  | returned op r => simp [hpc, Pc.inFlight] at hc
  | inside op rest => exact ⟨c, hgo c (by rw [hpc]; rfl)⟩
  | unlocking op r => exact ⟨c, hgo c (by rw [hpc]; rfl)⟩
  | returning op r => exact ⟨c, _, by rw [State.advance, hpc]⟩
  | locking op =>
    cases hs : s.holder with
    | some c' => exact ⟨c', hgo c' ((hi.holder c').mpr hs)⟩
    | none =>
      refine ⟨c, ?_⟩
      simp only [State.advance, hpc, hs]
      split <;> exact ⟨_, rfl⟩

/-! ### How many steps a call takes -/

def Action.advances (c : ι) : Action ι Op → Bool
  | .invoke _ _ => false
  | .advance c' => c' = c

theorem Action.eq_advance {c : ι} {a : Action ι Op} (h : a.advances c = true) : a = .advance c := by
  cases a with
  | invoke c' op => cases h
  | advance c' => rw [of_decide_eq_true h]

/-- The steps that a call has to go, when no section makes more than `bound` accesses. -/
def Pc.remaining (bound : Nat) (v : σ) : Pc σ Op Ret → Nat
  | .idle | .locking _ => bound + 4
  | .inside _ rest => rest.accesses v + 3
  | .unlocking _ _ => 2
  | .returning _ _ => 1
  | .returned _ _ => 0

/-- A step of a call leaves it fewer steps to go. -/
theorem remaining_advance {bound : Nat} {c : ι} (hbound : ∀ op v, (object.body op).accesses v ≤ bound)
    (hs : s.advance object c = some t) :
    (t.calls c).remaining bound t.guarded.value + 1 ≤ (s.calls c).remaining bound s.guarded.value := by
  unfold State.advance at hs
  cases hc : s.calls c with
  | idle => simp [hc] at hs
  | returned op r => simp [hc] at hs
  | locking op =>
    cases hfree : s.holder with
    | some c' => simp [hc, hfree] at hs
    | none =>
      have hle := hbound op s.guarded.value
      simp only [hc, hfree] at hs
      split at hs <;> cases hs
      · simp [Pc.remaining]
      · simpa [Pc.remaining] using hle
  | unlocking op r =>
    simp only [hc, Option.some.injEq] at hs
    subst hs
    simp [Pc.remaining]
  | returning op r =>
    simp only [hc, Option.some.injEq] at hs
    subst hs
    simp [Pc.remaining]
  | inside op rest =>
    cases rest <;> simp only [hc, Option.some.injEq] at hs <;> subst hs <;> simp [Pc.remaining, Body.accesses]

/-- A step of another call leaves it as many. -/
theorem Inv.remaining_other {bound : Nat} {c : ι} {a : Action ι Op} (hi : Inv object g₀ s es)
    (ha : a ≠ .advance c) (hs : step object s a = some t) :
    (t.calls c).remaining bound t.guarded.value ≤ (s.calls c).remaining bound s.guarded.value := by
  cases a with
  | invoke c' op =>
    simp only [step] at hs
    split at hs
    · rename_i hidle
      obtain rfl := Option.some.inj hs
      rcases eq_or_ne c c' with rfl | hne
      · simp [hidle, Pc.remaining]
      · simp [hne]
    · cases hs
  | advance c' =>
    have hne : c ≠ c' := fun heq => ha (heq ▸ rfl)
    have hcalls : t.calls c = s.calls c := advance_calls_of_ne hne hs
    have hvalue : (s.calls c).holds = true → t.guarded = s.guarded := fun hholds =>
      advance_guarded (Bool.eq_false_iff.mpr fun hholds' => hne (hi.exclusive hholds hholds')) hs
    rw [hcalls]
    cases hc : s.calls c with
    | inside op rest => exact (hvalue (by rw [hc]; rfl)) ▸ Nat.le_refl _
    | idle | locking op | unlocking op r | returning op r | returned op r => exact Nat.le_refl _

/-- A call takes at most four steps more than the longest section has accesses. -/
theorem steps_le {bound : Nat} {v : σ} {as : List (Action ι Op)} (hbound : ∀ op v, (object.body op).accesses v ≤ bound)
    (hrun : run (step object) (.init v) as = some s) (c : ι) : as.countP (Action.advances c) ≤ bound + 4 := by
  suffices h : ∀ (u : State σ ι Op Ret) es, Inv object ⟨v, false⟩ u es → run (step object) u as = some s →
      as.countP (Action.advances c) ≤ (u.calls c).remaining bound u.guarded.value from h (.init v) [] (.init v) hrun
  clear hrun
  induction as with
  | nil => exact fun _ _ _ _ => Nat.zero_le _
  | cons a as ih =>
    intro u es hi hrun
    obtain ⟨w, hw, hrun⟩ := run_cons_eq_some.mp hrun
    obtain ⟨f, hi'⟩ := hi.kept hw
    have hrest := ih w _ hi' hrun
    by_cases ha : a = .advance c
    · subst ha
      rw [List.countP_cons_of_pos (by simp [Action.advances])]
      exact Nat.le_trans (Nat.add_le_add_right hrest 1) (remaining_advance hbound hw)
    · rw [List.countP_cons_of_neg fun h => ha (Action.eq_advance h)]
      exact Nat.le_trans hrest (hi.remaining_other ha hw)

end Runs

/-! ### Sections that do not panic -/

/-- No run of the section panics. -/
def Body.Safe (body : Body σ α) : Prop := ∀ v, ∃ a v', body.run v = (.returned a, ⟨v', false⟩)

/-- An object none of whose sections panics keeps its lock sound, and every call of it returns. -/
theorem Legal.of_safe {object : Object σ Op Ret} (hsafe : ∀ op, (object.body op).Safe) {g g' : Guarded σ}
    {es : List (Entry ι Op (Outcome Ret))} (hg : g.poisoned = false) (h : Legal object.Spec g es g') :
    g'.poisoned = false ∧ ∀ e ∈ es, ∃ a, e.ret = .returned a := by
  induction h with
  | nil => exact ⟨hg, by simp⟩
  | @cons s t u e es hspec _ ih =>
    rw [Object.Spec, call_of_sound hg] at hspec
    obtain ⟨a, v', hrun⟩ := hsafe e.op s.value
    rw [hrun, Prod.mk.injEq] at hspec
    obtain ⟨hret, rfl⟩ := hspec
    obtain ⟨hu, hes⟩ := ih rfl
    exact ⟨hu, List.forall_mem_cons.mpr ⟨⟨a, hret.symm⟩, hes⟩⟩

end Locked
