import Mathlib.Data.List.Basic

/-! Programs as trees of the calls that they make on their environment, and budgets for them: how many calls a program
    may make, and how much their answers may weigh together, whatever the answers are. -/

/-- A program is done, or it makes a call and goes on with the answer. Every run of it ends. -/
inductive Interaction (Call Answer α : Type) where
  | done (result : α)
  | call (call : Call) (next : Answer → Interaction Call Answer α)

namespace Interaction

variable {Call Answer α β σ : Type}

def bind : Interaction Call Answer α → (α → Interaction Call Answer β) → Interaction Call Answer β
  | done a, f => f a
  | call c next, f => call c fun answer => (next answer).bind f

@[simp] theorem done_bind (a : α) (f : α → Interaction Call Answer β) : (done a).bind f = f a := rfl

@[simp] theorem call_bind (c : Call) (next : Answer → Interaction Call Answer α) (f : α → Interaction Call Answer β) :
    (call c next).bind f = call c fun answer => (next answer).bind f := rfl

/-! ### Runs -/

/-- What a program returns to an environment that answers its calls, and the state in which it leaves the environment.
    -/
def run (environment : σ → Call → Answer × σ) : Interaction Call Answer α → σ → α × σ
  | done a, s => (a, s)
  | call c next, s => (next (environment s c).1).run environment (environment s c).2

/-- The calls of that run, with their answers. -/
def trace (environment : σ → Call → Answer × σ) : Interaction Call Answer α → σ → List (Call × Answer)
  | done _, _ => []
  | call c next, s =>
    (c, (environment s c).1) :: (next (environment s c).1).trace environment (environment s c).2

/-- The program `p` is at `rest` once the calls of a trace have been answered. -/
inductive Steps : Interaction Call Answer α → List (Call × Answer) → Interaction Call Answer α → Prop where
  | refl (p : Interaction Call Answer α) : Steps p [] p
  | call {c : Call} {next : Answer → Interaction Call Answer α} {answer : Answer} {trace : List (Call × Answer)}
      {rest : Interaction Call Answer α} :
      Steps (next answer) trace rest → Steps (call c next) ((c, answer) :: trace) rest

theorem Steps.concat {p : Interaction Call Answer α} {trace : List (Call × Answer)} {c : Call}
    {next : Answer → Interaction Call Answer α} (h : Steps p trace (.call c next)) (answer : Answer) :
    Steps p (trace ++ [(c, answer)]) (next answer) := by
  generalize hrest : Interaction.call c next = rest at h
  induction h with
  | refl p => exact hrest ▸ .call (.refl _)
  | call _ ih => exact .call (ih hrest)

theorem run_bind (environment : σ → Call → Answer × σ) (p : Interaction Call Answer α)
    (f : α → Interaction Call Answer β) (s : σ) :
    (p.bind f).run environment s = (f (p.run environment s).1).run environment (p.run environment s).2 := by
  induction p generalizing s with
  | done a => rfl
  | call c next ih => exact ih _ _

theorem steps_trace (environment : σ → Call → Answer × σ) (p : Interaction Call Answer α) (s : σ) :
    Steps p (p.trace environment s) (done (p.run environment s).1) := by
  induction p generalizing s with
  | done a => exact .refl _
  | call c next ih => exact .call (ih _ _)

theorem allowed_of_mem_trace {allows : Call → Answer → Prop} {environment : σ → Call → Answer × σ}
    (hallows : ∀ s c, allows c (environment s c).1) (p : Interaction Call Answer α) (s : σ) :
    ∀ answered ∈ p.trace environment s, allows answered.1 answered.2 := by
  induction p generalizing s with
  | done a => simp [trace]
  | call c next ih =>
    rw [trace, List.forall_mem_cons]
    exact ⟨hallows s c, ih _ _⟩

/-- Every call that the program can make, whatever answers it gets, is allowed. -/
def Only (allowed : Call → Prop) : Interaction Call Answer α → Prop
  | done _ => True
  | call c next => allowed c ∧ ∀ answer, (next answer).Only allowed

theorem Only.steps {allowed : Call → Prop} {p rest : Interaction Call Answer α} {trace : List (Call × Answer)}
    (h : p.Only allowed) (hsteps : Steps p trace rest) : (∀ x ∈ trace, allowed x.1) ∧ rest.Only allowed := by
  induction hsteps with
  | refl p => exact ⟨by simp, h⟩
  | call _ ih =>
    obtain ⟨htrace, hrest⟩ := ih (h.2 _)
    exact ⟨List.forall_mem_cons.mpr ⟨h.1, htrace⟩, hrest⟩

/-! ### Budgets -/

section Budget
variable (allows : Call → Answer → Prop) (weight : Answer → Nat) (pre : Call → Prop)

/-- Whatever allowed answers it gets, the program makes at most `calls` calls, all within `pre`, their answers weigh at
    most `budget` together, and its result is as `post` says, given what is left of both. -/
def Affords (post : Nat → Nat → α → Prop) : Interaction Call Answer α → Nat → Nat → Prop
  | done a, calls, budget => post calls budget a
  | call c next, calls, budget => pre c ∧ 0 < calls ∧ ∀ answer, allows c answer →
      weight answer ≤ budget ∧ (next answer).Affords post (calls - 1) (budget - weight answer)

/-- What the answers of a trace weigh together. -/
def spent : List (Call × Answer) → Nat
  | [] => 0
  | answered :: rest => weight answered.2 + spent rest

variable {allows weight pre}

theorem Affords.bind {post : Nat → Nat → α → Prop} {post' : Nat → Nat → β → Prop} {p : Interaction Call Answer α}
    {f : α → Interaction Call Answer β} {calls budget : Nat} (h : p.Affords allows weight pre post calls budget)
    (hf : ∀ calls budget a, post calls budget a → (f a).Affords allows weight pre post' calls budget) :
    (p.bind f).Affords allows weight pre post' calls budget := by
  induction p generalizing calls budget with
  | done a => exact hf calls budget a h
  | call c next ih =>
    obtain ⟨hpre, hcalls, hnext⟩ := h
    refine ⟨hpre, hcalls, fun answer hanswer => ?_⟩
    obtain ⟨hweight, hrest⟩ := hnext answer hanswer
    exact ⟨hweight, ih answer hrest⟩

/-- What a program has spent after a part of a run, and what it affords from there. -/
theorem Affords.steps {post : Nat → Nat → α → Prop} {p rest : Interaction Call Answer α}
    {trace : List (Call × Answer)} {calls budget : Nat} (hsteps : Steps p trace rest)
    (h : p.Affords allows weight pre post calls budget)
    (hallowed : ∀ answered ∈ trace, allows answered.1 answered.2) :
    (∀ answered ∈ trace, pre answered.1) ∧ trace.length ≤ calls ∧ spent weight trace ≤ budget ∧
      rest.Affords allows weight pre post (calls - trace.length) (budget - spent weight trace) := by
  induction hsteps generalizing calls budget with
  | refl p => exact ⟨by simp, Nat.zero_le _, Nat.zero_le _, h⟩
  | call hsteps ih =>
    obtain ⟨hpre, hcalls, hnext⟩ := h
    obtain ⟨hanswer, hallowed⟩ := List.forall_mem_cons.mp hallowed
    obtain ⟨hweight, hrest⟩ := hnext _ hanswer
    obtain ⟨hall, hlength, hsum, hafter⟩ := ih hrest hallowed
    rw [List.length_cons, spent, Nat.add_comm, ← Nat.sub_sub, ← Nat.sub_sub]
    exact ⟨List.forall_mem_cons.mpr ⟨hpre, hall⟩, by omega, by omega, hafter⟩

end Budget

end Interaction
