import Fabric.Tcp.Inspection
import Fabric.Theorems.Tcp.Stranding

/-! What an inspection finds: the address that the last start bound, from where `start` publishes it to where `stop`
    clears it, and the number of connections that a listener has counted, which until the next start resets it is that
    of the generation before. -/

namespace Fabric.Tcp.Loopback
open Transition

/-- The address that a start binds. -/
def Action.bound? : Action → Option TcpSocketAddress
  | .start bound => bound
  | _ => none

/-- The addresses that the starts of a run bind, of which the `g`-th is that of generation `g`. -/
def bounds (as : List Action) : List TcpSocketAddress := as.filterMap Action.bound?

namespace Lifecycle

/-- `start` has stored the address, and `stop` has not cleared it. -/
def published : Lifecycle → Bool
  | .starting .spawn _ | .starting .handle _ | .running | .stopping _ => true
  | .stopped | .starting _ _ => false

/-- `start` has yet to reset the counter. -/
def resets : Lifecycle → Bool
  | .starting .stopRequested _ | .starting .generationLive _ | .starting .acceptedConnections _ => true
  | _ => false

end Lifecycle

/-- The generation whose connections the counter counts. -/
def State.counting (s : State) : Nat := if s.lifecycle.resets then s.generation - 1 else s.generation

/-- What `actual_address` and the copies of it hold, when the starts so far bound `addresses`. -/
structure Published (addresses : List TcpSocketAddress) (s : State) : Prop where
  generation : s.generation = addresses.length
  address : s.actualAddress = if s.lifecycle.published then addresses.getLast? else none
  starting : ∀ next actual, s.lifecycle = .starting next actual → addresses.getLast? = some actual
  stopping : ∀ seen, s.lifecycle = .stopping (.connect seen) → seen = addresses.getLast?
  started : s.lifecycle ≠ .stopped → addresses ≠ []

def Counts (s : State) : Prop := s.acceptedConnections = .ofNat (s.counted s.counting).length

section
variable {s t : State} {addresses : List TcpSocketAddress}

theorem Published.initial : Published [] .initial := ⟨rfl, rfl, nofun, nofun, absurd rfl⟩

theorem Published.of_eq (h : Published addresses s) (hg : t.generation = s.generation)
    (hl : t.lifecycle = s.lifecycle) (ha : t.actualAddress = s.actualAddress) : Published addresses t := by
  obtain ⟨h₁, h₂, h₃, h₄, h₅⟩ := h
  exact ⟨hg.trans h₁, by rw [ha, hl]; exact h₂, hl ▸ h₃, hl ▸ h₄, hl ▸ h₅⟩

/-! ### The address -/

theorem step_actualAddress {act : Action} (hs : step s act = some t) (ha : act.ofLifecycle = false) :
    t.actualAddress = s.actualAddress := by
  cases act with
  | start bound => cases ha
  | stop => cases ha
  | lifecycle connected => cases ha
  | peer g =>
    simp only [step, State.peer] at hs
    split at hs
    · exact Option.some.inj hs ▸ rfl
    · cases hs
  | incoming g failed =>
    simp only [step, State.incoming] at hs
    repeat' split at hs
    all_goals first
      | exact Option.some.inj hs ▸ rfl
      | cases hs
  | listener g =>
    simp only [step, State.listenerStep] at hs
    repeat' split at hs
    all_goals first
      | exact Option.some.inj hs ▸ rfl
      | cases hs
  | notifyOne g waiter =>
    simp only [step, State.notifyOne] at hs
    repeat' split at hs
    all_goals first
      | exact Option.some.inj hs ▸ rfl
      | cases hs
  | call a =>
    simp only [step, State.call] at hs
    split at hs
    · exact Option.some.inj hs ▸ rfl
    · cases hs
  | accept a =>
    simp only [step, State.acceptStep] at hs
    repeat' split at hs
    all_goals first
      | exact Option.some.inj hs ▸ rfl
      | cases hs
  | wake a =>
    obtain ⟨-, rfl⟩ := wake_eq_some hs
    rfl

theorem Published.start (h : Published addresses s) {bound : Option TcpSocketAddress} (hs : s.start bound = some t) :
    Published (addresses ++ bound.toList) t := by
  unfold State.start at hs
  split at hs
  · obtain rfl := Option.some.inj hs
    rwa [Option.toList_none, List.append_nil]
  · rename_i actual hl
    obtain rfl := Option.some.inj hs
    obtain ⟨hg, haddress, -⟩ := h
    rw [hl] at haddress
    refine ⟨?_, haddress, fun next actual' h => ?_, fun _ h => (by cases h), fun _ => by simp⟩
    · simp [hg]
    · obtain ⟨-, rfl⟩ := Lifecycle.starting.inj h
      exact List.getLast?_concat ..
  · cases hs

theorem Published.startStep (h : Published addresses s) {next : StartStep} {actual : TcpSocketAddress}
    (hl : s.lifecycle = .starting next actual) (hs : s.startStep actual next = some t) : Published addresses t := by
  obtain ⟨hg, haddress, hstarting, -, hstarted⟩ := h
  have hlast := hstarting next actual hl
  have hne := hstarted (by simp [hl])
  rw [hl] at haddress
  have stays : ∀ {next' : StartStep} {next'' : StartStep} {actual' : TcpSocketAddress},
      Lifecycle.starting next' actual = .starting next'' actual' → addresses.getLast? = some actual' := by
    intro next' next'' actual' h
    obtain ⟨-, rfl⟩ := Lifecycle.starting.inj h
    exact hlast
  cases next with
  | stopRequested | generationLive | acceptedConnections | spawn =>
    obtain rfl := Option.some.inj hs
    exact ⟨hg, haddress, fun _ _ => stays, fun _ h => (by cases h), fun _ => hne⟩
  | clearQueue =>
    simp only [State.startStep] at hs
    split at hs
    · obtain rfl := Option.some.inj hs
      exact ⟨hg, haddress, fun _ _ => stays, fun _ h => (by cases h), fun _ => hne⟩
    · cases hs
  | actualAddress =>
    obtain rfl := Option.some.inj hs
    exact ⟨hg, hlast.symm, fun _ _ => stays, fun _ h => (by cases h), fun _ => hne⟩
  | handle =>
    obtain rfl := Option.some.inj hs
    exact ⟨hg, haddress, fun _ _ h => (by cases h), fun _ h => (by cases h), fun _ => hne⟩

theorem Published.stopStep (h : Published addresses s) {next : StopStep} {connected : Bool}
    (hl : s.lifecycle = .stopping next) (hs : s.stopStep connected next = some t) : Published addresses t := by
  obtain ⟨hg, haddress, -, -, hstarted⟩ := h
  have hne := hstarted (by simp [hl])
  rw [hl] at haddress
  cases next with
  | actualAddress =>
    obtain rfl := Option.some.inj hs
    refine ⟨hg, haddress, fun _ _ h => (by cases h), fun seen h => ?_, fun _ => hne⟩
    obtain rfl := StopStep.connect.inj (Lifecycle.stopping.inj h)
    exact haddress
  | clearAddress =>
    obtain rfl := Option.some.inj hs
    exact ⟨hg, rfl, fun _ _ h => (by cases h), fun _ h => (by cases h), fun _ => hne⟩
  | _ =>
    unfold State.stopStep at hs
    repeat' split at hs
    all_goals first
      | contradiction
      | exact Option.some.inj hs ▸
          ⟨hg, haddress, fun _ _ h => (by cases h), fun _ h => (by cases h), fun _ => hne⟩

theorem Published.kept (h : Published addresses s) {act : Action} (hs : step s act = some t) :
    Published (addresses ++ act.bound?.toList) t := by
  cases act with
  | start bound => exact h.start hs
  | stop =>
    obtain ⟨hg, haddress, -, -, hstarted⟩ := h
    simp only [step, State.stop] at hs
    split at hs
    · rename_i hl
      obtain rfl := Option.some.inj hs
      rw [hl] at haddress
      rw [show Action.bound? .stop = none from rfl, Option.toList_none, List.append_nil]
      exact ⟨hg, haddress, fun _ _ h => (by cases h), fun _ h => (by cases h), fun _ => hstarted (by simp [hl])⟩
    · cases hs
  | lifecycle connected =>
    rw [show (Action.lifecycle connected).bound? = none from rfl, Option.toList_none, List.append_nil]
    simp only [step, State.lifecycleStep] at hs
    split at hs
    · cases hs
    · cases hs
    · rename_i hl
      exact h.startStep hl hs
    · rename_i hl
      exact h.stopStep hl hs
  | _ =>
    have hsame := step_samePhase hs rfl
    exact (List.append_nil addresses).symm ▸ h.of_eq hsame.generation hsame.lifecycle (step_actualAddress hs rfl)

theorem published_of_run {as : List Action} (hrun : run step s as = some t) (h : Published addresses s) :
    Published (addresses ++ bounds as) t := by
  induction as generalizing s addresses with
  | nil =>
    obtain rfl := Option.some.inj hrun
    exact (List.append_nil addresses).symm ▸ h
  | cons act as ih =>
    obtain ⟨u, hu, hrun⟩ := run_cons_eq_some.mp hrun
    have hall := ih hrun (h.kept hu)
    rw [List.append_assoc] at hall
    have hbounds : bounds (act :: as) = act.bound?.toList ++ bounds as := by
      unfold bounds
      cases hact : act.bound? with
      | none => rw [List.filterMap_cons_none hact]; rfl
      | some actual => rw [List.filterMap_cons_some hact]; rfl
    rw [hbounds]
    exact hall

/-! ### The counter -/

theorem Counts.of_eq (h : Counts s) (hc : t.counting = s.counting) (ha : t.acceptedConnections = s.acceptedConnections)
    (hcounted : t.counted = s.counted) : Counts t := by
  unfold Counts at h ⊢
  rw [ha, hcounted, hc]
  exact h

theorem counting_eq (hs : SamePhase s t) : t.counting = s.counting := by
  unfold State.counting
  rw [hs.lifecycle, hs.generation]

/-- A listener thread counts a stream, or the count stays. -/
theorem listenerStep_counts {g : Nat} (hs : s.listenerStep g = some t) :
    (t.acceptedConnections = s.acceptedConnections ∧ t.counted = s.counted) ∨
      ∃ stream, s.listeners g = .count stream ∧ t.acceptedConnections = s.acceptedConnections + 1 ∧
        t.counted = Function.update s.counted g (s.counted g ++ [stream]) := by
  unfold State.listenerStep at hs
  cases hpc : s.listeners g with
  | count stream =>
    simp only [hpc, Option.some.injEq] at hs
    subst hs
    exact Or.inr ⟨stream, rfl, rfl, rfl⟩
  | _ =>
    simp only [hpc] at hs
    repeat' split at hs
    all_goals first
      | exact Or.inl (Option.some.inj hs ▸ ⟨rfl, rfl⟩)
      | cases hs

/-- A listener thread is at work only once `start` has reset the counter. -/
theorem Inv.counting_of_active (hi : Inv s) {g : Nat} (hactive : ¬(s.listeners g).Idle) : g = s.counting := by
  obtain rfl := hi.eq_generation hactive
  have hph := hi.phase
  have hfresh : ¬Fresh s := fun f => hactive (f.unspawned ▸ trivial)
  unfold State.counting
  cases hl : s.lifecycle with
  | starting next actual =>
    rw [hl] at hph
    cases next with
    | stopRequested => exact absurd hph hfresh
    | generationLive | acceptedConnections => exact absurd hph.1 hfresh
    | clearQueue | actualAddress | spawn | handle => rfl
  | stopped | running | stopping next => rfl

theorem Counts.startStep (h : Counts s) (hi : Inv s) {next : StartStep} {actual : TcpSocketAddress}
    (hl : s.lifecycle = .starting next actual) (hs : s.startStep actual next = some t) : Counts t := by
  have hph := hi.phase
  unfold Counts State.counting at h
  rw [hl] at hph h
  cases next with
  | acceptedConnections =>
    obtain rfl := Option.some.inj hs
    have hcounted : s.counted s.generation = [] := hph.1.counted
    show 0 = UInt64.ofNat (s.counted s.generation).length
    rw [hcounted]
    rfl
  | clearQueue =>
    simp only [State.startStep] at hs
    split at hs
    · exact Option.some.inj hs ▸ h
    · cases hs
  | _ => exact Option.some.inj hs ▸ h

theorem Counts.stopStep (h : Counts s) {next : StopStep} {connected : Bool} (hl : s.lifecycle = .stopping next)
    (hs : s.stopStep connected next = some t) : Counts t := by
  unfold Counts State.counting at h
  rw [hl] at h
  unfold State.stopStep at hs
  repeat' split at hs
  all_goals first
    | exact Option.some.inj hs ▸ h
    | cases hs

theorem Counts.kept (h : Counts s) (hi : Inv s) {act : Action} (hs : step s act = some t) : Counts t := by
  cases act with
  | start bound =>
    simp only [step, State.start] at hs
    split at hs
    · exact Option.some.inj hs ▸ h
    · rename_i hl
      unfold Counts State.counting at h
      rw [hl] at h
      exact Option.some.inj hs ▸ h
    · cases hs
  | stop =>
    simp only [step, State.stop] at hs
    split at hs
    · rename_i hl
      unfold Counts State.counting at h
      rw [hl] at h
      exact Option.some.inj hs ▸ h
    · cases hs
  | lifecycle connected =>
    simp only [step, State.lifecycleStep] at hs
    split at hs
    · cases hs
    · cases hs
    · rename_i hl
      exact h.startStep hi hl hs
    · rename_i hl
      exact h.stopStep hl hs
  | listener g =>
    have hc := counting_eq (step_samePhase hs rfl)
    rcases listenerStep_counts hs with ⟨ha, hcounted⟩ | ⟨stream, hpc, ha, hcounted⟩
    · exact h.of_eq hc ha hcounted
    · obtain rfl := hi.counting_of_active (g := g) (by rw [hpc]; exact id)
      unfold Counts at h ⊢
      rw [ha, hcounted, hc, Function.update_self, h, List.length_append, UInt64.ofNat_add]
      rfl
  | peer g =>
    have hc := counting_eq (step_samePhase hs rfl)
    simp only [step, State.peer] at hs
    split at hs
    · exact Option.some.inj hs ▸ h
    · cases hs
  | incoming g failed =>
    simp only [step, State.incoming] at hs
    repeat' split at hs
    all_goals first
      | exact Option.some.inj hs ▸ h
      | cases hs
  | notifyOne g waiter =>
    simp only [step, State.notifyOne] at hs
    repeat' split at hs
    all_goals first
      | exact Option.some.inj hs ▸ h
      | cases hs
  | call a =>
    simp only [step, State.call] at hs
    split at hs
    · exact Option.some.inj hs ▸ h
    · cases hs
  | accept a =>
    simp only [step, State.acceptStep] at hs
    repeat' split at hs
    all_goals first
      | exact Option.some.inj hs ▸ h
      | cases hs
  | wake a =>
    obtain ⟨-, rfl⟩ := wake_eq_some hs
    exact h

/-- Only the start of the next generation comes to a reset of the counter. -/
theorem resets_kept {g : Nat} (h : s.lifecycle.resets = false ∨ g < s.generation) {act : Action}
    (hs : step s act = some t) (hg : g ≤ s.generation) : t.lifecycle.resets = false ∨ g < t.generation := by
  have hgen := (step_generation hs).1
  rcases h with h | h
  · by_cases ha : act.ofLifecycle = false
    · exact Or.inl ((step_samePhase hs ha).lifecycle ▸ h)
    · cases act with
      | start bound =>
        simp only [step, State.start] at hs
        split at hs
        · exact Or.inl (Option.some.inj hs ▸ h)
        · exact Or.inr (Option.some.inj hs ▸ Nat.lt_succ_of_le hg)
        · cases hs
      | stop =>
        simp only [step, State.stop] at hs
        split at hs
        · exact Or.inl (Option.some.inj hs ▸ rfl)
        · cases hs
      | lifecycle connected =>
        simp only [step, State.lifecycleStep] at hs
        split at hs
        · cases hs
        · cases hs
        · rename_i next actual hl
          rw [hl] at h
          cases next with
          | stopRequested | generationLive | acceptedConnections => cases h
          | clearQueue =>
            simp only [State.startStep] at hs
            split at hs
            · exact Or.inl (Option.some.inj hs ▸ rfl)
            · cases hs
          | actualAddress | spawn | handle => exact Or.inl (Option.some.inj hs ▸ rfl)
        · unfold State.stopStep at hs
          repeat' split at hs
          all_goals first
            | exact Or.inl (Option.some.inj hs ▸ rfl)
            | cases hs
      | _ => exact absurd rfl ha
  · exact Or.inr (Nat.lt_of_lt_of_le h hgen)

/-- While the adapter runs, the connections of its listener are those handed out, those in the queue and the one that
    the listener thread holds. -/
theorem Inv.length_counted_of_running (hi : Inv s) (hl : s.lifecycle = .running) :
    (s.counted s.generation).length = (s.delivered s.generation).length + s.queue.length +
      (s.listeners s.generation).inHand.length := by
  have hph := hi.phase
  rw [hl] at hph
  obtain ⟨hflow, -⟩ := hph
  rw [hflow.counted, ← hflow.pushed, List.length_append, List.length_append]

end

/-! ### Inspections -/

/-- An inspection of a run finds the address that the last start bound, exactly from its publication to the end of the
    stop, and the number of connections that one listener has counted, as far as a `usize` holds it; where no start
    binds between its questions, both are of one generation. -/
theorem inspectTransport_exact {as bs : List Action} {s t : State} (requestedBind : TcpSocketAddress)
    (hs : run step .initial as = some s) (ht : run step s bs = some t) :
    (inspectTransport requestedBind s t).actual = (if s.lifecycle.published then (bounds as).getLast? else none) ∧
    (inspectTransport requestedBind s t).acceptedConnections.toNat =
      (t.counted t.counting).length % UInt64.size ∧
    (s.lifecycle.published = true → bounds bs = [] → t.counting = (bounds as).length) ∧
    (t.lifecycle = .running → (inspectTransport requestedBind s t).acceptedConnections.toNat =
      ((t.delivered t.generation).length + t.queue.length + (t.listeners t.generation).inHand.length) %
        UInt64.size) := by
  have hpub := published_of_run hs .initial
  have hpub' := published_of_run ht hpub
  obtain ⟨hi, hcounts⟩ := run_invariant (I := fun u => Inv u ∧ Counts u)
    (fun u act v h hv => ⟨h.1.kept hv, h.2.kept h.1 hv⟩)
    (show run step .initial (as ++ bs) = some t by rw [run_append, hs]; exact ht) ⟨.initial, rfl⟩
  have hcount : t.acceptedConnections.toNat = (t.counted t.counting).length % UInt64.size := by
    rw [hcounts, UInt64.toNat_ofNat']
  refine ⟨hpub.address, hcount, fun hl hbs => ?_, fun hl => ?_⟩
  rotate_left
  · have hcounting : t.counting = t.generation := by rw [State.counting, hl]; rfl
    rw [← hi.length_counted_of_running hl, ← hcounting]
    exact hcount
  have hsame : t.generation = s.generation := by
    rw [hpub'.generation, hbs, List.append_nil, hpub.generation]
  have hresets : s.lifecycle.resets = false := by
    cases h : s.lifecycle with
    | starting next actual => cases next <;> first | rfl | simp [h, Lifecycle.published] at hl
    | stopped | running | stopping next => rfl
  obtain ⟨-, hkept⟩ := run_invariant
    (I := fun u => s.generation ≤ u.generation ∧ (u.lifecycle.resets = false ∨ s.generation < u.generation))
    (fun u act v h hv => ⟨Nat.le_trans h.1 (step_generation hv).1, resets_kept h.2 hv h.1⟩) ht
    ⟨Nat.le_refl _, Or.inl hresets⟩
  have hresets' : t.lifecycle.resets = false := hkept.resolve_right (by omega)
  rw [State.counting, hresets']
  exact hsame.trans hpub.generation

/-- A start, and a connection that its listener thread counts. -/
def startedRun : List Action := .start (some ⟨"127.0.0.1", 8080⟩) :: List.replicate 7 (.lifecycle false)

def countingRun : List Action := [.peer 1, .incoming 1 false, .listener 1, .listener 1, .listener 1]

theorem inspectTransport_exact_started :
    ∃ s t, run step .initial startedRun = some s ∧ run step s countingRun = some t ∧
      (inspectTransport ⟨"127.0.0.1", 0⟩ s t).actual = some ⟨"127.0.0.1", 8080⟩ ∧
      (inspectTransport ⟨"127.0.0.1", 0⟩ s t).acceptedConnections.toNat = 1 := by
  obtain ⟨s, t, hs, ht, hl, hl', hg, hdelivered, hqueue, hpc⟩ : ∃ s t, run step .initial startedRun = some s ∧
      run step s countingRun = some t ∧ s.lifecycle = .running ∧ t.lifecycle = .running ∧ t.generation = 1 ∧
      t.delivered 1 = [] ∧ t.queue = [] ∧ t.listeners 1 = .push ⟨0, 1, false⟩ :=
    ⟨_, _, rfl, rfl, rfl, rfl, rfl, rfl, rfl, rfl⟩
  obtain ⟨hactual, -, -, hrunning⟩ := inspectTransport_exact ⟨"127.0.0.1", 0⟩ hs ht
  refine ⟨s, t, hs, ht, ?_, ?_⟩
  · rw [hactual, hl]
    rfl
  · rw [hrunning hl', hg, hdelivered, hqueue, hpc]
    rfl

end Fabric.Tcp.Loopback
