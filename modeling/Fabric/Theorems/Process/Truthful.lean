import Fabric.Process.Execution

/-! When the result of a process execution is truthful about the child: not where a write of its stdin is refused,
    and not where a child without stdin cannot be waited for. -/

namespace Fabric.Process
open Rust

section
variable {α : Type}

def Execution.created (execution : Execution α) : Prop :=
  ∃ command, .spawn command (.ok ()) ∈ execution.events

def Execution.waited (execution : Execution α) : Prop := ∃ answer, .wait answer ∈ execution.events

end

/-- `SpawnFailed` means that no child was created, and a created child has been waited for on return. -/
structure Truthful (execution : Execution (Except ProcessExecutionError ProcessOutput)) : Prop where
  spawnFailed : ∀ error, execution.result = some (.error error) → error.kind = .spawnFailed → ¬execution.created
  waited : ∀ result, execution.result = some result → execution.created → execution.waited

/-- Neither path meets the failure that it mistreats: with stdin, a write that is refused before the whole payload is
    out; without stdin, a failure to wait for the child. -/
structure Handled (os : OperatingSystem) (invocation : ProcessInvocation) : Prop where
  write : ∀ stdin, invocation.stdin = some stdin → os.spawn invocation.command = .ok () →
    ¬RefusedBefore stdin.length os.stdin
  wait : invocation.stdin = none → os.spawn invocation.command = .ok () → ∀ error, os.wait ≠ some (.error error)

theorem waitWithOutput_eq (os : OperatingSystem) : (os.wait = none ∧ waitWithOutput os = ⟨none, []⟩) ∨
    ∃ answer, os.wait = some answer ∧
      waitWithOutput os = ⟨some (answer.map fun status => ⟨status, os.stdout, os.stderr⟩), [.wait answer]⟩ := by
  unfold waitWithOutput
  cases os.wait with
  | none => exact .inl ⟨rfl, rfl⟩
  | some answer => exact .inr ⟨answer, rfl, rfl⟩

/-- Waiting, with its failure mapped to another kind than `SpawnFailed`, is truthful. -/
theorem truthful_waited {command : Command} (events : List Event) {answer : Except String ExitStatus}
    {result : Except ProcessExecutionError ProcessOutput}
    (hkind : ∀ error, result = .error error → error.kind ≠ .spawnFailed) :
    Truthful ⟨some result, .spawn command (.ok ()) :: events ++ [.wait answer]⟩ where
  spawnFailed error hresult hspawn := absurd hspawn (hkind error (Option.some.inj hresult))
  waited _ _ _ := ⟨answer, by simp⟩

theorem truthful_spawnFailed {command : Command} {detail : String} :
    Truthful ⟨some (.error (.spawnFailed detail)), [.spawn command (.error detail)]⟩ := by
  have hcreated : ¬Execution.created (α := Except ProcessExecutionError ProcessOutput)
      ⟨some (.error (.spawnFailed detail)), [.spawn command (.error detail)]⟩ := by
    simp [Execution.created]
  exact ⟨fun _ _ _ => hcreated, fun _ _ h => absurd h hcreated⟩

theorem truthful_unreturned {events : List Event} : Truthful ⟨none, events⟩ := ⟨nofun, nofun⟩

/-- A child that was dropped without a wait. -/
theorem not_truthful_dropped {command : Command} {written : Bytes}
    {result : Except ProcessExecutionError ProcessOutput} :
    ¬Truthful ⟨some result, [.spawn command (.ok ()), .stdin written, .stdinClosed]⟩ := by
  intro htruthful
  obtain ⟨answer, hwait⟩ := htruthful.waited result rfl ⟨command, by simp⟩
  simp at hwait

theorem not_truthful_spawnFailed {command : Command} {events : List Event} {detail : String} :
    ¬Truthful ⟨some (.error (.spawnFailed detail)), .spawn command (.ok ()) :: events⟩ := by
  intro htruthful
  exact htruthful.spawnFailed _ rfl rfl ⟨command, by simp⟩

theorem truthful_executeWithStdin {os : OperatingSystem} {command : Command} {stdin : Bytes}
    (hspawn : os.spawn command = .ok ()) :
    Truthful (executeWithStdin os command stdin) ↔ ¬RefusedBefore stdin.length os.stdin := by
  have hrefused : (∃ error, (Writer.writeAll ⟨os.stdin, []⟩ stdin).1 = some (.error error)) ↔
      RefusedBefore stdin.length os.stdin := Writer.writeAllFrom_error_iff
  rw [← hrefused]
  unfold executeWithStdin
  rw [hspawn]
  rcases Writer.writeAll ⟨os.stdin, []⟩ stdin with ⟨_ | error | _, writer⟩
  · exact iff_of_true truthful_unreturned nofun
  · exact iff_of_false not_truthful_dropped fun h => h ⟨error, rfl⟩
  · refine iff_of_true ?_ nofun
    rcases waitWithOutput_eq os with ⟨-, hwait⟩ | ⟨error | status, -, hwait⟩
    · rw [hwait]
      exact truthful_unreturned
    · rw [hwait]
      exact truthful_waited [.stdin writer.written, .stdinClosed] fun _ herror => by cases herror; nofun
    · rw [hwait]
      exact truthful_waited [.stdin writer.written, .stdinClosed] nofun

theorem truthful_output {os : OperatingSystem} {command : Command} (hspawn : os.spawn command = .ok ()) :
    Truthful ((command.output os).map fun output => (output.map processOutput).mapError .spawnFailed) ↔
      ∀ error, os.wait ≠ some (.error error) := by
  unfold Command.output
  rw [hspawn]
  rcases waitWithOutput_eq os with ⟨hnever, hwait⟩ | ⟨error | status, hanswer, hwait⟩
  · rw [hwait, hnever]
    exact iff_of_true truthful_unreturned nofun
  · rw [hwait, hanswer]
    exact iff_of_false not_truthful_spawnFailed fun h => h error rfl
  · rw [hwait, hanswer]
    exact iff_of_true (truthful_waited [] nofun) nofun

/-- A result is truthful about the child exactly where neither failure is met. -/
theorem executeLocal_truthful_iff (os : OperatingSystem) (invocation : ProcessInvocation) :
    Truthful (executeLocal os invocation) ↔ Handled os invocation := by
  unfold executeLocal
  cases hspawn : os.spawn invocation.command with
  | error error =>
    have hnot : os.spawn invocation.command ≠ .ok () := by simp [hspawn]
    refine iff_of_true ?_ ⟨fun _ _ h => absurd h hnot, fun _ h => absurd h hnot⟩
    cases invocation.stdin with
    | none =>
      simp only [Command.output, hspawn]
      exact truthful_spawnFailed
    | some stdin =>
      simp only [executeWithStdin, hspawn]
      exact truthful_spawnFailed
  | ok _ =>
    cases hstdin : invocation.stdin with
    | none =>
      refine (truthful_output hspawn).trans ⟨fun h => ⟨fun _ hsome => ?_, fun _ _ => h⟩, fun h => h.wait hstdin hspawn⟩
      cases hstdin.symm.trans hsome
    | some stdin =>
      refine (truthful_executeWithStdin hspawn).trans ⟨fun h => ⟨fun _ hsome _ => ?_, fun hnone => ?_⟩, fun h =>
        h.write stdin hstdin hspawn⟩
      · cases hstdin.symm.trans hsome
        exact h
      · cases hstdin.symm.trans hnone

/-- A child that exits without reading its stdin. -/
def unread : OperatingSystem where
  spawn _ := .ok ()
  stdin := [.failed "Broken pipe (os error 32)"]
  stdout := []
  stderr := []
  wait := some (.ok (.exited 0))

/-- A child that cannot be waited for, since its parent ignores the signal of its exit. -/
def unwaitable : OperatingSystem := { unread with wait := some (.error "No child processes (os error 10)") }

def invocationOf (stdin : Option Bytes) : ProcessInvocation := ⟨"true", [], none, [], stdin⟩

theorem unread_not_truthful : ¬Truthful (executeLocal unread (invocationOf (some [1]))) ∧
    ¬Truthful (executeLocal unwaitable (invocationOf none)) :=
  ⟨not_truthful_dropped, not_truthful_spawnFailed⟩

end Fabric.Process
