import Fabric.Library.Path
import Fabric.Library.Write

/-! `execute_local` as a whole: what it asks of the operating system, and what it makes of the answers. -/

namespace Fabric.Process
open Rust

inductive ProcessExecutionErrorKind where
  | notStarted
  | stopped
  | spawnFailed
  | stdinWriteFailed
  | waitFailed
  deriving DecidableEq, Repr

structure ProcessExecutionError where
  kind : ProcessExecutionErrorKind
  detail : String
  deriving DecidableEq, Repr

namespace ProcessExecutionError

def notStarted : ProcessExecutionError := ⟨.notStarted, "process runtime has not started"⟩

def stopped : ProcessExecutionError := ⟨.stopped, "process runtime generation is stopped"⟩

def spawnFailed (detail : String) : ProcessExecutionError := ⟨.spawnFailed, detail⟩

def stdinWriteFailed (detail : String) : ProcessExecutionError := ⟨.stdinWriteFailed, detail⟩

def waitFailed (detail : String) : ProcessExecutionError := ⟨.waitFailed, detail⟩

end ProcessExecutionError

structure ProcessEnvironmentVariable where
  name : String
  value : String
  deriving DecidableEq, Repr

structure ProcessInvocation where
  program : String
  args : List String
  workingDirectory : Option PathBuf
  environment : List ProcessEnvironmentVariable
  stdin : Option Bytes
  deriving DecidableEq, Repr

structure ProcessOutput where
  statusCode : Option Int32
  stdout : Bytes
  stderr : Bytes
  deriving DecidableEq, Repr

/-! ### `std::process` -/

inductive Stdio where
  | inherit
  | null
  | piped
  deriving DecidableEq, Repr

structure Command where
  program : String
  args : List String
  currentDir : Option PathBuf
  /-- The variables that are set, in the order in which they are. -/
  env : List (String × String)
  stdin : Stdio
  stdout : Stdio
  stderr : Stdio
  deriving DecidableEq, Repr

inductive ExitStatus where
  | exited (code : Int32)
  | signaled (signal : Int32)
  deriving DecidableEq, Repr

def ExitStatus.code : ExitStatus → Option Int32
  | .exited code => some code
  | .signaled _ => none

structure Output where
  status : ExitStatus
  stdout : Bytes
  stderr : Bytes
  deriving DecidableEq, Repr

/-- The operating system and the child: whether the child is created, how the writes to its stdin end, what it
    writes, and how waiting for it ends, `none` if it never exits. -/
structure OperatingSystem where
  spawn : Command → Except String Unit
  stdin : List WriteAnswer
  stdout : Bytes
  stderr : Bytes
  wait : Option (Except String ExitStatus)

/-- What a call has done, besides its result. -/
inductive Event where
  | spawn (command : Command) (answer : Except String Unit)
  | stdin (written : Bytes)
  | stdinClosed
  | wait (answer : Except String ExitStatus)
  deriving DecidableEq, Repr

/-- A call that returned something, or did not return, and what it has done. -/
structure Execution (α : Type) where
  result : Option α
  events : List Event
  deriving DecidableEq, Repr

def Execution.after {α : Type} (events : List Event) (execution : Execution α) : Execution α :=
  { execution with events := events ++ execution.events }

def Execution.map {α β : Type} (f : α → β) (execution : Execution α) : Execution β :=
  ⟨execution.result.map f, execution.events⟩

/-- `Child::wait_with_output`, with the stdin of the child closed: it reads both outputs to their end and waits. -/
def waitWithOutput (os : OperatingSystem) : Execution (Except String Output) :=
  match os.wait with
  | none => ⟨none, []⟩
  | some answer => ⟨some (answer.map fun status => ⟨status, os.stdout, os.stderr⟩), [.wait answer]⟩

/-- `Command::output`. -/
def Command.output (os : OperatingSystem) (command : Command) : Execution (Except String Output) :=
  match os.spawn command with
  | .error error => ⟨some (.error error), [.spawn command (.error error)]⟩
  | .ok () => (waitWithOutput os).after [.spawn command (.ok ())]

/-! ### `execute_local` -/

def processOutput (output : Output) : ProcessOutput := ⟨output.status.code, output.stdout, output.stderr⟩

def ProcessInvocation.command (invocation : ProcessInvocation) : Command where
  program := invocation.program
  args := invocation.args
  currentDir := invocation.workingDirectory
  env := invocation.environment.map fun entry => (entry.name, entry.value)
  stdin := if invocation.stdin.isSome then .piped else .null
  stdout := .piped
  stderr := .piped

/-- The branch with stdin. Where the write fails, the child is dropped as it is. -/
def executeWithStdin (os : OperatingSystem) (command : Command) (stdin : Bytes) :
    Execution (Except ProcessExecutionError ProcessOutput) :=
  match os.spawn command with
  | .error error => ⟨some (.error (.spawnFailed error)), [.spawn command (.error error)]⟩
  | .ok () =>
    match Writer.writeAll ⟨os.stdin, []⟩ stdin with
    | (none, writer) => ⟨none, [.spawn command (.ok ()), .stdin writer.written]⟩
    | (some (.error error), writer) =>
      ⟨some (.error (.stdinWriteFailed error)), [.spawn command (.ok ()), .stdin writer.written, .stdinClosed]⟩
    | (some (.ok ()), writer) =>
      ((waitWithOutput os).map fun output => (output.map processOutput).mapError .waitFailed).after
        [.spawn command (.ok ()), .stdin writer.written, .stdinClosed]

def executeLocal (os : OperatingSystem) (invocation : ProcessInvocation) :
    Execution (Except ProcessExecutionError ProcessOutput) :=
  match invocation.stdin with
  | some stdin => executeWithStdin os invocation.command stdin
  | none => (invocation.command.output os).map fun output => (output.map processOutput).mapError .spawnFailed

end Fabric.Process
