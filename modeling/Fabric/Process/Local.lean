import Fabric.Library.Pipe
import Fabric.Library.Rust
import Fabric.Library.Transition
import Mathlib.Logic.Function.Basic

/-! `execute_local` once the child has been spawned: the parent and the child, over the pipes between them. -/

namespace Fabric.Process
open Rust

/-- The outputs of a child that are piped to its parent. -/
inductive Stream where
  | stdout
  | stderr
  deriving DecidableEq, Repr

structure Capacities where
  stdin : Nat
  output : Stream → Nat
  stdin_pos : 0 < stdin
  output_pos : ∀ stream, 0 < output stream

/-- A child that reads its stdin until EOF. What it does is a function of the chunks that its reads have returned: how
    much its next read asks for, what it writes before that read, and what it writes after EOF, before it exits. -/
structure Child where
  ask : List Bytes → Nat
  ask_pos : ∀ chunks, 0 < ask chunks
  writes : List Bytes → List (Stream × UInt8)
  finalWrites : List Bytes → List (Stream × UInt8)

inductive ParentPhase where
  /-- In `child_stdin.write_all`, with the bytes that are yet to be written. -/
  | writeAll (rest : Bytes)
  /-- In `wait_with_output`: the stdin of the child is dropped, and both outputs are read until EOF. -/
  | waitWithOutput
  /-- Both outputs are at EOF, and the parent waits for the child. -/
  | wait
  | returned
  deriving DecidableEq, Repr

inductive ChildPhase where
  | reading
  /-- Past EOF on its stdin. -/
  | finishing
  | exited
  deriving DecidableEq, Repr

structure State (c : Capacities) where
  parent : ParentPhase
  child : ChildPhase
  /-- What the reads of the child have returned. -/
  chunks : List Bytes
  /-- What the child has yet to write before its next read or its exit. -/
  pending : List (Stream × UInt8)
  stdin : Pipe UInt8 c.stdin
  output : (stream : Stream) → Pipe UInt8 (c.output stream)
  /-- What the parent has read, the `stdout` and `stderr` of the `Output`. -/
  captured : Stream → Bytes

variable {c : Capacities}

/-- After the spawn. Without stdin, `Command::output` gives the child the null device, which is at EOF, and goes on as
    `wait_with_output` does. -/
def State.spawned (child : Child) (stdin : Option Bytes) : State c where
  parent := match stdin with
    | some stdin => .writeAll stdin
    | none => .waitWithOutput
  child := .reading
  chunks := []
  pending := child.writes []
  stdin := .empty
  output _ := .empty
  captured _ := []

/-- A write of many bytes is a step for each of them, since a write to a pipe goes on as far as there is room. -/
inductive Action where
  | parentWrite
  | dropStdin
  | parentRead (stream : Stream) (n : Nat)
  | outputsClosed
  | parentWait
  | childWrite
  | childRead (n : Nat)
  | childEof
  | childExit
  deriving DecidableEq, Repr

def step (child : Child) (s : State c) : Action → Option (State c)
  | .parentWrite =>
    match s.parent with
    | .writeAll (byte :: rest) => (s.stdin.write byte).map fun stdin => { s with parent := .writeAll rest, stdin }
    | _ => none
  | .dropStdin => if s.parent = .writeAll [] then some { s with parent := .waitWithOutput } else none
  | .parentRead stream n =>
    if s.parent = .waitWithOutput then
      ((s.output stream).read n).map fun (bytes, pipe) => { s with
        output := Function.update s.output stream pipe
        captured := Function.update s.captured stream (s.captured stream ++ bytes) }
    else none
  | .outputsClosed =>
    -- The child holds the other ends of both pipes until it exits.
    if s.parent = .waitWithOutput ∧ s.child = .exited ∧ (s.output .stdout).content = [] ∧
        (s.output .stderr).content = [] then
      some { s with parent := .wait }
    else none
  | .parentWait => if s.parent = .wait ∧ s.child = .exited then some { s with parent := .returned } else none
  | .childWrite =>
    match s.pending with
    | (stream, byte) :: rest => ((s.output stream).write byte).map fun pipe =>
      { s with output := Function.update s.output stream pipe, pending := rest }
    | [] => none
  | .childRead n =>
    if s.child = .reading ∧ s.pending = [] ∧ n ≤ child.ask s.chunks then
      (s.stdin.read n).map fun (chunk, stdin) => { s with
        stdin
        chunks := s.chunks ++ [chunk]
        pending := child.writes (s.chunks ++ [chunk]) }
    else none
  | .childEof =>
    match s.parent with
    | .writeAll _ => none
    | _ =>
      if s.child = .reading ∧ s.pending = [] ∧ s.stdin.content = [] then
        some { s with child := .finishing, pending := child.finalWrites s.chunks }
      else none
  | .childExit =>
    if s.child = .finishing ∧ s.pending = [] then some { s with child := .exited } else none

/-- Neither the parent nor the child can take a step. -/
def Stuck (child : Child) (s : State c) : Prop := ∀ action, step child s action = none

def Reachable (child : Child) (stdin : Option Bytes) (s : State c) : Prop :=
  Transition.Reaches (step child) (.spawned child stdin) s

/-- No reachable state before the exit of the child is stuck. -/
def NeverStuck (c : Capacities) (child : Child) (stdin : Option Bytes) : Prop :=
  ∀ s : State c, Reachable child stdin s → s.child ≠ .exited → ¬Stuck child s

end Fabric.Process
