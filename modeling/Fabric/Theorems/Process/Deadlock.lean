import Fabric.Process.Local
import Mathlib.Data.List.Infix

/-! When running a child with stdin can deadlock on the pipes: the parent reads no output before it has written the
    whole payload, so a child that answers while it reads may block on a full output pipe with its stdin pipe full. -/

namespace Fabric.Process
open Rust Transition

/-! ### What a child writes -/

/-- What the child writes up to its next read, over all its reads. -/
def Child.written (child : Child) (chunks : List Bytes) : List (Stream × UInt8) := chunks.inits.flatMap child.writes

/-- The bytes of a list of writes that go to one output. -/
def bytesTo (stream : Stream) (writes : List (Stream × UInt8)) : Bytes :=
  writes.filterMap fun write => if write.1 = stream then some write.2 else none

/-- Chunks that the reads of the child can return from a pipe. -/
inductive Reads (child : Child) (capacity : Nat) : List Bytes → Prop where
  | nil : Reads child capacity []
  | snoc {chunks : List Bytes} {chunk : Bytes} (reads : Reads child capacity chunks) (nonempty : chunk ≠ [])
      (asked : chunk.length ≤ child.ask chunks) (held : chunk.length ≤ capacity) :
      Reads child capacity (chunks ++ [chunk])

/-- While more of the payload is unread than the stdin pipe holds, what the child has written up to its next read fits
    into each of its output pipes. -/
def Fits (c : Capacities) (child : Child) (payload : Bytes) : Prop :=
  ∀ chunks, Reads child c.stdin chunks → chunks.flatten <+: payload →
    chunks.flatten.length + c.stdin < payload.length →
    ∀ stream, (bytesTo stream (child.written chunks)).length ≤ c.output stream

variable {c : Capacities} {child : Child} {stdin : Option Bytes} {s t : State c}

@[simp] theorem bytesTo_append (stream : Stream) (writes writes' : List (Stream × UInt8)) :
    bytesTo stream (writes ++ writes') = bytesTo stream writes ++ bytesTo stream writes' :=
  List.filterMap_append

theorem bytesTo_cons (stream : Stream) (write : Stream × UInt8) (writes : List (Stream × UInt8)) :
    bytesTo stream (write :: writes) = (if write.1 = stream then [write.2] else []) ++ bytesTo stream writes := by
  by_cases h : write.1 = stream
  · simp [bytesTo, h]
  · simp [bytesTo, h]

@[simp] theorem written_nil (child : Child) : child.written [] = child.writes [] := by
  simp [Child.written]

theorem written_snoc (child : Child) (chunks : List Bytes) (chunk : Bytes) :
    child.written (chunks ++ [chunk]) = child.written chunks ++ child.writes (chunks ++ [chunk]) := by
  simp [Child.written, List.inits_append]

/-! ### Steps -/

theorem parentWrite_eq_some : step child s .parentWrite = some t ↔ ∃ byte rest stdin,
    s.parent = .writeAll (byte :: rest) ∧ s.stdin.write byte = some stdin ∧
      t = { s with parent := .writeAll rest, stdin } := by
  rw [step]
  split
  · rename_i byte rest heq
    simp [heq, eq_comm (a := t)]
  · rename_i hnone
    refine iff_of_false (by simp) ?_
    rintro ⟨byte, rest, -, heq, -⟩
    exact hnone byte rest heq

theorem dropStdin_eq_some : step child s .dropStdin = some t ↔
    s.parent = .writeAll [] ∧ t = { s with parent := .waitWithOutput } := by
  simp [step, eq_comm (a := t)]

theorem parentRead_eq_some {stream : Stream} {n : Nat} : step child s (.parentRead stream n) = some t ↔
    s.parent = .waitWithOutput ∧ ∃ bytes pipe, (s.output stream).read n = some (bytes, pipe) ∧ t = { s with
      output := Function.update s.output stream pipe
      captured := Function.update s.captured stream (s.captured stream ++ bytes) } := by
  simp [step, eq_comm (a := t)]

theorem outputsClosed_eq_some : step child s .outputsClosed = some t ↔
    (s.parent = .waitWithOutput ∧ s.child = .exited ∧ ∀ stream, (s.output stream).content = []) ∧
      t = { s with parent := .wait } := by
  have hall : (∀ stream, (s.output stream).content = []) ↔
      (s.output .stdout).content = [] ∧ (s.output .stderr).content = [] := by
    constructor
    · intro h
      exact ⟨h .stdout, h .stderr⟩
    · rintro ⟨hout, herr⟩ (_ | _)
      · exact hout
      · exact herr
  rw [hall]
  simp [step, eq_comm (a := t)]

theorem parentWait_eq_some : step child s .parentWait = some t ↔
    (s.parent = .wait ∧ s.child = .exited) ∧ t = { s with parent := .returned } := by
  simp [step, eq_comm (a := t)]

theorem childWrite_eq_some : step child s .childWrite = some t ↔ ∃ stream byte rest pipe,
    s.pending = (stream, byte) :: rest ∧ (s.output stream).write byte = some pipe ∧
      t = { s with output := Function.update s.output stream pipe, pending := rest } := by
  rw [step]
  split
  · rename_i stream byte rest heq
    constructor
    · intro h
      obtain ⟨pipe, hwrite, rfl⟩ := Option.map_eq_some_iff.mp h
      exact ⟨stream, byte, rest, pipe, heq, hwrite, rfl⟩
    · rintro ⟨stream', byte', rest', pipe, heq', hwrite, rfl⟩
      cases heq.symm.trans heq'
      exact Option.map_eq_some_iff.mpr ⟨pipe, hwrite, rfl⟩
  · rename_i heq
    simp [heq]

theorem childRead_eq_some {n : Nat} : step child s (.childRead n) = some t ↔
    (s.child = .reading ∧ s.pending = [] ∧ n ≤ child.ask s.chunks) ∧ ∃ chunk stdin,
      s.stdin.read n = some (chunk, stdin) ∧ t = { s with
        stdin
        chunks := s.chunks ++ [chunk]
        pending := child.writes (s.chunks ++ [chunk]) } := by
  simp [step, eq_comm (a := t)]

theorem childEof_eq_some : step child s .childEof = some t ↔
    ((∀ rest, s.parent ≠ .writeAll rest) ∧ s.child = .reading ∧ s.pending = [] ∧ s.stdin.content = []) ∧
      t = { s with child := .finishing, pending := child.finalWrites s.chunks } := by
  rw [step]
  split
  · rename_i rest heq
    simp [heq]
  · rename_i hclosed
    rw [Option.ite_none_right_eq_some, Option.some.injEq, eq_comm]
    constructor
    · rintro ⟨hguard, rfl⟩
      exact ⟨⟨hclosed, hguard⟩, rfl⟩
    · rintro ⟨⟨-, hguard⟩, rfl⟩
      exact ⟨hguard, rfl⟩

theorem childExit_eq_some : step child s .childExit = some t ↔
    (s.child = .finishing ∧ s.pending = []) ∧ t = { s with child := .exited } := by
  simp [step, eq_comm (a := t)]

/-! ### The invariant -/

/-- The bytes that the parent has yet to write. -/
def ParentPhase.rest : ParentPhase → Bytes
  | .writeAll rest => rest
  | _ => []

/-- All that the child was to write so far. -/
def State.written (child : Child) (s : State c) : List (Stream × UInt8) :=
  match s.child with
  | .reading => child.written s.chunks
  | _ => child.written s.chunks ++ child.finalWrites s.chunks

structure Inv (child : Child) (payload : Bytes) (s : State c) : Prop where
  payload : s.chunks.flatten ++ (s.stdin.content ++ s.parent.rest) = payload
  reads : Reads child c.stdin s.chunks
  output : ∀ stream, s.captured stream ++ ((s.output stream).content ++ bytesTo stream s.pending) =
    bytesTo stream (s.written child)
  writing : ∀ rest, s.parent = .writeAll rest → s.child = .reading ∧ ∀ stream, s.captured stream = []
  finishing : s.child ≠ .reading → s.stdin.content = []
  exited : s.child = .exited → s.pending = []
  closed : s.parent = .wait ∨ s.parent = .returned → s.child = .exited ∧ ∀ stream, (s.output stream).content = []

theorem inv_spawned (c : Capacities) (child : Child) (stdin : Option Bytes) :
    Inv child (stdin.getD []) (.spawned child stdin : State c) := by
  cases stdin <;>
    exact ⟨by simp [State.spawned, ParentPhase.rest], .nil, by simp [State.spawned, State.written],
      by simp [State.spawned], by simp [State.spawned], by simp [State.spawned], by simp [State.spawned]⟩

/-- The parent waits for the outputs as long as the child runs. -/
theorem Inv.not_closed {payload : Bytes} (h : Inv child payload s) (hchild : s.child ≠ .exited) :
    ¬(s.parent = .wait ∨ s.parent = .returned) := fun hparent => hchild (h.closed hparent).1

/-- A read of the parent moves bytes of the stream from its pipe to what is captured. -/
theorem Inv.parentRead {payload : Bytes} {stream : Stream} {n : Nat} (h : Inv child payload s)
    (hstep : step child s (.parentRead stream n) = some t) : Inv child payload t := by
  obtain ⟨hpayload, hreads, houtput, -, hfinishing, hexited, -⟩ := h
  obtain ⟨hparent, bytes, pipe, hread, rfl⟩ := parentRead_eq_some.mp hstep
  obtain ⟨-, -, hcontent⟩ := Pipe.read_eq_some.mp hread
  refine ⟨hpayload, hreads, fun stream' => ?_, by simp [hparent], hfinishing, hexited, by simp [hparent]⟩
  have hout := houtput stream'
  by_cases heq : stream' = stream
  · subst heq
    rw [hcontent] at hout
    simpa [State.written] using hout
  · simpa [State.written, Function.update_of_ne heq] using hout

/-- A write of the child moves its next byte into the pipe of the stream. -/
theorem Inv.childWrite {payload : Bytes} (h : Inv child payload s)
    (hstep : step child s .childWrite = some t) : Inv child payload t := by
  have hopen := h.not_closed
  obtain ⟨hpayload, hreads, houtput, hwriting, hfinishing, hexited, -⟩ := h
  obtain ⟨stream, byte, rest, pipe, hpending, hwrite, rfl⟩ := childWrite_eq_some.mp hstep
  obtain ⟨-, hcontent⟩ := Pipe.write_eq_some.mp hwrite
  have hrunning : s.child ≠ .exited := fun hchild => by simp [hexited hchild] at hpending
  refine ⟨hpayload, hreads, fun stream' => ?_, hwriting, hfinishing, fun hchild => absurd hchild hrunning,
    fun hparent => absurd hparent (hopen hrunning)⟩
  have hout := houtput stream'
  rw [hpending, bytesTo_cons] at hout
  by_cases heq : stream = stream'
  · subst heq
    simpa [State.written, hcontent] using hout
  · simpa [State.written, heq, Function.update_of_ne (Ne.symm heq)] using hout

/-- A read of the child takes a chunk of the payload, and sets what the child writes next. -/
theorem Inv.childRead {payload : Bytes} {n : Nat} (h : Inv child payload s)
    (hstep : step child s (.childRead n) = some t) : Inv child payload t := by
  have hopen := h.not_closed
  obtain ⟨hpayload, hreads, houtput, hwriting, -, -, -⟩ := h
  obtain ⟨⟨hchild, hpending, hask⟩, chunk, stdin, hread, rfl⟩ := childRead_eq_some.mp hstep
  obtain ⟨hpos, rfl, hcontent⟩ := Pipe.read_eq_some.mp hread
  have hheld : chunk.length ≤ c.stdin := by
    have hbounded := s.stdin.bounded
    rw [hcontent, List.length_append] at hbounded
    omega
  refine ⟨?_, .snoc hreads (List.ne_nil_of_length_pos hpos) hask hheld, fun stream => ?_, hwriting,
    fun hne => absurd hchild hne, by simp [hchild], fun hparent => absurd hparent (hopen (by simp [hchild]))⟩
  · rw [← hpayload, hcontent]
    simp
  · have hout := houtput stream
    simp only [State.written, hchild, hpending] at hout ⊢
    rw [written_snoc, bytesTo_append, ← hout]
    simp [bytesTo]

theorem Inv.step {payload : Bytes} {action : Action} (h : Inv child payload s)
    (hstep : step child s action = some t) : Inv child payload t := by
  cases action with
  | parentWrite =>
    obtain ⟨byte, rest, stdin, hparent, hwrite, rfl⟩ := parentWrite_eq_some.mp hstep
    obtain ⟨-, hcontent⟩ := Pipe.write_eq_some.mp hwrite
    have hw := h.writing _ hparent
    refine ⟨?_, h.reads, h.output, fun _ _ => hw, fun hne => absurd hw.1 hne, h.exited, by simp⟩
    rw [← h.payload, hparent, hcontent]
    simp [ParentPhase.rest]
  | dropStdin =>
    obtain ⟨hparent, rfl⟩ := dropStdin_eq_some.mp hstep
    refine ⟨?_, h.reads, h.output, by simp, h.finishing, h.exited, by simp⟩
    rw [← h.payload, hparent]
    rfl
  | parentRead stream n => exact h.parentRead hstep
  | outputsClosed =>
    obtain ⟨⟨hparent, hchild, hempty⟩, rfl⟩ := outputsClosed_eq_some.mp hstep
    refine ⟨?_, h.reads, h.output, by simp, h.finishing, h.exited, fun _ => ⟨hchild, hempty⟩⟩
    rw [← h.payload, hparent]
    rfl
  | parentWait =>
    obtain ⟨⟨hparent, hchild⟩, rfl⟩ := parentWait_eq_some.mp hstep
    refine ⟨?_, h.reads, h.output, by simp, h.finishing, h.exited, fun _ => h.closed (.inl hparent)⟩
    rw [← h.payload, hparent]
    rfl
  | childWrite => exact h.childWrite hstep
  | childRead n => exact h.childRead hstep
  | childEof =>
    obtain ⟨⟨hparent, hchild, hpending, hempty⟩, rfl⟩ := childEof_eq_some.mp hstep
    refine ⟨h.payload, h.reads, fun stream => ?_, fun rest heq => absurd heq (hparent rest), fun _ => hempty,
      by simp, fun hclosing => absurd hclosing (h.not_closed (by simp [hchild]))⟩
    have hout := h.output stream
    simp only [State.written, hchild, hpending] at hout ⊢
    rw [bytesTo_append, ← hout]
    simp [bytesTo]
  | childExit =>
    obtain ⟨⟨hchild, hpending⟩, rfl⟩ := childExit_eq_some.mp hstep
    refine ⟨h.payload, h.reads, fun stream => ?_, fun rest heq => ?_, fun _ => h.finishing (by simp [hchild]),
      fun _ => hpending, fun heq => ⟨rfl, (h.closed heq).2⟩⟩
    · have hout := h.output stream
      simp only [State.written, hchild] at hout ⊢
      exact hout
    · have hreading := (h.writing rest heq).1
      rw [hchild] at hreading
      cases hreading

theorem inv_of_reachable (h : Reachable child stdin s) : Inv child (stdin.getD []) s :=
  h.invariant (fun _ _ _ hs hstep => hs.step hstep) (inv_spawned c child stdin)

/-- When the parent returns, the child has read the whole payload, and what is captured is all that it wrote. -/
theorem captured_of_returned (h : Reachable child stdin s) (hreturned : s.parent = .returned) :
    s.chunks.flatten = stdin.getD [] ∧
      ∀ stream, s.captured stream = bytesTo stream (child.written s.chunks ++ child.finalWrites s.chunks) := by
  obtain ⟨hpayload, -, houtput, -, hfinishing, hexited, hclosed⟩ := inv_of_reachable h
  obtain ⟨hchild, hempty⟩ := hclosed (.inr hreturned)
  refine ⟨?_, fun stream => ?_⟩
  · rw [← hpayload, hfinishing (by simp [hchild]), hreturned]
    simp [ParentPhase.rest]
  · have hout := houtput stream
    rw [hempty stream, hexited hchild, State.written, hchild] at hout
    simpa [bytesTo] using hout

/-! ### Stuck states -/

/-- The parent is blocked in `write_all` on a full stdin pipe, and the child on a full output pipe. -/
structure Deadlocked (s : State c) : Prop where
  parent : ∃ byte rest, s.parent = .writeAll (byte :: rest)
  stdin : s.stdin.Full
  child : ∃ stream byte rest, s.pending = (stream, byte) :: rest ∧ (s.output stream).Full

theorem Deadlocked.stuck (h : Deadlocked s) : Stuck child s := by
  obtain ⟨⟨byte, rest, hparent⟩, hstdin, stream, byte', rest', hpending, hfull⟩ := h
  intro action
  rw [Option.eq_none_iff_forall_ne_some]
  intro t hstep
  cases action with
  | parentWrite =>
    obtain ⟨byte, rest, stdin, -, hwrite, -⟩ := parentWrite_eq_some.mp hstep
    rw [Pipe.write_eq_none.mpr hstdin] at hwrite
    cases hwrite
  | dropStdin =>
    have hdone := (dropStdin_eq_some.mp hstep).1
    simp [hparent] at hdone
  | parentRead stream n =>
    have hreading := (parentRead_eq_some.mp hstep).1
    simp [hparent] at hreading
  | outputsClosed =>
    have hclosed := (outputsClosed_eq_some.mp hstep).1.1
    simp [hparent] at hclosed
  | parentWait =>
    have hwait := (parentWait_eq_some.mp hstep).1.1
    simp [hparent] at hwait
  | childWrite =>
    obtain ⟨stream', byte', rest', pipe, hpending', hwrite, -⟩ := childWrite_eq_some.mp hstep
    cases hpending.symm.trans hpending'
    rw [Pipe.write_eq_none.mpr hfull] at hwrite
    cases hwrite
  | childRead n =>
    have hidle := (childRead_eq_some.mp hstep).1.2.1
    simp [hpending] at hidle
  | childEof => exact (childEof_eq_some.mp hstep).1.1 _ hparent
  | childExit =>
    have hidle := (childExit_eq_some.mp hstep).1.2
    simp [hpending] at hidle

theorem Stuck.no_step (h : Stuck child s) {action : Action} (hstep : step child s action = some t) : False := by
  rw [h action] at hstep
  cases hstep

/-- A pipe of positive capacity that is full can be read from. -/
theorem exists_read_of_full {capacity : Nat} {pipe : Pipe UInt8 capacity} (hcapacity : 0 < capacity) (h : pipe.Full) :
    ∃ bytes next, pipe.read 1 = some (bytes, next) := by
  unfold Pipe.Full at h
  obtain ⟨byte, rest, hcontent⟩ := List.exists_cons_of_length_pos (h ▸ hcapacity)
  refine ⟨[byte], ⟨rest, ?_⟩, Pipe.read_eq_some.mpr ⟨Nat.one_pos, rfl, hcontent⟩⟩
  have hbounded := pipe.bounded
  rw [hcontent, List.length_cons] at hbounded
  omega

/-- A child with nothing to write is blocked only by an empty stdin pipe that the parent may still write to. -/
theorem child_idle_of_stuck (hstuck : Stuck child s) (hchild : s.child ≠ .exited) (hpending : s.pending = []) :
    s.stdin.content = [] ∧ ∃ rest, s.parent = .writeAll rest := by
  have hreading : s.child = .reading := by
    cases hphase : s.child with
    | reading => rfl
    | finishing =>
      exact (hstuck.no_step (childExit_eq_some.mpr ⟨⟨hphase, hpending⟩, rfl⟩)).elim
    | exited => exact absurd hphase hchild
  have hempty : s.stdin.content = [] := by
    by_contra hne
    obtain ⟨byte, rest, hcontent⟩ := List.exists_cons_of_ne_nil hne
    have hbounded := s.stdin.bounded
    rw [hcontent, List.length_cons] at hbounded
    have hread : s.stdin.read 1 = some ([byte], ⟨rest, by omega⟩) :=
      Pipe.read_eq_some.mpr ⟨Nat.one_pos, rfl, hcontent⟩
    exact hstuck.no_step (childRead_eq_some.mpr ⟨⟨hreading, hpending, child.ask_pos s.chunks⟩, _, _, hread, rfl⟩)
  refine ⟨hempty, ?_⟩
  by_contra hclosed
  exact hstuck.no_step (childEof_eq_some.mpr ⟨⟨fun rest heq => hclosed ⟨rest, heq⟩, hreading, hpending, hempty⟩, rfl⟩)

/-- Once the parent reads the outputs, nothing is stuck, and before that only a deadlock is. -/
theorem deadlocked_of_stuck {payload : Bytes} (hinv : Inv child payload s) (hchild : s.child ≠ .exited)
    (hstuck : Stuck child s) : Deadlocked s := by
  have hwrite : ∀ stream byte rest, s.pending = (stream, byte) :: rest → (s.output stream).Full := by
    intro stream byte rest hpending
    rw [← Pipe.write_eq_none, Option.eq_none_iff_forall_ne_some]
    intro pipe hwrite
    exact hstuck.no_step (childWrite_eq_some.mpr ⟨stream, byte, rest, pipe, hpending, hwrite, rfl⟩)
  cases hparent : s.parent with
  | writeAll rest =>
    cases rest with
    | nil =>
      exact (hstuck.no_step (dropStdin_eq_some.mpr ⟨hparent, rfl⟩)).elim
    | cons byte rest =>
      have hfull : s.stdin.Full := by
        rw [← Pipe.write_eq_none, Option.eq_none_iff_forall_ne_some]
        intro stdin hwrite
        exact hstuck.no_step (parentWrite_eq_some.mpr ⟨byte, rest, stdin, hparent, hwrite, rfl⟩)
      refine ⟨⟨byte, rest, hparent⟩, hfull, ?_⟩
      rcases hpending : s.pending with _ | ⟨⟨stream, byte'⟩, rest'⟩
      · have hempty := (child_idle_of_stuck hstuck hchild hpending).1
        rw [Pipe.Full, hempty, List.length_nil] at hfull
        exact absurd hfull c.stdin_pos.ne
      · exact ⟨stream, byte', rest', rfl, hwrite stream byte' rest' hpending⟩
  | waitWithOutput =>
    exfalso
    rcases hpending : s.pending with _ | ⟨⟨stream, byte'⟩, rest'⟩
    · obtain ⟨rest, hwriting⟩ := (child_idle_of_stuck hstuck hchild hpending).2
      rw [hparent] at hwriting
      cases hwriting
    · obtain ⟨bytes, pipe, hread⟩ := exists_read_of_full (c.output_pos stream) (hwrite stream byte' rest' hpending)
      exact hstuck.no_step (parentRead_eq_some.mpr ⟨hparent, bytes, pipe, hread, rfl⟩)
  | wait => exact absurd (hinv.closed (.inl hparent)).1 hchild
  | returned => exact absurd (hinv.closed (.inr hparent)).1 hchild

/-- In a deadlock the child has more to write than an output pipe holds, with more of the payload left than the stdin
    pipe holds. -/
theorem not_deadlocked_of_fits {payload : Bytes} (hfits : Fits c child payload) (hinv : Inv child payload s) :
    ¬Deadlocked s := by
  rintro ⟨⟨byte, rest, hparent⟩, hfull, stream, byte', rest', hpending, hout⟩
  have hpayload := hinv.payload
  rw [hparent] at hpayload
  have hlength : s.chunks.flatten.length + c.stdin < payload.length := by
    rw [← hpayload, List.length_append, List.length_append, hfull]
    simp [ParentPhase.rest]
  have hroom := hfits s.chunks hinv.reads ⟨_, hpayload⟩ hlength stream
  obtain ⟨hreading, hcaptured⟩ := hinv.writing _ hparent
  have hwritten := congrArg List.length (hinv.output stream)
  rw [hcaptured, hpending, bytesTo_cons, if_pos rfl, State.written, hreading] at hwritten
  simp only [List.nil_append, List.length_append, List.length_singleton] at hwritten
  rw [hout] at hwritten
  omega

/-! ### Reaching a deadlock -/

/-- The parent writes while there is room and the child waits. -/
theorem reaches_fill (child : Child) {bytes rest : Bytes} (hparent : s.parent = .writeAll (bytes ++ rest))
    (hroom : s.stdin.content.length + bytes.length ≤ c.stdin) :
    ∃ stdin : Pipe UInt8 c.stdin, stdin.content = s.stdin.content ++ bytes ∧
      Reaches (step child) s { s with parent := .writeAll rest, stdin } := by
  induction bytes generalizing s with
  | nil =>
    refine ⟨s.stdin, (List.append_nil _).symm, ?_⟩
    rw [List.nil_append] at hparent
    rw [← hparent]
    exact .refl s
  | cons byte bytes ih =>
    rw [List.length_cons] at hroom
    obtain ⟨stdin, hwrite, hcontent⟩ := Pipe.exists_write byte (show s.stdin.content.length < c.stdin by omega)
    have hstep : step child s .parentWrite = some { s with parent := .writeAll (bytes ++ rest), stdin } :=
      parentWrite_eq_some.mpr ⟨byte, bytes ++ rest, stdin, hparent, hwrite, rfl⟩
    have hroom' : stdin.content.length + bytes.length ≤ c.stdin := by
      rw [hcontent, List.length_append, List.length_singleton]
      omega
    obtain ⟨stdin', hcontent', hreaches⟩ := ih (s := { s with parent := .writeAll (bytes ++ rest), stdin }) rfl hroom'
    exact ⟨stdin', by rw [hcontent', hcontent, List.append_assoc, List.singleton_append],
      (Reaches.single hstep).trans hreaches⟩

/-- The child writes until it is done or an output pipe is full. -/
theorem reaches_flush (child : Child) (s : State c) : ∃ output pending,
    Reaches (step child) s { s with output, pending } ∧
      (pending = [] ∨ ∃ stream byte rest, pending = (stream, byte) :: rest ∧ (output stream).Full) := by
  induction hpending : s.pending generalizing s with
  | nil => exact ⟨s.output, s.pending, .refl s, .inl hpending⟩
  | cons write rest ih =>
    obtain ⟨stream, byte⟩ := write
    cases hwrite : (s.output stream).write byte with
    | none =>
      exact ⟨s.output, s.pending, .refl s, .inr ⟨stream, byte, rest, hpending, Pipe.write_eq_none.mp hwrite⟩⟩
    | some pipe =>
      have hstep : step child s .childWrite =
          some { s with output := Function.update s.output stream pipe, pending := rest } :=
        childWrite_eq_some.mpr ⟨stream, byte, rest, pipe, hpending, hwrite, rfl⟩
      obtain ⟨output, pending, hreaches, hend⟩ :=
        ih { s with output := Function.update s.output stream pipe, pending := rest } rfl
      exact ⟨output, pending, (Reaches.single hstep).trans hreaches, hend⟩

/-- The parent writes one chunk, and the child reads it. -/
theorem reaches_read {chunk rest : Bytes} (hparent : s.parent = .writeAll (chunk ++ rest)) (hchild : s.child = .reading)
    (hpending : s.pending = []) (hstdin : s.stdin.content = []) (hnonempty : chunk ≠ [])
    (hasked : chunk.length ≤ child.ask s.chunks) (hheld : chunk.length ≤ c.stdin) :
    ∃ stdin : Pipe UInt8 c.stdin, stdin.content = [] ∧ Reaches (step child) s { s with
      parent := .writeAll rest
      stdin
      chunks := s.chunks ++ [chunk]
      pending := child.writes (s.chunks ++ [chunk]) } := by
  obtain ⟨stdin, hcontent, hfill⟩ := reaches_fill child hparent (by rw [hstdin]; simpa using hheld)
  rw [hstdin, List.nil_append] at hcontent
  have hread : stdin.read chunk.length = some (chunk, .empty) :=
    Pipe.read_eq_some.mpr ⟨List.length_pos_iff.mpr hnonempty, rfl, by simpa using hcontent⟩
  have hstep : step child { s with parent := .writeAll rest, stdin } (.childRead chunk.length) =
      some { s with
        parent := .writeAll rest
        stdin := .empty
        chunks := s.chunks ++ [chunk]
        pending := child.writes (s.chunks ++ [chunk]) } :=
    childRead_eq_some.mpr ⟨⟨hchild, hpending, hasked⟩, chunk, .empty, hread, rfl⟩
  exact ⟨.empty, rfl, hfill.trans (Reaches.single hstep)⟩

/-- The parent is writing, and the child has read these chunks and emptied its stdin pipe. -/
structure ReadSoFar (s : State c) (chunks : List Bytes) (rest : Bytes) : Prop where
  parent : s.parent = .writeAll rest
  child : s.child = .reading
  chunks : s.chunks = chunks
  stdin : s.stdin.content = []

def DeadlockReachable (c : Capacities) (child : Child) (payload : Bytes) : Prop :=
  ∃ s : State c, Reachable child (some payload) s ∧ s.child = .reading ∧ Deadlocked s

/-- The child writes all it has to before its next read, or else the rest of the payload fills the stdin pipe. -/
theorem ReadSoFar.settle {payload rest : Bytes} {chunks : List Bytes} (h : ReadSoFar s chunks rest)
    (hreachable : Reachable child (some payload) s) (hlong : c.stdin < rest.length) :
    DeadlockReachable c child payload ∨
      ∃ t : State c, Reachable child (some payload) t ∧ ReadSoFar t chunks rest ∧ t.pending = [] := by
  obtain ⟨output, pending, hflush, hdone | ⟨stream, byte, left, hblocked, hfull⟩⟩ := reaches_flush child s
  · exact .inr ⟨_, hreachable.trans hflush, ⟨h.parent, h.child, h.chunks, h.stdin⟩, hdone⟩
  · left
    have hsplit : s.parent = .writeAll (rest.take c.stdin ++ rest.drop c.stdin) := by
      rw [List.take_append_drop]
      exact h.parent
    have htake : (rest.take c.stdin).length = c.stdin := List.length_take_of_le hlong.le
    obtain ⟨stdin, hcontent, hfill⟩ := reaches_fill child (s := { s with output, pending }) hsplit
      (by rw [h.stdin, htake]; simp)
    obtain ⟨next, last, hleft⟩ := List.exists_cons_of_length_pos (l := rest.drop c.stdin)
      (by rw [List.length_drop]; omega)
    refine ⟨_, (hreachable.trans hflush).trans hfill, h.child, ⟨next, last, ?_⟩, ?_, stream, byte, left, hblocked,
      hfull⟩
    · exact congrArg ParentPhase.writeAll hleft
    · rw [Pipe.Full, hcontent, h.stdin, List.nil_append, htake]

theorem readSoFar_of_reads {payload rest : Bytes} {chunks : List Bytes} (hreads : Reads child c.stdin chunks)
    (hpayload : chunks.flatten ++ rest = payload) (hlong : c.stdin < rest.length) :
    DeadlockReachable c child payload ∨
      ∃ t : State c, Reachable child (some payload) t ∧ ReadSoFar t chunks rest ∧ t.pending = [] := by
  induction hreads generalizing rest with
  | nil =>
    obtain rfl : rest = payload := hpayload
    exact ReadSoFar.settle ⟨rfl, rfl, rfl, rfl⟩ (.refl _) hlong
  | @snoc chunks chunk hreads hnonempty hasked hheld ih =>
    have hpayload' : chunks.flatten ++ (chunk ++ rest) = payload := by simpa using hpayload
    have hlong' : c.stdin < (chunk ++ rest).length := by
      rw [List.length_append]
      omega
    rcases ih hpayload' hlong' with hdeadlock | ⟨t, hreachable, hsofar, hpending⟩
    · exact .inl hdeadlock
    · obtain ⟨stdin, hstdin, hread⟩ := reaches_read hsofar.parent hsofar.child hpending hsofar.stdin hnonempty
        (hsofar.chunks ▸ hasked) hheld
      have hnext : ReadSoFar { t with
          parent := .writeAll rest
          stdin
          chunks := t.chunks ++ [chunk]
          pending := child.writes (t.chunks ++ [chunk]) } (chunks ++ [chunk]) rest :=
        ⟨rfl, hsofar.child, by rw [hsofar.chunks], hstdin⟩
      exact hnext.settle (hreachable.trans hread) hlong

theorem fits_of_no_deadlock {payload : Bytes} (h : ¬DeadlockReachable c child payload) : Fits c child payload := by
  intro chunks hreads hprefix hlong stream
  obtain ⟨rest, hpayload⟩ := hprefix
  have hrest : c.stdin < rest.length := by
    rw [← hpayload, List.length_append] at hlong
    omega
  rcases readSoFar_of_reads hreads hpayload hrest with hdeadlock | ⟨t, hreachable, hsofar, hpending⟩
  · exact absurd hdeadlock h
  · have hinv := inv_of_reachable hreachable
    have hout := hinv.output stream
    rw [(hinv.writing _ hsofar.parent).2, hpending, State.written, hsofar.child, hsofar.chunks] at hout
    have hbounded := (t.output stream).bounded
    simp only [bytesTo, List.filterMap_nil, List.append_nil, List.nil_append] at hout
    rw [bytesTo, ← hout]
    exact hbounded

theorem neverStuck_of_fits {payload : Bytes} (h : Fits c child payload) : NeverStuck c child (some payload) := by
  intro s hreachable hchild hstuck
  have hinv := inv_of_reachable hreachable
  exact not_deadlocked_of_fits h hinv (deadlocked_of_stuck hinv hchild hstuck)

theorem no_deadlock_of_neverStuck {payload : Bytes} (h : NeverStuck c child (some payload)) :
    ¬DeadlockReachable c child payload := by
  rintro ⟨s, hreachable, hchild, hdeadlock⟩
  exact h s hreachable (by simp [hchild]) hdeadlock.stuck

/-- Without stdin the parent reads both outputs from the start, and nothing can get stuck. -/
theorem neverStuck_without_stdin (c : Capacities) (child : Child) : NeverStuck c child none := by
  intro s hreachable hchild hstuck
  have hinv := inv_of_reachable hreachable
  obtain ⟨⟨byte, rest, hparent⟩, -⟩ := deadlocked_of_stuck hinv hchild hstuck
  have hpayload := hinv.payload
  simp [hparent, ParentPhase.rest] at hpayload

/-- Running a child with stdin never gets stuck exactly when its output fits into the pipes for as long as the parent
    may still be writing. -/
theorem neverStuck_iff (c : Capacities) (child : Child) (payload : Bytes) :
    NeverStuck c child (some payload) ↔ Fits c child payload :=
  ⟨fun h => fits_of_no_deadlock (no_deadlock_of_neverStuck h), neverStuck_of_fits⟩

/-! ### A child that copies its stdin -/

/-- `cat`, with its buffer of 128 KiB. -/
def cat : Child where
  ask _ := 131072
  ask_pos _ := by decide
  writes chunks := (chunks.getLast?.getD []).map fun byte => (.stdout, byte)
  finalWrites _ := []

theorem cat_not_fits {chunk rest : Bytes} (hnonempty : chunk ≠ []) (hasked : chunk.length ≤ 131072)
    (hheld : chunk.length ≤ c.stdin) (houtput : c.output .stdout < chunk.length + chunk.length)
    (hrest : c.stdin < rest.length) : ¬Fits c cat (chunk ++ (chunk ++ rest)) := by
  intro hfits
  have hreads : Reads cat c.stdin ([] ++ [chunk] ++ [chunk]) :=
    .snoc (.snoc .nil hnonempty hasked hheld) hnonempty hasked hheld
  have hlong : ([] ++ [chunk] ++ [chunk] : List Bytes).flatten.length + c.stdin <
      (chunk ++ (chunk ++ rest)).length := by
    simp
    omega
  have hroom := hfits _ hreads ⟨rest, by simp⟩ hlong .stdout
  have hwritten : cat.written ([] ++ [chunk] ++ [chunk]) =
      chunk.map (Stream.stdout, ·) ++ chunk.map (Stream.stdout, ·) := by
    rw [written_snoc, written_snoc, written_nil]
    simp [cat]
  rw [hwritten] at hroom
  simp [bytesTo, List.filterMap_map] at hroom
  omega

/-- Pipes of 65536 bytes. -/
def linuxPipes : Capacities where
  stdin := 65536
  output _ := 65536
  stdin_pos := by decide
  output_pos _ := by decide

/-- Given 256 KiB, `cat` and its parent wait for each other. -/
theorem cat_stuck : ¬NeverStuck linuxPipes cat (some (List.replicate 262144 0)) := by
  intro h
  have hfits := fits_of_no_deadlock (no_deadlock_of_neverStuck h)
  have hsplit : List.replicate 262144 (0 : UInt8) =
      List.replicate 65536 0 ++ (List.replicate 65536 0 ++ List.replicate 131072 0) := by
    rw [List.replicate_append_replicate, List.replicate_append_replicate]
  have hlength : (List.replicate 65536 (0 : UInt8)).length = 65536 := List.length_replicate
  have hrest : (List.replicate 131072 (0 : UInt8)).length = 131072 := List.length_replicate
  rw [hsplit] at hfits
  have houtput :
      65536 < (List.replicate 65536 (0 : UInt8)).length + (List.replicate 65536 (0 : UInt8)).length := by omega
  have hlong : 65536 < (List.replicate 131072 (0 : UInt8)).length := by omega
  exact cat_not_fits (List.ne_nil_of_length_pos (by omega)) (by omega) hlength.le houtput hlong hfits

end Fabric.Process
