import Fabric.Http.Calls
import Fabric.Theorems.Http.Reading

/-! Reading a request is bounded and free of faults against any peer. -/

namespace Fabric.Http
open Rust Tcp

/-! ### The reader and its calls -/

section
variable (parse : Httparse.Parser)

theorem checkedSub_of_le {a b : Nat} (h : b ≤ a) : checkedSub a b = some (a - b) := if_pos h

theorem run_readHeadCalls (maxHeadBytes : Nat) (buffer : Bytes) (connection : ByteStream) :
    (readHeadCalls parse maxHeadBytes buffer).run ByteStream.readSome connection =
      ((readHead parse maxHeadBytes buffer connection).1.mapError .error,
        (readHead parse maxHeadBytes buffer connection).2) := by
  induction hn : maxHeadBytes - buffer.length using Nat.strongRecOn generalizing buffer connection with
  | ind n ih =>
    subst hn
    rw [readHeadCalls, readHead]
    rcases parse buffer with error | (⟨n, request⟩ | _)
    · rfl
    · rfl
    · by_cases hfull : maxHeadBytes ≤ buffer.length
      · simp only [if_pos hfull]
        rfl
      · simp only [if_neg hfull, checkedSub_of_le (Nat.le_of_not_le hfull), Interaction.run]
        rcases connection.readSome (min (maxHeadBytes - buffer.length) 1024) with
          ⟨error | (_ | ⟨b, bytes⟩), connection'⟩
        · rfl
        · rfl
        · refine ih _ ?_ _ _ rfl
          simp only [List.length_append, List.length_cons]
          omega

theorem run_readBodyCalls (needed : Nat) (buffer : Bytes) (connection : ByteStream) :
    (readBodyCalls needed buffer).run ByteStream.readSome connection =
      ((readBody needed buffer connection).1.mapError .error, (readBody needed buffer connection).2) := by
  induction hn : needed - buffer.length using Nat.strongRecOn generalizing buffer connection with
  | ind n ih =>
    subst hn
    rw [readBodyCalls, readBody]
    by_cases hshort : buffer.length < needed
    · simp only [if_pos hshort, checkedSub_of_le hshort.le, Interaction.run]
      rcases connection.readSome (min (needed - buffer.length) 8192) with ⟨error | (_ | ⟨b, bytes⟩), connection'⟩
      · rfl
      · rfl
      · refine ih _ ?_ _ _ rfl
        simp only [List.length_append, List.length_cons]
        omega
    · simp only [if_neg hshort]
      rfl

/-- Against a connection the calls of the reader come to what the reader does. -/
theorem run_readHttpRequestCalls (maxHeadBytes maxBodyBytes : Nat) (connection : ByteStream) :
    (readHttpRequestCalls parse maxHeadBytes maxBodyBytes).run ByteStream.readSome connection =
      readHttpRequest parse connection maxHeadBytes maxBodyBytes := by
  rw [readHttpRequestCalls, Interaction.run_bind, run_readHeadCalls, readHttpRequest]
  rcases readHead parse maxHeadBytes [] connection with ⟨error | ⟨headerLen, buffer⟩, connection'⟩
  · rfl
  · simp only [Except.mapError, readRequestCalls]
    rcases parse buffer with error | (⟨n, request⟩ | _)
    · rfl
    · dsimp only
      rcases checkHead request with error | head
      · rfl
      · by_cases hbody : maxBodyBytes < head.contentLength
        · simp only [if_pos hbody]
          rfl
        · simp only [if_neg hbody]
          rcases checkedAdd headerLen head.contentLength with _ | needed
          · rfl
          · simp only [Interaction.run_bind, run_readBodyCalls]
            rcases readBody needed buffer connection' with ⟨error | buffer', connection''⟩
            · rfl
            · rfl
    · rfl

end

/-! ### Budgets -/

/-- `read_some` returns at most as many bytes as it was asked for. -/
def Answered (size : Nat) (answer : ReadAnswer) : Prop := ∀ bytes, answer = .ok bytes → bytes.length ≤ size

/-- The bytes that an answer adds to the buffer. -/
def answerBytes : ReadAnswer → Nat
  | .ok bytes => bytes.length
  | .error _ => 0

/-- The budget that an answer leaves is what the grown buffer leaves. -/
theorem sub_answerBytes (total : Nat) (buffer bytes : Bytes) :
    total - buffer.length - answerBytes (.ok bytes) = total - (buffer ++ bytes).length := by
  rw [List.length_append, answerBytes, Nat.sub_sub]

theorem readSome_answered (connection : ByteStream) (size : Nat) : Answered size (connection.readSome size).1 := by
  intro bytes h
  unfold ByteStream.readSome at h
  split at h
  · cases h
  · split at h
    · cases h
      exact Nat.zero_le _
    · unfold ByteStream.read at h
      split at h <;> rename_i hread <;> split at hread <;> cases hread <;> cases h
      · exact Nat.zero_le _
      · rw [List.length_take]
        exact (Nat.min_le_left _ _).trans (Nat.min_le_left _ _)

section
variable {parse : Httparse.Parser} {maxHeadBytes maxBodyBytes total : Nat}

abbrev Reading.Affords {α : Type} (post : Nat → Nat → α → Prop) (program : Reading α) (calls budget : Nat) : Prop :=
  Interaction.Affords Answered answerBytes (0 < ·) post program calls budget

/-- After the first loop the head is in the buffer, and the rest of the budget is what the buffer leaves. -/
def HeadDone (parse : Httparse.Parser) (maxHeadBytes total calls budget : Nat) : Except Fault (Nat × Bytes) → Prop
  | .error fault => fault ≠ .panic
  | .ok (headerLen, buffer) => (∃ request, parse buffer = .ok (.complete headerLen request)) ∧
      buffer.length ≤ maxHeadBytes ∧ budget = total - buffer.length ∧ total - buffer.length < calls

def BodyDone (needed : Nat) : Except Fault Bytes → Prop
  | .error fault => fault ≠ .panic
  | .ok buffer => needed ≤ buffer.length

/-- Each answer that the loop goes on with adds to the buffer, so the room in it bounds the calls. -/
theorem readHeadCalls_affords (htotal : maxHeadBytes ≤ total) {buffer : Bytes} (hbuffer : buffer.length ≤ maxHeadBytes)
    {calls : Nat} (hcalls : total - buffer.length < calls) :
    (readHeadCalls parse maxHeadBytes buffer : Reading _).Affords (HeadDone parse maxHeadBytes total) calls
      (total - buffer.length) := by
  induction hn : maxHeadBytes - buffer.length using Nat.strongRecOn generalizing buffer calls with
  | ind n ih =>
    subst hn
    rw [readHeadCalls]
    rcases hparse : parse buffer with error | (⟨headerLen, request⟩ | _)
    · simp [Interaction.Affords, HeadDone]
    · exact ⟨⟨request, hparse⟩, hbuffer, rfl, hcalls⟩
    · by_cases hfull : maxHeadBytes ≤ buffer.length
      · simp only [if_pos hfull]
        simp [Interaction.Affords, HeadDone]
      · simp only [if_neg hfull, checkedSub_of_le hbuffer]
        refine ⟨by omega, by omega, fun answer hanswer => ?_⟩
        rcases answer with error | (_ | ⟨b, bytes⟩)
        · exact ⟨Nat.zero_le _, by simp [Interaction.Affords, HeadDone]⟩
        · exact ⟨Nat.zero_le _, by simp [Interaction.Affords, HeadDone]⟩
        · have hsize : (b :: bytes).length ≤ maxHeadBytes - buffer.length :=
            (hanswer _ rfl).trans (Nat.min_le_left _ _)
          have hlength : (buffer ++ b :: bytes).length = buffer.length + (b :: bytes).length := List.length_append
          have hpos : 0 < (b :: bytes).length := Nat.succ_pos _
          refine ⟨show (b :: bytes).length ≤ _ by omega, ?_⟩
          rw [sub_answerBytes]
          exact ih _ (by omega) (by omega) (by omega) rfl

theorem readBodyCalls_affords {needed : Nat} (hneeded : needed ≤ total) {buffer : Bytes} {calls : Nat}
    (hcalls : total - buffer.length < calls) :
    (readBodyCalls needed buffer : Reading _).Affords (fun _ _ => BodyDone needed) calls (total - buffer.length) := by
  induction hn : needed - buffer.length using Nat.strongRecOn generalizing buffer calls with
  | ind n ih =>
    subst hn
    rw [readBodyCalls]
    by_cases hshort : buffer.length < needed
    · simp only [if_pos hshort, checkedSub_of_le hshort.le]
      refine ⟨by omega, by omega, fun answer hanswer => ?_⟩
      rcases answer with error | (_ | ⟨b, bytes⟩)
      · exact ⟨Nat.zero_le _, by simp [Interaction.Affords, BodyDone]⟩
      · exact ⟨Nat.zero_le _, by simp [Interaction.Affords, BodyDone]⟩
      · have hsize : (b :: bytes).length ≤ needed - buffer.length := (hanswer _ rfl).trans (Nat.min_le_left _ _)
        have hlength : (buffer ++ b :: bytes).length = buffer.length + (b :: bytes).length := List.length_append
        have hpos : 0 < (b :: bytes).length := Nat.succ_pos _
        refine ⟨show (b :: bytes).length ≤ _ by omega, ?_⟩
        rw [sub_answerBytes]
        exact ih _ (by omega) (by omega) rfl
    · simp only [if_neg hshort]
      exact Nat.not_lt.mp hshort

/-- The sum of the two limits fits, so neither sum nor difference can go wrong, and what the second parse and the final
    slice need is there. -/
theorem readRequestCalls_affords
    (hcomplete : ∀ {buffer n request}, parse buffer = .ok (.complete n request) → n ≤ buffer.length)
    (hfits : maxHeadBytes + maxBodyBytes ≤ usizeMax) {headerLen : Nat} {buffer : Bytes} {request : Httparse.Request}
    (hparse : parse buffer = .ok (.complete headerLen request)) (hbuffer : buffer.length ≤ maxHeadBytes) {calls : Nat}
    (hcalls : maxHeadBytes + maxBodyBytes - buffer.length < calls) :
    (readRequestCalls parse maxBodyBytes headerLen buffer : Reading _).Affords
      (fun _ _ result => result ≠ .error .panic)
      calls (maxHeadBytes + maxBodyBytes - buffer.length) := by
  have hhead := hcomplete hparse
  rw [readRequestCalls]
  simp only [hparse]
  rcases checkHead request with error | head
  · simp [Interaction.Affords]
  · dsimp only
    by_cases hbody : maxBodyBytes < head.contentLength
    · simp [if_pos hbody, Interaction.Affords]
    · have hneeded : checkedAdd headerLen head.contentLength = some (headerLen + head.contentLength) :=
        if_pos (by omega)
      simp only [if_neg hbody, hneeded]
      refine (readBodyCalls_affords (by omega) hcalls).bind fun calls budget result hdone => ?_
      rcases result with fault | buffer'
      · simpa [Interaction.Affords, BodyDone] using hdone
      · have hbounds : headerLen ≤ headerLen + head.contentLength ∧
            headerLen + head.contentLength ≤ buffer'.length := ⟨Nat.le_add_right _ _, hdone⟩
        have hrequest : requestOf head buffer' headerLen (headerLen + head.contentLength) = .ok _ := if_pos hbounds
        simp [Interaction.Affords, hrequest]

theorem readHttpRequestCalls_affords
    (hcomplete : ∀ {buffer n request}, parse buffer = .ok (.complete n request) → n ≤ buffer.length)
    (hfits : maxHeadBytes + maxBodyBytes ≤ usizeMax) :
    (readHttpRequestCalls parse maxHeadBytes maxBodyBytes : Reading _).Affords
      (fun _ _ result => result ≠ .error .panic) (maxHeadBytes + maxBodyBytes + 1) (maxHeadBytes + maxBodyBytes) := by
  have hread : (readHeadCalls parse maxHeadBytes [] : Reading _).Affords
      (HeadDone parse maxHeadBytes (maxHeadBytes + maxBodyBytes)) (maxHeadBytes + maxBodyBytes + 1)
      (maxHeadBytes + maxBodyBytes) :=
    readHeadCalls_affords (Nat.le_add_right _ _) (Nat.zero_le maxHeadBytes) (Nat.lt_succ_self _)
  refine hread.bind fun calls budget result hdone => ?_
  rcases result with fault | ⟨headerLen, buffer⟩
  · simpa [Interaction.Affords, HeadDone] using hdone
  · obtain ⟨⟨request, hparse⟩, hbuffer, rfl, hcalls⟩ := hdone
    exact readRequestCalls_affords hcomplete hfits hparse hbuffer hcalls

end

/-! ### Bounds -/

/-- What a reader has done once the calls of `trace` have been answered, and is at `rest`. -/
structure BoundedReading (maxHeadBytes maxBodyBytes : Nat) (trace : List (Nat × ReadAnswer))
    (rest : Reading (Except Fault HttpRequest)) : Prop where
  calls : trace.length ≤ maxHeadBytes + maxBodyBytes + 1
  held : Interaction.spent answerBytes trace ≤ maxHeadBytes + maxBodyBytes
  sizes : ∀ answered ∈ trace, 0 < answered.1
  next : ∀ size next, rest = .call size next → 0 < size ∧ trace.length < maxHeadBytes + maxBodyBytes + 1
  faultless : rest ≠ .done (.error .panic)

section
variable {parse : Httparse.Parser} {maxHeadBytes maxBodyBytes : Nat}

theorem boundedReading_of_steps
    (hcomplete : ∀ {buffer n request}, parse buffer = .ok (.complete n request) → n ≤ buffer.length)
    (hfits : maxHeadBytes + maxBodyBytes ≤ usizeMax) {trace : List (Nat × ReadAnswer)}
    {rest : Reading (Except Fault HttpRequest)}
    (hsteps : (readHttpRequestCalls parse maxHeadBytes maxBodyBytes).Steps trace rest)
    (hanswered : ∀ answered ∈ trace, Answered answered.1 answered.2) :
    BoundedReading maxHeadBytes maxBodyBytes trace rest := by
  obtain ⟨hsizes, hcalls, hheld, hrest⟩ := (readHttpRequestCalls_affords hcomplete hfits).steps hsteps hanswered
  refine ⟨hcalls, hheld, hsizes, ?_, ?_⟩
  · rintro size next rfl
    obtain ⟨hsize, hleft, -⟩ := hrest
    exact ⟨hsize, by omega⟩
  · rintro rfl
    exact hrest rfl

theorem boundedReading_of_peer
    (hcomplete : ∀ {buffer n request}, parse buffer = .ok (.complete n request) → n ≤ buffer.length)
    (hfits : maxHeadBytes + maxBodyBytes ≤ usizeMax) {σ : Type} {peer : σ → Nat → ReadAnswer × σ}
    (hpeer : ∀ s size, Answered size (peer s size).1) (s : σ) :
    BoundedReading maxHeadBytes maxBodyBytes
      ((readHttpRequestCalls parse maxHeadBytes maxBodyBytes).trace peer s)
      (.done ((readHttpRequestCalls parse maxHeadBytes maxBodyBytes).run peer s).1) :=
  boundedReading_of_steps hcomplete hfits (Interaction.steps_trace peer _ s)
    (Interaction.allowed_of_mem_trace hpeer _ s)

/-- A connection is such a peer, so `read_http_request` does not panic on it. -/
theorem readHttpRequest_ne_panic
    (hcomplete : ∀ {buffer n request}, parse buffer = .ok (.complete n request) → n ≤ buffer.length)
    (hfits : maxHeadBytes + maxBodyBytes ≤ usizeMax) (connection : ByteStream) :
    (readHttpRequest parse connection maxHeadBytes maxBodyBytes).1 ≠ .error .panic := by
  have hbounded := boundedReading_of_peer hcomplete hfits readSome_answered connection
  rw [run_readHttpRequestCalls] at hbounded
  intro hpanic
  exact hbounded.faultless (congrArg Interaction.done hpanic)

end

/-- Reading a request is bounded and free of faults, at every point of a run and at its end, which is reached against
    every peer. -/
theorem reading_bounded (parse : Httparse.Parser)
    (hcomplete : ∀ {buffer n request}, parse buffer = .ok (.complete n request) → n ≤ buffer.length)
    (maxHeadBytes maxBodyBytes : Nat) (hfits : maxHeadBytes + maxBodyBytes ≤ usizeMax) :
    (∀ trace rest, (readHttpRequestCalls parse maxHeadBytes maxBodyBytes).Steps trace rest →
      (∀ answered ∈ trace, Answered answered.1 answered.2) → BoundedReading maxHeadBytes maxBodyBytes trace rest) ∧
    ∀ (σ : Type) (peer : σ → Nat → ReadAnswer × σ) (s : σ), (∀ s size, Answered size (peer s size).1) →
      BoundedReading maxHeadBytes maxBodyBytes
        ((readHttpRequestCalls parse maxHeadBytes maxBodyBytes).trace peer s)
        (.done ((readHttpRequestCalls parse maxHeadBytes maxBodyBytes).run peer s).1) :=
  ⟨fun _ _ hsteps hanswered => boundedReading_of_steps hcomplete hfits hsteps hanswered,
    fun _ _ s hpeer => boundedReading_of_peer hcomplete hfits hpeer s⟩

/-- A peer that sends the rest of its bytes one for each read, and then dots, and never closes. -/
def dripping (rest : Bytes) (size : Nat) : ReadAnswer × Bytes :=
  match rest with
  | [] => (.ok (List.take size [46]), [])
  | b :: rest => (.ok (List.take size [b]), rest)

theorem reading_bounded_dripping : BoundedReading 39 3
    ((readHttpRequestCalls (knownHead postHead postRequest) 39 3).trace dripping (postHead ++ asBytes "abcd"))
    (.done
      ((readHttpRequestCalls (knownHead postHead postRequest) 39 3).run dripping (postHead ++ asBytes "abcd")).1) := by
  have hparse := knownHead_lawful postHead postRequest
  refine (reading_bounded _ hparse.complete_le 39 3 (by decide)).2 Bytes dripping _ fun rest size => ?_
  rintro bytes hbytes
  cases rest <;> cases hbytes <;> exact (List.length_take_le _ _)

end Fabric.Http
