import Fabric.Http.Codec

/-! Reading a request in pieces gives what decoding the whole stream at once gives, however the transport cuts it. -/

namespace Fabric.Http
open Rust Tcp

/-! ### Decoding at once -/

/-- The kind of error with which reading ends where the stream does. -/
def endOfStream : Option String → HttpErrorKind
  | none => .incompleteRequest
  | some _ => .transport

/-- The request at the head of a whole stream, which ends as `readFailure` says, or the kind of the error. -/
def decode (parse : Httparse.Parser) (maxHeadBytes maxBodyBytes : Nat) (stream : Bytes)
    (readFailure : Option String) : Except HttpErrorKind HttpRequest :=
  match parse (stream.take maxHeadBytes) with
  | .error _ => .error .malformedRequest
  | .ok .incomplete =>
    if maxHeadBytes ≤ stream.length then .error .requestTooLarge else .error (endOfStream readFailure)
  | .ok (.complete n request) =>
    match checkHead request with
    | .error error => .error error.kind
    | .ok head =>
      if maxBodyBytes < head.contentLength then .error .requestTooLarge
      else if stream.length < n + head.contentLength then .error (endOfStream readFailure)
      else
        .ok { method := head.method, target := head.target, version := head.version, headers := head.headers
              body := (stream.drop n).take head.contentLength }

/-- The kind of the error of a call that does not panic. -/
def Fault.kind? : Fault → Option HttpErrorKind
  | .error e => some e.kind
  | .panic => none

section
variable {parse : Httparse.Parser} {maxHeadBytes needed : Nat} {buffer : Bytes} {connection : ByteStream}

/-! ### The head -/

/-- What the first loop finds in the stream whose first bytes are in the buffer. -/
structure HeadRead (parse : Httparse.Parser) (maxHeadBytes : Nat) (buffer : Bytes) (connection : ByteStream)
    (out : Except HttpError (Nat × Bytes) × ByteStream) : Prop where
  ends : ByteStream.SameEnds connection out.2
  error {e : Httparse.ParseError} : parse ((buffer ++ connection.incoming).take maxHeadBytes) = .error e →
    ∃ detail, out.1 = .error ⟨.malformedRequest, detail⟩
  incomplete : parse ((buffer ++ connection.incoming).take maxHeadBytes) = .ok .incomplete →
    ∃ detail, out.1 = .error ⟨if maxHeadBytes ≤ (buffer ++ connection.incoming).length then .requestTooLarge
      else endOfStream connection.readFailure, detail⟩
  complete {n : Nat} {request : Httparse.Request} :
    parse ((buffer ++ connection.incoming).take maxHeadBytes) = .ok (.complete n request) →
    ∃ buffer', out.1 = .ok (n, buffer') ∧ parse buffer' = .ok (.complete n request) ∧
      buffer' ++ out.2.incoming = buffer ++ connection.incoming ∧ buffer'.length ≤ maxHeadBytes

/-- The loop gives up on a head that the parser cannot complete from all it may see of the stream. -/
theorem HeadRead.stop {kind : HttpErrorKind} {detail : String} (hp : parse buffer = .ok .incomplete)
    (hwhole : (buffer ++ connection.incoming).take maxHeadBytes = buffer)
    (hkind : kind = if maxHeadBytes ≤ (buffer ++ connection.incoming).length then .requestTooLarge
      else endOfStream connection.readFailure) :
    HeadRead parse maxHeadBytes buffer connection (.error ⟨kind, detail⟩, connection) where
  ends := .refl _
  error h := by
    rw [hwhole, hp] at h
    cases h
  incomplete _ := ⟨detail, by rw [← hkind]⟩
  complete h := by
    rw [hwhole, hp] at h
    cases h

theorem readHead_spec (hparse : Httparse.Lawful parse) (hlive : connection.generationLive = true)
    (hlen : buffer.length ≤ maxHeadBytes) :
    HeadRead parse maxHeadBytes buffer connection (readHead parse maxHeadBytes buffer connection) := by
  induction hn : maxHeadBytes - buffer.length using Nat.strongRecOn generalizing buffer connection with
  | ind n ih =>
    subst hn
    have htake : (buffer ++ connection.incoming).take maxHeadBytes =
        buffer ++ connection.incoming.take (maxHeadBytes - buffer.length) := by
      rw [List.take_append, List.take_of_length_le hlen]
    rw [readHead]
    cases hp : parse buffer with
    | error e =>
      obtain ⟨e', he'⟩ := hparse.error_append (connection.incoming.take (maxHeadBytes - buffer.length)) hp
      rw [← htake] at he'
      refine ⟨.refl _, fun _ => ⟨_, rfl⟩, fun h => ?_, fun h => ?_⟩ <;> rw [he'] at h <;> cases h
    | ok status =>
      cases status with
      | complete n request =>
        have hc := hparse.complete_append (connection.incoming.take (maxHeadBytes - buffer.length)) hp
        rw [← htake] at hc
        refine ⟨.refl _, fun h => ?_, fun h => ?_, fun h => ?_⟩ <;> rw [hc] at h <;> cases h
        exact ⟨buffer, rfl, hp, rfl, hlen⟩
      | incomplete =>
        by_cases hfull : maxHeadBytes ≤ buffer.length
        · -- The buffer is full, and the parser has asked for more.
          have hwhole : (buffer ++ connection.incoming).take maxHeadBytes = buffer := by
            rw [htake, Nat.sub_eq_zero_of_le hfull, List.take_zero, List.append_nil]
          simp only [if_pos hfull]
          refine .stop hp hwhole (if_pos ?_).symm
          simp only [List.length_append]
          omega
        · have hpos : 0 < min (maxHeadBytes - buffer.length) 1024 := by omega
          simp only [if_neg hfull]
          rcases ByteStream.readSome_cases hlive hpos with ⟨hin, hfail, hread⟩ | ⟨detail, hin, hfail, hread⟩ |
            ⟨bytes, conn', hread, hne, hle, hin, hends⟩
          · simp only [hread]
            refine .stop hp ?_ ?_
            · rw [hin, List.append_nil, List.take_of_length_le hlen]
            · rw [hin, List.append_nil, if_neg hfull, hfail]
              rfl
          · simp only [hread]
            refine .stop hp ?_ ?_
            · rw [hin, List.append_nil, List.take_of_length_le hlen]
            · rw [hin, List.append_nil, if_neg hfull, hfail]
              rfl
          · -- The bytes that arrive move from the connection to the end of the buffer.
            obtain ⟨b, bytes, rfl⟩ := List.exists_cons_of_ne_nil hne
            simp only [hread]
            have hlen' : (buffer ++ b :: bytes).length ≤ maxHeadBytes := by
              simp only [List.length_append]
              omega
            have hdec : maxHeadBytes - (buffer ++ b :: bytes).length < maxHeadBytes - buffer.length := by
              simp only [List.length_append, List.length_cons]
              omega
            have hnext := ih _ hdec (hends.generationLive.trans hlive) hlen' rfl
            have hstream : (buffer ++ b :: bytes) ++ conn'.incoming = buffer ++ connection.incoming := by
              rw [hin, List.append_assoc]
            refine ⟨hends.trans hnext.ends, fun h => hnext.error (hstream ▸ h), fun h => ?_, fun h => ?_⟩
            · rw [← hstream, ← hends.readFailure]
              exact hnext.incomplete (hstream ▸ h)
            · rw [← hstream]
              exact hnext.complete (hstream ▸ h)

/-! ### The body -/

/-- What the second loop finds: the buffer grows to the needed length, unless the stream ends before. -/
structure BodyRead (needed : Nat) (buffer : Bytes) (connection : ByteStream)
    (out : Except HttpError Bytes × ByteStream) :
    Prop where
  ends : ByteStream.SameEnds connection out.2
  short : (buffer ++ connection.incoming).length < needed →
    ∃ detail, out.1 = .error ⟨endOfStream connection.readFailure, detail⟩
  enough : needed ≤ (buffer ++ connection.incoming).length →
    ∃ buffer', out.1 = .ok buffer' ∧ needed ≤ buffer'.length ∧
      buffer' ++ out.2.incoming = buffer ++ connection.incoming

theorem BodyRead.stop (detail : String) (hshort : buffer.length < needed) (hin : connection.incoming = []) :
    BodyRead needed buffer connection (.error ⟨endOfStream connection.readFailure, detail⟩, connection) where
  ends := .refl _
  short _ := ⟨detail, rfl⟩
  enough h := by
    rw [hin, List.append_nil] at h
    omega

theorem readBody_spec (hlive : connection.generationLive = true) :
    BodyRead needed buffer connection (readBody needed buffer connection) := by
  induction hn : needed - buffer.length using Nat.strongRecOn generalizing buffer connection with
  | ind n ih =>
    subst hn
    rw [readBody]
    by_cases hshort : buffer.length < needed
    · have hpos : 0 < min (needed - buffer.length) 8192 := by omega
      simp only [if_pos hshort]
      rcases ByteStream.readSome_cases hlive hpos with ⟨hin, hfail, hread⟩ | ⟨detail, hin, hfail, hread⟩ |
        ⟨bytes, conn', hread, hne, hle, hin, hends⟩
      · simp only [hread]
        have h := BodyRead.stop "connection closed before complete HTTP request body" hshort hin
        rwa [hfail] at h
      · simp only [hread]
        have h := BodyRead.stop detail hshort hin
        rwa [hfail] at h
      · obtain ⟨b, bytes, rfl⟩ := List.exists_cons_of_ne_nil hne
        simp only [hread]
        have hdec : needed - (buffer ++ b :: bytes).length < needed - buffer.length := by
          simp only [List.length_append, List.length_cons]
          omega
        have hnext := ih _ hdec (hends.generationLive.trans hlive) rfl
        have hstream : (buffer ++ b :: bytes) ++ conn'.incoming = buffer ++ connection.incoming := by
          rw [hin, List.append_assoc]
        refine ⟨hends.trans hnext.ends, fun h => ?_, fun h => ?_⟩
        · rw [← hends.readFailure]
          exact hnext.short (hstream ▸ h)
        · rw [← hstream]
          exact hnext.enough (hstream ▸ h)
    · simp only [if_neg hshort]
      refine ⟨.refl _, fun h => ?_, fun _ => ⟨buffer, rfl, Nat.not_lt.mp hshort, rfl⟩⟩
      simp only [List.length_append] at h
      omega

/-! ### The request -/

/-- The request that is cut out of the buffer is the one at the head of the stream. -/
theorem requestOf_eq_ok {head : Head} {stream rest : Bytes} {n : Nat} (hstream : buffer ++ rest = stream)
    (hlen : n + head.contentLength ≤ buffer.length) :
    requestOf head buffer n (n + head.contentLength) =
      .ok { method := head.method, target := head.target, version := head.version, headers := head.headers
            body := (stream.drop n).take head.contentLength } := by
  rw [requestOf, if_pos ⟨Nat.le_add_right _ _, hlen⟩]
  have hbody : (buffer.take (n + head.contentLength)).drop n = (stream.drop n).take head.contentLength := by
    rw [List.take_drop, ← hstream, List.take_append_of_le_length hlen]
  rw [hbody]

/-- Reading from a live connection, however it is cut, gives what decoding its whole stream gives. -/
theorem readHttpRequest_spec {maxBodyBytes : Nat} (hparse : Httparse.Lawful parse)
    (hlive : connection.generationLive = true) (hfits : maxHeadBytes + maxBodyBytes ≤ usizeMax) :
    (readHttpRequest parse connection maxHeadBytes maxBodyBytes).1.mapError Fault.kind? =
        (decode parse maxHeadBytes maxBodyBytes connection.incoming connection.readFailure).mapError some ∧
      ByteStream.SameEnds connection (readHttpRequest parse connection maxHeadBytes maxBodyBytes).2 := by
  have hread : HeadRead parse maxHeadBytes [] connection (readHead parse maxHeadBytes [] connection) :=
    readHead_spec hparse hlive (Nat.zero_le maxHeadBytes)
  rw [readHttpRequest]
  revert hread
  generalize readHead parse maxHeadBytes [] connection = out
  obtain ⟨result, conn⟩ := out
  intro hread
  have hstream : [] ++ connection.incoming = connection.incoming := rfl
  rw [decode]
  cases hp : parse (connection.incoming.take maxHeadBytes) with
  | error e =>
    obtain ⟨detail, rfl⟩ := hread.error hp
    exact ⟨rfl, hread.ends⟩
  | ok status =>
    cases status with
    | incomplete =>
      obtain ⟨detail, rfl⟩ := hread.incomplete hp
      refine ⟨?_, hread.ends⟩
      simp only [hstream]
      split <;> rfl
    | complete n request =>
      obtain ⟨buffer, rfl, hbuffer, hwhole, hmax⟩ := hread.complete hp
      have hn := hparse.complete_le hbuffer
      simp only [hbuffer]
      cases hhead : checkHead request with
      | error e => exact ⟨rfl, hread.ends⟩
      | ok head =>
        simp only
        split
        · exact ⟨rfl, hread.ends⟩
        · rename_i hbody
          have hneeded : checkedAdd n head.contentLength = some (n + head.contentLength) := if_pos (by omega)
          have hrest : BodyRead (n + head.contentLength) buffer conn (readBody (n + head.contentLength) buffer conn) :=
            readBody_spec (hread.ends.generationLive.trans hlive)
          simp only [hneeded]
          revert hrest
          generalize readBody (n + head.contentLength) buffer conn = out
          obtain ⟨result, conn'⟩ := out
          intro hrest
          have hends := hread.ends.trans hrest.ends
          have hlen : (buffer ++ conn.incoming).length = connection.incoming.length := congrArg List.length hwhole
          by_cases hshort : connection.incoming.length < n + head.contentLength
          · obtain ⟨detail, rfl⟩ := hrest.short (hlen ▸ hshort)
            rw [if_pos hshort, ← show conn.readFailure = connection.readFailure from hread.ends.readFailure]
            exact ⟨rfl, hends⟩
          · obtain ⟨buffer', rfl, hlen', hwhole'⟩ := hrest.enough (hlen ▸ Nat.not_lt.mp hshort)
            rw [if_neg hshort]
            refine ⟨?_, hends⟩
            simp only [requestOf_eq_ok (hwhole'.trans hwhole) hlen']
            rfl

/-- A head longer than the limit is not complete within it. -/
theorem incomplete_of_long (hparse : Httparse.Lawful parse) {stream : Bytes} {n : Nat} {request : Httparse.Request}
    (hp : parse stream = .ok (.complete n request)) (hn : maxHeadBytes < n) :
    parse (stream.take maxHeadBytes) = .ok .incomplete := by
  have hwhole := List.take_append_drop maxHeadBytes stream
  cases htake : parse (stream.take maxHeadBytes) with
  | error e =>
    obtain ⟨e', he'⟩ := hparse.error_append (stream.drop maxHeadBytes) htake
    rw [hwhole, hp] at he'
    cases he'
  | ok status =>
    cases status with
    | incomplete => rfl
    | complete m request' =>
      have hm := hparse.complete_le htake
      have hsame := hparse.complete_append (stream.drop maxHeadBytes) htake
      rw [hwhole, hp] at hsame
      cases hsame
      rw [List.length_take] at hm
      omega

end

/-- Reading a request in pieces equals decoding the whole stream, which ends in EOF: the same request or an error of the
    same kind. A head of exactly the limit is accepted, and a longer one is too large. -/
theorem read_eq_decode (parse : Httparse.Parser) (hparse : Httparse.Lawful parse) (maxHeadBytes maxBodyBytes : Nat)
    (hfits : maxHeadBytes + maxBodyBytes ≤ usizeMax) (connection : ByteStream)
    (hlive : connection.generationLive = true) (heof : connection.readFailure = none) :
    (readHttpRequest parse connection maxHeadBytes maxBodyBytes).1.mapError Fault.kind? =
        (decode parse maxHeadBytes maxBodyBytes connection.incoming none).mapError some ∧
      (∀ request head, parse (connection.incoming.take maxHeadBytes) = .ok (.complete maxHeadBytes request) →
        checkHead request = .ok head → head.contentLength = 0 →
        (readHttpRequest parse connection maxHeadBytes maxBodyBytes).1.mapError Fault.kind? =
          .ok ⟨head.method, head.target, head.version, head.headers, []⟩) ∧
      (∀ n request, parse connection.incoming = .ok (.complete n request) → maxHeadBytes < n →
        (readHttpRequest parse connection maxHeadBytes maxBodyBytes).1.mapError Fault.kind? =
          .error (some .requestTooLarge)) := by
  have hread := (readHttpRequest_spec hparse hlive hfits).1
  rw [heof] at hread
  rw [hread]
  refine ⟨rfl, fun request head hp hhead hlength => ?_, fun n request hp hn => ?_⟩
  · have hlen := hparse.complete_le hp
    rw [List.length_take] at hlen
    rw [decode, hp]
    simp only [hhead, hlength]
    rw [if_neg (Nat.not_lt_zero _), if_neg (by omega), List.take_zero]
    rfl
  · have hlen := hparse.complete_le hp
    rw [decode, incomplete_of_long hparse hp hn]
    simp only [if_pos (show maxHeadBytes ≤ connection.incoming.length by omega)]
    rfl

/-! ### A parser of one head -/

/-- A parser that completes one head, asks for more within it and refuses everything else. -/
def knownHead (head : Bytes) (request : Httparse.Request) : Httparse.Parser := fun buffer =>
  if head <+: buffer then .ok (.complete head.length request)
  else if buffer <+: head then .ok .incomplete
  else .error .token

theorem knownHead_lawful (head : Bytes) (request : Httparse.Request) : Httparse.Lawful (knownHead head request) where
  complete_le {buffer n req} h := by
    unfold knownHead at h
    split at h
    · rename_i hstart
      cases h
      exact hstart.length_le
    · split at h <;> cases h
  complete_append {buffer n req} more h := by
    unfold knownHead at h
    split at h
    · rename_i hstart
      cases h
      exact if_pos (hstart.trans (List.prefix_append buffer more))
    · split at h <;> cases h
  error_append {buffer e} more h := by
    unfold knownHead at h
    split at h
    · cases h
    · rename_i hhead
      split at h
      · cases h
      · rename_i hbuffer
        have happend := List.prefix_append buffer more
        refine ⟨.token, ?_⟩
        rw [knownHead, if_neg, if_neg]
        · exact fun hstart => hbuffer (happend.trans hstart)
        · exact fun hstart => (List.prefix_or_prefix_of_prefix hstart happend).elim hhead hbuffer

/-- The head of a POST with a body of three bytes, as `httparse` reads it. -/
def postHead : Bytes := asBytes "POST /a HTTP/1.1\r\nContent-Length: 3\r\n\r\n"

def postRequest : Httparse.Request where
  method := some "POST"
  path := some "/a"
  version := some 1
  headers := [⟨"Content-Length", asBytes "3"⟩]

/-- The POST, cut within its head and behind the first byte of its body. -/
def posted : ByteStream where
  generationLive := true
  incoming := postHead ++ asBytes "abcd"
  cuts := [5, 35, 1]
  readFailure := none
  writeFailure := none
  outgoing := []
  shutdown := false

theorem read_eq_decode_posted :
    (readHttpRequest (knownHead postHead postRequest) posted 39 3).1.mapError Fault.kind? =
      .ok ⟨"POST", "/a", .http11, [⟨"Content-Length", "3"⟩], asBytes "abc"⟩ :=
  (read_eq_decode _ (knownHead_lawful postHead postRequest) 39 3 (by decide) posted rfl rfl).1.trans (by decide)

end Fabric.Http
