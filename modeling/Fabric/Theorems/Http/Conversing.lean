import Fabric.Http.Conversation
import Fabric.Theorems.Http.Bounds
import Fabric.Theorems.Http.Serving

/-! What the server's programs do in a conversation, and what each step of a conversation does. -/

namespace Fabric.Http.Conversation
open Rust Tcp Transition

/-! ### The reader -/

/-- The reader asks for something with each call, and an error or the end of the stream ends it. -/
def Heeds {α : Type} : Reading (Except Fault α) → Prop
  | .done _ => True
  | .call maxBytes next => 0 < maxBytes ∧ (∀ error, next (.error error) = .done (.error (.error (.transport error)))) ∧
      (∃ fault, next (.ok []) = .done (.error fault)) ∧ ∀ byte bytes, Heeds (next (.ok (byte :: bytes)))

theorem Heeds.bind {α β : Type} {p : Reading (Except Fault α)} {f : Except Fault α → Reading (Except Fault β)}
    (h : Heeds p) (herror : ∀ fault, f (.error fault) = .done (.error fault)) (hok : ∀ a, Heeds (f (.ok a))) :
    Heeds (p.bind f) := by
  induction p with
  | done result =>
    cases result with
    | error fault =>
      rw [Interaction.done_bind, herror]
      trivial
    | ok a => exact hok a
  | call maxBytes next ih =>
    obtain ⟨hpos, hfailed, ⟨fault, hend⟩, hnext⟩ := h
    refine ⟨hpos, fun error => ?_, ⟨fault, ?_⟩, fun byte bytes => ih _ (hnext byte bytes)⟩
    · dsimp only
      rw [hfailed, Interaction.done_bind, herror]
    · dsimp only
      rw [hend, Interaction.done_bind, herror]

section
variable (parse : Httparse.Parser)

theorem heeds_readHeadCalls (maxHeadBytes : Nat) (buffer : Bytes) :
    Heeds (readHeadCalls parse maxHeadBytes buffer) := by
  induction hn : maxHeadBytes - buffer.length using Nat.strongRecOn generalizing buffer with
  | ind n ih =>
    subst hn
    rw [readHeadCalls]
    rcases parse buffer with error | (⟨n, request⟩ | _)
    · trivial
    · trivial
    · by_cases hfull : maxHeadBytes ≤ buffer.length
      · simp only [if_pos hfull]
        trivial
      · simp only [if_neg hfull, checkedSub_of_le (Nat.le_of_not_le hfull)]
        refine ⟨by omega, fun error => rfl, ⟨_, rfl⟩, fun byte bytes => ih _ ?_ _ rfl⟩
        simp only [List.length_append, List.length_cons]
        omega

theorem heeds_readBodyCalls (needed : Nat) (buffer : Bytes) : Heeds (readBodyCalls needed buffer) := by
  induction hn : needed - buffer.length using Nat.strongRecOn generalizing buffer with
  | ind n ih =>
    subst hn
    rw [readBodyCalls]
    by_cases hshort : buffer.length < needed
    · simp only [if_pos hshort, checkedSub_of_le hshort.le]
      refine ⟨by omega, fun error => rfl, ⟨_, rfl⟩, fun byte bytes => ih _ ?_ _ rfl⟩
      simp only [List.length_append, List.length_cons]
      omega
    · simp only [if_neg hshort]
      trivial

theorem heeds_readRequestCalls (maxBodyBytes headerLen : Nat) (buffer : Bytes) :
    Heeds (readRequestCalls parse maxBodyBytes headerLen buffer) := by
  unfold readRequestCalls
  rcases parse buffer with error | (⟨n, request⟩ | _)
  · trivial
  · dsimp only
    rcases checkHead request with error | head
    · trivial
    · by_cases hbody : maxBodyBytes < head.contentLength
      · simp only [if_pos hbody]
        trivial
      · simp only [if_neg hbody]
        rcases checkedAdd headerLen head.contentLength with _ | needed
        · trivial
        · exact (heeds_readBodyCalls needed buffer).bind (fun _ => rfl) fun _ => trivial
  · trivial

theorem heeds_readHttpRequestCalls (maxHeadBytes maxBodyBytes : Nat) :
    Heeds (readHttpRequestCalls parse maxHeadBytes maxBodyBytes) :=
  (heeds_readHeadCalls parse maxHeadBytes []).bind (fun _ => rfl) fun (headerLen, buffer) =>
    heeds_readRequestCalls parse maxBodyBytes headerLen buffer

/-- What the server makes of a stream that ends. -/
def decoded (stream : Bytes) : Except HttpErrorKind HttpRequest :=
  decode parse defaultMaxHeadBytes defaultMaxBodyBytes stream none

/-- A peer that sends these bytes, cut in this way, and then the end of the stream. -/
def peer (incoming : Bytes) (cuts : List Nat) : ByteStream where
  generationLive := true
  incoming := incoming
  cuts := cuts
  readFailure := none
  writeFailure := none
  outgoing := []
  shutdown := false

/-- Once it has taken these bytes, the reader comes to what is decoded from them and what follows, whatever follows and
    however it is cut. -/
def Follows (taken : Bytes) (rest : Reading (Except Fault HttpRequest)) : Prop :=
  ∀ incoming cuts, (rest.run ByteStream.readSome (peer incoming cuts)).1.mapError Fault.kind? =
    (decoded parse (taken ++ incoming)).mapError some

variable {parse}

theorem follows_readHttpRequestCalls (hparse : Httparse.Lawful parse) :
    Follows parse [] (readHttpRequestCalls parse defaultMaxHeadBytes defaultMaxBodyBytes) := by
  intro incoming cuts
  have hfits : defaultMaxHeadBytes + defaultMaxBodyBytes ≤ usizeMax := by decide
  have hlive : (peer incoming cuts).generationLive = true := rfl
  rw [run_readHttpRequestCalls]
  exact (readHttpRequest_spec hparse hlive hfits).1

theorem readSome_peer {bytes : Bytes} {maxBytes : Nat} (hne : bytes ≠ []) (hle : bytes.length ≤ maxBytes)
    (incoming : Bytes) (cuts : List Nat) :
    (peer (bytes ++ incoming) (bytes.length :: cuts)).readSome maxBytes = (.ok bytes, peer incoming cuts) := by
  obtain ⟨byte, rest, rfl⟩ := List.exists_cons_of_ne_nil hne
  have hready :
      (peer (byte :: rest ++ incoming) ((byte :: rest).length :: cuts)).ready maxBytes = (byte :: rest).length := by
    simp only [ByteStream.ready, peer, List.headD_cons, List.length_cons] at hle ⊢
    omega
  have hpos : maxBytes ≠ 0 := by
    simp only [List.length_cons] at hle
    omega
  rw [ByteStream.readSome, ByteStream.ensureLive, peer, if_pos rfl]
  dsimp only
  rw [if_neg hpos, ← peer, ByteStream.read]
  simp only [peer, List.cons_append] at hready ⊢
  rw [hready]
  simp

theorem Follows.read {taken bytes : Bytes} {maxBytes : Nat} {next : ReadAnswer → Reading (Except Fault HttpRequest)}
    (h : Follows parse taken (.call maxBytes next)) (hne : bytes ≠ []) (hle : bytes.length ≤ maxBytes) :
    Follows parse (taken ++ bytes) (next (.ok bytes)) := by
  intro incoming cuts
  have hread := h (bytes ++ incoming) (bytes.length :: cuts)
  rw [Interaction.run, readSome_peer hne hle, ← List.append_assoc] at hread
  exact hread

theorem Follows.eof {taken : Bytes} {maxBytes : Nat} {next : ReadAnswer → Reading (Except Fault HttpRequest)}
    {fault : Fault} (h : Follows parse taken (.call maxBytes next)) (hpos : 0 < maxBytes)
    (hend : next (.ok []) = .done (.error fault)) :
    (decoded parse taken).mapError some = .error fault.kind? := by
  have hread := h [] []
  have heof : (peer [] []).readSome maxBytes = (.ok [], peer [] []) := by
    rw [ByteStream.readSome, ByteStream.ensureLive, peer, if_pos rfl]
    exact if_neg (Nat.ne_of_gt hpos)
  rw [Interaction.run, heof, hend, List.append_nil] at hread
  exact hread.symm

theorem Follows.ok {taken : Bytes} {request : HttpRequest} (h : Follows parse taken (.done (.ok request)))
    (more : Bytes) : decoded parse (taken ++ more) = .ok request := by
  have hdone := h more []
  rcases hmore : decoded parse (taken ++ more) with error | request'
  · rw [hmore] at hdone
    cases hdone
  · rw [hmore] at hdone
    cases hdone
    rfl

theorem Follows.error {taken : Bytes} {fault : Fault} (h : Follows parse taken (.done (.error fault))) (more : Bytes) :
    (decoded parse (taken ++ more)).mapError some = .error fault.kind? :=
  (h more []).symm

end

/-! ### The response -/

/-- What is left of a response is to close the connection, whatever it answers, and the result is as `post` says. -/
def Closes {α : Type} (post : α → Prop) : Exchanging α → Prop
  | .done result => post result
  | .call call next => call = .shutdownBoth ∧ ∀ answer, Closes post (next answer)

/-- How many steps the server takes at most, when the connection answers as it does here. -/
def effort {α : Type} : Exchanging α → Nat
  | .done _ => 0
  | .call (.writeAll bytes) next => bytes.length + 2 + max (effort (next (.ok ()))) (effort (next (.error .stopped)))
  | .call .shutdownBoth next => 1 + max (effort (next (.ok ()))) (effort (next (.error .stopped)))

section
variable (debug : String → String) (answer : HttpRequest → HttpResponse)

/-- The bytes of the response, when there are any. -/
def replyTo (request : HttpRequest) : Bytes :=
  match encodeHttpResponse debug (answer request) with
  | .ok bytes => bytes
  | .error _ => []

/-- What `respond` returns on a connection that takes the response. -/
def respondedTo (request : HttpRequest) : Except HttpError Unit :=
  (encodeHttpResponse debug (answer request)).map fun _ => ()

/-- What it returns on the connection of a generation that is stopped. -/
def respondedStopped : Except HttpError Unit :=
  .error ⟨.writeResponseFailed, "failed to write HTTP response: " ++ TcpTransportError.stopped.detail⟩

/-- `respond` has to write the bytes of the response, or it has nothing to write. -/
theorem respondCalls_cases (request : HttpRequest) :
    (∃ bytes next, encodeHttpResponse debug (answer request) = .ok bytes ∧
      respondCalls debug (answer request) = .call (.writeAll bytes) next ∧
      Closes (· = respondedTo debug answer request) (next (.ok ())) ∧
      Closes (· = respondedStopped) (next (.error .stopped))) ∨
    replyTo debug answer request = [] ∧
      Closes (· = respondedTo debug answer request) (respondCalls debug (answer request)) := by
  unfold replyTo respondedTo respondCalls writeHttpResponseCalls
  cases hencode : encodeHttpResponse debug (answer request) with
  | error error => exact .inr ⟨rfl, rfl, fun _ => rfl⟩
  | ok bytes => exact .inl ⟨bytes, _, rfl, rfl, ⟨rfl, fun _ => ⟨rfl, fun _ => rfl⟩⟩, rfl, fun _ => rfl⟩

theorem effort_respondCalls (request : HttpRequest) :
    effort (respondCalls debug (answer request)) ≤ (replyTo debug answer request).length + 4 := by
  unfold replyTo respondCalls writeHttpResponseCalls
  cases hencode : encodeHttpResponse debug (answer request) with
  | error error => simp [dropCalls, effort]
  | ok bytes => simp [dropCalls, effort]

end

/-! ### Steps -/

section
variable {b : Buffers}

/-- What a step of the client or the server does. -/
inductive Moves (debug : String → String) (answer : HttpRequest → HttpResponse) (s : State b) : State b → Prop where
  | clientWrite {byte : UInt8} {rest : Bytes} {toServer : Pipe UInt8 b.server} : s.client = .writeAll (byte :: rest) →
      s.toServer.write byte = some toServer → Moves debug answer s { s with client := .writeAll rest, toServer }
  | clientShutdown : s.client = .writeAll [] → Moves debug answer s { s with client := .readToEnd }
  | clientRead {n : Nat} {bytes : Bytes} {toClient : Pipe UInt8 b.client} : s.client = .readToEnd →
      s.toClient.read n = some (bytes, toClient) →
      Moves debug answer s { s with response := s.response ++ bytes, toClient }
  | clientEof : s.client = .readToEnd → s.toClient.content = [] → s.closed = true →
      Moves debug answer s { s with client := .returned (responseText s.response) }
  | clientFail {out : Except Fault (HttpRequest × Except HttpError Unit)} : s.server = .ended out →
      (∀ result, s.client ≠ .returned result) → s.toServer.content ≠ [] →
      Moves debug answer s { s with client := .returned (.error .io) }
  | rejected {fault : Fault} : s.server = .reading (.done (.error fault)) →
      Moves debug answer s { s with server := .ended (.error fault), closed := true }
  | requested {request : HttpRequest} : s.server = .reading (.done (.ok request)) →
      Moves debug answer s { s with server := .responding request (respondCalls debug (answer request)) }
  | readNothing {next : ReadAnswer → Reading (Except Fault HttpRequest)} : s.server = .reading (.call 0 next) →
      s.generationLive = true → Moves debug answer s { s with server := .reading (next (.ok [])) }
  | readSome {maxBytes : Nat} {next : ReadAnswer → Reading (Except Fault HttpRequest)} :
      s.server = .reading (.call maxBytes next) → s.generationLive = true → maxBytes ≠ 0 →
      Moves debug answer s { s with server := .readSome maxBytes next }
  | readStopped {maxBytes : Nat} {next : ReadAnswer → Reading (Except Fault HttpRequest)} :
      s.server = .reading (.call maxBytes next) → s.generationLive = false →
      Moves debug answer s { s with server := .reading (next (.error .stopped)) }
  | responded {request : HttpRequest} {result : Except HttpError Unit} : s.server = .responding request (.done result) →
      Moves debug answer s { s with server := .ended (.ok (request, result)), closed := true }
  | writeAll {request : HttpRequest} {bytes : Bytes} {next : ConnectionAnswer → Exchanging (Except HttpError Unit)} :
      s.server = .responding request (.call (.writeAll bytes) next) → s.generationLive = true →
      Moves debug answer s { s with server := .writeAll request bytes next }
  | shutdownBoth {request : HttpRequest} {next : ConnectionAnswer → Exchanging (Except HttpError Unit)} :
      s.server = .responding request (.call .shutdownBoth next) → s.generationLive = true →
      Moves debug answer s { s with server := .responding request (next (.ok ())), closed := true }
  | respondStopped {request : HttpRequest} {call : ConnectionCall}
      {next : ConnectionAnswer → Exchanging (Except HttpError Unit)} :
      s.server = .responding request (.call call next) → s.generationLive = false →
      Moves debug answer s { s with server := .responding request (next (.error .stopped)) }
  | written {request : HttpRequest} {next : ConnectionAnswer → Exchanging (Except HttpError Unit)} :
      s.server = .writeAll request [] next →
      Moves debug answer s { s with server := .responding request (next (.ok ())) }
  | serverRead {maxBytes n : Nat} {next : ReadAnswer → Reading (Except Fault HttpRequest)} {bytes : Bytes}
      {toServer : Pipe UInt8 b.server} : s.server = .readSome maxBytes next → n ≤ maxBytes →
      s.toServer.read n = some (bytes, toServer) →
      Moves debug answer s { s with server := .reading (next (.ok bytes)), toServer }
  | serverEof {maxBytes : Nat} {next : ReadAnswer → Reading (Except Fault HttpRequest)} :
      s.server = .readSome maxBytes next → (∀ rest, s.client ≠ .writeAll rest) → s.toServer.content = [] →
      Moves debug answer s { s with server := .reading (next (.ok [])) }
  | serverWrite {request : HttpRequest} {byte : UInt8} {rest : Bytes} {toClient : Pipe UInt8 b.client}
      {next : ConnectionAnswer → Exchanging (Except HttpError Unit)} :
      s.server = .writeAll request (byte :: rest) next →
      s.toClient.write byte = some toClient →
      Moves debug answer s { s with server := .writeAll request rest next, toClient }

variable {debug : String → String} {answer : HttpRequest → HttpResponse} {s t : State b}

theorem moves_of_serverStep (h : s.serverStep debug answer = some t) : Moves debug answer s t := by
  unfold State.serverStep at h
  split at h
  · rename_i fault hserver
    cases h
    exact .rejected hserver
  · rename_i request hserver
    cases h
    exact .requested hserver
  · rename_i maxBytes next hserver
    split at h
    · rename_i hlive
      cases h
      by_cases hzero : maxBytes = 0
      · subst hzero
        exact .readNothing hserver hlive
      · rw [if_neg hzero]
        exact .readSome hserver hlive hzero
    · rename_i hlive
      cases h
      exact .readStopped hserver (Bool.eq_false_iff.mpr hlive)
  · rename_i request result hserver
    cases h
    exact .responded hserver
  · rename_i request bytes next hserver
    split at h
    · rename_i hlive
      cases h
      exact .writeAll hserver hlive
    · rename_i hlive
      cases h
      exact .respondStopped hserver (Bool.eq_false_iff.mpr hlive)
  · rename_i request next hserver
    split at h
    · rename_i hlive
      cases h
      exact .shutdownBoth hserver hlive
    · rename_i hlive
      cases h
      exact .respondStopped hserver (Bool.eq_false_iff.mpr hlive)
  · rename_i request next hserver
    cases h
    exact .written hserver
  · cases h

theorem moves_of_step {action : Action} (h : step debug answer s action = some t) (hstop : action ≠ .stop) :
    Moves debug answer s t := by
  cases action with
  | clientWrite =>
    rw [step] at h
    split at h
    · rename_i byte rest hclient
      obtain ⟨toServer, hwrite, rfl⟩ := Option.map_eq_some_iff.mp h
      exact .clientWrite hclient hwrite
    · cases h
  | clientShutdown =>
    rw [step] at h
    split at h
    · rename_i hclient
      cases h
      exact .clientShutdown hclient
    · cases h
  | clientRead n =>
    rw [step] at h
    split at h
    · rename_i hclient
      obtain ⟨⟨bytes, toClient⟩, hread, rfl⟩ := Option.map_eq_some_iff.mp h
      exact .clientRead hclient hread
    · cases h
  | clientEof =>
    rw [step] at h
    split at h
    · rename_i hclient
      cases h
      exact .clientEof hclient.1 hclient.2.1 hclient.2.2
    · cases h
  | clientFail =>
    rw [step] at h
    split at h
    · rename_i out rest hserver hclient
      split at h
      · rename_i hunread
        cases h
        exact .clientFail hserver (fun result => by rw [hclient]; exact fun heq => by cases heq) hunread
      · cases h
    · rename_i out hserver hclient
      split at h
      · rename_i hunread
        cases h
        exact .clientFail hserver (fun result => by rw [hclient]; exact fun heq => by cases heq) hunread
      · cases h
    · cases h
  | serverStep => exact moves_of_serverStep h
  | serverRead n =>
    rw [step] at h
    split at h
    · rename_i maxBytes next hserver
      split at h
      · rename_i hle
        obtain ⟨⟨bytes, toServer⟩, hread, rfl⟩ := Option.map_eq_some_iff.mp h
        exact .serverRead hserver hle hread
      · cases h
    · cases h
  | serverEof =>
    rw [step] at h
    split at h
    · cases h
    · rename_i maxBytes next hserver hclient
      split at h
      · rename_i hempty
        cases h
        exact .serverEof hserver hclient hempty
      · cases h
    · cases h
  | serverWrite =>
    rw [step] at h
    split at h
    · rename_i request byte rest next hserver
      obtain ⟨toClient, hwrite, rfl⟩ := Option.map_eq_some_iff.mp h
      exact .serverWrite hserver hwrite
    · cases h
  | stop => exact absurd rfl hstop

theorem stop_eq_some : step debug answer s .stop = some t ↔
    s.generationLive = true ∧ t = { s with generationLive := false } := by
  simp [step, eq_comm (a := t)]

theorem Moves.generationLive (h : Moves debug answer s t) : t.generationLive = s.generationLive := by
  cases h <;> rfl

end

end Fabric.Http.Conversation
