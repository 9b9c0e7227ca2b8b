import Fabric.Theorems.Http.Conversing

/-! A conversation of a client with the server: in whatever pieces the bytes move and whenever the adapter is stopped,
    the client gets the whole response to what it has sent, or nothing, and only a client that goes on writing can be
    kept waiting for ever. -/

namespace Fabric.Http.Conversation
open Rust Tcp Transition

/-! ### What every step keeps -/

/-- What the client has yet to write. -/
def ClientPc.toWrite : ClientPc → Bytes
  | .writeAll rest => rest
  | _ => []

section
variable {b : Buffers}

/-- What the server has not taken of what the client is to send. -/
def State.unread (s : State b) : Bytes := s.toServer.content ++ s.client.toWrite

/-- What the client has got, and what is on its way. -/
def State.delivered (s : State b) : Bytes := s.response ++ s.toClient.content

/-- The fault of a reader that meets the stopped generation. -/
def stoppedFault : Fault := .error (.transport .stopped)

section
variable (parse : Httparse.Parser) (debug : String → String) (answer : HttpRequest → HttpResponse) (sent : Bytes)

/-- Nothing has been sent to the client. -/
structure Untouched (s : State b) : Prop where
  delivered : s.delivered = []
  closed : s.closed = false

/-- The server has taken what it needs for the request, whatever comes after. -/
def Requested (s : State b) (request : HttpRequest) : Prop :=
  ∃ taken incoming, sent = taken ++ incoming ∧ s.unread <+: incoming ∧
    ∀ more, decoded parse (taken ++ more) = .ok request

/-- The server has refused what the client sends, or it has been stopped. -/
def Refused (s : State b) (fault : Fault) : Prop :=
  (decoded parse sent).mapError some = .error fault.kind? ∨ s.generationLive = false ∧ fault = stoppedFault

/-- The whole response has been sent, or none of it to a client of a stopped generation. -/
def Replied (s : State b) (request : HttpRequest) (rest : Exchanging (Except HttpError Unit)) : Prop :=
  s.delivered = replyTo debug answer request ∧ Closes (· = respondedTo debug answer request) rest ∨
    s.generationLive = false ∧ s.delivered = [] ∧ Closes (· = respondedStopped) rest

/-- What holds while the server is where it is. -/
def ServerInv (s : State b) : Prop :=
  match s.server with
  | .reading rest => Untouched s ∧ Heeds rest ∧
      ((∃ taken, sent = taken ++ s.unread ∧ Follows parse taken rest) ∨
        ∃ fault, rest = .done (.error fault) ∧ Refused parse sent s fault)
  | .readSome maxBytes next => Untouched s ∧ Heeds (.call maxBytes next) ∧
      ∃ taken, sent = taken ++ s.unread ∧ Follows parse taken (.call maxBytes next)
  | .responding request rest => Requested parse sent s request ∧
      ((Untouched s ∧ ∃ bytes next, encodeHttpResponse debug (answer request) = .ok bytes ∧
          rest = .call (.writeAll bytes) next ∧ Closes (· = respondedTo debug answer request) (next (.ok ())) ∧
          Closes (· = respondedStopped) (next (.error .stopped))) ∨
        Replied debug answer s request rest)
  | .writeAll request rest next => Requested parse sent s request ∧ s.closed = false ∧
      s.delivered ++ rest = replyTo debug answer request ∧ Closes (· = respondedTo debug answer request) (next (.ok ()))
  | .ended (.ok (request, result)) => Requested parse sent s request ∧ s.closed = true ∧
      Replied debug answer s request (.done result)
  | .ended (.error fault) => s.delivered = [] ∧ s.closed = true ∧ Refused parse sent s fault

end

/-- A client that has returned has read up to the end, or it has met a connection that was dropped on it. -/
def ClientInv (s : State b) : Prop :=
  ∀ result, s.client = .returned result →
    result = responseText s.response ∧ s.closed = true ∧ s.toClient.content = [] ∨
    result = .error .io ∧ s.toServer.content ≠ [] ∧ ∃ out, s.server = .ended out

variable {parse : Httparse.Parser} {debug : String → String} {answer : HttpRequest → HttpResponse} {sent : Bytes}
  {s t : State b}

/-- What the facts about the server read from the state is kept, or gets less. -/
structure Keeps (s t : State b) : Prop where
  server : t.server = s.server
  delivered : t.delivered = s.delivered
  closed : t.closed = s.closed
  stopped : s.generationLive = false → t.generationLive = false
  taken : t.unread <+: s.unread
  unread : (∀ out, s.server ≠ .ended out) → t.unread = s.unread

theorem Keeps.requested {request : HttpRequest} (h : Keeps s t) (hs : Requested parse sent s request) :
    Requested parse sent t request := by
  obtain ⟨taken, incoming, hsent, hunread, hdecoded⟩ := hs
  exact ⟨taken, incoming, hsent, h.taken.trans hunread, hdecoded⟩

theorem Keeps.untouched (h : Keeps s t) (hs : Untouched s) : Untouched t :=
  ⟨h.delivered.trans hs.delivered, h.closed.trans hs.closed⟩

theorem Keeps.refused {fault : Fault} (h : Keeps s t) (hs : Refused parse sent s fault) :
    Refused parse sent t fault := by
  rcases hs with hdecoded | ⟨hstopped, hfault⟩
  · exact .inl hdecoded
  · exact .inr ⟨h.stopped hstopped, hfault⟩

theorem Keeps.replied {request : HttpRequest} {rest : Exchanging (Except HttpError Unit)} (h : Keeps s t)
    (hs : Replied debug answer s request rest) : Replied debug answer t request rest := by
  rcases hs with ⟨hdelivered, hcloses⟩ | ⟨hstopped, hdelivered, hcloses⟩
  · exact .inl ⟨h.delivered.trans hdelivered, hcloses⟩
  · exact .inr ⟨h.stopped hstopped, h.delivered.trans hdelivered, hcloses⟩

theorem ServerInv.keeps (hs : ServerInv parse debug answer sent s) (h : Keeps s t) :
    ServerInv parse debug answer sent t := by
  have hserver := h.server
  cases hpc : s.server with
  | reading rest =>
    have hunread : t.unread = s.unread := h.unread fun out heq => by rw [hpc] at heq; cases heq
    simp only [ServerInv, hpc, hserver, hunread] at hs ⊢
    obtain ⟨huntouched, hheeds, hfollows | ⟨fault, hrest, hrefused⟩⟩ := hs
    · exact ⟨h.untouched huntouched, hheeds, .inl hfollows⟩
    · exact ⟨h.untouched huntouched, hheeds, .inr ⟨fault, hrest, h.refused hrefused⟩⟩
  | readSome maxBytes next =>
    have hunread : t.unread = s.unread := h.unread fun out heq => by rw [hpc] at heq; cases heq
    simp only [ServerInv, hpc, hserver, hunread] at hs ⊢
    exact ⟨h.untouched hs.1, hs.2⟩
  | responding request rest =>
    simp only [ServerInv, hpc, hserver] at hs ⊢
    obtain ⟨hrequested, ⟨huntouched, hwrite⟩ | hreplied⟩ := hs
    · exact ⟨h.requested hrequested, .inl ⟨h.untouched huntouched, hwrite⟩⟩
    · exact ⟨h.requested hrequested, .inr (h.replied hreplied)⟩
  | writeAll request rest next =>
    simp only [ServerInv, hpc, hserver, h.closed, h.delivered] at hs ⊢
    exact ⟨h.requested hs.1, hs.2⟩
  | ended out =>
    rcases out with fault | ⟨request, result⟩
    · simp only [ServerInv, hpc, hserver, h.closed, h.delivered] at hs ⊢
      exact ⟨hs.1, hs.2.1, h.refused hs.2.2⟩
    · simp only [ServerInv, hpc, hserver, h.closed] at hs ⊢
      exact ⟨h.requested hs.1, hs.2.1, h.replied hs.2.2⟩

/-- Steps of the client, and the stop of the adapter. -/
theorem Keeps.of_clientWrite {byte : UInt8} {rest : Bytes} {toServer : Pipe UInt8 b.server}
    (hclient : s.client = .writeAll (byte :: rest)) (hwrite : s.toServer.write byte = some toServer) :
    Keeps s { s with client := .writeAll rest, toServer } := by
  obtain ⟨-, hcontent⟩ := Pipe.write_eq_some.mp hwrite
  have hunread : State.unread { s with client := .writeAll rest, toServer } = s.unread := by
    simp [State.unread, hclient, hcontent, ClientPc.toWrite]
  exact ⟨rfl, rfl, rfl, id, hunread ▸ List.prefix_rfl, fun _ => hunread⟩

theorem Keeps.of_clientRead {n : Nat} {bytes : Bytes} {toClient : Pipe UInt8 b.client}
    (hread : s.toClient.read n = some (bytes, toClient)) :
    Keeps s { s with response := s.response ++ bytes, toClient } := by
  obtain ⟨-, -, hcontent⟩ := Pipe.read_eq_some.mp hread
  exact ⟨rfl, by simp [State.delivered, hcontent], rfl, id, List.prefix_rfl, fun _ => rfl⟩

/-- The client goes on without a write. -/
theorem Keeps.of_client {client : ClientPc} (hwrite : client.toWrite = [])
    (hwritten : s.client.toWrite = [] ∨ ∃ out, s.server = .ended out) : Keeps s { s with client } := by
  have hcontent : State.unread { s with client } = s.toServer.content := by
    simp [State.unread, hwrite]
  refine ⟨rfl, rfl, rfl, id, ?_, fun hended => ?_⟩
  · rw [hcontent]
    exact List.prefix_append _ _
  · rcases hwritten with hwritten | ⟨out, hserver⟩
    · rw [hcontent, State.unread, hwritten, List.append_nil]
    · exact absurd hserver (hended out)

theorem Keeps.of_stop : Keeps s { s with generationLive := false } :=
  ⟨rfl, rfl, rfl, fun _ => rfl, List.prefix_rfl, fun _ => rfl⟩

theorem refused_of_follows {taken : Bytes} {fault : Fault} (hsent : sent = taken ++ s.unread)
    (hfollows : Follows parse taken (.done (.error fault))) : Refused parse sent s fault :=
  .inl (hsent ▸ hfollows.error s.unread)

theorem requested_of_follows {taken : Bytes} {request : HttpRequest} (hsent : sent = taken ++ s.unread)
    (hfollows : Follows parse taken (.done (.ok request))) : Requested parse sent s request :=
  ⟨taken, s.unread, hsent, List.prefix_rfl, hfollows.ok⟩

theorem ServerInv.moves (hs : ServerInv parse debug answer sent s) (h : Moves debug answer s t) :
    ServerInv parse debug answer sent t := by
  cases h with
  | clientWrite hclient hwrite => exact hs.keeps (.of_clientWrite hclient hwrite)
  | clientShutdown hclient => exact hs.keeps (.of_client rfl (.inl (by rw [hclient]; rfl)))
  | clientRead hclient hread => exact hs.keeps (.of_clientRead hread)
  | clientEof hclient => exact hs.keeps (.of_client rfl (.inl (by rw [hclient]; rfl)))
  | clientFail hserver => exact hs.keeps (.of_client rfl (.inr ⟨_, hserver⟩))
  | rejected hserver =>
    simp only [ServerInv, hserver] at hs ⊢
    obtain ⟨huntouched, -, ⟨taken, hsent, hfollows⟩ | ⟨fault, hrest, hrefused⟩⟩ := hs
    · exact ⟨huntouched.delivered, trivial, refused_of_follows hsent hfollows⟩
    · cases hrest
      exact ⟨huntouched.delivered, trivial, hrefused⟩
  | @requested request hserver =>
    simp only [ServerInv, hserver] at hs ⊢
    obtain ⟨huntouched, -, ⟨taken, hsent, hfollows⟩ | ⟨fault, hrest, -⟩⟩ := hs
    · refine ⟨requested_of_follows hsent hfollows, ?_⟩
      rcases respondCalls_cases debug answer request with hwrite | ⟨hnothing, hcloses⟩
      · exact .inl ⟨⟨huntouched.delivered, huntouched.closed⟩, hwrite⟩
      · exact .inr (.inl ⟨huntouched.delivered.trans hnothing.symm, hcloses⟩)
    · cases hrest
  | readNothing hserver =>
    simp only [ServerInv, hserver] at hs
    obtain ⟨-, hheeds, -⟩ := hs
    exact absurd hheeds.1 (Nat.lt_irrefl 0)
  | readSome hserver =>
    simp only [ServerInv, hserver] at hs ⊢
    obtain ⟨huntouched, hheeds, hfollows | ⟨fault, hrest, -⟩⟩ := hs
    · exact ⟨⟨huntouched.delivered, huntouched.closed⟩, hheeds, hfollows⟩
    · cases hrest
  | readStopped hserver hstopped =>
    simp only [ServerInv, hserver] at hs ⊢
    obtain ⟨huntouched, ⟨-, hfailed, -⟩, -⟩ := hs
    rw [hfailed]
    exact ⟨⟨huntouched.delivered, huntouched.closed⟩, trivial, .inr ⟨_, rfl, .inr ⟨hstopped, rfl⟩⟩⟩
  | responded hserver =>
    simp only [ServerInv, hserver] at hs ⊢
    obtain ⟨hrequested, ⟨-, bytes, next, -, hrest, -⟩ | hreplied⟩ := hs
    · cases hrest
    · exact ⟨hrequested, trivial, hreplied⟩
  | @writeAll request bytes next hserver hlive =>
    simp only [ServerInv, hserver] at hs ⊢
    obtain ⟨hrequested, ⟨huntouched, _, _, hencode, hrest, hcloses, -⟩ | ⟨-, hcall, -⟩ | ⟨hstopped, -⟩⟩ := hs
    · cases hrest
      refine ⟨hrequested, huntouched.closed, ?_, hcloses⟩
      rw [replyTo, hencode]
      exact congrArg (· ++ bytes) huntouched.delivered
    · cases hcall
    · rw [hlive] at hstopped
      cases hstopped
  | shutdownBoth hserver hlive =>
    simp only [ServerInv, hserver] at hs ⊢
    obtain ⟨hrequested, ⟨-, bytes, next, -, hrest, -⟩ | ⟨hdelivered, hcloses⟩ | ⟨hstopped, -⟩⟩ := hs
    · cases hrest
    · exact ⟨hrequested, .inr (.inl ⟨hdelivered, hcloses.2 _⟩)⟩
    · rw [hlive] at hstopped
      cases hstopped
  | respondStopped hserver hstopped =>
    simp only [ServerInv, hserver] at hs ⊢
    obtain ⟨hrequested, ⟨huntouched, bytes, next, -, hrest, -, hcloses⟩ | ⟨hdelivered, hcloses⟩ |
      ⟨-, hdelivered, hcloses⟩⟩ := hs
    · cases hrest
      exact ⟨hrequested, .inr (.inr ⟨hstopped, huntouched.delivered, hcloses⟩)⟩
    · exact ⟨hrequested, .inr (.inl ⟨hdelivered, hcloses.2 _⟩)⟩
    · exact ⟨hrequested, .inr (.inr ⟨hstopped, hdelivered, hcloses.2 _⟩)⟩
  | written hserver =>
    simp only [ServerInv, hserver, List.append_nil] at hs ⊢
    obtain ⟨hrequested, -, hdelivered, hcloses⟩ := hs
    exact ⟨hrequested, .inr (.inl ⟨hdelivered, hcloses⟩)⟩
  | @serverRead maxBytes n next bytes toServer hserver hle hread =>
    obtain ⟨hpos, hlength, hcontent⟩ := Pipe.read_eq_some.mp hread
    simp only [ServerInv, hserver] at hs ⊢
    obtain ⟨huntouched, hheeds, taken, hsent, hfollows⟩ := hs
    have hne : bytes ≠ [] := List.ne_nil_of_length_pos (hlength ▸ hpos)
    refine ⟨⟨huntouched.delivered, huntouched.closed⟩, ?_, .inl ⟨taken ++ bytes, ?_, hfollows.read hne (hlength ▸ hle)⟩⟩
    · obtain ⟨byte, rest, rfl⟩ := List.exists_cons_of_ne_nil hne
      exact hheeds.2.2.2 byte rest
    · rw [hsent]
      simp [State.unread, hcontent]
  | @serverEof maxBytes next hserver hclient hempty =>
    have hunread : s.unread = [] := by
      unfold State.unread
      rw [hempty]
      cases hpc : s.client with
      | writeAll rest => exact absurd hpc (hclient rest)
      | readToEnd => rfl
      | returned result => rfl
    simp only [ServerInv, hserver] at hs ⊢
    obtain ⟨huntouched, ⟨hpos, -, ⟨fault, hend⟩, -⟩, taken, hsent, hfollows⟩ := hs
    rw [hunread, List.append_nil] at hsent
    subst hsent
    rw [hend]
    exact ⟨⟨huntouched.delivered, huntouched.closed⟩, trivial, .inr ⟨fault, rfl, .inl (hfollows.eof hpos hend)⟩⟩
  | serverWrite hserver hwrite =>
    obtain ⟨-, hcontent⟩ := Pipe.write_eq_some.mp hwrite
    simp only [ServerInv, hserver] at hs ⊢
    obtain ⟨hrequested, hclosed, hdelivered, hcloses⟩ := hs
    refine ⟨hrequested, hclosed, ?_, hcloses⟩
    rw [← hdelivered]
    simp [State.delivered, hcontent]

theorem ClientInv.moves (hs : ServerInv parse debug answer sent s) (hc : ClientInv s) (h : Moves debug answer s t) :
    ClientInv t := by
  intro result hresult
  cases h with
  | clientWrite => cases hresult
  | clientShutdown => cases hresult
  | clientRead hclient =>
    rw [show s.client = .returned result from hresult] at hclient
    cases hclient
  | clientEof _ hempty hclosed =>
    cases hresult
    exact .inl ⟨rfl, hclosed, hempty⟩
  | clientFail hserver _ hunread =>
    cases hresult
    exact .inr ⟨rfl, hunread, _, hserver⟩
  | serverWrite hserver =>
    rcases hc result hresult with ⟨-, hclosed, -⟩ | ⟨-, -, out, hended⟩
    · simp only [ServerInv, hserver, hclosed] at hs
      cases hs.2.1
    · rw [hserver] at hended
      cases hended
  | _ hserver =>
    rcases hc result hresult with ⟨htext, hclosed, hempty⟩ | ⟨-, -, out, hended⟩
    · exact .inl ⟨htext, by first | rfl | exact hclosed, hempty⟩
    · rw [hserver] at hended
      cases hended

theorem Requested.decoded {request : HttpRequest} (h : Requested parse sent s request) :
    decoded parse sent = .ok request := by
  obtain ⟨taken, incoming, hsent, -, hdecoded⟩ := h
  exact hsent ▸ hdecoded incoming

variable (parse debug answer sent) in
/-- The bytes of the response to what the client sends. -/
def reply : Bytes :=
  match decoded parse sent with
  | .ok request => replyTo debug answer request
  | .error _ => []

theorem Requested.reply {request : HttpRequest} (h : Requested parse sent s request) :
    reply parse debug answer sent = replyTo debug answer request := by
  rw [Conversation.reply, h.decoded]

theorem Replied.delivered {request : HttpRequest} {rest : Exchanging (Except HttpError Unit)}
    (h : Replied debug answer s request rest) : s.delivered <+: replyTo debug answer request := by
  rcases h with ⟨hdelivered, -⟩ | ⟨-, hdelivered, -⟩
  · exact hdelivered ▸ List.prefix_rfl
  · exact hdelivered ▸ List.nil_prefix

/-- The client gets nothing that does not belong to the response. -/
theorem ServerInv.delivered (hs : ServerInv parse debug answer sent s) :
    s.delivered <+: reply parse debug answer sent := by
  cases hpc : s.server with
  | reading rest =>
    simp only [ServerInv, hpc] at hs
    exact hs.1.delivered ▸ List.nil_prefix
  | readSome maxBytes next =>
    simp only [ServerInv, hpc] at hs
    exact hs.1.delivered ▸ List.nil_prefix
  | responding request rest =>
    simp only [ServerInv, hpc] at hs
    obtain ⟨hrequested, ⟨huntouched, -⟩ | hreplied⟩ := hs
    · exact huntouched.delivered ▸ List.nil_prefix
    · exact hrequested.reply ▸ hreplied.delivered
  | writeAll request rest next =>
    simp only [ServerInv, hpc] at hs
    obtain ⟨hrequested, -, hdelivered, -⟩ := hs
    rw [hrequested.reply, ← hdelivered]
    exact List.prefix_append _ _
  | ended out =>
    rcases out with fault | ⟨request, result⟩
    · simp only [ServerInv, hpc] at hs
      exact hs.1 ▸ List.nil_prefix
    · simp only [ServerInv, hpc] at hs
      exact hs.1.reply ▸ hs.2.2.delivered

/-! ### How long it takes -/

section
variable (parse debug answer sent)

/-- How many steps the response takes the server at most. -/
def responseEffort : Nat :=
  match decoded parse sent with
  | .ok request => effort (respondCalls debug (answer request))
  | .error _ => 0

/-- How many steps the server takes at most, when so many bytes are unread. -/
def serverLeft (unread : Nat) : ServerPc → Nat
  | .reading (.done (.error _)) => 1
  | .reading (.done (.ok request)) => effort (respondCalls debug (answer request)) + 2
  | .reading (.call _ _) => 2 * unread + responseEffort parse debug answer sent + 5
  | .readSome _ _ => 2 * unread + responseEffort parse debug answer sent + 4
  | .responding _ rest => effort rest + 1
  | .writeAll _ rest next => rest.length + effort (next (.ok ())) + 2
  | .ended _ => 0

/-- How many steps the client takes at most, when it has got so many bytes. -/
def clientLeft (response : Nat) : ClientPc → Nat
  | .writeAll rest => rest.length + (reply parse debug answer sent).length + 2
  | .readToEnd => (reply parse debug answer sent).length - response + 1
  | .returned _ => 0

def State.rank (s : State b) : Nat :=
  serverLeft parse debug answer sent s.unread.length s.server +
    clientLeft parse debug answer sent s.response.length s.client + s.generationLive.toNat

end

theorem responseEffort_le : responseEffort parse debug answer sent ≤ (reply parse debug answer sent).length + 4 := by
  unfold responseEffort reply
  rcases decoded parse sent with error | request
  · exact Nat.zero_le _
  · exact effort_respondCalls debug answer request

theorem serverLeft_reading {rest : Reading (Except Fault HttpRequest)} (hs : ServerInv parse debug answer sent s)
    (hserver : s.server = .reading rest) : serverLeft parse debug answer sent s.unread.length s.server ≤
      2 * s.unread.length + responseEffort parse debug answer sent + 5 := by
  rw [hserver]
  rcases rest with (fault | request) | ⟨maxBytes, next⟩
  · simp only [serverLeft]
    omega
  · simp only [ServerInv, hserver] at hs
    obtain ⟨-, -, ⟨taken, hsent, hfollows⟩ | ⟨fault, hrest, -⟩⟩ := hs
    · have hdecoded := (requested_of_follows hsent hfollows).decoded
      simp only [serverLeft, responseEffort, hdecoded]
      omega
    · cases hrest
  · exact Nat.le_refl _

theorem Keeps.serverLeft (h : Keeps s t) : serverLeft parse debug answer sent t.unread.length t.server =
    serverLeft parse debug answer sent s.unread.length s.server := by
  rw [h.server]
  cases hpc : s.server with
  | ended out => rfl
  | _ => rw [h.unread fun out heq => by rw [hpc] at heq; cases heq]

/-- Every step brings the end nearer. -/
theorem Moves.rank_lt (hs : ServerInv parse debug answer sent s) (h : Moves debug answer s t) :
    t.rank parse debug answer sent < s.rank parse debug answer sent := by
  have ht := hs.moves h
  unfold State.rank
  cases h with
  | clientWrite hclient hwrite =>
    rw [(Keeps.of_clientWrite hclient hwrite).serverLeft]
    simp only [hclient, clientLeft, List.length_cons]
    omega
  | clientShutdown hclient =>
    have hkeeps : Keeps s { s with client := .readToEnd } := .of_client rfl (.inl (by rw [hclient]; rfl))
    rw [hkeeps.serverLeft]
    simp only [hclient, clientLeft, List.length_nil]
    omega
  | @clientRead n bytes toClient hclient hread =>
    obtain ⟨hpos, hlength, hcontent⟩ := Pipe.read_eq_some.mp hread
    have hdelivered := hs.delivered.length_le
    rw [State.delivered, hcontent] at hdelivered
    rw [(Keeps.of_clientRead hread).serverLeft]
    simp only [hclient, clientLeft, List.length_append] at hdelivered ⊢
    omega
  | clientEof hclient =>
    have hkeeps : Keeps s { s with client := .returned (responseText s.response) } :=
      .of_client rfl (.inl (by rw [hclient]; rfl))
    rw [hkeeps.serverLeft]
    simp only [hclient, clientLeft]
    omega
  | clientFail hserver hclient =>
    have hkeeps : Keeps s { s with client := .returned (.error .io) } := .of_client rfl (.inr ⟨_, hserver⟩)
    rw [hkeeps.serverLeft]
    cases hpc : s.client with
    | returned result => exact absurd hpc (hclient result)
    | _ => simp only [clientLeft]; omega
  | readNothing hserver =>
    simp only [ServerInv, hserver] at hs
    obtain ⟨-, hheeds, -⟩ := hs
    exact absurd hheeds.1 (Nat.lt_irrefl 0)
  | readStopped hserver =>
    simp only [ServerInv, hserver] at hs
    obtain ⟨-, ⟨-, hfailed, -⟩, -⟩ := hs
    simp only [hserver, hfailed, serverLeft]
    omega
  | @serverRead maxBytes n next bytes toServer hserver hle hread =>
    obtain ⟨hpos, hlength, hcontent⟩ := Pipe.read_eq_some.mp hread
    have hleft := serverLeft_reading ht rfl
    have hbefore : serverLeft parse debug answer sent s.unread.length s.server =
        2 * s.unread.length + responseEffort parse debug answer sent + 4 := by
      rw [hserver]
      rfl
    have hunread : s.unread.length =
        n + (State.unread { s with server := .reading (next (.ok bytes)), toServer }).length := by
      simp only [State.unread, hcontent, List.length_append, hlength, Nat.add_assoc]
    dsimp only at hleft hunread ⊢
    omega
  | serverEof hserver =>
    simp only [ServerInv, hserver] at hs
    obtain ⟨-, ⟨-, -, ⟨fault, hend⟩, -⟩, -⟩ := hs
    simp only [hserver, hend, serverLeft]
    omega
  | @respondStopped request call next hserver =>
    rcases call with bytes | _ <;> simp only [hserver, serverLeft, effort] <;> omega
  | serverWrite hserver =>
    simp only [hserver, serverLeft, List.length_cons]
    omega
  | _ hserver =>
    simp only [hserver, State.unread, serverLeft, effort, List.length_nil]
    omega

variable (parse debug answer sent) in
structure Inv (s : State b) : Prop where
  server : ServerInv parse debug answer sent s
  client : ClientInv s

theorem Inv.connected (debug : String → String) (answer : HttpRequest → HttpResponse) (hparse : Httparse.Lawful parse)
    (sent : Bytes) : Inv parse debug answer sent (.connected parse sent : State b) where
  server := ⟨⟨rfl, rfl⟩, heeds_readHttpRequestCalls parse _ _, .inl ⟨[], rfl, follows_readHttpRequestCalls hparse⟩⟩
  client result hresult := by cases hresult

theorem Inv.moves (hs : Inv parse debug answer sent s) (h : Moves debug answer s t) : Inv parse debug answer sent t :=
  ⟨hs.server.moves h, hs.client.moves hs.server h⟩

theorem Inv.kept {action : Action} (hs : Inv parse debug answer sent s) (h : step debug answer s action = some t) :
    Inv parse debug answer sent t ∧ t.rank parse debug answer sent < s.rank parse debug answer sent := by
  by_cases hstop : action = .stop
  · subst hstop
    obtain ⟨hlive, rfl⟩ := stop_eq_some.mp h
    refine ⟨⟨hs.server.keeps .of_stop, hs.client⟩, ?_⟩
    simp only [State.rank, State.unread, hlive]
    exact Nat.lt_succ_self _
  · have hmoves := moves_of_step h hstop
    exact ⟨hs.moves hmoves, hmoves.rank_lt hs.server⟩

/-! ### Where it ends -/

/-- The client has its result, and the server is done with the connection. -/
def Finished (s : State b) : Prop := (∃ result, s.client = .returned result) ∧ ∃ out, s.server = .ended out

/-- Both write, and neither reads. -/
structure Jammed (s : State b) : Prop where
  client : ∃ byte rest, s.client = .writeAll (byte :: rest)
  toServer : s.toServer.Full
  server : ∃ request byte rest next, s.server = .writeAll request (byte :: rest) next
  toClient : s.toClient.Full

/-- Nothing goes on, unless the adapter is stopped. -/
def Stuck (debug : String → String) (answer : HttpRequest → HttpResponse) (s : State b) : Prop :=
  ∀ action, action ≠ .stop → step debug answer s action = none

theorem exists_read {capacity n : Nat} {pipe : Pipe UInt8 capacity} (hne : pipe.content ≠ []) (hn : n = 1) :
    ∃ bytes next, pipe.read n = some (bytes, next) := by
  have hpos := List.length_pos_of_ne_nil hne
  refine ⟨_, _, if_pos ?_⟩
  omega

theorem not_full_of_empty {capacity : Nat} {pipe : Pipe UInt8 capacity} (hpos : 0 < capacity)
    (hempty : pipe.content = []) :
    ¬pipe.Full := by
  unfold Pipe.Full
  rw [hempty, List.length_nil]
  exact Nat.ne_of_lt hpos

theorem content_ne_nil {capacity : Nat} {pipe : Pipe UInt8 capacity} (hpos : 0 < capacity) (hfull : pipe.Full) :
    pipe.content ≠ [] :=
  fun hempty => not_full_of_empty hpos hempty hfull

theorem exists_write_of_not_full {capacity : Nat} {pipe : Pipe UInt8 capacity} (byte : UInt8) (h : ¬pipe.Full) :
    ∃ next, pipe.write byte = some next :=
  Option.ne_none_iff_exists'.mp fun hnone => h (Pipe.write_eq_none.mp hnone)

/-- A client that writes goes on, unless the buffer is full. -/
theorem client_writes {rest : Bytes} (hclient : s.client = .writeAll rest) :
    (∃ action t, action ≠ .stop ∧ step debug answer s action = some t) ∨
      (∃ byte rest, s.client = .writeAll (byte :: rest)) ∧ s.toServer.Full := by
  rcases rest with _ | ⟨byte, rest⟩
  · exact .inl ⟨.clientShutdown, _, by simp, if_pos hclient⟩
  · by_cases hfull : s.toServer.Full
    · exact .inr ⟨⟨byte, rest, hclient⟩, hfull⟩
    · obtain ⟨toServer, hwrite⟩ := exists_write_of_not_full byte hfull
      refine .inl ⟨.clientWrite, { s with client := .writeAll rest, toServer }, by simp, ?_⟩
      simp only [step, hclient, hwrite, Option.map_some]

theorem client_reads (hclient : s.client = .readToEnd) (hne : s.toClient.content ≠ []) :
    ∃ action t, action ≠ .stop ∧ step debug answer s action = some t := by
  obtain ⟨bytes, toClient, hread⟩ := exists_read hne rfl
  refine ⟨.clientRead 1, { s with response := s.response ++ bytes, toClient }, by simp, ?_⟩
  simp only [step, hclient, hread, if_true, Option.map_some]

/-- Something goes on until both are through, unless they are jammed. -/
theorem Inv.exists_step (h : Inv parse debug answer sent s) :
    Finished s ∨ Jammed s ∨ ∃ action t, action ≠ .stop ∧ step debug answer s action = some t := by
  obtain ⟨hs, hc⟩ := h
  cases hserver : s.server with
  | reading rest =>
    refine .inr (.inr ⟨.serverStep, ?_⟩)
    rcases rest with (fault | request) | ⟨maxBytes, next⟩
    · simp [step, State.serverStep, hserver]
    · simp [step, State.serverStep, hserver]
    · cases hlive : s.generationLive <;> simp [step, State.serverStep, hserver, hlive]
  | readSome maxBytes next =>
    refine .inr (.inr ?_)
    simp only [ServerInv, hserver] at hs
    obtain ⟨-, ⟨hpos, -⟩, -⟩ := hs
    by_cases hempty : s.toServer.content = []
    · cases hclient : s.client with
      | writeAll rest =>
        rcases client_writes hclient with hstep | ⟨-, hfull⟩
        · exact hstep
        · exact absurd hfull (not_full_of_empty b.server_pos hempty)
      | _ =>
        refine ⟨.serverEof, ?_⟩
        simp [step, hserver, hclient, hempty]
    · obtain ⟨bytes, toServer, hread⟩ := exists_read hempty rfl
      refine ⟨.serverRead 1, { s with server := .reading (next (.ok bytes)), toServer }, by simp, ?_⟩
      simp only [step, hserver, hread, if_pos (show 1 ≤ maxBytes from hpos), Option.map_some]
  | responding request rest =>
    refine .inr (.inr ⟨.serverStep, ?_⟩)
    rcases rest with result | ⟨bytes | _, next⟩
    · simp [step, State.serverStep, hserver]
    · cases hlive : s.generationLive <;> simp [step, State.serverStep, hserver, hlive]
    · cases hlive : s.generationLive <;> simp [step, State.serverStep, hserver, hlive]
  | writeAll request rest next =>
    rcases rest with _ | ⟨byte, rest⟩
    · refine .inr (.inr ⟨.serverStep, ?_⟩)
      simp [step, State.serverStep, hserver]
    · by_cases hfull : s.toClient.Full
      · cases hclient : s.client with
        | writeAll rest' =>
          rcases client_writes hclient with hstep | ⟨hwrites, hfull'⟩
          · exact .inr (.inr hstep)
          · exact .inr (.inl ⟨hwrites, hfull', ⟨request, byte, rest, next, hserver⟩, hfull⟩)
        | readToEnd => exact .inr (.inr (client_reads hclient (content_ne_nil b.client_pos hfull)))
        | returned result =>
          simp only [ServerInv, hserver] at hs
          rcases hc result hclient with ⟨-, hclosed, -⟩ | ⟨-, -, out, hended⟩
          · rw [hs.2.1] at hclosed
            cases hclosed
          · rw [hserver] at hended
            cases hended
      · obtain ⟨toClient, hwrite⟩ := exists_write_of_not_full byte hfull
        refine .inr (.inr ⟨.serverWrite, { s with server := .writeAll request rest next, toClient }, by simp, ?_⟩)
        simp only [step, hserver, hwrite, Option.map_some]
  | ended out =>
    have hclosed : s.closed = true := by
      rcases out with fault | ⟨request, result⟩
      · simp only [ServerInv, hserver] at hs
        exact hs.2.1
      · simp only [ServerInv, hserver] at hs
        exact hs.2.1
    cases hclient : s.client with
    | writeAll rest =>
      refine .inr (.inr ?_)
      rcases client_writes hclient with hstep | ⟨-, hfull⟩
      · exact hstep
      · refine ⟨.clientFail, ?_⟩
        simp [step, hserver, hclient, content_ne_nil b.server_pos hfull]
    | readToEnd =>
      refine .inr (.inr ?_)
      by_cases hempty : s.toClient.content = []
      · exact ⟨.clientEof, _, by simp, if_pos ⟨hclient, hempty, hclosed⟩⟩
      · exact client_reads hclient hempty
    | returned result => exact .inl ⟨⟨result, hclient⟩, out, hserver⟩

theorem Inv.stuck_iff (h : Inv parse debug answer sent s) : Stuck debug answer s ↔ Finished s ∨ Jammed s := by
  constructor
  · intro hstuck
    rcases h.exists_step with hfinished | hjammed | ⟨action, t, hne, hstep⟩
    · exact .inl hfinished
    · exact .inr hjammed
    · rw [hstuck action hne] at hstep
      cases hstep
  · rintro (⟨⟨result, hclient⟩, out, hserver⟩ |
      ⟨⟨byte, rest, hclient⟩, hfull, ⟨request, byte', rest', next, hserver⟩, hfull'⟩)
    · intro action hne
      cases action with
      | stop => exact absurd rfl hne
      | _ => simp [step, State.serverStep, hclient, hserver]
    · intro action hne
      cases action with
      | stop => exact absurd rfl hne
      | _ =>
        simp [step, State.serverStep, hclient, hserver, Pipe.write_eq_none.mpr hfull, Pipe.write_eq_none.mpr hfull']

/-- Once anything is closed, the server has replied, or it has refused the request. -/
theorem ServerInv.of_closed (hs : ServerInv parse debug answer sent s) (hclosed : s.closed = true) :
    s.delivered = reply parse debug answer sent ∨ s.generationLive = false ∧ s.delivered = [] := by
  have hreplied : ∀ request rest, Requested parse sent s request → Replied debug answer s request rest →
      s.delivered = reply parse debug answer sent ∨ s.generationLive = false ∧ s.delivered = [] := by
    intro request rest hrequested hreplied
    rcases hreplied with ⟨hdelivered, -⟩ | ⟨hstopped, hdelivered, -⟩
    · exact .inl (hdelivered.trans hrequested.reply.symm)
    · exact .inr ⟨hstopped, hdelivered⟩
  have hopen : s.closed ≠ false := fun h => Bool.false_ne_true (h.symm.trans hclosed)
  cases hpc : s.server with
  | reading rest =>
    simp only [ServerInv, hpc] at hs
    exact absurd hs.1.closed hopen
  | readSome maxBytes next =>
    simp only [ServerInv, hpc] at hs
    exact absurd hs.1.closed hopen
  | responding request rest =>
    simp only [ServerInv, hpc] at hs
    obtain ⟨hrequested, ⟨huntouched, -⟩ | hs⟩ := hs
    · exact absurd huntouched.closed hopen
    · exact hreplied request rest hrequested hs
  | writeAll request rest next =>
    simp only [ServerInv, hpc] at hs
    exact absurd hs.2.1 hopen
  | ended out =>
    rcases out with fault | ⟨request, result⟩
    · simp only [ServerInv, hpc] at hs
      obtain ⟨hdelivered, -, hrefused | ⟨hstopped, -⟩⟩ := hs
      · refine .inl (hdelivered.trans ?_)
        rw [reply]
        rcases hdecoded : decoded parse sent with kind | request
        · rfl
        · rw [hdecoded] at hrefused
          cases hrefused
      · exact .inr ⟨hstopped, hdelivered⟩
    · simp only [ServerInv, hpc] at hs
      exact hreplied request _ hs.1 hs.2.2

theorem responseText_nil : responseText [] = .ok "" := by
  have : fromUtf8 (asBytes "") = some "" := fromUtf8_asBytes ""
  rw [responseText, show ([] : Bytes) = asBytes "" from rfl, this]

/-- How the client returns. -/
theorem Inv.returned (h : Inv parse debug answer sent s) {result : Except ClientError String}
    (hresult : s.client = .returned result) :
    result = responseText (reply parse debug answer sent) ∨ (s.generationLive = false ∧ result = .ok "") ∨
      (result = .error .io ∧ s.toServer.content ≠ [] ∧ ∃ out, s.server = .ended out) := by
  rcases h.client result hresult with ⟨htext, hclosed, hempty⟩ | hfailed
  · have hdelivered : s.delivered = s.response := by rw [State.delivered, hempty, List.append_nil]
    rcases h.server.of_closed hclosed with hreply | ⟨hstopped, hnothing⟩
    · exact .inl (by rw [htext, ← hreply, hdelivered])
    · refine .inr (.inl ⟨hstopped, ?_⟩)
      rw [htext, ← hdelivered, hnothing, responseText_nil]
  · exact .inr (.inr hfailed)

/-- How the server is through. -/
theorem ServerInv.of_ended (hs : ServerInv parse debug answer sent s) {request : HttpRequest}
    {result : Except HttpError Unit} (hended : s.server = .ended (.ok (request, result))) :
    Requested parse sent s request ∧
      (result = respondedTo debug answer request ∨ s.generationLive = false ∧ result = respondedStopped) := by
  simp only [ServerInv, hended] at hs
  obtain ⟨hrequested, -, ⟨-, hresult⟩ | ⟨hstopped, -, hresult⟩⟩ := hs
  · exact ⟨hrequested, .inl hresult⟩
  · exact ⟨hrequested, .inr ⟨hstopped, hresult⟩⟩

theorem ServerInv.of_refused (hs : ServerInv parse debug answer sent s) {fault : Fault}
    (hended : s.server = .ended (.error fault)) : Refused parse sent s fault := by
  simp only [ServerInv, hended] at hs
  exact hs.2.2

/-- A jam takes a client that sends more than a request and the buffer behind it, and a response that does not fit. -/
theorem Jammed.surplus (hs : ServerInv parse debug answer sent s) (h : Jammed s) :
    ∃ taken incoming request, sent = taken ++ incoming ∧ decoded parse taken = .ok request ∧
      b.server < incoming.length ∧ b.client < (reply parse debug answer sent).length := by
  obtain ⟨byte, rest, hclient⟩ := h.client
  obtain ⟨request, byte', rest', next, hserver⟩ := h.server
  have htoServer : s.toServer.content.length = b.server := h.toServer
  have htoClient : s.toClient.content.length = b.client := h.toClient
  simp only [ServerInv, hserver] at hs
  obtain ⟨hrequested, -, hdelivered, -⟩ := hs
  have hreply := congrArg List.length (hdelivered.trans hrequested.reply.symm)
  obtain ⟨taken, incoming, hsent, hunread, hdecoded⟩ := hrequested
  refine ⟨taken, incoming, request, hsent, ?_, ?_, ?_⟩
  · rw [← List.append_nil taken]
    exact hdecoded []
  · have hlength := hunread.length_le
    simp only [State.unread, hclient, ClientPc.toWrite, List.length_append, List.length_cons] at hlength
    omega
  · simp only [State.delivered, List.length_append, List.length_cons] at hreply
    omega

theorem Inv.reached (hparse : Httparse.Lawful parse) {as : List Action}
    (hrun : run (step debug answer) (.connected parse sent) as = some s) : Inv parse debug answer sent s :=
  run_invariant (fun _ _ _ hI hstep => (hI.kept hstep).1) hrun (.connected debug answer hparse sent)

theorem length_le (hparse : Httparse.Lawful parse) {as : List Action}
    (hrun : run (step debug answer) (.connected parse sent) as = some s) :
    as.length ≤ 3 * sent.length + 2 * (reply parse debug answer sent).length + 12 := by
  have hinit : Inv parse debug answer sent (.connected parse sent : State b) := .connected debug answer hparse sent
  have hle :=
    length_add_rank_le (State.rank parse debug answer sent) (fun _ _ _ hI hstep => Inv.kept hI hstep) hrun hinit
  have hserver := serverLeft_reading hinit.server rfl
  have heffort : responseEffort parse debug answer sent ≤ _ := responseEffort_le
  simp only [State.rank, State.connected, State.unread, ClientPc.toWrite, Pipe.content_empty, clientLeft,
    Bool.toNat_true, List.nil_append] at hle hserver
  omega

/-- Whatever a client sends, in whatever pieces the bytes move, and whenever the adapter is stopped, the client gets
    nothing but the response to the request that is decoded from all it sends: it returns with the whole of it, or with
    nothing when the adapter has been stopped, or its connection is reset, where the server has dropped it with bytes
    unread. The server is through with that request and the result of its response, or with the error of the decoding,
    unless the adapter has been stopped. -/
theorem conversation_whole (parse : Httparse.Parser) (debug : String → String) (answer : HttpRequest → HttpResponse)
    (hparse : Httparse.Lawful parse) (sent : Bytes) (as : List Action) {s : State b}
    (hrun : run (step debug answer) (.connected parse sent) as = some s) :
    s.response <+: reply parse debug answer sent ∧
    (∀ result, s.client = .returned result →
      result = responseText (reply parse debug answer sent) ∨ (s.generationLive = false ∧ result = .ok "") ∨
        (result = .error .io ∧ s.toServer.content ≠ [] ∧ ∃ out, s.server = .ended out)) ∧
    (∀ request result, s.server = .ended (.ok (request, result)) → decoded parse sent = .ok request ∧
      (result = respondedTo debug answer request ∨ s.generationLive = false ∧ result = respondedStopped)) ∧
    ∀ fault, s.server = .ended (.error fault) →
      (decoded parse sent).mapError some = .error fault.kind? ∨ s.generationLive = false ∧ fault = stoppedFault := by
  have hinv : Inv parse debug answer sent s := .reached hparse hrun
  refine ⟨?_, fun _ => hinv.returned, ?_, fun _ => hinv.server.of_refused⟩
  · exact (List.prefix_append _ _).trans hinv.server.delivered
  · intro request result hended
    obtain ⟨hrequested, hresult⟩ := hinv.server.of_ended hended
    exact ⟨hrequested.decoded, hresult⟩

/-- A conversation ends after so many steps. Until then something goes on, unless both sides write into full buffers;
    then the client has sent more than its request and the buffer behind it, and the response does not fit either. -/
theorem conversation_ends (parse : Httparse.Parser) (debug : String → String) (answer : HttpRequest → HttpResponse)
    (hparse : Httparse.Lawful parse) (sent : Bytes) (as : List Action) {s : State b}
    (hrun : run (step debug answer) (.connected parse sent) as = some s) :
    as.length ≤ 3 * sent.length + 2 * (reply parse debug answer sent).length + 12 ∧
    (Stuck debug answer s ↔ Finished s ∨ Jammed s) ∧
    (Jammed s → ∃ taken incoming request, sent = taken ++ incoming ∧ decoded parse taken = .ok request ∧
      b.server < incoming.length ∧ b.client < (reply parse debug answer sent).length) := by
  have hinv : Inv parse debug answer sent s := .reached hparse hrun
  exact ⟨length_le hparse hrun, hinv.stuck_iff, fun hjammed => hjammed.surplus hinv.server⟩

end

end Fabric.Http.Conversation
