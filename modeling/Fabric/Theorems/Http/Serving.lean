import Fabric.Http.Server
import Fabric.Theorems.Http.Encoding
import Fabric.Theorems.Http.Reading

/-! The serving loop of the server instance. An error of one exchange leaves the loop, so it handles a whole sequence of
    connections exactly when none of them fails. -/

namespace Fabric.Http
open Rust Tcp

/-! ### What the instance promises -/

/-- A connection as a live transport hands it out, with nothing written to it. -/
structure Accepted (connection : ByteStream) : Prop where
  generationLive : connection.generationLive = true
  outgoing : connection.outgoing = []

/-- The request that a connection carries, if it is well formed and within the limits of the server. -/
def requestOn (parse : Httparse.Parser) (connection : ByteStream) : Except HttpErrorKind HttpRequest :=
  decode parse defaultMaxHeadBytes defaultMaxBodyBytes connection.incoming connection.readFailure

/-- The connection carries a well-formed request, and the response to it can be written. -/
structure Serviceable (parse : Httparse.Parser) (connection : ByteStream) : Prop where
  request : ∃ request, requestOn parse connection = .ok request
  writable : connection.writeFailure = none

/-- The loop over the connections that the transport hands out before it stops. -/
def serveAll (parse : Httparse.Parser) (debug : String → String) (connections : List ByteStream) : Served :=
  serve parse debug (connections.map TcpAcceptResult.accepted ++ [.stopped])

/-- The loop left because the transport had stopped. -/
def Served.Stopped (served : Served) : Prop := ∃ detail, served.exit = some (.error ⟨.stopped, detail⟩)

/-- The loop handles the whole sequence of connections: it leaves only when the transport stops, after all of them, and
    each that carries a well-formed request and takes the response has been sent the one for its own target. -/
structure HandlesAll (parse : Httparse.Parser) (debug : String → String) (connections : List ByteStream) : Prop where
  stopped : (serveAll parse debug connections).Stopped
  handled : (serveAll parse debug connections).connections.length = connections.length
  answered : ∀ (i : Nat) connection request, connections[i]? = some connection →
    requestOn parse connection = .ok request → connection.writeFailure = none →
    ∃ served : ByteStream, (serveAll parse debug connections).connections[i]? = some served ∧
      encodeHttpResponse debug (greeting request) = .ok served.outgoing

section
variable {parse : Httparse.Parser} (debug : String → String) {connection : ByteStream}

/-! ### Errors of one exchange -/

theorem contentLengthHeader_error {contentLength : Option Nat} {value : String} {e : HttpError}
    (h : contentLengthHeader contentLength value = .error e) : e.kind ≠ .stopped := by
  unfold contentLengthHeader at h
  repeat' split at h
  all_goals
    cases h
    try simp

theorem checkHeader_error {name value : String} {contentLength : Option Nat} {e : HttpError}
    (h : checkHeader name value contentLength = .error e) : e.kind ≠ .stopped := by
  unfold checkHeader at h
  split at h
  · rename_i hlength
    cases h
    split at hlength
    · exact contentLengthHeader_error hlength
    · cases hlength
  · split at h
    · cases h
      simp
    · cases h

theorem headerLoop_error {raw : List Httparse.Header} {headers : List HttpHeader} {contentLength : Option Nat}
    {e : HttpError} (h : headerLoop raw headers contentLength = .error e) : e.kind ≠ .stopped := by
  induction raw generalizing headers contentLength with
  | nil => cases h
  | cons header raw ih =>
    rw [headerLoop] at h
    split at h
    · exact ih h
    · split at h
      · cases h
        simp
      · split at h
        · rename_i hcheck
          cases h
          exact checkHeader_error hcheck
        · exact ih h

/-- No check of a head ends in `Stopped`, the error on which the transport has stopped. -/
theorem checkHead_error {request : Httparse.Request} {e : HttpError} (h : checkHead request = .error e) :
    e.kind ≠ .stopped := by
  unfold checkHead at h
  split at h
  · cases h
    simp
  · cases h
    simp
  · cases h
    simp
  · rename_i method target version _ _ _
    cases hversion : HttpVersion.fromHttparse version with
    | error e' =>
      rw [hversion] at h
      cases h
      unfold HttpVersion.fromHttparse at hversion
      split at hversion <;> cases hversion
      simp
    | ok version' =>
      rw [hversion] at h
      cases hloop : headerLoop request.headers [] none with
      | error e' =>
        rw [hloop] at h
        cases h
        exact headerLoop_error hloop
      | ok out =>
        rw [hloop] at h
        cases h

theorem requestOn_error {kind : HttpErrorKind} (h : requestOn parse connection = .error kind) : kind ≠ .stopped := by
  have hend : endOfStream connection.readFailure ≠ .stopped := by
    cases connection.readFailure <;> simp [endOfStream]
  unfold requestOn decode at h
  split at h
  · cases h
    simp
  · split at h <;> cases h
    · simp
    · exact hend
  · split at h
    · rename_i hhead
      cases h
      exact checkHead_error hhead
    · split at h
      · cases h
        simp
      · split at h <;> cases h
        exact hend

/-! ### One pass of the loop -/

theorem readHttpRequest_of_requestOn (hparse : Httparse.Lawful parse) (haccepted : Accepted connection) :
    ∃ result connection',
      readHttpRequest parse connection defaultMaxHeadBytes defaultMaxBodyBytes = (result, connection') ∧
      result.mapError Fault.kind? = (requestOn parse connection).mapError some ∧
      ByteStream.SameEnds connection connection' := by
  have hspec := readHttpRequest_spec hparse haccepted.generationLive
    (show defaultMaxHeadBytes + defaultMaxBodyBytes ≤ usizeMax by decide)
  exact ⟨_, _, rfl, hspec.1, hspec.2⟩

theorem encodable_greeting (request : HttpRequest) : Encodable (greeting request) where
  statusCode := by
    have : 100 ≤ (200 : UInt16).toNat ∧ (200 : UInt16).toNat ≤ 999 := by decide
    exact this
  reason := by
    have : NoCrLf "OK" := by decide
    exact this
  names header h := by cases h
  values header h := by cases h

/-- Writing on a live connection succeeds or fails as the connection takes it. -/
theorem respond_eq {request : HttpRequest} (hlive : connection.generationLive = true) :
    (HttpExchange.mk request connection).respond debug (greeting request) =
      match connection.writeFailure with
      | none =>
        (.ok (), { connection with
          outgoing := connection.outgoing ++ encoded (greeting request)
          shutdown := true })
      | some detail => (.error ⟨.writeResponseFailed, "failed to write HTTP response: " ++ detail⟩,
          { connection with shutdown := true }) := by
  have hencode : encodeHttpResponse debug (greeting request) = .ok (encoded (greeting request)) :=
    encodeHttpResponse_eq_ok.mpr ⟨encodable_greeting request, rfl⟩
  have hensure : connection.ensureLive = .ok () := if_pos hlive
  rw [HttpExchange.respond, writeHttpResponse, hencode]
  simp only [ByteStream.writeAll, hensure]
  cases hwrite : connection.writeFailure <;> simp [ByteStream.shutdownBoth, hlive, hwrite]

/-- A request that is read and answered: the loop goes on, and the connection holds the response for its target. -/
theorem serve_of_serviceable (hparse : Httparse.Lawful parse) (haccepted : Accepted connection)
    {request : HttpRequest} (hrequest : requestOn parse connection = .ok request)
    (hwritable : connection.writeFailure = none) (rest : List TcpAcceptResult) :
    ∃ served : ByteStream, served.outgoing = encoded (greeting request) ∧
      serve parse debug (.accepted connection :: rest) = (serve parse debug rest).after served := by
  obtain ⟨result, connection', hread, hmap, hends⟩ := readHttpRequest_of_requestOn hparse haccepted
  rw [hrequest] at hmap
  cases result with
  | error fault => cases hmap
  | ok request' =>
    cases hmap
    refine ⟨{ connection' with
      outgoing := connection'.outgoing ++ encoded (greeting request)
      shutdown := true }, ?_, ?_⟩
    · simp only [hends.outgoing, haccepted.outgoing, List.nil_append]
    · rw [serve, acceptExchange, hread]
      simp only [respond_eq debug (hends.generationLive.trans haccepted.generationLive), hends.writeFailure, hwritable]

/-- Any error of one exchange, in reading the request or in writing the response, leaves the loop. -/
theorem serve_of_not_serviceable (hparse : Httparse.Lawful parse) (haccepted : Accepted connection)
    (h : ¬Serviceable parse connection) (rest : List TcpAcceptResult) :
    ∃ served e, e.kind ≠ .stopped ∧
      serve parse debug (.accepted connection :: rest) = ⟨[served], some (.error e)⟩ := by
  obtain ⟨result, connection', hread, hmap, hends⟩ := readHttpRequest_of_requestOn hparse haccepted
  rw [serve, acceptExchange, hread]
  cases hrequest : requestOn parse connection with
  | error kind =>
    rw [hrequest] at hmap
    cases result with
    | ok request => cases hmap
    | error fault =>
      cases fault with
      | panic => cases hmap
      | error e =>
        cases hmap
        exact ⟨connection', e, requestOn_error hrequest, rfl⟩
  | ok request =>
    rw [hrequest] at hmap
    cases result with
    | error fault => cases hmap
    | ok request' =>
      cases hmap
      cases hwrite : connection.writeFailure with
      | none => exact absurd ⟨⟨request, hrequest⟩, hwrite⟩ h
      | some detail =>
        simp only [respond_eq debug (hends.generationLive.trans haccepted.generationLive), hends.writeFailure, hwrite]
        exact ⟨_, _, by simp, rfl⟩

/-! ### The whole sequence -/

theorem serviceable_of_stopped (hparse : Httparse.Lawful parse) {connections : List ByteStream}
    (haccepted : ∀ connection ∈ connections, Accepted connection) (h : (serveAll parse debug connections).Stopped) :
    ∀ connection ∈ connections, Serviceable parse connection := by
  induction connections with
  | nil => exact fun connection hm => by cases hm
  | cons connection connections ih =>
    rw [List.forall_mem_cons] at haccepted ⊢
    by_cases hs : Serviceable parse connection
    · obtain ⟨request, hrequest⟩ := hs.request
      obtain ⟨served, -, hserve⟩ := serve_of_serviceable debug hparse haccepted.1 hrequest hs.writable
        (connections.map .accepted ++ [.stopped])
      refine ⟨hs, ih haccepted.2 ?_⟩
      obtain ⟨detail, hexit⟩ := h
      rw [serveAll, List.map_cons, List.cons_append, hserve] at hexit
      exact ⟨detail, hexit⟩
    · obtain ⟨served, e, hkind, hserve⟩ := serve_of_not_serviceable debug hparse haccepted.1 hs
        (connections.map .accepted ++ [.stopped])
      obtain ⟨detail, hexit⟩ := h
      rw [serveAll, List.map_cons, List.cons_append, hserve] at hexit
      cases hexit
      exact absurd rfl hkind

theorem handlesAll_of_serviceable (hparse : Httparse.Lawful parse) {connections : List ByteStream}
    (haccepted : ∀ connection ∈ connections, Accepted connection)
    (h : ∀ connection ∈ connections, Serviceable parse connection) : HandlesAll parse debug connections := by
  induction connections with
  | nil => exact ⟨⟨_, rfl⟩, rfl, fun i connection request hi => by simp at hi⟩
  | cons connection connections ih =>
    rw [List.forall_mem_cons] at haccepted h
    obtain ⟨request, hrequest⟩ := h.1.request
    obtain ⟨served, hserved, hserve⟩ := serve_of_serviceable debug hparse haccepted.1 hrequest h.1.writable
      (connections.map .accepted ++ [.stopped])
    have hrest := ih haccepted.2 h.2
    have heq : serveAll parse debug (connection :: connections) =
        (serveAll parse debug connections).after served := hserve
    refine ⟨?_, ?_, fun i connection' request' hi hrequest' hwritable => ?_⟩
    · rw [heq]
      exact hrest.stopped
    · rw [heq]
      exact congrArg (· + 1) hrest.handled
    · rw [heq]
      cases i with
      | zero =>
        cases hi
        rw [hrequest] at hrequest'
        cases hrequest'
        exact ⟨served, rfl, encodeHttpResponse_eq_ok.mpr ⟨encodable_greeting request, hserved⟩⟩
      | succ i => exact hrest.answered i connection' request' hi hrequest' hwritable

end

/-- The serving loop handles a sequence of connections if and only if each of them carries a well-formed request within
    the limits and takes its response. -/
theorem handlesAll_iff (parse : Httparse.Parser) (debug : String → String) (hparse : Httparse.Lawful parse)
    (connections : List ByteStream) (haccepted : ∀ connection ∈ connections, Accepted connection) :
    HandlesAll parse debug connections ↔ ∀ connection ∈ connections, Serviceable parse connection :=
  ⟨fun h => serviceable_of_stopped debug hparse haccepted h.stopped, handlesAll_of_serviceable debug hparse haccepted⟩

/-- The POST of three bytes, and nothing after it. -/
theorem handlesAll_iff_posted : HandlesAll (knownHead postHead postRequest) id [posted, posted] := by
  refine (handlesAll_iff _ id (knownHead_lawful postHead postRequest) [posted, posted] ?_).mpr ?_
  · simp only [List.forall_mem_cons]
    exact ⟨⟨rfl, rfl⟩, ⟨rfl, rfl⟩, fun _ h => by cases h⟩
  · have hserviceable : Serviceable (knownHead postHead postRequest) posted := ⟨⟨_, rfl⟩, rfl⟩
    simp only [List.forall_mem_cons]
    exact ⟨hserviceable, hserviceable, fun _ h => by cases h⟩

/-- A client that connects and closes. -/
def closed : ByteStream := { posted with incoming := [], cuts := [] }

/-- One client takes the server instance down. -/
theorem closed_not_handled : ¬∀ parse, Httparse.Lawful parse → ∀ connections : List ByteStream,
    (∀ connection ∈ connections, Accepted connection) → HandlesAll parse id connections := by
  intro h
  have haccepted : ∀ connection ∈ [closed, posted], Accepted connection := by
    simp only [List.forall_mem_cons]
    exact ⟨⟨rfl, rfl⟩, ⟨rfl, rfl⟩, fun _ h => by cases h⟩
  have hparse := knownHead_lawful postHead postRequest
  have hall := serviceable_of_stopped id hparse haccepted (h _ hparse _ haccepted).stopped
  obtain ⟨request, hrequest⟩ := (hall closed (List.mem_cons_self ..)).request
  cases hrequest

end Fabric.Http
