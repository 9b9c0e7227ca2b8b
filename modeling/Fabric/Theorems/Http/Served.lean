import Fabric.Theorems.Http.Conversation

/-! The client of the examples and the server instance: a GET is answered, and nobody waits for ever. -/

namespace Fabric.Http.Conversation
open Rust Tcp Transition

/-- The request of `client::get`, as the parser completes it. -/
def getHead (target : String) : Httparse.Request where
  method := some "GET"
  path := some target
  version := some 1
  headers := [⟨"Host", asBytes "example.local"⟩]

/-- What the server takes it for. -/
def getParsed (target : String) : HttpRequest where
  method := "GET"
  target := target
  version := .http11
  headers := [⟨"Host", "example.local"⟩]
  body := []

/-- The response of the server instance. -/
def getResponse (target : String) : String :=
  "HTTP/1.1 200 OK\r\nContent-Length: " ++ toString (asBytes ("hello from " ++ target)).length ++
    "\r\nConnection: close\r\n\r\nhello from " ++ target

section
variable {parse : Httparse.Parser} {debug : String → String} {target : String}

theorem checkHead_getHead (target : String) : checkHead (getHead target) =
    .ok ⟨"GET", target, .http11, [⟨"Host", "example.local"⟩], 0⟩ := by
  have hloop : headerLoop (getHead target).headers [] none = .ok ([⟨"Host", "example.local"⟩], none) := by
    have hvalue : fromUtf8 (asBytes "example.local") = some "example.local" := fromUtf8_asBytes _
    have hcheck : checkHeader "Host" "example.local" none = .ok none := rfl
    simp only [getHead, headerLoop, hvalue, hcheck, List.nil_append]
    exact if_neg (by simp)
  simp only [checkHead, getHead] at hloop ⊢
  rw [hloop]
  rfl

theorem decoded_getRequest
    (hknown : parse (getRequest target) = .ok (.complete (getRequest target).length (getHead target)))
    (hlength : (getRequest target).length ≤ defaultMaxHeadBytes) :
    decoded parse (getRequest target) = .ok (getParsed target) := by
  rw [decoded, decode, List.take_of_length_le hlength, hknown]
  simp [checkHead_getHead, getParsed]

/-- A server that has taken a request takes all of it. -/
theorem eq_nil_of_decoded (hparse : Httparse.Lawful parse) {taken incoming : Bytes} {request : HttpRequest}
    {head : Httparse.Request}
    (hknown : parse (taken ++ incoming) = .ok (.complete (taken ++ incoming).length head))
    (hdecoded : decoded parse taken = .ok request) : incoming = [] := by
  rw [decoded, decode] at hdecoded
  rcases htake : parse (taken.take defaultMaxHeadBytes) with error | (⟨n, head'⟩ | _)
  · rw [htake] at hdecoded
    cases hdecoded
  · have hle := hparse.complete_le htake
    have hwhole := hparse.complete_append (taken.drop defaultMaxHeadBytes ++ incoming) htake
    rw [← List.append_assoc, List.take_append_drop, hknown] at hwhole
    cases hwhole
    rw [List.length_take, List.length_append] at hle
    exact List.eq_nil_of_length_eq_zero (by omega)
  · rw [htake] at hdecoded
    dsimp only at hdecoded
    split at hdecoded <;> cases hdecoded

theorem statusLine_greeting (request : HttpRequest) : statusLine (greeting request) = asBytes "HTTP/1.1 200 OK" := by
  have hline : asBytes HttpVersion.http11.statusLinePrefix ++ 32 :: (asBytes (toString (200 : UInt16).toNat) ++
      32 :: asBytes (defaultReasonPhrase 200)) = asBytes "HTTP/1.1 200 OK" := by decide
  simpa only [statusLine, greeting, HttpResponse.new, HttpResponse.reasonPhrase, Option.getD_none] using hline

theorem encoded_greeting (request : HttpRequest) : encoded (greeting request) =
    asBytes "HTTP/1.1 200 OK" ++ crlf ++
      asBytes ("Content-Length: " ++ toString (asBytes ("hello from " ++ request.target)).length) ++ crlf ++
      (asBytes "Connection: close" ++ crlf) ++ crlf ++ asBytes ("hello from " ++ request.target) := by
  rw [encoded_eq, statusLine_greeting]
  simp only [greeting, HttpResponse.new, List.filter_nil, List.flatMap_nil, List.any_nil, Bool.false_eq_true, if_false,
    List.append_nil]

theorem asBytes_getResponse (target : String) : asBytes (getResponse target) =
    asBytes "HTTP/1.1 200 OK" ++ crlf ++
      asBytes ("Content-Length: " ++ toString (asBytes ("hello from " ++ target)).length) ++ crlf ++
      (asBytes "Connection: close" ++ crlf) ++ crlf ++ asBytes ("hello from " ++ target) := by
  have hhead : asBytes "HTTP/1.1 200 OK\r\nContent-Length: " =
      asBytes "HTTP/1.1 200 OK" ++ crlf ++ asBytes "Content-Length: " := by decide
  have hend : asBytes "\r\nConnection: close\r\n\r\nhello from " =
      crlf ++ (asBytes "Connection: close" ++ crlf) ++ crlf ++ asBytes "hello from " := by decide
  unfold getResponse
  rw [asBytes_append "hello from ", asBytes_append "Content-Length: "]
  generalize (asBytes "hello from " ++ asBytes target).length = n
  rw [asBytes_append, asBytes_append, asBytes_append, hhead, hend]
  simp only [List.append_assoc]

theorem replyTo_greeting (debug : String → String) (target : String) :
    replyTo debug greeting (getParsed target) = asBytes (getResponse target) := by
  have hencode : encodeHttpResponse debug (greeting (getParsed target)) = .ok (encoded (greeting (getParsed target))) :=
    encodeHttpResponse_eq_ok.mpr ⟨encodable_greeting _, rfl⟩
  simp only [replyTo, hencode]
  rw [encoded_greeting, asBytes_getResponse]
  rfl

/-- What the parser makes of the request, which is within the limit for heads. -/
structure Known (parse : Httparse.Parser) (target : String) : Prop where
  complete : parse (getRequest target) = .ok (.complete (getRequest target).length (getHead target))
  length_le : (getRequest target).length ≤ defaultMaxHeadBytes

variable {b : Buffers} {s : State b}

theorem Known.reply (h : Known parse target) (debug : String → String) :
    reply parse debug greeting (getRequest target) = asBytes (getResponse target) := by
  rw [Conversation.reply, decoded_getRequest h.complete h.length_le]
  exact replyTo_greeting debug target

theorem Known.unread (h : Known parse target) (hparse : Httparse.Lawful parse) {request : HttpRequest}
    (hrequested : Requested parse (getRequest target) s request) : s.unread = [] := by
  obtain ⟨taken, incoming, hsent, hunread, hdecoded⟩ := hrequested
  have htaken : decoded parse taken = .ok request := List.append_nil taken ▸ hdecoded []
  have hnothing : incoming = [] := eq_nil_of_decoded hparse (hsent ▸ h.complete) htaken
  exact List.prefix_nil.mp (hnothing ▸ hunread)

theorem Known.not_jammed (h : Known parse target) (hparse : Httparse.Lawful parse)
    (hs : ServerInv parse debug greeting (getRequest target) s) : ¬Jammed s := by
  intro hjammed
  obtain ⟨request, byte, rest, next, hserver⟩ := hjammed.server
  simp only [ServerInv, hserver] at hs
  have hunread := h.unread hparse hs.1
  exact content_ne_nil b.server_pos hjammed.toServer (List.append_eq_nil_iff.mp hunread).1

/-- While its generation lives, the server is through with the request. -/
theorem Known.ended (h : Known parse target) (hs : ServerInv parse debug greeting (getRequest target) s)
    (hlive : s.generationLive = true) {out : Except Fault (HttpRequest × Except HttpError Unit)}
    (hended : s.server = .ended out) :
    Requested parse (getRequest target) s (getParsed target) ∧ out = .ok (getParsed target, .ok ()) := by
  have hdecoded := decoded_getRequest h.complete h.length_le
  rcases out with fault | ⟨request, result⟩
  · rcases hs.of_refused hended with hrefused | ⟨hstopped, -⟩
    · rw [hdecoded] at hrefused
      cases hrefused
    · rw [hlive] at hstopped
      cases hstopped
  · obtain ⟨hrequested, hresult⟩ := hs.of_ended hended
    have hrequest : request = getParsed target := Except.ok.inj (hrequested.decoded.symm.trans hdecoded)
    subst hrequest
    rcases hresult with hresult | ⟨hstopped, -⟩
    · have hencode :
          encodeHttpResponse debug (greeting (getParsed target)) = .ok (encoded (greeting (getParsed target))) :=
        encodeHttpResponse_eq_ok.mpr ⟨encodable_greeting _, rfl⟩
      rw [respondedTo, hencode] at hresult
      exact ⟨hrequested, hresult ▸ rfl⟩
    · rw [hlive] at hstopped
      cases hstopped

theorem Known.returned (h : Known parse target) (hparse : Httparse.Lawful parse)
    (hs : Inv parse debug greeting (getRequest target) s) (hlive : s.generationLive = true)
    {result : Except ClientError String} (hresult : s.client = .returned result) :
    result = .ok (getResponse target) := by
  rcases hs.returned hresult with htext | ⟨hstopped, -⟩ | ⟨-, hunread, out, hended⟩
  · rw [htext, h.reply, responseText, fromUtf8_asBytes]
  · rw [hlive] at hstopped
    cases hstopped
  · obtain ⟨hrequested, -⟩ := h.ended hs.server hlive hended
    have hnothing := h.unread hparse hrequested
    exact absurd (List.append_eq_nil_iff.mp hnothing).1 hunread

/-- The client of the examples, which sends a GET and reads up to the end, and the server, whatever the room in the
    buffers between them: while the adapter is not stopped, the client returns the whole response for its target, and
    the server is through with that request and a response that it has written. Every run ends, and only when both are
    through, also when the adapter is stopped. -/
theorem get_served (parse : Httparse.Parser) (debug : String → String) (hparse : Httparse.Lawful parse)
    (target : String) (hknown : Known parse target) (as : List Action)
    (hrun : run (step debug greeting) (.connected parse (getRequest target)) as = some s) :
    (s.generationLive = true →
      (∀ result, s.client = .returned result → result = .ok (getResponse target)) ∧
      ∀ out, s.server = .ended out → out = .ok (getParsed target, .ok ())) ∧
    (∀ result, s.client = .returned result →
      result = .ok (getResponse target) ∨ result = .ok "" ∨ result = .error .io) ∧
    (Stuck debug greeting s ↔ Finished s) ∧
    as.length ≤ 3 * (getRequest target).length + 2 * (asBytes (getResponse target)).length + 12 := by
  have hinv : Inv parse debug greeting (getRequest target) s := .reached hparse hrun
  refine ⟨fun hlive => ⟨fun _ => hknown.returned hparse hinv hlive,
      fun _ hended => (hknown.ended hinv.server hlive hended).2⟩,
    ?_, ?_, ?_⟩
  · intro result hresult
    rcases hinv.returned hresult with htext | ⟨-, hempty⟩ | ⟨hfailed, -⟩
    · exact .inl (by rw [htext, hknown.reply, responseText, fromUtf8_asBytes])
    · exact .inr (.inl hempty)
    · exact .inr (.inr hfailed)
  · exact hinv.stuck_iff.trans (or_iff_left (hknown.not_jammed hparse hinv.server))
  · exact hknown.reply debug ▸ length_le hparse hrun

end

/-! ### A run -/

/-- A run without a stop goes on until both are through. -/
theorem exists_finished {parse : Httparse.Parser} {target : String} {b : Buffers} (debug : String → String)
    (hparse : Httparse.Lawful parse) (hknown : Known parse target) :
    ∃ as, ∃ s : State b, run (step debug greeting) (.connected parse (getRequest target)) as = some s ∧
      s.generationLive = true ∧ Finished s := by
  have hstep : ∀ s : State b, Inv parse debug greeting (getRequest target) s ∧ s.generationLive = true →
      ¬(s.generationLive = true ∧ Finished s) → ∃ action t, True ∧ step debug greeting s action = some t ∧
        (Inv parse debug greeting (getRequest target) t ∧ t.generationLive = true) ∧
        t.rank parse debug greeting (getRequest target) < s.rank parse debug greeting (getRequest target) := by
    rintro s ⟨hinv, hlive⟩ hunfinished
    rcases hinv.exists_step with hfinished | hjammed | ⟨action, t, hne, hstep⟩
    · exact absurd ⟨hlive, hfinished⟩ hunfinished
    · exact absurd hjammed (hknown.not_jammed hparse hinv.server)
    · obtain ⟨hkept, hlt⟩ := hinv.kept hstep
      exact ⟨action, t, trivial, hstep, ⟨hkept, (moves_of_step hstep hne).generationLive.trans hlive⟩, hlt⟩
  obtain ⟨as, s, -, hrun, hlive, hfinished⟩ := exists_run_of_rank (P := fun _ => True) _ hstep
    ⟨.connected debug greeting hparse (getRequest target), rfl⟩
  exact ⟨as, s, hrun, hlive, hfinished⟩

/-- The request of the example, and buffers of one byte. -/
def exampleParser : Httparse.Parser := knownHead (getRequest "/example") (getHead "/example")

def narrow : Buffers := ⟨1, 1, Nat.one_pos, Nat.one_pos⟩

theorem known_example : Known exampleParser "/example" where
  complete := by rw [exampleParser, knownHead, if_pos List.prefix_rfl]
  length_le := by decide

theorem conversation_whole_example : ∃ as, ∃ s : State narrow,
    run (step id greeting) (.connected exampleParser (getRequest "/example")) as = some s ∧ Finished s ∧
      s.response <+: asBytes (getResponse "/example") := by
  have hparse : Httparse.Lawful exampleParser := knownHead_lawful _ _
  obtain ⟨as, s, hrun, -, hfinished⟩ := exists_finished (b := narrow) id hparse known_example
  obtain ⟨hstart, -⟩ := conversation_whole exampleParser id greeting hparse (getRequest "/example") as hrun
  exact ⟨as, s, hrun, hfinished, known_example.reply id ▸ hstart⟩

theorem conversation_ends_example : ∃ as, ∃ s : State narrow,
    run (step id greeting) (.connected exampleParser (getRequest "/example")) as = some s ∧ Finished s ∧
      as.length ≤ 304 ∧ Stuck id greeting s := by
  have hparse : Httparse.Lawful exampleParser := knownHead_lawful _ _
  obtain ⟨as, s, hrun, -, hfinished⟩ := exists_finished (b := narrow) id hparse known_example
  obtain ⟨hlength, hstuck, -⟩ := conversation_ends exampleParser id greeting hparse (getRequest "/example") as hrun
  rw [known_example.reply id] at hlength
  refine ⟨as, s, hrun, hfinished, ?_, hstuck.mpr (.inl hfinished)⟩
  have hsent : (getRequest "/example").length = 46 := by decide
  have hreply : (asBytes (getResponse "/example")).length = 77 := by decide
  omega

theorem get_served_example : ∃ as, ∃ s : State narrow,
    run (step id greeting) (.connected exampleParser (getRequest "/example")) as = some s ∧
      s.client = .returned (.ok (getResponse "/example")) ∧ s.server = .ended (.ok (getParsed "/example", .ok ())) := by
  have hparse : Httparse.Lawful exampleParser := knownHead_lawful _ _
  obtain ⟨as, s, hrun, hlive, ⟨result, hclient⟩, out, hserver⟩ := exists_finished (b := narrow) id hparse known_example
  obtain ⟨hserved, -⟩ := get_served exampleParser id hparse "/example" known_example as hrun
  obtain ⟨hreturned, hended⟩ := hserved hlive
  exact ⟨as, s, hrun, hreturned result hclient ▸ hclient, hended out hserver ▸ hserver⟩

end Fabric.Http.Conversation
