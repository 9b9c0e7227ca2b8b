import Fabric.Http.Exchange
import Fabric.Theorems.Http.Encoding

/-! An exchange puts at most one response on the wire, whole, and then shuts its connection down, whatever its
    transport does. -/

namespace Fabric.Http
open Rust Tcp

/-! ### The exchange and its calls -/

/-- Against a byte stream the calls come to what `respond` does. -/
theorem run_respondCalls (debug : String → String) (exchange : HttpExchange) (response : HttpResponse) :
    (respondCalls debug response).run ByteStream.answer exchange.connection = exchange.respond debug response := by
  rw [respondCalls, Interaction.run_bind, HttpExchange.respond, writeHttpResponseCalls, writeHttpResponse]
  cases encodeHttpResponse debug response with
  | error error => rfl
  | ok bytes =>
    simp only [Interaction.run, ByteStream.answer]
    rcases exchange.connection.writeAll bytes with ⟨error | _, connection⟩
    · rfl
    · rfl

/-! ### Shutdowns -/

/-- A stream after a number of shutdowns of its connection. -/
def Wire.shut (conditions : Nat → Conditions) : Nat → Wire → Wire
  | 0, wire => wire
  | n + 1, wire => (shutdownBoth (conditions wire.answered) wire).2.shut conditions n

/-- What a shutdown does: it is counted, and a live connection hands it to the stream. -/
theorem shutdownBoth_eq (found : Conditions) (wire : Wire) :
    (shutdownBoth found wire).2 = { wire with
      answered := wire.answered + 1
      handed := wire.handed ++ if found.generationLive then [.shutdown] else [] } := by
  unfold shutdownBoth Conditions.ensureLive
  cases found.generationLive
  · simp
  · cases found.streamFailure <;> simp

/-- Shutdowns send nothing and hand nothing but shutdowns to the stream, the last one if the generation is live then. -/
theorem Wire.shut_handed (conditions : Nat → Conditions) (n : Nat) (wire : Wire) :
    (wire.shut conditions n).answered = wire.answered + n ∧ (wire.shut conditions n).sent = wire.sent ∧
      ∃ k, (wire.shut conditions n).handed = wire.handed ++ List.replicate k .shutdown ∧
        (0 < n → (conditions (wire.answered + n - 1)).generationLive = true → 0 < k) := by
  induction n generalizing wire with
  | zero => exact ⟨rfl, rfl, 0, (List.append_nil _).symm, fun h => absurd h (Nat.lt_irrefl 0)⟩
  | succ n ih =>
    obtain ⟨hanswered, hsent, k, hhanded, hlast⟩ := ih (shutdownBoth (conditions wire.answered) wire).2
    rw [shutdownBoth_eq] at hanswered hsent hhanded hlast
    rw [Wire.shut, shutdownBoth_eq]
    refine ⟨hanswered.trans (Nat.add_right_comm _ _ _), hsent, ?_⟩
    cases hlive : (conditions wire.answered).generationLive with
    | true =>
      refine ⟨k + 1, ?_, fun _ _ => Nat.succ_pos k⟩
      rw [hlive, if_pos rfl] at hhanded
      rw [if_pos rfl, hhanded, List.append_assoc, List.replicate_succ, List.singleton_append]
    | false =>
      rw [hlive] at hhanded hlast
      refine ⟨k, ?_, fun _ hlive' => ?_⟩
      · simpa using hhanded
      · cases n with
        | zero => exact absurd (hlive.symm.trans hlive') Bool.false_ne_true
        | succ n =>
          have hindex : wire.answered + 1 + (n + 1) - 1 = wire.answered + (n + 1 + 1) - 1 := by omega
          exact hlast (Nat.succ_pos n) (hindex ▸ hlive')

/-! ### The life of an exchange -/

section Life
variable (debug : String → String) (conditions : Nat → Conditions) (response : Option HttpResponse)

/-- What the exchange returned, if it responded, and how it left its stream. -/
def life : Option (Except HttpError Unit) × Wire := (lifeCalls debug response).run (connection conditions) .opened

/-- The calls that the exchange made on its connection. -/
def madeCalls : List ConnectionCall :=
  ((lifeCalls debug response).trace (connection conditions) .opened).map (·.1)

/-- What a life comes to: at most one write, whose bytes are the encoded response, and then shutdowns. -/
inductive Lived : List ConnectionCall → Option (Except HttpError Unit) → Wire → Prop where
  | dropped : response = none → Lived [.shutdownBoth] none (Wire.opened.shut conditions 1)
  | rejected {sent : HttpResponse} {error : HttpError} : response = some sent →
      encodeHttpResponse debug sent = .error error →
      Lived [.shutdownBoth] (some (.error error)) (Wire.opened.shut conditions 1)
  | failed {sent : HttpResponse} {bytes : Bytes} {error : TcpTransportError} {wire : Wire} : response = some sent →
      encodeHttpResponse debug sent = .ok bytes → writeAll (conditions 0) .opened bytes = (.error error, wire) →
      Lived [.writeAll bytes, .shutdownBoth]
        (some (.error ⟨.writeResponseFailed, "failed to write HTTP response: " ++ error.detail⟩))
        (wire.shut conditions 1)
  | responded {sent : HttpResponse} {bytes : Bytes} {wire : Wire} : response = some sent →
      encodeHttpResponse debug sent = .ok bytes → writeAll (conditions 0) .opened bytes = (.ok (), wire) →
      Lived [.writeAll bytes, .shutdownBoth, .shutdownBoth] (some (.ok ())) (wire.shut conditions 2)

theorem lived_life : Lived debug conditions response (madeCalls debug conditions response)
    (life debug conditions response).1 (life debug conditions response).2 := by
  cases response with
  | none => exact .dropped rfl
  | some response =>
    cases hencode : encodeHttpResponse debug response with
    | error error =>
      have hcalls : lifeCalls debug (some response) =
          .call .shutdownBoth fun _ => .done (some (.error error)) := by
        simp [lifeCalls, respondCalls, writeHttpResponseCalls, hencode, dropCalls]
      simp only [madeCalls, life, hcalls]
      exact .rejected rfl hencode
    | ok bytes =>
      simp only [madeCalls, life, lifeCalls, respondCalls, writeHttpResponseCalls, hencode, dropCalls,
        Interaction.call_bind, Interaction.run, Interaction.trace, connection]
      rcases hwrite : writeAll (conditions Wire.opened.answered) .opened bytes with ⟨error | _, wire⟩
      · exact .failed rfl hencode hwrite
      · exact .responded rfl hencode hwrite

end Life

/-- An exchange puts at most one response on the wire, whole, and then closes: its calls, what it returned if it
    responded, and how it left its stream. -/
structure ClosesAfterOne (debug : String → String) (conditions : Nat → Conditions) (response : Option HttpResponse)
    (calls : List ConnectionCall) (result : Option (Except HttpError Unit)) (wire : Wire) : Prop where
  dropped : response = none → wire.written = []
  rejected : ∀ (sent : HttpResponse) (error : HttpError), response = some sent →
    encodeHttpResponse debug sent = .error error → wire.written = []
  invalid : ∀ sent : HttpResponse, response = some sent → ¬Encodable sent → wire.written = []
  stopped : (conditions 0).generationLive = false → wire.written = []
  whole : ∀ (sent : HttpResponse) (bytes : Bytes), response = some sent → encodeHttpResponse debug sent = .ok bytes →
    (conditions 0).generationLive = true → wire.written = [bytes]
  /-- A part of a response is sent only where its one write fails. -/
  sent : wire.sent <+: wire.written.flatten ∧ (result = some (.ok ()) → wire.sent = wire.written.flatten)
  /-- Shutdowns are attempted after the last write, and nothing else. -/
  attempted : ∃ (writes : List Bytes) (n : Nat), writes.length ≤ 1 ∧
    calls = writes.map .writeAll ++ List.replicate (n + 1) .shutdownBoth
  /-- The stream sees the write and then shutdowns, at least one if the generation is live at the last call. -/
  handed : ∃ n, wire.handed = wire.written.map .writeAll ++ List.replicate n .shutdown ∧
    ((conditions (calls.length - 1)).generationLive = true → 0 < n)

theorem encodable_or_rejected (debug : String → String) (response : HttpResponse) :
    (Encodable response ∧ encodeHttpResponse debug response = .ok (encoded response)) ∨
      (¬Encodable response ∧ ∃ error, encodeHttpResponse debug response = .error error) := by
  cases hencode : encodeHttpResponse debug response with
  | ok bytes =>
    obtain ⟨hencodable, rfl⟩ := encodeHttpResponse_eq_ok.mp hencode
    exact .inl ⟨hencodable, rfl⟩
  | error error =>
    refine .inr ⟨fun hencodable => ?_, error, rfl⟩
    have hok : encodeHttpResponse debug response = .ok (encoded response) :=
      encodeHttpResponse_eq_ok.mpr ⟨hencodable, rfl⟩
    cases hencode.symm.trans hok

/-- The write of an exchange: a connection hands all of it to a live stream, and nothing to a stopped one. -/
theorem writeAll_opened {found : Conditions} {bytes : Bytes} {answer : ConnectionAnswer} {wire : Wire}
    (h : writeAll found .opened bytes = (answer, wire)) : wire.answered = 1 ∧
      ((found.generationLive = false ∧ answer ≠ .ok () ∧ wire.handed = [] ∧ wire.sent = []) ∨
        (found.generationLive = true ∧ wire.handed = [.writeAll bytes] ∧ wire.sent <+: bytes ∧
          (answer = .ok () → wire.sent = bytes))) := by
  unfold writeAll Conditions.ensureLive at h
  cases hlive : found.generationLive with
  | false =>
    rw [hlive] at h
    obtain ⟨rfl, rfl⟩ := Prod.mk.inj h
    exact ⟨rfl, .inl ⟨rfl, nofun, rfl, rfl⟩⟩
  | true =>
    rw [hlive] at h
    cases hfailure : found.streamFailure with
    | none =>
      simp only [hfailure] at h
      obtain ⟨rfl, rfl⟩ := Prod.mk.inj h
      exact ⟨rfl, .inr ⟨rfl, rfl, List.prefix_refl _, fun _ => rfl⟩⟩
    | some failure =>
      simp only [hfailure] at h
      obtain ⟨rfl, rfl⟩ := Prod.mk.inj h
      exact ⟨rfl, .inr ⟨rfl, rfl, List.take_prefix _ _, nofun⟩⟩

theorem written_of_handed {wire : Wire} {writes : List Bytes} {k : Nat}
    (hhanded : wire.handed = writes.map .writeAll ++ List.replicate k .shutdown) : wire.written = writes := by
  have hshutdowns : (List.replicate k StreamCall.shutdown).filterMap StreamCall.written? = [] := by
    rw [List.filterMap_eq_nil_iff]
    intro call hcall
    rw [List.eq_of_mem_replicate hcall]
    rfl
  rw [Wire.written, hhanded, List.filterMap_append, hshutdowns, List.append_nil, List.filterMap_map]
  exact List.filterMap_some

/-- A life that ends in shutdowns after at most one attempt to write; `writes` has reached the stream. -/
theorem closesAfterOne_of_shut {debug : String → String} {conditions : Nat → Conditions}
    {response : Option HttpResponse} {result : Option (Except HttpError Unit)} {base : Wire}
    (attempts writes : List Bytes) (n : Nat) (hattempts : attempts.length ≤ 1)
    (hanswered : base.answered = attempts.length) (hhanded : base.handed = writes.map .writeAll)
    (hsent : base.sent <+: writes.flatten ∧ (result = some (.ok ()) → base.sent = writes.flatten))
    (hnone : response = none → writes = [])
    (hrejected : ∀ sent error, response = some sent → encodeHttpResponse debug sent = .error error → writes = [])
    (hstopped : (conditions 0).generationLive = false → writes = [])
    (hwhole : ∀ sent bytes, response = some sent → encodeHttpResponse debug sent = .ok bytes →
      (conditions 0).generationLive = true → writes = [bytes]) :
    ClosesAfterOne debug conditions response (attempts.map .writeAll ++ List.replicate (n + 1) .shutdownBoth) result
      (base.shut conditions (n + 1)) := by
  obtain ⟨-, hshutSent, k, hshut, hlast⟩ := Wire.shut_handed conditions (n + 1) base
  rw [hhanded] at hshut
  have hwritten : (base.shut conditions (n + 1)).written = writes := written_of_handed hshut
  constructor
  · rwa [hwritten]
  · rwa [hwritten]
  · intro sent hresponse hinvalid
    rcases encodable_or_rejected debug sent with ⟨hvalid, -⟩ | ⟨-, error, herror⟩
    · exact absurd hvalid hinvalid
    · exact hwritten.trans (hrejected sent error hresponse herror)
  · rwa [hwritten]
  · rwa [hwritten]
  · rwa [hwritten, hshutSent]
  · exact ⟨attempts, n, hattempts, rfl⟩
  · rw [hwritten]
    refine ⟨k, hshut, fun hlive => hlast (Nat.succ_pos n) ?_⟩
    rw [hanswered]
    simpa using hlive

/-- A life with a write on a live generation. -/
theorem closesAfterOne_of_written {debug : String → String} {conditions : Nat → Conditions}
    {response : Option HttpResponse} {result : Option (Except HttpError Unit)} {base : Wire} {sent : HttpResponse}
    {bytes : Bytes} (n : Nat) (hresponse : response = some sent) (hencode : encodeHttpResponse debug sent = .ok bytes)
    (hlive : (conditions 0).generationLive = true) (hanswered : base.answered = 1)
    (hhanded : base.handed = [.writeAll bytes])
    (hsent : base.sent <+: bytes ∧ (result = some (.ok ()) → base.sent = bytes)) :
    ClosesAfterOne debug conditions response (.writeAll bytes :: List.replicate (n + 1) .shutdownBoth) result
      (base.shut conditions (n + 1)) := by
  refine closesAfterOne_of_shut [bytes] [bytes] n (Nat.le_refl 1) hanswered hhanded ?_ ?_ ?_ ?_ ?_
  · rwa [List.flatten_singleton]
  · intro hnone
    cases hresponse.symm.trans hnone
  · intro sent' error hresponse' herror
    cases hresponse.symm.trans hresponse'
    cases hencode.symm.trans herror
  · intro hlive'
    cases hlive.symm.trans hlive'
  · intro sent' bytes' hresponse' hbytes _
    cases hresponse.symm.trans hresponse'
    cases hencode.symm.trans hbytes
    rfl

theorem closesAfterOne_of_lived {debug : String → String} {conditions : Nat → Conditions}
    {response : Option HttpResponse} {calls : List ConnectionCall} {result : Option (Except HttpError Unit)}
    {wire : Wire} (h : Lived debug conditions response calls result wire) :
    ClosesAfterOne debug conditions response calls result wire := by
  cases h with
  | dropped hresponse =>
    have hnot : ∀ sent, response ≠ some sent := by simp [hresponse]
    exact closesAfterOne_of_shut [] [] 0 (Nat.zero_le 1) rfl rfl ⟨List.prefix_refl _, fun _ => rfl⟩ (fun _ => rfl)
      (fun _ _ _ _ => rfl) (fun _ => rfl) fun sent _ hsent => absurd hsent (hnot sent)
  | rejected hresponse hencode =>
    refine closesAfterOne_of_shut [] [] 0 (Nat.zero_le 1) rfl rfl ⟨List.prefix_refl _, fun _ => rfl⟩ (fun _ => rfl)
      (fun _ _ _ _ => rfl) (fun _ => rfl) fun sent bytes hsent hbytes => ?_
    cases hresponse.symm.trans hsent
    cases hencode.symm.trans hbytes
  | @failed sent bytes error base hresponse hencode hwrite =>
    obtain ⟨hanswered, ⟨hlive, -, hhanded, hsent⟩ | ⟨hlive, hhanded, hsent, -⟩⟩ := writeAll_opened hwrite
    · refine closesAfterOne_of_shut [bytes] [] 0 (Nat.le_refl 1) hanswered hhanded ?_ (fun _ => rfl)
        (fun _ _ _ _ => rfl) (fun _ => rfl) fun _ _ _ _ hlive' => ?_
      · exact ⟨hsent ▸ List.prefix_refl _, nofun⟩
      · cases hlive.symm.trans hlive'
    · exact closesAfterOne_of_written 0 hresponse hencode hlive hanswered hhanded ⟨hsent, nofun⟩
  | @responded sent bytes base hresponse hencode hwrite =>
    obtain ⟨hanswered, ⟨-, hanswer, -, -⟩ | ⟨hlive, hhanded, hsent, hall⟩⟩ := writeAll_opened hwrite
    · exact absurd rfl hanswer
    · exact closesAfterOne_of_written 1 hresponse hencode hlive hanswered hhanded ⟨hsent, fun _ => hall rfl⟩

/-- The law of every exchange, whatever becomes of it and of its transport. -/
theorem exchange_closesAfterOne (debug : String → String) (conditions : Nat → Conditions)
    (response : Option HttpResponse) :
    ClosesAfterOne debug conditions response (madeCalls debug conditions response)
      (life debug conditions response).1 (life debug conditions response).2 :=
  closesAfterOne_of_lived (lived_life debug conditions response)

end Fabric.Http
