import Fabric.Http.Client
import Fabric.Http.Codec
import Fabric.Library.Fallible

/-! The encoding of a response is lossless: a client that takes lines up to CRLF, headers up to an empty line and the
    body by its length reads back the message and leaves what follows it. -/

namespace Fabric.Http
open Rust Client

/-! ### What can be encoded, and what is sent -/

def NoCrLf (s : String) : Prop := 13 ∉ asBytes s ∧ 10 ∉ asBytes s

instance (s : String) : Decidable (NoCrLf s) := inferInstanceAs (Decidable (_ ∧ _))

def ValidHeaderName (name : String) : Prop :=
  name ≠ "" ∧ ∀ byte ∈ asBytes name, 0x21 ≤ byte ∧ byte ≤ 0x7e ∧ byte ≠ 58

instance (name : String) : Decidable (ValidHeaderName name) :=
  decidable_of_iff (name ≠ "" ∧ (asBytes name).all fun byte => 0x21 ≤ byte && byte ≤ 0x7e && byte != 58)
    (by simp [ValidHeaderName, and_assoc])

/-- The reason phrase of the status line: the given one, or the default. -/
def HttpResponse.reasonPhrase (response : HttpResponse) : String :=
  response.reason.getD (defaultReasonPhrase response.statusCode)

structure Encodable (response : HttpResponse) : Prop where
  statusCode : 100 ≤ response.statusCode.toNat ∧ response.statusCode.toNat ≤ 999
  reason : NoCrLf response.reasonPhrase
  names : ∀ header ∈ response.headers, ValidHeaderName header.name
  values : ∀ header ∈ response.headers, NoCrLf header.value

/-- The headers on the wire: those of the response but for `Content-Length`, and those that the encoder adds. -/
def HttpResponse.sentHeaders (response : HttpResponse) : List HttpHeader :=
  (response.headers.filter fun header => !eqIgnoreAsciiCase header.name "content-length") ++
    ⟨"Content-Length", toString response.body.length⟩ ::
      (if response.headers.any fun header => eqIgnoreAsciiCase header.name "connection" then []
        else [⟨"Connection", "close"⟩])

def headerLine (header : HttpHeader) : Bytes := asBytes header.name ++ asBytes ": " ++ asBytes header.value

def statusLine (response : HttpResponse) : Bytes :=
  asBytes response.version.statusLinePrefix ++ 32 :: (asBytes (toString response.statusCode.toNat) ++
    32 :: asBytes response.reasonPhrase)

/-! ### The validators -/

theorem validateStatusCode_eq_ok {statusCode : UInt16} :
    validateStatusCode statusCode = .ok () ↔ 100 ≤ statusCode.toNat ∧ statusCode.toNat ≤ 999 := by
  unfold validateStatusCode
  split <;> rename_i h <;> simp only [UInt16.le_iff_toNat_le] at h
  · simpa using h
  · simpa using h

theorem validateHeaderName_eq_ok {debug : String → String} {name : String} :
    validateHeaderName debug name = .ok () ↔ ValidHeaderName name := by
  have hbytes : ((asBytes name).any fun byte => byte ≤ 0x20 || byte == 58 || 0x7f ≤ byte) = false ↔
      ∀ byte ∈ asBytes name, 0x21 ≤ byte ∧ byte ≤ 0x7e ∧ byte ≠ 58 := by
    simp only [List.any_eq_false, Bool.or_eq_true, decide_eq_true_eq, beq_iff_eq, not_or, UInt8.not_le]
    refine forall₂_congr fun byte _ => ?_
    simp only [UInt8.le_iff_toNat_le, UInt8.lt_iff_toNat_lt]
    constructor
    · rintro ⟨⟨h₁, h₂⟩, h₃⟩
      exact ⟨h₁, Nat.le_of_lt_succ h₃, h₂⟩
    · rintro ⟨h₁, h₃, h₂⟩
      exact ⟨⟨h₁, h₂⟩, Nat.lt_succ_of_le h₃⟩
  unfold validateHeaderName ValidHeaderName
  rw [← hbytes]
  split <;> rename_i h
  · simp only [reduceCtorEq, false_iff, not_and, Bool.not_eq_false]
    exact fun hne => h.resolve_left hne
  · rw [not_or, Bool.not_eq_true] at h
    simpa using h

theorem validateHeaderValue_eq_ok {label value : String} :
    validateHeaderValue label value = .ok () ↔ NoCrLf value := by
  have hbytes : ((asBytes value).any fun byte => byte == 13 || byte == 10) = false ↔ NoCrLf value := by
    simp only [List.any_eq_false, Bool.or_eq_true, beq_iff_eq, not_or, NoCrLf]
    exact ⟨fun h => ⟨fun hm => (h 13 hm).1 rfl, fun hm => (h 10 hm).2 rfl⟩,
      fun h byte hb => ⟨fun he => h.1 (he ▸ hb), fun he => h.2 (he ▸ hb)⟩⟩
  unfold validateHeaderValue
  rw [← hbytes]
  split <;> rename_i h
  · simp [h]
  · simpa using h

/-! ### The encoder -/

/-- No name is both `Content-Length` and `Connection`. -/
theorem not_connection_of_contentLength {name : String} (h : eqIgnoreAsciiCase name "content-length" = true) :
    eqIgnoreAsciiCase name "connection" = false := by
  rw [eqIgnoreAsciiCase, beq_iff_eq] at h
  rw [eqIgnoreAsciiCase, h]
  decide

theorem encodeHeaders_eq_ok {debug : String → String} {headers : List HttpHeader} {out : Bytes × Bool} :
    encodeHeaders debug headers = .ok out ↔
      (∀ header ∈ headers, ValidHeaderName header.name ∧ NoCrLf header.value) ∧
      out = ((headers.filter fun header => !eqIgnoreAsciiCase header.name "content-length").flatMap
          fun header => headerLine header ++ crlf,
        headers.any fun header => eqIgnoreAsciiCase header.name "connection") := by
  induction headers generalizing out with
  | nil => simp [encodeHeaders, eq_comm]
  | cons header rest ih =>
    rw [encodeHeaders, check_bind_eq_ok, check_bind_eq_ok, bind_eq_ok, validateHeaderName_eq_ok,
      validateHeaderValue_eq_ok, List.forall_mem_cons, and_assoc, and_assoc]
    refine and_congr_right fun _ => and_congr_right fun _ => ?_
    by_cases hlength : eqIgnoreAsciiCase header.name "content-length" = true
    · simp only [ih, hlength, if_true, Except.ok.injEq, not_connection_of_contentLength hlength, List.filter_cons,
        Bool.not_true, Bool.false_eq_true, if_false, List.any_cons, Bool.false_or, Prod.exists, Prod.mk.injEq]
      constructor
      · rintro ⟨_, _, ⟨hall, rfl, rfl⟩, rfl⟩
        exact ⟨hall, rfl⟩
      · rintro ⟨hall, rfl⟩
        exact ⟨_, _, ⟨hall, rfl, rfl⟩, rfl⟩
    · simp only [ih, hlength, Bool.false_eq_true, if_false, Except.ok.injEq, List.filter_cons, Bool.not_false, if_true,
        List.any_cons, List.flatMap_cons, Prod.exists, Prod.mk.injEq]
      constructor
      · rintro ⟨_, _, ⟨hall, rfl, rfl⟩, rfl⟩
        exact ⟨hall, by simp [headerLine]⟩
      · rintro ⟨hall, rfl⟩
        exact ⟨_, _, ⟨hall, rfl, rfl⟩, by simp [headerLine]⟩

theorem headerLine_connection : asBytes "Connection: close" = headerLine ⟨"Connection", "close"⟩ := by decide

theorem headerLine_contentLength (n : Nat) :
    asBytes ("Content-Length: " ++ toString n) = headerLine ⟨"Content-Length", toString n⟩ := by
  have hname : asBytes "Content-Length: " = asBytes "Content-Length" ++ asBytes ": " := by decide
  rw [asBytes_append, hname]
  rfl

theorem statusLine_eq (response : HttpResponse) :
    asBytes (response.version.statusLinePrefix ++ " " ++ toString response.statusCode.toNat ++ " " ++
      response.reasonPhrase) = statusLine response := by
  have hspace : asBytes " " = [32] := by decide
  simp [statusLine, hspace]

/-- What the encoder writes: the status line, the sent headers, an empty line and the body. -/
def encoded (response : HttpResponse) : Bytes :=
  statusLine response ++ crlf ++ (response.sentHeaders.flatMap fun header => headerLine header ++ crlf) ++ crlf ++
    response.body

theorem encoded_eq (response : HttpResponse) :
    encoded response = statusLine response ++ crlf ++
      ((response.headers.filter fun header => !eqIgnoreAsciiCase header.name "content-length").flatMap
        fun header => headerLine header ++ crlf) ++
      asBytes ("Content-Length: " ++ toString response.body.length) ++ crlf ++
      (if response.headers.any fun header => eqIgnoreAsciiCase header.name "connection" then []
        else asBytes "Connection: close" ++ crlf) ++ crlf ++ response.body := by
  rw [headerLine_contentLength, headerLine_connection, encoded, HttpResponse.sentHeaders]
  split <;> simp [List.flatMap_append]

theorem encodeHttpResponse_eq_ok {debug : String → String} {response : HttpResponse} {bytes : Bytes} :
    encodeHttpResponse debug response = .ok bytes ↔ Encodable response ∧ bytes = encoded response := by
  rw [encodeHttpResponse, check_bind_eq_ok, validateStatusCode_eq_ok, check_bind_eq_ok, validateHeaderValue_eq_ok,
    bind_eq_ok, encoded_eq, ← statusLine_eq]
  simp only [encodeHeaders_eq_ok, Except.ok.injEq]
  constructor
  · rintro ⟨hstatus, hreason, out, ⟨hheaders, rfl⟩, rfl⟩
    exact ⟨⟨hstatus, hreason, fun h hh => (hheaders h hh).1, fun h hh => (hheaders h hh).2⟩, rfl⟩
  · rintro ⟨⟨hstatus, hreason, hnames, hvalues⟩, hbytes⟩
    exact ⟨hstatus, hreason, _, ⟨fun h hh => ⟨hnames h hh, hvalues h hh⟩, rfl⟩, hbytes.symm⟩

/-! ### Reading it back -/

theorem readLine_append {line : Bytes} (rest : Bytes) (h : 13 ∉ line) :
    readLine (line ++ crlf ++ rest) = some (line, rest) := by
  induction line with
  | nil => rfl
  | cons b line ih =>
    rw [List.mem_cons, not_or] at h
    rw [List.cons_append, List.cons_append, readLine, ih h.2]
    · rfl
    · rintro rest' rfl
      exact absurd rfl h.1

theorem cut_append {separator : UInt8} {l r : Bytes} (h : separator ∉ l) :
    cut separator (l ++ separator :: r) = some (l, r) := by
  induction l with
  | nil => simp [cut]
  | cons b l ih =>
    rw [List.mem_cons, not_or] at h
    rw [List.cons_append, cut, if_neg (Ne.symm h.1), ih h.2]
    rfl

theorem readHeaderLine_headerLine {header : HttpHeader} (h : ValidHeaderName header.name) :
    readHeaderLine (headerLine header) = some header := by
  have hcolon : (58 : UInt8) ∉ asBytes header.name := fun hm => (h.2 58 hm).2.2 rfl
  have hline : headerLine header = asBytes header.name ++ 58 :: 32 :: asBytes header.value := by
    have hsep : asBytes ": " = [58, 32] := by decide
    simp [headerLine, hsep]
  rw [hline, readHeaderLine, cut_append hcolon]
  simp

theorem headerLine_ne_nil {header : HttpHeader} : headerLine header ≠ [] := by
  have hsep : asBytes ": " = [58, 32] := by decide
  simp [headerLine, hsep]

theorem cr_not_mem_headerLine {header : HttpHeader} (hname : ValidHeaderName header.name)
    (hvalue : NoCrLf header.value) :
    13 ∉ headerLine header := by
  have hsep : asBytes ": " = [58, 32] := by decide
  simp only [headerLine, hsep, List.mem_append, not_or]
  exact ⟨⟨fun hm => absurd (hname.2 13 hm).1 (by decide), by decide⟩, hvalue.1⟩

theorem readHeaderLines_append {headers : List HttpHeader} {rest : Bytes}
    (h : ∀ header ∈ headers, ValidHeaderName header.name ∧ NoCrLf header.value) :
    readHeaderLines ((headers.flatMap fun header => headerLine header ++ crlf) ++ crlf ++ rest) =
      some (headers, rest) := by
  induction headers with
  | nil => exact readHeaderLines_of_empty rfl
  | cons header headers ih =>
    rw [List.forall_mem_cons] at h
    have hline := readLine_append ((headers.flatMap fun header => headerLine header ++ crlf) ++ crlf ++ rest)
      (cr_not_mem_headerLine h.1.1 h.1.2)
    have hbytes : ((header :: headers).flatMap fun header => headerLine header ++ crlf) ++ crlf ++ rest =
        headerLine header ++ crlf ++ ((headers.flatMap fun header => headerLine header ++ crlf) ++ crlf ++ rest) := by
      simp
    rw [hbytes, readHeaderLines_of_line hline headerLine_ne_nil, readHeaderLine_headerLine h.1.1, ih h.2]
    rfl

theorem readVersion_statusLinePrefix (version : HttpVersion) : readVersion version.statusLinePrefix = some version := by
  cases version <;> decide

theorem noCrLf_toString (n : Nat) : NoCrLf (toString n) :=
  ⟨fun hm => absurd (asBytes_toString n 13 hm).1 (by decide), fun hm => absurd (asBytes_toString n 10 hm).1 (by decide)⟩

theorem Encodable.sentHeaders {response : HttpResponse} (h : Encodable response) :
    ∀ header ∈ response.sentHeaders, ValidHeaderName header.name ∧ NoCrLf header.value := by
  intro header hm
  rcases List.mem_append.mp hm with hm | hm
  · have hin := (List.mem_filter.mp hm).1
    exact ⟨h.names header hin, h.values header hin⟩
  · rcases List.mem_cons.mp hm with rfl | hm
    · have hname : ValidHeaderName "Content-Length" := by decide
      exact ⟨hname, noCrLf_toString _⟩
    · split at hm
      · cases hm
      · obtain rfl := List.mem_singleton.mp hm
        decide

theorem readResponseHead_append {response : HttpResponse} (h : Encodable response) (rest : Bytes) :
    readResponseHead (statusLine response ++ crlf ++
        (response.sentHeaders.flatMap fun header => headerLine header ++ crlf) ++ crlf ++ rest) =
      some (⟨response.version, response.statusCode.toNat, response.reasonPhrase, response.sentHeaders⟩, rest) := by
  have hdigits := asBytes_toString response.statusCode.toNat
  have hline : 13 ∉ statusLine response := by
    simp only [statusLine, List.mem_append, List.mem_cons, not_or]
    refine ⟨?_, by decide, fun hm => absurd (hdigits 13 hm).1 (by decide), by decide, h.reason.1⟩
    cases response.version <;> decide
  have hversion : 32 ∉ asBytes response.version.statusLinePrefix := by cases response.version <;> decide
  have hcode : 32 ∉ asBytes (toString response.statusCode.toNat) := fun hm => absurd (hdigits 32 hm).1 (by decide)
  have hbytes : statusLine response ++ crlf ++
      (response.sentHeaders.flatMap fun header => headerLine header ++ crlf) ++ crlf ++ rest =
      statusLine response ++ crlf ++
      ((response.sentHeaders.flatMap fun header => headerLine header ++ crlf) ++ crlf ++ rest) := by simp
  rw [hbytes, readResponseHead, readLine_append _ hline]
  simp only [statusLine, Option.bind_eq_bind, Option.bind_some, cut_append hversion, cut_append hcode, fromUtf8_asBytes,
    readVersion_statusLinePrefix, parseDecimal_toString, readHeaderLines_append h.sentHeaders]

/-- The one `Content-Length` header on the wire is that of the encoder. -/
theorem named_contentLength (response : HttpResponse) :
    named response.sentHeaders "content-length" = [⟨"Content-Length", toString response.body.length⟩] := by
  have hown : eqIgnoreAsciiCase "Content-Length" "content-length" = true := by decide
  have hconnection : eqIgnoreAsciiCase "Connection" "content-length" = false := by decide
  rw [named, HttpResponse.sentHeaders, List.filter_append, List.filter_filter, List.filter_cons_of_pos (by exact hown)]
  split <;> simp [hconnection]

@[simp] theorem contentLength_sentHeaders (response : HttpResponse) :
    contentLength response.sentHeaders = some response.body.length := by
  simp only [contentLength, named_contentLength, List.head?_cons, Option.bind_some, parseDecimal_toString]

theorem readFixed_append (body rest : Bytes) : readFixed body.length (body ++ rest) = some (body, rest) := by
  simp [readFixed]

/-- Encoding succeeds exactly on the encodable responses, and what it writes reads back as the response: the version,
    the status code, the reason phrase, the headers with the length and the `Connection` that the encoder owns, and
    the body, leaving whatever follows. -/
theorem encode_reads_back (debug : String → String) (response : HttpResponse) :
    ((∃ bytes, encodeHttpResponse debug response = .ok bytes) ↔ Encodable response) ∧
    ∀ bytes, encodeHttpResponse debug response = .ok bytes → ∀ more, readResponse (bytes ++ more) =
      some (⟨response.version, response.statusCode.toNat, response.reasonPhrase, response.sentHeaders⟩,
        response.body, more) := by
  refine ⟨⟨fun ⟨_, h⟩ => (encodeHttpResponse_eq_ok.mp h).1, fun h => ⟨_, encodeHttpResponse_eq_ok.mpr ⟨h, rfl⟩⟩⟩, ?_⟩
  intro bytes h more
  obtain ⟨hencodable, rfl⟩ := encodeHttpResponse_eq_ok.mp h
  rw [encoded, List.append_assoc _ response.body, readResponse, readResponseHead_append hencodable]
  simp only [Option.bind_eq_bind, Option.bind_some, contentLength_sentHeaders, readFixed_append]

/-- A response whose body looks like the end of a head, and whose `Content-Length` is not its own. -/
def created : HttpResponse := (HttpResponse.new 201 [13, 10, 13, 10]).withHeader "content-length" "9"

theorem encode_reads_back_created : ∃ bytes, encodeHttpResponse id created = .ok bytes ∧
    readResponse (bytes ++ [72]) =
      some (⟨.http11, 201, "Created", [⟨"Content-Length", "4"⟩, ⟨"Connection", "close"⟩]⟩, [13, 10, 13, 10], [72]) :=
  ⟨_, rfl, ((encode_reads_back id created).2 _ rfl [72]).trans (by decide)⟩

end Fabric.Http
