import Fabric.Theorems.Http.Encoding

/-! Framing of the body by a client that follows the rules for a response to GET. The encoder writes any status code
    and any `Transfer-Encoding` that the caller gives, and both change what the client takes for the body. -/

namespace Fabric.Http
open Rust Client

/-- The status code allows the body, and no `Transfer-Encoding` makes a client take it for chunks. -/
def OwnsFraming (response : HttpResponse) : Prop :=
  if bodiless response.statusCode.toNat then response.body = [] else finallyChunked response.headers = false

instance (response : HttpResponse) : Decidable (OwnsFraming response) :=
  inferInstanceAs (Decidable (ite _ _ _))

/-! ### The chunked coding is longer than its data -/

theorem length_le_of_readHeaderLines {bytes rest : Bytes} {headers : List HttpHeader}
    (h : readHeaderLines bytes = some (headers, rest)) : rest.length ≤ bytes.length := by
  induction hn : bytes.length using Nat.strongRecOn generalizing bytes headers with
  | ind n ih =>
    subst hn
    rw [readHeaderLines] at h
    split at h
    · cases h
    · rename_i hline
      obtain ⟨-, rfl⟩ := Prod.mk.inj (Option.some.inj h)
      have := length_lt_of_readLine hline
      omega
    · rename_i b line rest' hline
      have hlt := length_lt_of_readLine hline
      simp only [Option.bind_eq_bind, Option.bind_eq_some_iff, Prod.exists, Option.some.injEq, Prod.mk.injEq] at h
      obtain ⟨header, -, headers', rest'', hrest, -, rfl⟩ := h
      have := ih rest'.length (by omega) hrest rfl
      omega

/-- What the chunked coding decodes to and what follows it are together shorter than the coded bytes. -/
theorem length_lt_of_readChunks {bytes data rest : Bytes} (h : readChunks bytes = some (data, rest)) :
    data.length + rest.length < bytes.length := by
  induction hn : bytes.length using Nat.strongRecOn generalizing bytes data with
  | ind n ih =>
    subst hn
    rw [readChunks] at h
    split at h
    · cases h
    · rename_i line after hline
      have hlt := length_lt_of_readLine hline
      split at h
      · cases h
      · obtain ⟨⟨headers, rest'⟩, htrailer, heq⟩ := Option.map_eq_some_iff.mp h
        obtain ⟨rfl, rfl⟩ := Prod.mk.inj heq
        have := length_le_of_readHeaderLines htrailer
        simp only [List.length_nil]
        omega
      · rename_i size _
        split at h
        · rename_i next hdrop
          obtain ⟨⟨data', rest'⟩, hnext, heq⟩ := Option.map_eq_some_iff.mp h
          obtain ⟨rfl, rfl⟩ := Prod.mk.inj heq
          have hlen := congrArg List.length hdrop
          simp only [List.length_drop, List.length_cons] at hlen
          have := ih next.length (by omega) hnext rfl
          simp only [List.length_append, List.length_take]
          omega
        · cases h

/-! ### The transfer codings on the wire -/

/-- The encoder adds no `Transfer-Encoding`, and it drops none. -/
theorem named_transferEncoding (response : HttpResponse) :
    named response.sentHeaders "transfer-encoding" = named response.headers "transfer-encoding" := by
  have hlength : eqIgnoreAsciiCase "Content-Length" "transfer-encoding" = false := by decide
  have hconnection : eqIgnoreAsciiCase "Connection" "transfer-encoding" = false := by decide
  have hkept : ∀ header : HttpHeader, eqIgnoreAsciiCase header.name "transfer-encoding" = true →
      eqIgnoreAsciiCase header.name "content-length" = false := by
    intro header h
    rw [eqIgnoreAsciiCase, beq_iff_eq] at h
    rw [eqIgnoreAsciiCase, h]
    decide
  rw [named, named, HttpResponse.sentHeaders, List.filter_append, List.filter_filter,
    List.filter_cons_of_neg (by simpa using hlength)]
  have hadded : ∀ b : Bool, ((if b then [] else [⟨"Connection", "close"⟩] : List HttpHeader).filter
      fun header => eqIgnoreAsciiCase header.name "transfer-encoding") = [] := by
    intro b
    cases b <;> simp [hconnection]
  rw [hadded, List.append_nil]
  refine List.filter_congr fun header _ => ?_
  cases hte : eqIgnoreAsciiCase header.name "transfer-encoding" with
  | false => rfl
  | true => simp [hkept header hte]

theorem finallyChunked_sentHeaders (response : HttpResponse) :
    finallyChunked response.sentHeaders = finallyChunked response.headers := by
  rw [finallyChunked, transferCodings, named_transferEncoding]
  rfl

theorem not_finallyChunked_of_named_eq_nil {headers : List HttpHeader} (h : named headers "transfer-encoding" = []) :
    finallyChunked headers = false := by
  rw [finallyChunked, transferCodings, h]
  rfl

theorem readFramed_encoded {response : HttpResponse} (h : Encodable response) :
    readFramed (encoded response) = some (response.body, []) ↔ OwnsFraming response := by
  rw [encoded, readFramed, readResponseHead_append h]
  simp only [Option.bind_eq_bind, Option.bind_some, frameBody, OwnsFraming]
  split
  · simp [eq_comm]
  · rw [named_transferEncoding, finallyChunked_sentHeaders]
    split
    · split
      · rename_i hchunked
        rw [hchunked]
        refine iff_of_false (fun hread => ?_) (by simp)
        have := length_lt_of_readChunks hread
        simp at this
      · rename_i hchunked
        exact iff_of_true rfl (by simpa using hchunked)
    · rename_i hnone
      refine iff_of_true ?_ (not_finallyChunked_of_named_eq_nil hnone)
      simpa using readFixed_append response.body []

/-- A client reads exactly the body, and no byte is left over, if and only if the status code allows the body and the
    final transfer coding that the caller has named is not the chunked one. -/
theorem readFramed_iff (debug : String → String) (response : HttpResponse) (bytes : Bytes)
    (h : encodeHttpResponse debug response = .ok bytes) :
    readFramed bytes = some (response.body, []) ↔ OwnsFraming response := by
  obtain ⟨hencodable, rfl⟩ := encodeHttpResponse_eq_ok.mp h
  exact readFramed_encoded hencodable

/-- A created resource with its body, under a transfer coding that is not the chunked one. -/
def compressed : HttpResponse :=
  (HttpResponse.new 201 [1, 2]).withHeader "Transfer-Encoding" "chunked, gzip;note=\"x, chunked\""

theorem readFramed_iff_compressed : ∃ bytes, encodeHttpResponse id compressed = .ok bytes ∧
    readFramed bytes = some ([1, 2], []) :=
  ⟨_, rfl, (readFramed_iff id compressed _ rfl).mpr (by decide)⟩

/-- The encoder writes the body of a response that has none. -/
theorem readFramed_noContent : ¬∀ response bytes, encodeHttpResponse id response = .ok bytes →
    readFramed bytes = some (response.body, []) := by
  intro h
  have hok : encodeHttpResponse id (HttpResponse.new 204 [120]) = .ok _ := rfl
  have hread := h (HttpResponse.new 204 [120]) _ hok
  obtain ⟨hencodable, heq⟩ := encodeHttpResponse_eq_ok.mp hok
  rw [heq, readFramed_encoded hencodable] at hread
  exact absurd hread (by decide)

end Fabric.Http
