import Fabric.Ed25519.Signer

/-! The signer is linearizable to one key that starts replace and stops remove, and an envelope that the example signs
    while other parties use its signer verifies, unless one of them starts the signer again between its two calls. -/

namespace Fabric.Ed25519
open Rust Transition Linearizability Locked Session

section
variable {dalek : Dalek} {ι : Type}

/-! ### The signer -/

theorem body_safe (op : Op dalek) : ((EphemeralEd25519Signer.object dalek).body op).Safe := by
  intro signingKey
  cases op with
  | publicKey => exact ⟨_, _, rfl⟩
  | sign message => exact ⟨_, _, rfl⟩
  | start signingKey => exact ⟨_, _, rfl⟩
  | stop => exact ⟨_, _, rfl⟩

/-- A sound signer stands for its key. -/
def Holds (g : Guarded (Option dalek.SigningKey)) (k : Option dalek.SigningKey) : Prop :=
  g.poisoned = false ∧ g.value = k

theorem spec_simulates (g : Guarded (Option dalek.SigningKey)) (k : Option dalek.SigningKey) (op : Op dalek)
    (r : Outcome Output) (g' : Guarded (Option dalek.SigningKey)) (hg : Holds g k)
    (h : (EphemeralEd25519Signer.object dalek).Spec g op r g') : ∃ k', Holds g' k' ∧ SignerSpec k op r k' := by
  obtain ⟨hsound, rfl⟩ := hg
  rw [Object.Spec, call_of_sound hsound] at h
  cases op with
  | publicKey =>
    obtain ⟨rfl, rfl⟩ := Prod.mk.inj h
    exact ⟨_, ⟨rfl, rfl⟩, .publicKey⟩
  | sign message =>
    obtain ⟨rfl, rfl⟩ := Prod.mk.inj h
    exact ⟨_, ⟨rfl, rfl⟩, .sign⟩
  | start signingKey =>
    obtain ⟨rfl, rfl⟩ := Prod.mk.inj h
    exact ⟨_, ⟨rfl, rfl⟩, .start⟩
  | stop =>
    obtain ⟨rfl, rfl⟩ := Prod.mk.inj h
    exact ⟨_, ⟨rfl, rfl⟩, .stop⟩

theorem SignerSpec.replaces {k k' : Option dalek.SigningKey} {op : Op dalek} {r : Outcome Output}
    (h : SignerSpec k op r k') : k' = op.replaces.getD k := by
  cases h <;> rfl

theorem Legal.lastKey {k k' : Option dalek.SigningKey} {es : List (Entry ι (Op dalek) (Outcome Output))}
    (h : Legal SignerSpec k es k') : k' = Ed25519.lastKey k (es.map (·.op)) :=
  h.last_write fun _ _ _ _ hspec => hspec.replaces

/-- What a committed call of the signer returned, by the key of the last start before it. -/
def Answers (k : Option dalek.SigningKey) : Op dalek → Outcome Output → Prop
  | .publicKey, r => r = .returned (.publicKey (EphemeralEd25519Signer.publicKey k))
  | .sign message, r => r = .returned (.sign (EphemeralEd25519Signer.sign k message))
  | .start _, r | .stop, r => r = .returned (.lifecycle (.ok ()))

theorem SignerSpec.answers {k k' : Option dalek.SigningKey} {op : Op dalek} {r : Outcome Output}
    (h : SignerSpec k op r k') : Answers k op r := by
  cases h <;> rfl

variable [DecidableEq ι]

theorem linearization_of_reaches {v : Option dalek.SigningKey} {s : Locked.State _ ι (Op dalek) Output}
    (h : Reaches (Locked.step (EphemeralEd25519Signer.object dalek)) (.init v) s) :
    ∃ es, Locked.Inv (EphemeralEd25519Signer.object dalek) ⟨v, false⟩ s es ∧
      Linearization SignerSpec v s.history es s.settled.value := by
  obtain ⟨es, hi⟩ := Locked.Inv.of_reaches h
  have hholds : Holds ⟨v, false⟩ v := ⟨rfl, rfl⟩
  obtain ⟨k, ⟨-, rfl⟩, hl⟩ := hi.points.linearization.simulate spec_simulates hholds
  exact ⟨es, hi, hl⟩

/-- Every run of overlapping calls, starts and stops is one of a signer with a single key, in an order that keeps that
    of calls that do not overlap: each call answers with the key of the last start before it, or says that there is
    none, and when no call is in flight the signer holds the key of the last start. -/
theorem signer_linearizable (as : List (Locked.Action ι (Op dalek))) {s : Locked.State _ ι (Op dalek) Output}
    (hrun : run (Locked.step (EphemeralEd25519Signer.object dalek)) (.init none) as = some s) :
    ∃ es, Linearization SignerSpec none s.history es s.settled.value ∧
      (∀ es₁ e es₂, es = es₁ ++ e :: es₂ → Answers (lastKey none (es₁.map (·.op))) e.op e.ret) ∧
      ((∀ c, (s.calls c).inFlight = false) →
        es.Perm (completed s.history) ∧ s.guarded.value = lastKey none (es.map (·.op))) := by
  obtain ⟨es, hi, hl⟩ := linearization_of_reaches ⟨as, hrun⟩
  refine ⟨es, hl, ?_, fun hstill => ⟨hi.perm_completed hstill, ?_⟩⟩
  · rintro es₁ e es₂ rfl
    obtain ⟨k, k', hk, hspec⟩ := hl.legal.split
    exact Legal.lastKey hk ▸ hspec.answers
  · rw [← hi.settled_eq hstill]
    exact Legal.lastKey hl.legal

end

/-! ### Values -/

section
variable {dalek : Dalek}

theorem tryInto_toList {n : Nat} (bytes : Vector UInt8 n) : tryInto n bytes.toList = some bytes := by
  have hsize : bytes.toList.toArray.size = n := by simp
  rw [tryInto, dif_pos hsize]
  exact congrArg some (Vector.toArray_inj.mp (Array.toArray_toList ..))

/-- The evidence verifies, and so it does once its bytes have been read back. -/
def Verifies (dalek : Dalek) (publicKey : Ed25519PublicKey) (message : Bytes) (signature : Ed25519Signature) : Prop :=
  verifyEd25519Signature dalek publicKey message signature = .returned true ∧
    Ed25519PublicKey.fromSlice dalek publicKey.bytes.toList = .ok publicKey ∧
    Ed25519Signature.fromSlice dalek signature.bytes.toList = .ok signature

theorem verifies (lawful : dalek.Lawful) (key : dalek.SigningKey) (message : Bytes) :
    Verifies dalek (.ofVerifyingKey dalek (dalek.verifyingKey key)) message
      ⟨dalek.signatureToBytes (dalek.sign key message)⟩ := by
  refine ⟨?_, ?_, ?_⟩
  · rw [verifyEd25519Signature, Ed25519PublicKey.verifyingKey, Ed25519PublicKey.ofVerifyingKey,
      lawful.keyFromBytes_toBytes]
    simp only [Ed25519Signature.dalekSignature, lawful.signatureFromBytes_toBytes, lawful.verify_sign]
  · rw [Ed25519PublicKey.fromSlice, tryInto_toList]
    simp only [Ed25519PublicKey.fromBytes, Ed25519PublicKey.ofVerifyingKey, lawful.keyFromBytes_toBytes]
  · rw [Ed25519Signature.fromSlice, lawful.signatureFromSlice_toBytes]

/-! ### Envelopes -/

/-- The envelope of a payload with a public key and a signature of the two given keys. -/
def envelope (k k' : dalek.SigningKey) (payload : Bytes) : SignedEnvelope where
  payload := payload
  publicKey := .ofVerifyingKey dalek (dalek.verifyingKey k)
  signature := ⟨dalek.signatureToBytes (dalek.sign k' payload)⟩

abbrev Result := Outcome (Except Ed25519SigningError SignedEnvelope)

theorem ensures_signPayload {rely : Option dalek.SigningKey → Option dalek.SigningKey → Prop} {post : Result → Prop}
    {payload : Bytes} {k : Option dalek.SigningKey}
    (herror : rely k none ∨ (∃ k₁, rely k (some k₁) ∧ rely (some k₁) none) → post (.returned (.error .unavailable)))
    (hok : ∀ k₁ k₂, rely k (some k₁) → rely (some k₁) (some k₂) → post (.returned (.ok (envelope k₁ k₂ payload)))) :
    Ensures rely SignerSpec post (signPayload payload) k := by
  intro u r t hu hspec
  cases hspec
  cases u with
  | none => exact herror (.inl hu)
  | some k₁ =>
    intro v r t hv hspec
    cases hspec
    cases v with
    | none => exact herror (.inr ⟨k₁, hu, hv⟩)
    | some k₂ => exact hok k₁ k₂ hu hv

/-- Nothing, or a stop, between the calls. -/
def Drops (k k' : Option dalek.SigningKey) : Prop := k' = k ∨ k' = none

theorem Drops.refl (k : Option dalek.SigningKey) : Drops k k := .inl rfl

theorem Drops.trans (k k' k'' : Option dalek.SigningKey) (h : Drops k k') (h' : Drops k' k'') : Drops k k'' := by
  rcases h' with rfl | rfl
  · exact h
  · exact .inr rfl

/-- Not a start. -/
def Op.keeps : Op dalek → Prop
  | .start _ => False
  | .publicKey | .sign _ | .stop => True

theorem SignerSpec.drops {k k' : Option dalek.SigningKey} {op : Op dalek} {r : Outcome Output}
    (h : SignerSpec k op r k') (hop : op.keeps) : Drops k k' := by
  cases h with
  | publicKey | sign => exact .refl _
  | start => exact hop.elim
  | stop => exact .inr rfl

/-- An envelope that says what was signed and verifies. -/
def SignedEnvelope.Sound (dalek : Dalek) (payload : Bytes) (signed : SignedEnvelope) : Prop :=
  signed.payload = payload ∧ Verifies dalek signed.publicKey signed.payload signed.signature

theorem envelope_sound (lawful : dalek.Lawful) (k : dalek.SigningKey) (payload : Bytes) :
    (envelope k k payload).Sound dalek payload :=
  ⟨rfl, verifies lawful k payload⟩

/-- Whatever the others do. -/
theorem ensures_any (payload : Bytes) (k : Option dalek.SigningKey) :
    Ensures (fun _ _ => True) SignerSpec
      (fun a => a = .returned (.error .unavailable) ∨
        ∃ k₁ k₂ : dalek.SigningKey, a = .returned (.ok (envelope k₁ k₂ payload)))
      (signPayload payload) k :=
  ensures_signPayload (fun _ => .inl rfl) fun k₁ k₂ _ _ => .inr ⟨k₁, k₂, rfl⟩

/-- Without a start of the others, both calls are answered with one key. -/
theorem ensures_drops (lawful : dalek.Lawful) (payload : Bytes) (k : Option dalek.SigningKey) :
    Ensures Drops SignerSpec
      (fun a => a = .returned (.error .unavailable) ∨
        ∃ signed : SignedEnvelope, a = .returned (.ok signed) ∧ signed.Sound dalek payload)
      (signPayload payload) k := by
  refine ensures_signPayload (fun _ => .inl rfl) fun k₁ k₂ _ h => .inr ?_
  rcases h with h | h
  · obtain rfl := Option.some.inj h
    exact ⟨_, rfl, envelope_sound lawful k₂ payload⟩
  · cases h

/-- Without a start or a stop of the others, that is the key that the signer held. -/
theorem ensures_same (lawful : dalek.Lawful) (payload : Bytes) (key : dalek.SigningKey) :
    Ensures Eq SignerSpec (fun a => ∃ signed : SignedEnvelope, a = .returned (.ok signed) ∧ signed.Sound dalek payload)
      (signPayload payload) (some key) := by
  refine ensures_signPayload (fun h => ?_) fun k₁ k₂ _ h => ?_
  · rcases h with h | ⟨k₁, -, h⟩
    · cases h
    · cases h
  · obtain rfl := Option.some.inj h
    exact ⟨_, rfl, envelope_sound lawful k₁ payload⟩

theorem SignerSpec.same {k k' : Option dalek.SigningKey} {op : Op dalek} {r : Outcome Output}
    (h : SignerSpec k op r k') (hop : op.replaces = none) : k = k' := by
  rw [h.replaces, hop]
  rfl

/-- While any other parties use its signer, a call of `sign_payload` does not panic: it says that there is no key, or it
    returns an envelope with the payload, the public key of one key and the signature of one. If no other party starts
    the signer in between, the envelope verifies; if none stops it either, a signer that holds a key gives one. -/
theorem envelope_verifies {ι : Type} [DecidableEq ι] (lawful : dalek.Lawful) {programs : ι → Signing dalek} {p : ι}
    {payload : Bytes} (hp : programs p = signPayload payload) {v : Option dalek.SigningKey}
    (as : List (Session.Action ι)) {s : Session.State _ ι (Op dalek) Output _}
    (hrun : run (Session.step (EphemeralEd25519Signer.object dalek)) (.init v programs) as = some s) {a : Result}
    (hdone : (s.clients p).rest = .done a) :
    (a = .returned (.error .unavailable) ∨
      ∃ k₁ k₂ : dalek.SigningKey, a = .returned (.ok (envelope k₁ k₂ payload))) ∧
    ((∀ q, q ≠ p → (programs q).Only Op.keeps) → a = .returned (.error .unavailable) ∨
      ∃ signed : SignedEnvelope, a = .returned (.ok signed) ∧ signed.Sound dalek payload) ∧
    ((∀ q, q ≠ p → (programs q).Only fun op => op.replaces = none) → ∀ key, v = some key →
      ∃ signed : SignedEnvelope, a = .returned (.ok signed) ∧ signed.Sound dalek payload) := by
  have hi := Session.Inv.of_reaches ⟨as, hrun⟩
  obtain ⟨es, hl, hlin⟩ := linearization_of_reaches hi.reaches
  have hsteps := hi.steps_of_done hl hdone
  rw [hp] at hsteps
  have other : ∀ {allowed : Op dalek → Prop}, (∀ q, q ≠ p → (programs q).Only allowed) → ∀ e ∈ es,
      decide (e.call.1 = p) = false → allowed e.op := by
    intro allowed honly e he hmine
    exact hi.only hl (honly _ (of_decide_eq_false hmine)) e (mem_ofParty.mpr ⟨he, rfl⟩)
  refine ⟨?_, fun hothers => ?_, fun hothers key hv => ?_⟩
  · have hany := (ensures_any payload v).of_legal (fun _ => trivial) (fun _ _ _ _ _ => trivial) hlin.legal
      (fun _ _ _ _ _ _ => trivial) hsteps trivial
    exact hany
  · have hdrops := (ensures_drops lawful payload v).of_legal Drops.refl Drops.trans hlin.legal
      (fun e he hmine _ _ hspec => hspec.drops (other hothers e he hmine)) hsteps (Drops.refl v)
    exact hdrops
  · subst hv
    have hsame := (ensures_same lawful payload key).of_legal Eq.refl (fun _ _ _ => Eq.trans) hlin.legal
      (fun e he hmine _ _ hspec => hspec.same (other hothers e he hmine)) hsteps rfl
    exact hsame

/-- The component replaces no key of its signer. -/
theorem signPayload_only (payload : Bytes) :
    (signPayload payload : Signing dalek).Only fun op => op.replaces = none := by
  refine ⟨rfl, fun r => ?_⟩
  dsimp only
  split
  · refine ⟨rfl, fun r => ?_⟩
    dsimp only
    split <;> trivial
  · trivial
  · trivial

end

/-! ### Runs -/

/-- A call of a party, from end to end. -/
def whole (p : Bool) (n : Nat) : List (Session.Action Bool) :=
  .call p :: (List.replicate 5 (.advance (p, n)) ++ [.resume p])

/-- One party signs, and the other starts the signer with a key of its own. -/
def signAndStart {dalek : Dalek} (payload : Bytes) (key : dalek.SigningKey) (second : Bool) : Signing dalek :=
  bif second then .call (.start key) fun _ => .done .panicked else signPayload payload

/-- A start between the two calls of `sign_payload` gives an envelope whose signature is not of its public key. -/
theorem envelope_torn {dalek : Dalek} (k₁ k₂ : dalek.SigningKey) (payload : Bytes) :
    ∃ s, run (Session.step (EphemeralEd25519Signer.object dalek)) (.init (some k₁) (signAndStart payload k₂))
        (whole false 0 ++ whole true 0 ++ whole false 1) = some s ∧
      (s.clients false).rest = .done (.returned (.ok (envelope k₁ k₂ payload))) :=
  ⟨_, rfl, rfl⟩

/-- The public key and the signature of the empty message of one test vector. -/
def vectorPublicKey : Vector UInt8 32 :=
  #v[0xd7, 0x5a, 0x98, 0x01, 0x82, 0xb1, 0x0a, 0xb7, 0xd5, 0x4b, 0xfe, 0xd3, 0xc9, 0x64, 0x07, 0x3a,
    0x0e, 0xe1, 0x72, 0xf3, 0xda, 0xa6, 0x23, 0x25, 0xaf, 0x02, 0x1a, 0x68, 0xf7, 0x07, 0x51, 0x1a]

def vectorSignature : Vector UInt8 64 :=
  #v[0xe5, 0x56, 0x43, 0x00, 0xc3, 0x60, 0xac, 0x72, 0x90, 0x86, 0xe2, 0xcc, 0x80, 0x6e, 0x82, 0x8a,
    0x84, 0x87, 0x7f, 0x1e, 0xb8, 0xe5, 0xd9, 0x74, 0xd8, 0x73, 0xe0, 0x65, 0x22, 0x49, 0x01, 0x55,
    0x5f, 0xb8, 0x82, 0x15, 0x90, 0xa3, 0x3b, 0xac, 0xc6, 0x1e, 0x39, 0x70, 0x1c, 0xf9, 0xb4, 0x6b,
    0xd2, 0x5b, 0xf5, 0xf0, 0x59, 0x5b, 0xbe, 0x24, 0x65, 0x51, 0x41, 0x43, 0x8e, 0x7a, 0x10, 0x0b]

/-- The crate on the key of that vector and the empty message. -/
def vectorDalek : Dalek where
  SigningKey := Unit
  VerifyingKey := Vector UInt8 32
  Signature := Vector UInt8 64
  verifyingKey _ := vectorPublicKey
  sign _ _ := vectorSignature
  verify key _ signature := key == vectorPublicKey && signature == vectorSignature
  keyToBytes := id
  keyFromBytes := .ok
  signatureToBytes := id
  signatureFromBytes := id
  signatureFromSlice bytes :=
    match tryInto 64 bytes with
    | some signature => .ok signature
    | none => .error "signature error"

theorem vectorDalek_lawful : vectorDalek.Lawful where
  keyFromBytes_toBytes _ := rfl
  signatureFromBytes_toBytes _ := rfl
  signatureFromSlice_toBytes signature := by
    have hread : tryInto 64 (Vector.toList signature) = some signature := tryInto_toList signature
    simp only [vectorDalek, id, hread]
  verify_sign _ _ := by simp [vectorDalek]

def overlapRun : List (Locked.Action Nat (Op vectorDalek)) :=
  [.invoke 0 (.start ()), .invoke 1 .publicKey, .advance 0, .advance 0, .advance 0, .advance 0, .advance 0, .advance 1,
    .advance 1, .advance 1, .advance 1, .advance 1]

theorem signer_linearizable_overlap :
    ∃ s : Locked.State _ Nat (Op vectorDalek) Output,
      run (Locked.step (EphemeralEd25519Signer.object vectorDalek)) (.init none) overlapRun = some s ∧
      ∃ es, Linearization SignerSpec none s.history es s.settled.value ∧
        ∀ es₁ e es₂, es = es₁ ++ e :: es₂ → Answers (lastKey none (es₁.map (·.op))) e.op e.ret :=
  have ⟨es, hlin, hanswers, _⟩ := signer_linearizable overlapRun rfl
  ⟨_, rfl, es, hlin, hanswers⟩

def signers (_ : Bool) : Signing vectorDalek := signPayload []

theorem envelope_verifies_vector :
    ∃ s a, run (Session.step (EphemeralEd25519Signer.object vectorDalek)) (.init (some ()) signers)
        (whole false 0 ++ whole true 0 ++ whole false 1) = some s ∧ (s.clients false).rest = .done a ∧
      ∃ signed : SignedEnvelope, a = .returned (.ok signed) ∧ signed.Sound vectorDalek [] := by
  obtain ⟨s, a, hrun, hdone⟩ : ∃ s a, run (Session.step (EphemeralEd25519Signer.object vectorDalek))
      (.init (some ()) signers) (whole false 0 ++ whole true 0 ++ whole false 1) = some s ∧
      (s.clients false).rest = .done a := ⟨_, _, rfl, rfl⟩
  obtain ⟨-, -, hsame⟩ := envelope_verifies vectorDalek_lawful (rfl : signers false = signPayload []) _ hrun hdone
  exact ⟨s, a, hrun, hdone, hsame (fun _ _ => signPayload_only []) () rfl⟩

end Fabric.Ed25519
