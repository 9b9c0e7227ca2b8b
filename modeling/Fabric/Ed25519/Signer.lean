import Fabric.Library.Rust
import Fabric.Library.Session

/-! The Ed25519 signer, its values and their verification, over the `ed25519_dalek` crate, and the component of the
    example that signs a payload. -/

namespace Fabric.Ed25519
open Rust Locked

/-- `ed25519_dalek`. -/
structure Dalek where
  SigningKey : Type
  VerifyingKey : Type
  Signature : Type
  verifyingKey : SigningKey → VerifyingKey
  sign : SigningKey → Bytes → Signature
  /-- Whether `verify` is `Ok`. -/
  verify : VerifyingKey → Bytes → Signature → Bool
  keyToBytes : VerifyingKey → Vector UInt8 32
  /-- `VerifyingKey::from_bytes`, with the text of its error. -/
  keyFromBytes : Vector UInt8 32 → Except String VerifyingKey
  signatureToBytes : Signature → Vector UInt8 64
  signatureFromBytes : Vector UInt8 64 → Signature
  /-- `Signature::from_slice`, with the text of its error. -/
  signatureFromSlice : Bytes → Except String Signature

/-- What the crate promises: bytes read back, and a signature verifies under the key that made it. -/
structure Dalek.Lawful (dalek : Dalek) : Prop where
  keyFromBytes_toBytes : ∀ key, dalek.keyFromBytes (dalek.keyToBytes key) = .ok key
  signatureFromBytes_toBytes : ∀ signature, dalek.signatureFromBytes (dalek.signatureToBytes signature) = signature
  signatureFromSlice_toBytes : ∀ signature,
    dalek.signatureFromSlice (dalek.signatureToBytes signature).toList = .ok signature
  verify_sign : ∀ key message, dalek.verify (dalek.verifyingKey key) message (dalek.sign key message) = true

/-! ### Values -/

inductive Ed25519ValueErrorKind where
  | invalidPublicKey
  | invalidSignature
  deriving DecidableEq, Repr

structure Ed25519ValueError where
  kind : Ed25519ValueErrorKind
  detail : String
  deriving DecidableEq, Repr

structure Ed25519PublicKey where
  bytes : Vector UInt8 32
  deriving DecidableEq, Repr

structure Ed25519Signature where
  bytes : Vector UInt8 64
  deriving DecidableEq, Repr

/-- `try_into` of a slice to an array of `n` bytes. -/
def tryInto (n : Nat) (bytes : Bytes) : Option (Vector UInt8 n) :=
  if h : bytes.toArray.size = n then some ⟨bytes.toArray, h⟩ else none

section
variable (dalek : Dalek)

namespace Ed25519PublicKey

def fromBytes (bytes : Vector UInt8 32) : Except Ed25519ValueError Ed25519PublicKey :=
  match dalek.keyFromBytes bytes with
  | .ok _ => .ok ⟨bytes⟩
  | .error error => .error ⟨.invalidPublicKey, error⟩

def fromSlice (bytes : Bytes) : Except Ed25519ValueError Ed25519PublicKey :=
  match tryInto 32 bytes with
  | some fixed => fromBytes dalek fixed
  | none => .error ⟨.invalidPublicKey, s!"expected 32 bytes, received {bytes.length}"⟩

/-- `From<VerifyingKey>`. -/
def ofVerifyingKey (value : dalek.VerifyingKey) : Ed25519PublicKey := ⟨dalek.keyToBytes value⟩

/-- `verifying_key`, which panics on bytes that are not a key. -/
def verifyingKey (publicKey : Ed25519PublicKey) : Outcome dalek.VerifyingKey :=
  match dalek.keyFromBytes publicKey.bytes with
  | .ok key => .returned key
  | .error _ => .panicked

end Ed25519PublicKey

namespace Ed25519Signature

def fromSlice (bytes : Bytes) : Except Ed25519ValueError Ed25519Signature :=
  match dalek.signatureFromSlice bytes with
  | .ok signature => .ok ⟨dalek.signatureToBytes signature⟩
  | .error error => .error ⟨.invalidSignature, error⟩

def dalekSignature (signature : Ed25519Signature) : dalek.Signature := dalek.signatureFromBytes signature.bytes

end Ed25519Signature

def verifyEd25519Signature (publicKey : Ed25519PublicKey) (message : Bytes) (signature : Ed25519Signature) :
    Outcome Bool :=
  match publicKey.verifyingKey dalek with
  | .returned key => .returned (dalek.verify key message (signature.dalekSignature dalek))
  | .panicked => .panicked

/-! ### The signer -/

inductive Ed25519SigningErrorKind where
  | signingFailed
  deriving DecidableEq, Repr

structure Ed25519SigningError where
  kind : Ed25519SigningErrorKind
  detail : String
  deriving DecidableEq, Repr

def Ed25519SigningError.signingFailed (detail : String) : Ed25519SigningError := ⟨.signingFailed, detail⟩

def Ed25519SigningError.unavailable : Ed25519SigningError := .signingFailed "ed25519 signing key unavailable"

/-- A call of the resource API, or `start` with the key that it generates, or `stop`. -/
inductive Op where
  | publicKey
  | sign (message : Bytes)
  | start (signingKey : dalek.SigningKey)
  | stop

/-- The error of `start` and `stop` is the message of their `ModuleError`. -/
inductive Output where
  | publicKey (result : Except Ed25519SigningError Ed25519PublicKey)
  | sign (result : Except Ed25519SigningError Ed25519Signature)
  | lifecycle (result : Except String Unit)
  deriving DecidableEq

end

namespace EphemeralEd25519Signer

variable {dalek : Dalek}

/-- `with_signing_key`, under the lock. -/
def withSigningKey {α : Type} (signingKey : Option dalek.SigningKey) (operation : dalek.SigningKey → α) :
    Except Ed25519SigningError α :=
  match signingKey with
  | some signingKey => .ok (operation signingKey)
  | none => .error .unavailable

def publicKey (signingKey : Option dalek.SigningKey) : Except Ed25519SigningError Ed25519PublicKey :=
  withSigningKey signingKey fun signingKey => .ofVerifyingKey dalek (dalek.verifyingKey signingKey)

def sign (signingKey : Option dalek.SigningKey) (message : Bytes) : Except Ed25519SigningError Ed25519Signature :=
  withSigningKey signingKey fun signingKey => ⟨dalek.signatureToBytes (dalek.sign signingKey message)⟩

/-- What each method does under the lock; `start` and `stop` are `replace_key` and `discard_key`. -/
def body : Op dalek → Body (Option dalek.SigningKey) Output
  | .publicKey => .read fun signingKey => .done (.publicKey (publicKey signingKey))
  | .sign message => .read fun signingKey => .done (.sign (sign signingKey message))
  | .start signingKey => .update (fun _ => some signingKey) (.done (.lifecycle (.ok ())))
  | .stop => .update (fun _ => none) (.done (.lifecycle (.ok ())))

def onPoison : Op dalek → Outcome Output
  | .publicKey => .returned (.publicKey (.error (.signingFailed "ed25519 signing key lock poisoned")))
  | .sign _ => .returned (.sign (.error (.signingFailed "ed25519 signing key lock poisoned")))
  | .start _ => .returned (.lifecycle (.error "ed25519 signing key lock poisoned during start"))
  | .stop => .returned (.lifecycle (.error "ed25519 signing key lock poisoned during stop"))

def object (dalek : Dalek) : Object (Option dalek.SigningKey) (Op dalek) Output := ⟨body, onPoison⟩

end EphemeralEd25519Signer

/-! ### The signing component -/

structure SignedEnvelope where
  payload : Bytes
  publicKey : Ed25519PublicKey
  signature : Ed25519Signature
  deriving DecidableEq, Repr

/-- A call of the component, in terms of the calls that it makes on its signer. -/
abbrev Signing (dalek : Dalek) :=
  Session.Program (Op dalek) Output (Outcome (Except Ed25519SigningError SignedEnvelope))

/-- `sign_payload`. An answer of another kind than the call does not occur. -/
def signPayload {dalek : Dalek} (payload : Bytes) : Signing dalek :=
  .call .publicKey fun
    | .returned (.publicKey (.ok publicKey)) =>
      .call (.sign payload) fun
        | .returned (.sign (.ok signature)) => .done (.returned (.ok ⟨payload, publicKey, signature⟩))
        | .returned (.sign (.error error)) => .done (.returned (.error error))
        | _ => .done .panicked
    | .returned (.publicKey (.error error)) => .done (.returned (.error error))
    | _ => .done .panicked

/-! ### The sequential signer -/

/-- The signer that holds a key, or none. -/
inductive SignerSpec {dalek : Dalek} :
    Option dalek.SigningKey → Op dalek → Outcome Output → Option dalek.SigningKey → Prop where
  | publicKey {k : Option dalek.SigningKey} :
      SignerSpec k .publicKey (.returned (.publicKey (EphemeralEd25519Signer.publicKey k))) k
  | sign {k : Option dalek.SigningKey} {message : Bytes} :
      SignerSpec k (.sign message) (.returned (.sign (EphemeralEd25519Signer.sign k message))) k
  | start {k : Option dalek.SigningKey} {signingKey : dalek.SigningKey} :
      SignerSpec k (.start signingKey) (.returned (.lifecycle (.ok ()))) (some signingKey)
  | stop {k : Option dalek.SigningKey} : SignerSpec k .stop (.returned (.lifecycle (.ok ()))) none

/-- The key that an operation puts in place of the one before it, or none in its place. -/
def Op.replaces {dalek : Dalek} : Op dalek → Option (Option dalek.SigningKey)
  | .start signingKey => some (some signingKey)
  | .stop => some none
  | .publicKey | .sign _ => none

/-- The key of the last start among some operations, unless a stop follows it; `k` is there before the first. -/
def lastKey {dalek : Dalek} (k : Option dalek.SigningKey) (ops : List (Op dalek)) : Option dalek.SigningKey :=
  (ops.reverse.findSome? Op.replaces).getD k

end Fabric.Ed25519
