import AuthScript.Curve.Signature
import AuthScript.Fault

/-!
# Keys

A private key is a scalar strictly between zero and the order of the group; its
public key is that multiple of the generator.

Signatures are made by a signer from outside, which is given the secret and the digest
and gives the DER form of a signature in either half of the order, or fails. A key reads
what the signer gives, writes it again, so that it has no superfluous byte, and takes the
low signature.

A key slot may also be empty. An empty slot has all-zero public keys and does not
sign.
-/

namespace AuthScript

namespace Curve

/-- The step at which a signer fails. -/
inductive SignerFailure where
  | context
  | start
  | length
  | signature
deriving DecidableEq

/-- The words for the failure of a signer. -/
def SignerFailure.message : SignerFailure → Bytes
  | context => text "EVP_PKEY_CTX_new_from_pkey failed"
  | start => text "EVP_PKEY_sign_init failed"
  | length => text "EVP_PKEY_sign length query failed"
  | signature => text "EVP_PKEY_sign failed"

/-- What makes signatures: for a secret and a digest the DER form of a signature. -/
structure Signer where
  raw : Nat → Bytes → Except SignerFailure Bytes

/-- A slot for a private key. -/
inductive Key where
  | empty
  | scalar (k : Nat) (pos : 0 < k) (lt : k < order)

namespace Key

/-- The key of a 32-byte secret. -/
def ofSecret (secret : Bytes) : Except Fault Key :=
  if secret.length ≠ 32 then
    .error ⟨.keyFailed, text "private key must be 32 bytes, got " ++ Bytes.decimal secret.length⟩
  else
    let k := Bytes.ofBigEndian secret
    if h : 0 < k ∧ k < order then .ok (.scalar k h.1 h.2)
    else .error ⟨.keyFailed, text "secret key out of range for secp256k1"⟩

/-- Whether the slot holds a key. -/
def isValid : Key → Bool
  | empty => false
  | scalar .. => true

/-- The public point. -/
def point? : Key → Option Point
  | empty => none
  | scalar k _ _ => Point.ofScalar? k

/-- The 33-octet public key. -/
def compressed (key : Key) : Bytes := (key.point?.map Point.compressed).getD (List.replicate 33 0)

/-- The 65-octet public key. -/
def uncompressed (key : Key) : Bytes :=
  (key.point?.map Point.uncompressed).getD (List.replicate 65 0)

@[simp] theorem length_compressed (key : Key) : key.compressed.length = 33 := by
  cases h : key.point? <;> simp [compressed, h]

@[simp] theorem length_uncompressed (key : Key) : key.uncompressed.length = 65 := by
  cases h : key.point? <;> simp [uncompressed, h]

/-- The refusal to sign. -/
def unsigned (message : Bytes) : Logged (Except Fault Bytes) :=
  .silent (.error ⟨.signatureFailed, message⟩)

/-- The DER form of the low signature of a 32-byte digest. -/
def sign (signer : Signer) (key : Key) (digest : Bytes) : Logged (Except Fault Bytes) :=
  match key with
  | empty => unsigned (text "signing with an empty key")
  | scalar k _ _ =>
    match signer.raw k digest with
    | .error failure => unsigned failure.message
    | .ok der =>
      match Signature.decode? der with
      | none => unsigned (text "OpenSSL produced a malformed DER signature")
      | some sig => ⟨Signature.normalizeLines sig.encode, .ok (Signature.normalize sig.encode)⟩

end Key

/-- Whether a signature holds for a point and a digest. -/
def Signature.holds (sig : Signature) (q : Point) (digest : Bytes) : Bool :=
  let w := invMod order sig.s
  let u := Bytes.ofBigEndian digest % order * w % order
  let v := sig.r * w % order
  let sum := ((Jacobian.ofPoint generator).mul u).add ((Jacobian.ofPoint q).mul v)
  sum.toPoint?.any fun p => p.x % order == sig.r

/-- Whether a DER signature of a digest holds for a public key of any form. The DER
must be strict and its numbers strictly between zero and the order; either half of
the order is accepted. -/
def verify (publicKey digest signature : Bytes) : Bool :=
  match Point.decode? publicKey, Signature.decode? signature with
  | some q, some sig =>
    Signature.isStrict signature && 0 < sig.r && sig.r < order && 0 < sig.s && sig.s < order &&
      sig.holds q digest
  | _, _ => false

end Curve

end AuthScript
