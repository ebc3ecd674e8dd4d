import AuthScript.Curve.Key
import AuthScript.Hash.Sha256

/-!
# Signatures by nonce

A signature depends on the secret, the digest and a nonce. How a nonce is found is the
matter of the signer; here is one that takes it from the secret and the digest, so that
signing can be run.
-/

namespace AuthScript

namespace Curve

/-- The signature that a nonce gives, unless the nonce is out of range or one of the two
numbers is zero. -/
def signWith? (k : Nat) (digest : Bytes) (nonce : Nat) : Option Signature := do
  guard (0 < nonce ∧ nonce < order)
  let p ← Point.ofScalar? nonce
  let r := p.x % order
  let s := invMod order nonce * ((Bytes.ofBigEndian digest + r * k) % order) % order
  guard (r ≠ 0 ∧ s ≠ 0)
  return ⟨r, s⟩

/-- The signer with a way to choose nonces; it fails where the nonce gives no signature. -/
def Signer.ofNonce (nonce : Nat → Bytes → Nat) : Signer where
  raw k digest :=
    match signWith? k digest (nonce k digest) with
    | some sig => .ok sig.encode
    | none => .error .signature

/-- The signer whose nonce is a digest of the secret and the message. -/
def Signer.deterministic : Signer :=
  .ofNonce fun k digest => Bytes.ofBigEndian (sha256 (Bytes.bigEndian 32 k ++ digest))

end Curve

end AuthScript
