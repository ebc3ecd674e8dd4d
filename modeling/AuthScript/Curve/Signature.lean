import AuthScript.Curve.Point
import AuthScript.Log.Line

/-!
# Signatures and their DER form

A signature is a pair of numbers below `2 ^ 256`. Its DER form is a sequence of two
integers, each without superfluous leading bytes. `decode?` is more generous than
`encode`: it overlooks what follows the second integer and one leading zero byte
too many. `isStrict` holds of exactly the forms that `encode` gives, and `isShaped`
is the outline that the machine asks for before it looks further.

Of the two signatures `(r, s)` and `(r, order - s)` that hold for the same message,
the low one has `s` at most half of the order; `normalize` gives it.
-/

namespace AuthScript

namespace Curve

/-- The two numbers of a signature. -/
structure Signature where
  r : Nat
  s : Nat
deriving DecidableEq

namespace Signature

/-- The bytes of a DER integer: no leading zero byte but one that keeps the number
from reading as negative, or stands for zero. -/
def integerBody (n : Nat) : Bytes :=
  match (Bytes.bigEndian 32 n).dropWhile (· = 0) with
  | [] => [0]
  | b :: rest => if 0x80 ≤ b then 0 :: b :: rest else b :: rest

/-- A number as a DER integer. -/
def encodeInteger (n : Nat) : Bytes :=
  0x02 :: (integerBody n).length.toUInt8 :: integerBody n

/-- A signature in DER. -/
def encode (sig : Signature) : Bytes :=
  let inner := encodeInteger sig.r ++ encodeInteger sig.s
  0x30 :: inner.length.toUInt8 :: inner

/-- The bytes without one leading zero byte, if there are others. -/
def dropLeadingZero : Bytes → Bytes
  | 0 :: c :: rest => c :: rest
  | b => b

/-- Reads one integer of at most 32 bytes, and leaves what follows it. -/
def readInteger? : Bytes → Option (Nat × Bytes)
  | 0x02 :: len :: rest =>
    if len = 0 ∨ rest.length < len.toNat then none
    else
      let body := dropLeadingZero (rest.take len.toNat)
      if body.length > 32 then none
      else some (Bytes.ofBigEndian body, rest.drop len.toNat)
  | _ => none

/-- Reads a sequence that starts with two integers. -/
def decode? (b : Bytes) : Option Signature :=
  match b with
  | 0x30 :: len :: rest =>
    if b.length < 8 ∨ rest.length < len.toNat then none
    else do
      let (r, rest) ← readInteger? (rest.take len.toNat)
      let (s, _) ← readInteger? rest
      return ⟨r, s⟩
  | _ => none

/-- Whether a byte string is the DER form of some signature. -/
def isStrict (b : Bytes) : Bool := (decode? b).any fun sig => sig.encode = b

/-- The outline of a signature: lengths that add up and the marks of a sequence of
two non-empty integers. -/
def isShaped (b : Bytes) : Bool :=
  let lenR := (b.getD 3 0).toNat
  let lenS := (b.getD (5 + lenR) 0).toNat
  8 ≤ b.length && b.length ≤ 72 &&
    b.getD 0 0 == 0x30 && (b.getD 1 0).toNat == b.length - 2 &&
    b.getD 2 0 == 0x02 && lenR != 0 && 5 + lenR < b.length &&
    b.getD (4 + lenR) 0 == 0x02 && lenS != 0 && lenR + lenS + 6 == b.length

/-- Whether the second number is in the lower half of the order. -/
def isLow (sig : Signature) : Bool := sig.s ≤ halfOrder

/-- The distance of a number from the order. -/
def reflect (s : Nat) : Nat := if s ≤ order then order - s else s - order

/-- The DER form with a second number in the lower half, if the given bytes read as
a signature that is not low already. -/
def normalize? (b : Bytes) : Option Bytes :=
  match decode? b with
  | some sig => if sig.isLow then none else some (encode ⟨sig.r, reflect sig.s⟩)
  | none => none

/-- The DER form of the low signature; bytes that need no change stay as they are. -/
def normalize (b : Bytes) : Bytes := (normalize? b).getD b

/-- The line that tells of a signature that was changed. -/
def normalizedLine : Log.Line := ⟨.trace, .curve, text "normalized high-S signature"⟩

/-- The lines told when a signature is normalized. -/
def normalizeLines (b : Bytes) : List Log.Line :=
  if (normalize? b).isSome then [normalizedLine] else []

end Signature

end Curve

end AuthScript
