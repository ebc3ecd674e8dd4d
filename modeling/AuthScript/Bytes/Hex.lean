import AuthScript.Bytes

/-!
# Hexadecimal text

Two digits a byte, the high half first. Reading takes either case and writing
uses lower case, so reading what was written gives the bytes back.
-/

namespace AuthScript

namespace Hex

/-- The value of a hexadecimal digit of either case. -/
def digit? (c : UInt8) : Option UInt8 :=
  if 48 ≤ c ∧ c ≤ 57 then some (c - 48)
  else if 97 ≤ c ∧ c ≤ 102 then some (c - 87)
  else if 65 ≤ c ∧ c ≤ 70 then some (c - 55)
  else none

/-- Whether a byte is a hexadecimal digit. -/
def isDigit (c : UInt8) : Bool := (digit? c).isSome

/-- The lower-case digit of a value below sixteen. -/
def digitOf (v : UInt8) : UInt8 := if v < 10 then 48 + v else 87 + v

/-- The two digits of a byte. -/
def digits (b : UInt8) : Bytes := [digitOf (b >>> 4), digitOf (b &&& 15)]

/-- A byte string in hexadecimal. -/
def encode (b : Bytes) : Bytes := b.flatMap digits

@[simp] theorem encode_nil : encode [] = [] := rfl

theorem encode_cons (c : UInt8) (b : Bytes) : encode (c :: b) = digits c ++ encode b := rfl

/-- The bytes read so far, newest first, followed by those spelled by the digits. -/
def decodeOnto? (read : Bytes) : Bytes → Option Bytes
  | [] => some read.reverse
  | [_] => none
  | hi :: lo :: rest =>
    match digit? hi, digit? lo with
    | some h, some l => decodeOnto? ((h <<< 4 ||| l) :: read) rest
    | _, _ => none

/-- The bytes spelled by an even number of digits. -/
def decode? (t : Bytes) : Option Bytes := decodeOnto? [] t

/-- Whether a text is an even number of hexadecimal digits. -/
def isHex (t : Bytes) : Bool := t.length % 2 == 0 && t.all isDigit

/-- Each half of a byte reads back from its digit, and the halves make up the byte. -/
theorem digits_halves (b : UInt8) :
    digit? (digitOf (b >>> 4)) = some (b >>> 4) ∧
      digit? (digitOf (b &&& 15)) = some (b &&& 15) ∧ b >>> 4 <<< 4 ||| b &&& 15 = b := by
  have h : ∀ n : Fin 256,
      digit? (digitOf (UInt8.ofNat n >>> 4)) = some (UInt8.ofNat n >>> 4) ∧
        digit? (digitOf (UInt8.ofNat n &&& 15)) = some (UInt8.ofNat n &&& 15) ∧
          UInt8.ofNat n >>> 4 <<< 4 ||| UInt8.ofNat n &&& 15 = UInt8.ofNat n := by decide +kernel
  simpa using h ⟨b.toNat, b.toNat_lt⟩

theorem decodeOnto?_encode (read b : Bytes) :
    decodeOnto? read (encode b) = some (read.reverse ++ b) := by
  induction b generalizing read with
  | nil => simp [decodeOnto?]
  | cons c b ih =>
    obtain ⟨hi, lo, halves⟩ := digits_halves c
    simp [encode_cons, digits, decodeOnto?, hi, lo, ih, halves]

/-- Reading what was written gives the bytes back. -/
theorem decode?_encode (b : Bytes) : decode? (encode b) = some b := by
  simp [decode?, decodeOnto?_encode]

end Hex

end AuthScript
