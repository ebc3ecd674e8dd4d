import AuthScript.Bytes

/-!
# Script numbers

A script number is a byte string read as a signed magnitude: the bytes hold the
magnitude, least significant first, except that the top bit of the last byte is
the sign. Zero is the empty string. A byte string may spell a number with more
bytes than it needs, or spell zero with a sign; the encoding that `encode` gives
is the shortest, and `minimize` takes any spelling to it without reading the
number.

`value` is the number a spelling denotes. The machine computes with 64-bit words:
`encodeWord` spells one, and `operandWord?` is the reading of an operand. It bounds
the length, may insist on the shortest spelling, gathers the magnitude in a word, and
bounds it by `maxMagnitude`. `decode?` is the operand as an integer.
-/

namespace AuthScript

namespace ScriptNumber

/-- The largest magnitude of an operand. -/
def maxMagnitude : Nat := 0x7fffffffffffffff

/-- The longest operand in bytes. -/
def maxLength : Nat := 8

/-- The bytes of a magnitude with the sign in the top bit of the last one, and one
byte more when the magnitude needs that bit itself. -/
def encodeMagnitude (negative : Bool) (n : Nat) : Bytes :=
  if h : n < 128 then [n.toUInt8 ||| if negative then 0x80 else 0]
  else (n % 256).toUInt8 :: encodeMagnitude negative (n / 256)
termination_by n
decreasing_by omega

/-- The shortest spelling of an integer. -/
def encode (z : Int) : Bytes := if z = 0 then [] else encodeMagnitude (z < 0) z.natAbs

/-- The magnitude of a 64-bit integer. The least one cannot be turned over, so the one above
it is. -/
def wordMagnitude (v : Int64) : UInt64 := if v < 0 then (-(v + 1)).toUInt64 + 1 else v.toUInt64

/-- The bytes of a word that has at most `width` of them, least significant first, up to the
last one that is not zero. -/
def significantBytes : Nat → UInt64 → Bytes
  | 0, _ => []
  | width + 1, n => if n = 0 then [] else n.toUInt8 :: significantBytes width (n >>> 8)

/-- The bytes of a magnitude with a sign: in the top bit of the last byte, or in one byte more
if the magnitude has that bit. -/
def withSign (negative : Bool) : Bytes → Bytes
  | [] => []
  | [top] =>
    let sign := if negative then 0x80 else 0
    if top &&& 0x80 != 0 then [top, sign] else [top ||| sign]
  | b :: c :: rest => b :: withSign negative (c :: rest)

/-- The spelling of a 64-bit integer. -/
def encodeWord (v : Int64) : Bytes :=
  if v = 0 then [] else withSign (v < 0) (significantBytes 8 (wordMagnitude v))

/-- Whether the sign bit of a spelling is set. -/
def isNegative (b : Bytes) : Bool := b.getLast?.any (128 ≤ ·)

/-- The magnitude of a spelling: its bytes without the sign bit. -/
def magnitude : Bytes → Nat
  | [] => 0
  | [b] => b.toNat % 128
  | b :: c :: rest => b.toNat + 256 * magnitude (c :: rest)

/-- The integer that a spelling denotes. -/
def value (b : Bytes) : Int := if isNegative b then -(magnitude b) else magnitude b

/-- Whether a spelling is the shortest: its last byte carries more than the sign,
unless the one before needs its own top bit. -/
def isMinimal (b : Bytes) : Bool :=
  match b.reverse with
  | [] => true
  | [top] => top &&& 0x7f != 0
  | top :: below :: _ => top &&& 0x7f != 0 || below &&& 0x80 != 0

/-- The shortest spelling of the same number: the zero bytes under a last byte that
only carries the sign are dropped, and the sign moves down if there is room. -/
def minimize (b : Bytes) : Bytes :=
  match b.reverse with
  | [] => []
  | top :: below =>
    if top &&& 0x7f != 0 then b
    else match below.dropWhile (· = 0) with
      | [] => []
      | high :: rest =>
        if high &&& 0x80 != 0 then (top :: high :: rest).reverse
        else ((high ||| top) :: rest).reverse

/-- The magnitude of a spelling whose bytes from the one at `place` on are still to be read
behind `seen`. A word has eight places, and a byte that stands behind them must be zero. -/
def gather? (place : Nat) (seen : UInt64) : Bytes → Option UInt64
  | [] => some seen
  | b :: rest =>
    let own := if rest.isEmpty then b &&& 0x7f else b
    if place < 8 then gather? (place + 1) (seen ||| own.toUInt64 <<< (8 * place).toUInt64) rest
    else if own = 0 then gather? (place + 1) seen rest
    else none

/-- The number of a spelling as a 64-bit integer: none when the magnitude is out of range. -/
def word? (b : Bytes) : Option Int64 :=
  match gather? 0 0 b with
  | none => none
  | some n =>
    if n.toNat > maxMagnitude then none
    else some (if isNegative b then -n.toInt64 else n.toInt64)

/-- The word of an operand: none when the spelling is longer than `limit`, when the shortest
spelling is asked for and this is not it, and when its magnitude is out of range. -/
def operandWord? (b : Bytes) (limit : Nat) (minimal : Bool) : Option Int64 :=
  if b.length > limit then none
  else if minimal && !isMinimal b then none
  else word? b

/-- The integer that an operand denotes. -/
def decode? (b : Bytes) (limit : Nat) (minimal : Bool) : Option Int :=
  (operandWord? b limit minimal).map Int64.toInt

@[simp] theorem encode_zero : encode 0 = [] := rfl

@[simp] theorem magnitude_nil : magnitude [] = 0 := rfl

@[simp] theorem magnitude_singleton (b : UInt8) : magnitude [b] = b.toNat % 128 := rfl

theorem magnitude_cons_cons (b c : UInt8) (rest : Bytes) :
    magnitude (b :: c :: rest) = b.toNat + 256 * magnitude (c :: rest) := rfl

end ScriptNumber

end AuthScript
