import AuthScript.Bytes

/-!
# Points of secp256k1

The curve is `y ^ 2 = x ^ 3 + 7` over the field of integers modulo `prime`, and its
points form a group of prime order `order`. Field elements are natural numbers
below the prime. Affine points are the interface; sums are computed on triples
`(x, y, z)` that stand for `(x / z ^ 2, y / z ^ 3)`, so that one division at the end
is enough. `z = 0` is the point at infinity.

Points are read from their octet forms: 33 octets with a sign for `y`, or 65 octets
with both coordinates. Coordinates out of range are rejected, never reduced.
-/

namespace AuthScript

namespace Curve

/-- The characteristic of the field of coordinates. -/
def prime : Nat := 0xfffffffffffffffffffffffffffffffffffffffffffffffffffffffefffffc2f

/-- The order of the group of points. -/
def order : Nat := 0xfffffffffffffffffffffffffffffffebaaedce6af48a03bbfd25e8cd0364141

/-- The largest number that is at most half of the order. -/
def halfOrder : Nat := order / 2

/-- The 256 low bits of a number, highest first. -/
def bits (n : Nat) : List Bool := (List.range 256).reverse.map n.testBit

/-- Powers modulo `m`, for exponents of at most 256 bits. -/
def powMod (m base exponent : Nat) : Nat :=
  (bits exponent).foldl (fun r bit => if bit then r * r % m * base % m else r * r % m) 1

/-- The inverse modulo a prime. -/
def invMod (m a : Nat) : Nat := powMod m a (m - 2)

/-- The difference of two field elements. -/
def sub (a b : Nat) : Nat := (a + prime - b) % prime

/-- A finite point. -/
structure Point where
  x : Nat
  y : Nat
deriving DecidableEq

/-- Whether a pair of coordinates is in range and satisfies the equation. -/
def Point.isOnCurve (p : Point) : Bool :=
  p.x < prime && p.y < prime && p.y * p.y % prime == (p.x * p.x % prime * p.x + 7) % prime

/-- The generator of the group. -/
def generator : Point where
  x := 0x79be667ef9dcbbac55a06295ce870b07029bfcdb2dce28d959f2815b16f81798
  y := 0x483ada7726a3c4655da4fbfc0e1108a8fd17b448a68554199c47d08ffb10d4b8

/-- A point as a triple standing for `(x / z ^ 2, y / z ^ 3)`. -/
structure Jacobian where
  x : Nat
  y : Nat
  z : Nat

namespace Jacobian

/-- The point at infinity. -/
def infinity : Jacobian := ⟨1, 1, 0⟩

/-- A finite point as a triple. -/
def ofPoint (p : Point) : Jacobian := ⟨p.x, p.y, 1⟩

/-- Twice a point. -/
def double (p : Jacobian) : Jacobian :=
  if p.z = 0 ∨ p.y = 0 then infinity
  else
    let yy := p.y * p.y % prime
    let s := 4 * p.x * yy % prime
    let m := 3 * p.x * p.x % prime
    let x := sub (m * m % prime) (2 * s % prime)
    ⟨x, sub (m * sub s x % prime) (8 * yy * yy % prime), 2 * p.y * p.z % prime⟩

/-- The sum of two points. -/
def add (p q : Jacobian) : Jacobian :=
  if p.z = 0 then q
  else if q.z = 0 then p
  else
    let pzz := p.z * p.z % prime
    let qzz := q.z * q.z % prime
    let u := p.x * qzz % prime
    let s := p.y * qzz % prime * q.z % prime
    let h := sub (q.x * pzz % prime) u
    let r := sub (q.y * pzz % prime * p.z % prime) s
    if h = 0 then (if r = 0 then double p else infinity)
    else
      let hh := h * h % prime
      let hhh := hh * h % prime
      let v := u * hh % prime
      let x := sub (sub (r * r % prime) hhh) (2 * v % prime)
      ⟨x, sub (r * sub v x % prime) (s * hhh % prime), h * p.z % prime * q.z % prime⟩

/-- A multiple of a point, for factors of at most 256 bits. -/
def mul (k : Nat) (p : Jacobian) : Jacobian :=
  (bits k).foldl (fun acc bit => if bit then (acc.double).add p else acc.double) infinity

/-- The finite point that a triple stands for. -/
def toPoint? (p : Jacobian) : Option Point :=
  if p.z = 0 then none
  else
    let w := invMod prime p.z
    let ww := w * w % prime
    some ⟨p.x * ww % prime, p.y * ww % prime * w % prime⟩

end Jacobian

namespace Point

/-- A multiple of the generator; none for the point at infinity. -/
def ofScalar? (k : Nat) : Option Point := ((Jacobian.ofPoint generator).mul k).toPoint?

/-- The finite point with an `x` coordinate whose `y` coordinate has a parity. -/
def lift? (x : Nat) (odd : Bool) : Option Point :=
  let y := powMod prime (x * x % prime * x + 7) ((prime + 1) / 4)
  let p : Point := ⟨x, if (y % 2 == 1) = odd then y else prime - y⟩
  if p.isOnCurve then some p else none

/-- The 33-octet form: the parity of `y`, then `x`. -/
def compressed (p : Point) : Bytes :=
  (if p.y % 2 = 1 then 0x03 else 0x02) :: Bytes.bigEndian 32 p.x

/-- The 65-octet form: both coordinates. -/
def uncompressed (p : Point) : Bytes := 0x04 :: (Bytes.bigEndian 32 p.x ++ Bytes.bigEndian 32 p.y)

@[simp] theorem length_compressed (p : Point) : p.compressed.length = 33 := by
  simp [compressed]

@[simp] theorem length_uncompressed (p : Point) : p.uncompressed.length = 65 := by
  simp [uncompressed]

/-- The forms of a public key, told apart by length and first octet. A hybrid has
both coordinates and repeats the parity of `y` in its first octet. -/
inductive Form where
  | compressed (odd : Bool)
  | uncompressed
  | hybrid (odd : Bool)
deriving DecidableEq

/-- The form that a byte string claims to have. -/
def form? (b : Bytes) : Option Form :=
  match b.length, b.head? with
  | 33, some 0x02 => some (.compressed false)
  | 33, some 0x03 => some (.compressed true)
  | 65, some 0x04 => some .uncompressed
  | 65, some 0x06 => some (.hybrid false)
  | 65, some 0x07 => some (.hybrid true)
  | _, _ => none

/-- The finite point with these coordinates, if there is one. -/
def ofCoordinates? (x y : Nat) : Option Point :=
  if (⟨x, y⟩ : Point).isOnCurve then some ⟨x, y⟩ else none

/-- The point that a byte string of any form spells. -/
def decode? (b : Bytes) : Option Point :=
  let x := Bytes.ofBigEndian (b.tail.take 32)
  let y := Bytes.ofBigEndian (b.tail.drop 32)
  match form? b with
  | some (.compressed odd) => lift? x odd
  | some .uncompressed => ofCoordinates? x y
  | some (.hybrid odd) => if (y % 2 == 1) = odd then ofCoordinates? x y else none
  | none => none

/-- Whether a byte string is a public key that scripts may use: any form but the
hybrid one, and a point of the curve. -/
def isPublicKey (b : Bytes) : Bool :=
  match form? b with
  | some (.compressed _) | some .uncompressed => (decode? b).isSome
  | _ => false

end Point

end Curve

end AuthScript
