import AuthScript.Hash.Block

/-!
# RIPEMD-160

Two lines of eighty rounds on five words run side by side over each block, one
reading the words of the block in one order and one in another, and are added
together at the end. The rounds come in five groups of sixteen; the right line
mixes words as the left line does in the opposite group.
-/

namespace AuthScript

namespace Ripemd160

open Hash (rotateLeft)

/-- The five words that blocks are compressed into. -/
structure State where
  a : UInt32
  b : UInt32
  c : UInt32
  d : UInt32
  e : UInt32

/-- The state before the first block. -/
def initial : State where
  a := 0x67452301
  b := 0xefcdab89
  c := 0x98badcfe
  d := 0x10325476
  e := 0xc3d2e1f0

/-- How three words are mixed in a group of rounds. -/
def mix (group : Nat) (x y z : UInt32) : UInt32 :=
  match group with
  | 0 => x ^^^ y ^^^ z
  | 1 => (x &&& y) ||| (~~~x &&& z)
  | 2 => (x ||| ~~~y) ^^^ z
  | 3 => (x &&& z) ||| (y &&& ~~~z)
  | _ => x ^^^ (y ||| ~~~z)

/-- A line of rounds: the constants of its groups, the order in which it reads the
words of a block, its rotations, and how it mixes words in each group. -/
structure Line where
  constants : List UInt32
  order : List Nat
  rotations : List UInt32
  mix : Nat → UInt32 → UInt32 → UInt32 → UInt32

/-- The order in which the left line reads the words of a block. -/
def leftOrder : List Nat := [
  0, 1, 2, 3, 4, 5, 6, 7, 8, 9, 10, 11, 12, 13, 14, 15,
  7, 4, 13, 1, 10, 6, 15, 3, 12, 0, 9, 5, 2, 14, 11, 8,
  3, 10, 14, 4, 9, 15, 8, 1, 2, 7, 0, 6, 13, 11, 5, 12,
  1, 9, 11, 10, 0, 8, 12, 4, 13, 3, 7, 15, 14, 5, 6, 2,
  4, 0, 5, 9, 7, 12, 2, 10, 14, 1, 3, 8, 11, 6, 15, 13]

/-- The order in which the right line reads the words of a block. -/
def rightOrder : List Nat := [
  5, 14, 7, 0, 9, 2, 11, 4, 13, 6, 15, 8, 1, 10, 3, 12,
  6, 11, 3, 7, 0, 13, 5, 10, 14, 15, 8, 12, 4, 9, 1, 2,
  15, 5, 1, 3, 7, 14, 6, 9, 11, 8, 12, 2, 10, 0, 4, 13,
  8, 6, 4, 1, 3, 11, 15, 0, 5, 12, 2, 13, 9, 7, 10, 14,
  12, 15, 10, 4, 1, 5, 8, 7, 6, 2, 13, 14, 0, 3, 9, 11]

/-- The rotations of the left line. -/
def leftRotations : List UInt32 := [
  11, 14, 15, 12, 5, 8, 7, 9, 11, 13, 14, 15, 6, 7, 9, 8,
  7, 6, 8, 13, 11, 9, 7, 15, 7, 12, 15, 9, 11, 7, 13, 12,
  11, 13, 6, 7, 14, 9, 13, 15, 14, 8, 13, 6, 5, 12, 7, 5,
  11, 12, 14, 15, 14, 15, 9, 8, 9, 14, 5, 6, 8, 6, 5, 12,
  9, 15, 5, 11, 6, 8, 13, 12, 5, 12, 13, 14, 11, 8, 5, 6]

/-- The rotations of the right line. -/
def rightRotations : List UInt32 := [
  8, 9, 9, 11, 13, 15, 15, 5, 7, 7, 8, 11, 14, 14, 12, 6,
  9, 13, 15, 7, 12, 8, 9, 11, 7, 7, 12, 7, 6, 15, 13, 11,
  9, 7, 15, 11, 8, 6, 6, 14, 12, 13, 5, 14, 13, 13, 7, 5,
  15, 5, 8, 11, 14, 14, 6, 14, 6, 9, 12, 9, 12, 5, 15, 8,
  8, 5, 12, 9, 12, 5, 14, 6, 8, 13, 6, 5, 15, 13, 11, 11]

/-- The left line. -/
def left : Line where
  constants := [0, 0x5a827999, 0x6ed9eba1, 0x8f1bbcdc, 0xa953fd4e]
  order := leftOrder
  rotations := leftRotations
  mix := mix

/-- The right line. -/
def right : Line where
  constants := [0x50a28be6, 0x5c4dd124, 0x6d703ef3, 0x7a6d76e9, 0]
  order := rightOrder
  rotations := rightRotations
  mix := fun group => Ripemd160.mix (4 - group)

/-- One round of a line, at a position of the line, with a word and a rotation. -/
def Line.round (line : Line) (s : State) (step : Nat × UInt32 × UInt32) : State :=
  let (i, w, rotation) := step
  let t := rotateLeft (s.a + line.mix (i / 16) s.b s.c s.d + w +
    line.constants.getD (i / 16) 0) rotation + s.e
  ⟨s.e, t, s.b, rotateLeft s.c 10, s.d⟩

/-- All rounds of a line over a block. -/
def Line.run (line : Line) (s : State) (block : List UInt32) : State :=
  let words := line.order.map fun i => block.getD i 0
  ((List.range 80).zip (words.zip line.rotations)).foldl line.round s

/-- The state after one more block. -/
def compress (s : State) (block : List UInt32) : State :=
  let l := left.run s block
  let r := right.run s block
  ⟨s.b + l.c + r.d, s.c + l.d + r.e, s.d + l.e + r.a, s.e + l.a + r.b, s.a + l.b + r.c⟩

/-- The words of a state in order. -/
def State.words (s : State) : List UInt32 := [s.a, s.b, s.c, s.d, s.e]

end Ripemd160

/-- The 20-byte RIPEMD-160 digest of a message. -/
def ripemd160 (message : Bytes) : Bytes :=
  Hash.ofWords .littleEndian
    ((Hash.blocks .littleEndian (Hash.pad .littleEndian message)).foldl
      Ripemd160.compress Ripemd160.initial).words

@[simp] theorem length_ripemd160 (message : Bytes) : (ripemd160 message).length = 20 := by
  simp [ripemd160, Ripemd160.State.words]

end AuthScript
