import AuthScript.Hash.Block

/-!
# SHA-1

Eighty rounds on five words for each block. The rounds come in four groups of
twenty that differ in how three of the words are mixed and in the constant added.
-/

namespace AuthScript

namespace Sha1

open Hash (rotateLeft)

/-- The five words that blocks are compressed into. -/
structure State where
  a : UInt32
  b : UInt32
  c : UInt32
  d : UInt32
  e : UInt32

/-- The state before the first block. -/
def initial : State where
  a := 0x67452301
  b := 0xefcdab89
  c := 0x98badcfe
  d := 0x10325476
  e := 0xc3d2e1f0

/-- The next word of the schedule, from the older ones newest first. -/
def next (w : List UInt32) : UInt32 :=
  rotateLeft (w.getD 2 0 ^^^ w.getD 7 0 ^^^ w.getD 13 0 ^^^ w.getD 15 0) 1

/-- The eighty words of a block's schedule. -/
def schedule (block : List UInt32) : List UInt32 := (Hash.extend next 64 block.reverse).reverse

/-- How three words are mixed, and the constant added, in a group of rounds. -/
def mix (group : Nat) (b c d : UInt32) : UInt32 :=
  match group with
  | 0 => ((b &&& c) ||| (~~~b &&& d)) + 0x5a827999
  | 1 => (b ^^^ c ^^^ d) + 0x6ed9eba1
  | 2 => ((b &&& c) ||| (b &&& d) ||| (c &&& d)) + 0x8f1bbcdc
  | _ => (b ^^^ c ^^^ d) + 0xca62c1d6

/-- One round with a word of the schedule and its position. -/
def round (s : State) (wi : UInt32 × Nat) : State :=
  let t := rotateLeft s.a 5 + mix (wi.2 / 20) s.b s.c s.d + s.e + wi.1
  ⟨t, s.a, rotateLeft s.b 30, s.c, s.d⟩

/-- The state after one more block. -/
def compress (s : State) (block : List UInt32) : State :=
  let r := ((schedule block).zip (List.range 80)).foldl round s
  ⟨s.a + r.a, s.b + r.b, s.c + r.c, s.d + r.d, s.e + r.e⟩

/-- The words of a state in order. -/
def State.words (s : State) : List UInt32 := [s.a, s.b, s.c, s.d, s.e]

end Sha1

/-- The 20-byte SHA-1 digest of a message. -/
def sha1 (message : Bytes) : Bytes :=
  Hash.ofWords .bigEndian
    ((Hash.blocks .bigEndian (Hash.pad .bigEndian message)).foldl Sha1.compress Sha1.initial).words

@[simp] theorem length_sha1 (message : Bytes) : (sha1 message).length = 20 := by
  simp [sha1, Sha1.State.words]

end AuthScript
