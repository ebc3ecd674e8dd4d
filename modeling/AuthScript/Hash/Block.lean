import AuthScript.Bytes

/-!
# Messages as blocks of words

The three digests share their outer shape: the message is followed by a one bit,
by zeros, and by its length in bits, so that it fills whole blocks of sixteen
32-bit words, and the blocks are then compressed one after another. They differ in
the order of the bytes within a word and within the length.
-/

namespace AuthScript

namespace Hash

/-- The order of the bytes of a word. -/
inductive ByteOrder where
  | bigEndian
  | littleEndian

/-- The `width` bytes of a number in this order. -/
def ByteOrder.bytes : ByteOrder → Nat → Nat → Bytes
  | .bigEndian => Bytes.bigEndian
  | .littleEndian => Bytes.littleEndian

/-- The word made of four bytes in this order. -/
def ByteOrder.word : ByteOrder → UInt8 → UInt8 → UInt8 → UInt8 → UInt32
  | .bigEndian, a, b, c, d =>
    a.toUInt32 <<< 24 ||| b.toUInt32 <<< 16 ||| c.toUInt32 <<< 8 ||| d.toUInt32
  | .littleEndian, a, b, c, d =>
    d.toUInt32 <<< 24 ||| c.toUInt32 <<< 16 ||| b.toUInt32 <<< 8 ||| a.toUInt32

/-- A message filled up to whole blocks. -/
def pad (order : ByteOrder) (message : Bytes) : Bytes :=
  message ++ 0x80 :: (List.replicate ((119 - message.length % 64) % 64) 0 ++
    order.bytes 8 (8 * message.length))

/-- The blocks of sixteen words that the bytes fill. -/
def blocks (order : ByteOrder) (b : Bytes) : List (List UInt32) :=
  match _full : b.drop 63 with
  | [] => []
  | _ :: rest => words order 16 b :: blocks order rest
termination_by b.length
decreasing_by
  have := congrArg List.length _full
  simp only [List.length_drop, List.length_cons] at this
  omega
where
  /-- The first words that the bytes spell. -/
  words (order : ByteOrder) : Nat → Bytes → List UInt32
    | n + 1, a :: b :: c :: d :: rest => order.word a b c d :: words order n rest
    | _, _ => []

/-- The bytes of a sequence of words. -/
def ofWords (order : ByteOrder) (words : List UInt32) : Bytes :=
  words.flatMap fun w => order.bytes 4 w.toNat

@[simp] theorem length_bytes (order : ByteOrder) (width n : Nat) :
    (order.bytes width n).length = width := by
  cases order <;> simp [ByteOrder.bytes]

@[simp] theorem length_ofWords (order : ByteOrder) (words : List UInt32) :
    (ofWords order words).length = 4 * words.length := by
  induction words with
  | nil => rfl
  | cons w words ih =>
    simp only [ofWords, List.flatMap_cons, List.length_append, length_bytes, List.length_cons]
      at ih ⊢
    omega

/-- The bits of a word rotated towards the high end. -/
def rotateLeft (w : UInt32) (n : UInt32) : UInt32 := w <<< n ||| w >>> (32 - n)

/-- The bits of a word rotated towards the low end. -/
def rotateRight (w : UInt32) (n : UInt32) : UInt32 := w >>> n ||| w <<< (32 - n)

/-- A sequence of words continued by a rule that reads the older ones; the newest
word comes first. -/
def extend (next : List UInt32 → UInt32) : Nat → List UInt32 → List UInt32
  | 0, words => words
  | n + 1, words => extend next n (next words :: words)

end Hash

end AuthScript
