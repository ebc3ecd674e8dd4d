import AuthScript.Proofs.Signature

/-!
# Strict DER

The rules of DER that signatures are under, said without the functions that write and read them:
lengths in the fewest octets, integers in two's complement with no superfluous first octet, and an
element as its tag, its length and its contents, with nothing behind them. For numbers below
`2 ^ 256` exactly one byte string keeps these rules (`isPair_iff`), so what `encode` writes is
strict DER and all strict DER is written by `encode`. The reader is more generous than that, and
reads it all (`decode?_encode`).
-/

namespace AuthScript

namespace Der

/-- The octets that give the length of contents: below 128 one octet, from there on the number of
octets of the length, marked by the top bit, and these octets without a leading zero. -/
inductive IsLength : Nat → Bytes → Prop where
  | short (n : Nat) (few : n < 128) : IsLength n [n.toUInt8]
  | long (octets : Bytes) (many : 128 ≤ Bytes.ofBigEndian octets) (leading : octets.head? ≠ some 0)
      (few : octets.length < 127) :
      IsLength (Bytes.ofBigEndian octets) ((128 + octets.length).toUInt8 :: octets)

/-- An element: its tag, its length and its contents, and nothing behind them. -/
def IsElement (tag : UInt8) (contents b : Bytes) : Prop :=
  ∃ length, IsLength contents.length length ∧ b = tag :: (length ++ contents)

/-- The integer that octets are in two's complement, most significant octet first. The sign is in
the first octet. -/
def integer : Bytes → Int
  | [] => 0
  | first :: rest =>
    rest.foldl (fun (z : Int) (c : UInt8) => 256 * z + c.toNat)
      (if first < 0x80 then first.toNat else first.toNat - 256)

/-- Contents of an integer in the fewest octets: there is one, and the first is not only a
repetition of the sign in front of another one. -/
def IsMinimal : Bytes → Prop
  | [] => False
  | [_] => True
  | first :: second :: _ => ¬(first = 0 ∧ second < 0x80) ∧ ¬(first = 0xff ∧ 0x80 ≤ second)

instance : DecidablePred IsMinimal
  | [] => inferInstanceAs (Decidable False)
  | [_] => inferInstanceAs (Decidable True)
  | first :: second :: _ =>
    inferInstanceAs (Decidable (¬(first = 0 ∧ second < 0x80) ∧ ¬(first = 0xff ∧ 0x80 ≤ second)))

/-- The element of an integer. -/
def IsInteger (z : Int) (b : Bytes) : Prop :=
  ∃ contents, IsMinimal contents ∧ integer contents = z ∧ IsElement 0x02 contents b

/-- The element of a sequence of two integers. -/
def IsPair (r s : Int) (b : Bytes) : Prop :=
  ∃ x y, IsInteger r x ∧ IsInteger s y ∧ IsElement 0x30 (x ++ y) b

/-! ## Short contents -/

theorem isLength_iff {n : Nat} {octets : Bytes} (few : n < 128) :
    IsLength n octets ↔ octets = [n.toUInt8] := by
  constructor
  · rintro (⟨_, _⟩ | ⟨octets, many, _, _⟩)
    · rfl
    · exact absurd few (Nat.not_lt.2 many)
  · rintro rfl
    exact .short n few

theorem isElement_iff {tag : UInt8} {contents b : Bytes} (few : contents.length < 128) :
    IsElement tag contents b ↔ b = tag :: contents.length.toUInt8 :: contents := by
  constructor
  · rintro ⟨length, isLength, rfl⟩
    rw [(isLength_iff few).1 isLength]
    rfl
  · rintro rfl
    exact ⟨_, .short _ few, rfl⟩

/-! ## The value of contents -/

theorem foldl_natCast (rest : Bytes) (n : Nat) :
    rest.foldl (fun (z : Int) (c : UInt8) => 256 * z + c.toNat) n =
      (rest.foldl (fun n c => 256 * n + c.toNat) n : Nat) := by
  induction rest generalizing n with
  | nil => rfl
  | cons c rest ih => exact ih (256 * n + c.toNat)

theorem foldl_negative (rest : Bytes) {z : Int} (negative : z < 0) :
    rest.foldl (fun (z : Int) (c : UInt8) => 256 * z + c.toNat) z < 0 := by
  induction rest generalizing z with
  | nil => exact negative
  | cons c rest ih =>
      have bound := c.toNat_lt
      have next : 256 * z + c.toNat < 0 := by omega
      exact ih next

/-- With the top bit clear the octets are read as they stand. -/
theorem integer_of_lt {first : UInt8} (rest : Bytes) (clear : first < 0x80) :
    integer (first :: rest) = Bytes.ofBigEndian (first :: rest) := by
  rw [integer, if_pos clear, foldl_natCast, Bytes.ofBigEndian, List.foldl_cons, Nat.mul_zero,
    Nat.zero_add]

/-- With the top bit set they are a negative number. -/
theorem integer_negative {first : UInt8} (rest : Bytes) (set : 0x80 ≤ first) :
    integer (first :: rest) < 0 := by
  have bound := first.toNat_lt
  have start : (first.toNat : Int) - 256 < 0 := by omega
  rw [integer, if_neg (UInt8.not_lt.2 set)]
  exact foldl_negative rest start

end Der

namespace Curve

namespace Signature

/-! ## Integers -/

/-- A number of at most 32 bytes is zero, or has bytes without a leading zero. -/
inductive Magnitude : Nat → Prop where
  | zero : Magnitude 0
  | bytes (c : UInt8) (rest : Bytes) (nonzero : c ≠ 0) (fits : rest.length < 32) :
      Magnitude (Bytes.ofBigEndian (c :: rest))

theorem magnitude {n : Nat} (h : n < 2 ^ 256) : Magnitude n := by
  have field : n < 256 ^ 32 := h
  have short := Bytes.length_dropWhile_bigEndian_le 32 n
  have value : Bytes.ofBigEndian ((Bytes.bigEndian 32 n).dropWhile (· = 0)) = n := by
    rw [Bytes.ofBigEndian_dropWhile_zero, Bytes.ofBigEndian_bigEndian field]
  cases stripped : (Bytes.bigEndian 32 n).dropWhile (· = 0) with
  | nil =>
      rw [stripped] at value
      rw [← value]
      exact .zero
  | cons c rest =>
      rw [stripped] at short value
      rw [← value]
      exact .bytes c rest (Bytes.ne_zero_of_dropWhile stripped) short

/-- A number whose leading byte is not zero takes 32 bytes at most if it is below `2 ^ 256`. -/
theorem length_lt_of_ofBigEndian_lt {c : UInt8} {rest : Bytes} (nonzero : c ≠ 0)
    (h : Bytes.ofBigEndian (c :: rest) < 2 ^ 256) : rest.length < 32 := by
  have lower : 1 ≤ c.toNat := Nat.pos_of_ne_zero fun zero => nonzero (UInt8.toNat_inj.1 zero)
  rw [Bytes.ofBigEndian_cons] at h
  have power : 256 ^ rest.length < 256 ^ 32 :=
    calc 256 ^ rest.length = 256 ^ rest.length * 1 := (Nat.mul_one _).symm
      _ ≤ 256 ^ rest.length * c.toNat := Nat.mul_le_mul_left _ lower
      _ < 256 ^ 32 := Nat.lt_of_le_of_lt (Nat.le_add_right _ _) h
  exact (Nat.pow_lt_pow_iff_right (by decide)).1 power

/-- The contents for a number, by its bytes without a leading zero. -/
theorem integerBody_bytes {c : UInt8} {rest : Bytes} (nonzero : c ≠ 0) (fits : rest.length < 32) :
    integerBody (Bytes.ofBigEndian (c :: rest)) =
      if 0x80 ≤ c then 0 :: c :: rest else c :: rest := by
  have leading : (c :: rest).head? ≠ some 0 := fun zero => nonzero (Option.some.inj zero)
  rw [integerBody, Bytes.dropWhile_bigEndian (b := c :: rest) fits leading]

/-- A number is written in the fewest octets. -/
theorem isMinimal_integerBody {n : Nat} (h : n < 2 ^ 256) :
    Der.IsMinimal (integerBody n) ∧ Der.integer (integerBody n) = n := by
  cases magnitude h with
  | zero => exact ⟨trivial, rfl⟩
  | bytes c rest nonzero fits =>
      rw [integerBody_bytes nonzero fits]
      split
      · rename_i set
        refine ⟨⟨fun spare => UInt8.not_lt.2 set spare.2, fun negative => ?_⟩, ?_⟩
        · exact absurd negative.1 (by decide)
        · rw [Der.integer_of_lt _ (by decide), Bytes.ofBigEndian_zero_cons]
      · rename_i clear
        refine ⟨?_, Der.integer_of_lt _ (UInt8.not_le.1 clear)⟩
        cases rest with
        | nil => trivial
        | cons d rest =>
            refine ⟨fun spare => nonzero spare.1, fun negative => clear ?_⟩
            rw [negative.1]
            decide

/-- And no other octets are contents for it. -/
theorem eq_integerBody {n : Nat} (h : n < 2 ^ 256) {contents : Bytes}
    (minimal : Der.IsMinimal contents) (value : Der.integer contents = n) :
    contents = integerBody n := by
  cases contents with
  | nil => exact absurd minimal id
  | cons first rest =>
      have clear : first < 0x80 := by
        refine UInt8.not_le.1 fun set => ?_
        have negative := Der.integer_negative rest set
        omega
      rw [Der.integer_of_lt rest clear] at value
      obtain rfl := Int.ofNat.inj value
      -- a leading zero octet is all there is, or keeps the top bit of the next from being a sign
      by_cases zero : first = 0
      · subst zero
        cases rest with
        | nil => rfl
        | cons second rest =>
            have set : 0x80 ≤ second := UInt8.not_lt.1 fun spare => minimal.1 ⟨rfl, spare⟩
            have nonzero : second ≠ 0 := by
              rintro rfl
              exact absurd set (by decide)
            rw [Bytes.ofBigEndian_zero_cons] at h ⊢
            rw [integerBody_bytes nonzero (length_lt_of_ofBigEndian_lt nonzero h), if_pos set]
      · rw [integerBody_bytes zero (length_lt_of_ofBigEndian_lt zero h),
          if_neg (UInt8.not_le.2 clear)]

/-- The element of a number is written in one way. -/
theorem isInteger_iff {n : Nat} (h : n < 2 ^ 256) {b : Bytes} :
    Der.IsInteger n b ↔ b = encodeInteger n := by
  have few : (integerBody n).length < 128 := by
    have upper := (length_integerBody n).2
    omega
  constructor
  · rintro ⟨contents, minimal, value, element⟩
    obtain rfl := eq_integerBody h minimal value
    exact (Der.isElement_iff few).1 element
  · rintro rfl
    obtain ⟨minimal, value⟩ := isMinimal_integerBody h
    exact ⟨_, minimal, value, (Der.isElement_iff few).2 rfl⟩

/-- The sequence of two numbers is written in one way. -/
theorem isPair_iff {r s : Nat} (hr : r < 2 ^ 256) (hs : s < 2 ^ 256) {b : Bytes} :
    Der.IsPair r s b ↔ b = encode ⟨r, s⟩ := by
  have few : (encodeInteger r ++ encodeInteger s).length < 128 := by
    have upperR := (length_integerBody r).2
    have upperS := (length_integerBody s).2
    simp only [encodeInteger, List.length_append, List.length_cons]
    omega
  constructor
  · rintro ⟨x, y, first, second, element⟩
    obtain rfl := (isInteger_iff hr).1 first
    obtain rfl := (isInteger_iff hs).1 second
    exact (Der.isElement_iff few).1 element
  · rintro rfl
    exact ⟨_, _, (isInteger_iff hr).2 rfl, (isInteger_iff hs).2 rfl, (Der.isElement_iff few).2 rfl⟩

/-! ## Reading -/

theorem dropLeadingZero_integerBody {n : Nat} (h : n < 2 ^ 256) :
    (dropLeadingZero (integerBody n)).length ≤ 32 ∧
      Bytes.ofBigEndian (dropLeadingZero (integerBody n)) = n := by
  cases magnitude h with
  | zero => decide
  | bytes c rest nonzero fits =>
      have own : dropLeadingZero (if 0x80 ≤ c then 0 :: c :: rest else c :: rest) = c :: rest := by
        split
        · rfl
        · unfold dropLeadingZero
          split
          · rename_i same
            exact absurd (List.cons.inj same).1 nonzero
          · rfl
      rw [integerBody_bytes nonzero fits, own]
      exact ⟨fits, rfl⟩

/-- A number is read back from its element, and what follows is left. -/
theorem readInteger?_encodeInteger_append {n : Nat} (h : n < 2 ^ 256) (rest : Bytes) :
    readInteger? (encodeInteger n ++ rest) = some (n, rest) := by
  obtain ⟨lower, upper⟩ := length_integerBody n
  obtain ⟨short, value⟩ := dropLeadingZero_integerBody h
  have length : (integerBody n).length.toUInt8.toNat = (integerBody n).length :=
    UInt8.toNat_ofNat_of_lt' (Nat.lt_of_le_of_lt upper (by decide))
  have there : ¬((integerBody n).length.toUInt8 = 0 ∨
      (integerBody n ++ rest).length < (integerBody n).length.toUInt8.toNat) := by
    rw [← UInt8.toNat_inj, length, List.length_append, UInt8.toNat_zero]
    omega
  rw [encodeInteger, List.cons_append, List.cons_append, readInteger?, if_neg there, length,
    List.take_left, List.drop_left]
  simp only [if_neg (Nat.not_lt.2 short), value]

/-- What is read is below `2 ^ 256`. -/
theorem readInteger?_lt {b rest : Bytes} {n : Nat} (h : readInteger? b = some (n, rest)) :
    n < 2 ^ 256 := by
  unfold readInteger? at h
  split at h
  · split at h
    · cases h
    · dsimp only at h
      split at h
      · cases h
      · rename_i fits
        obtain ⟨rfl, _⟩ := Prod.mk.inj (Option.some.inj h)
        calc Bytes.ofBigEndian _ < 256 ^ _ := Bytes.ofBigEndian_lt _
          _ ≤ 256 ^ 32 := Nat.pow_le_pow_right (by decide) (Nat.not_lt.1 fits)
  · cases h

/-- A signature is read back from its DER form. -/
theorem decode?_encode {sig : Signature} (hr : sig.r < 2 ^ 256) (hs : sig.s < 2 ^ 256) :
    decode? sig.encode = some sig := by
  obtain ⟨lower, upper⟩ := length_encode sig
  rw [encode] at lower upper ⊢
  have first : readInteger? (encodeInteger sig.r ++ encodeInteger sig.s) =
      some (sig.r, encodeInteger sig.s) := readInteger?_encodeInteger_append hr _
  have second : readInteger? (encodeInteger sig.s) = some (sig.s, []) := by
    simpa using readInteger?_encodeInteger_append hs []
  -- from here on the contents count by their length only, which fits into one octet
  generalize encodeInteger sig.r ++ encodeInteger sig.s = contents at lower upper first ⊢
  simp only [List.length_cons] at lower upper
  have length : contents.length.toUInt8.toNat = contents.length :=
    UInt8.toNat_ofNat_of_lt' (show contents.length < 256 by omega)
  have there : ¬((0x30 :: contents.length.toUInt8 :: contents).length < 8 ∨
      contents.length < contents.length.toUInt8.toNat) := by
    simp only [List.length_cons, length]
    omega
  simp only [decode?, if_neg there]
  rw [length, List.take_length, first]
  simp only [Option.bind_eq_bind, Option.bind_some, second]
  rfl

/-- A signature that is read has numbers below `2 ^ 256`. -/
theorem decode?_lt {b : Bytes} {sig : Signature} (h : decode? b = some sig) :
    sig.r < 2 ^ 256 ∧ sig.s < 2 ^ 256 := by
  unfold decode? at h
  split at h
  · split at h
    · cases h
    · obtain ⟨first, hr, h⟩ := Option.bind_eq_some_iff.1 h
      obtain ⟨second, hs, h⟩ := Option.bind_eq_some_iff.1 h
      obtain rfl := Option.some.inj h
      exact ⟨readInteger?_lt hr, readInteger?_lt hs⟩
  · cases h

/-- The form that keys are verified with is strict DER of two numbers that fit. -/
theorem isStrict_iff {b : Bytes} :
    isStrict b = true ↔ ∃ r s : Nat, r < 2 ^ 256 ∧ s < 2 ^ 256 ∧ Der.IsPair r s b := by
  unfold isStrict
  rw [Option.any_eq_true]
  constructor
  · rintro ⟨sig, decoded, same⟩
    obtain ⟨hr, hs⟩ := decode?_lt decoded
    exact ⟨_, _, hr, hs, (isPair_iff hr hs).2 (of_decide_eq_true same).symm⟩
  · rintro ⟨r, s, hr, hs, pair⟩
    obtain rfl := (isPair_iff hr hs).1 pair
    exact ⟨_, decode?_encode hr hs, decide_eq_true rfl⟩

/-- Signatures of two numbers of 32 bytes are written in strict DER and read back from it; the
form has eight to 72 bytes and the shape that the machine asks for. All strict DER of these
numbers is read as them and is what they are written as. -/
theorem encode_strict (r s : Nat) (hr : r < 2 ^ 256) (hs : s < 2 ^ 256) :
    ((8 ≤ (encode ⟨r, s⟩).length ∧ (encode ⟨r, s⟩).length ≤ 72) ∧
      Der.IsPair r s (encode ⟨r, s⟩) ∧
      decode? (encode ⟨r, s⟩) = some ⟨r, s⟩ ∧
      isShaped (encode ⟨r, s⟩) = true) ∧
    ∀ d, Der.IsPair r s d → decode? d = some ⟨r, s⟩ ∧ encode ⟨r, s⟩ = d := by
  refine ⟨⟨length_encode _, (isPair_iff hr hs).2 rfl, decode?_encode hr hs, isShaped_encode _⟩, ?_⟩
  intro d strict
  obtain rfl := (isPair_iff hr hs).1 strict
  exact ⟨decode?_encode hr hs, rfl⟩

/-- The greatest number, whose octets need one in front of them, with one whose only octet does. -/
theorem encode_strict_of_greatest :
    let r : Nat := 2 ^ 256 - 1
    let s : Nat := 0x80
    let x : Bytes := 0 :: List.replicate 32 0xff
    let y : Bytes := [0x00, 0x80]
    let d : Bytes := 0x30 :: 0x27 :: ((0x02 :: 0x21 :: x) ++ (0x02 :: 0x02 :: y))
    (r < 2 ^ 256 ∧ s < 2 ^ 256 ∧ Der.IsPair r s d) ∧ encode ⟨r, s⟩ = d ∧ d.length = 41 ∧
      decode? d = some ⟨r, s⟩ ∧ isShaped d = true := by
  intro r s x y d
  have hr : r < 2 ^ 256 := by decide
  have hs : s < 2 ^ 256 := by decide
  have first : Der.IsInteger r (0x02 :: 0x21 :: x) :=
    ⟨x, by decide, by decide, [0x21], .short 0x21 (by decide), rfl⟩
  have second : Der.IsInteger s (0x02 :: 0x02 :: y) :=
    ⟨y, by decide, by decide, [0x02], .short 0x02 (by decide), rfl⟩
  have strict : Der.IsPair r s d := ⟨_, _, first, second, [0x27], .short 0x27 (by decide), rfl⟩
  obtain ⟨⟨_, _, _, shaped⟩, unique⟩ := encode_strict r s hr hs
  obtain ⟨decoded, same⟩ := unique d strict
  rw [same] at shaped
  exact ⟨⟨hr, hs, strict⟩, same, rfl, decoded, shaped⟩

end Signature

end Curve

end AuthScript
