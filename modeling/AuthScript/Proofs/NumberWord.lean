import AuthScript.Number.Decimal
import AuthScript.Proofs.ScriptNumber

/-!
# Script numbers of words

The machine spells a 64-bit integer by the bytes of its magnitude, with the sign put into the
last one or behind it, and reads one by gathering the bytes of a spelling in a word. Both come to
what `encode` and `value` say of integers of any size: no step of the computation with words loses
a bit, the magnitude of the least integer and bytes behind the eighth included
(`encodeWord_eq`, `decode?_eq_some`). An integer literal becomes an operand by way of its script
number; so the least integer, which has a word but is out of the range of script numbers, does not
become one (`Decimal.operand?_eq_some`).
-/

namespace AuthScript

namespace ScriptNumber

/-! ## Magnitudes as words -/

theorem toNat_toUInt64 {v : Int64} (positive : 0 ≤ v.toInt) : v.toUInt64.toNat = v.toInt.toNat := by
  have own : v.toInt = if 2 * v.toUInt64.toNat < 2 ^ 64 then (v.toUInt64.toNat : Int)
      else v.toUInt64.toNat - (2 ^ 64 : Nat) := BitVec.toInt_eq_toNat_cond v.toBitVec
  have bound := v.toUInt64.toNat_lt
  split at own <;> omega

/-- The least integer cannot be turned over, but the one above it can, and there is one above
every integer below zero. -/
theorem toInt_neg_add_one {v : Int64} (negative : v.toInt < 0) :
    (v + 1).toInt = v.toInt + 1 ∧ (-(v + 1)).toInt = -(v.toInt + 1) := by
  have lower := v.le_toInt
  have above : (v + 1).toInt = v.toInt + 1 := by
    rw [Int64.toInt_add, Int64.toInt_one]
    exact Int.bmod_eq_of_le (by omega) (by omega)
  refine ⟨above, ?_⟩
  rw [Int64.toInt_neg, above]
  exact Int.bmod_eq_of_le (by omega) (by omega)

/-- The magnitude of every 64-bit integer fits in a word, that of the least one too. -/
theorem toNat_wordMagnitude (v : Int64) : (wordMagnitude v).toNat = v.toInt.natAbs := by
  have lower := v.le_toInt
  unfold wordMagnitude
  split
  · rename_i negative
    have negative : v.toInt < 0 := by simpa [Int64.lt_iff_toInt_lt] using negative
    obtain ⟨_, opposite⟩ := toInt_neg_add_one negative
    have own : (-(v + 1)).toUInt64.toNat = _ := toNat_toUInt64 (by omega)
    rw [UInt64.toNat_add, own, opposite]
    show ((-(v.toInt + 1)).toNat + 1) % 2 ^ 64 = _
    omega
  · rename_i positive
    have positive : 0 ≤ v.toInt := by simpa [Int64.lt_iff_toInt_lt] using positive
    rw [toNat_toUInt64 positive]
    omega

theorem toNat_high (n : UInt64) : (n >>> 8).toNat = n.toNat / 256 := by
  rw [UInt64.toNat_shiftRight]
  exact Nat.shiftRight_eq_div_pow n.toNat 8

theorem toNat_low (n : UInt64) : n.toUInt8.toNat = n.toNat % 256 := UInt64.toNat_toUInt8 n

/-- A word is read back from its bytes, the last of which is not zero. -/
theorem significantBytes_read {width : Nat} {n : UInt64} (fits : n.toNat < 256 ^ width) :
    Bytes.ofLittleEndian (significantBytes width n) = n.toNat ∧
      (significantBytes width n).getLast? ≠ some 0 := by
  induction width generalizing n with
  | zero =>
      rw [significantBytes]
      exact ⟨(Nat.lt_one_iff.1 fits).symm, by simp⟩
  | succ width ih =>
      rw [significantBytes]
      split
      · rename_i zero
        rw [zero]
        exact ⟨rfl, by simp⟩
      · rename_i nonzero
        have some : n.toNat ≠ 0 := fun none => nonzero (UInt64.toNat_inj.1 none)
        have rest : (n >>> 8).toNat < 256 ^ width := by
          rw [toNat_high]
          rw [Nat.pow_succ] at fits
          exact Nat.div_lt_of_lt_mul (by omega)
        obtain ⟨value, last⟩ := ih rest
        refine ⟨?_, ?_⟩
        · rw [Bytes.ofLittleEndian_cons, value, toNat_low, toNat_high]
          omega
        · cases hrest : significantBytes width (n >>> 8) with
          | nil =>
              -- nothing is left, so the byte is the whole word
              rw [hrest, toNat_high] at value
              have value : 0 = n.toNat / 256 := value
              rw [List.getLast?_singleton]
              intro zero
              have none := congrArg UInt8.toNat (Option.some.inj zero)
              rw [toNat_low] at none
              have none : n.toNat % 256 = 0 := none
              omega
          | cons c rest =>
              rw [List.getLast?_cons_cons, ← hrest]
              exact last

/-! ## Spelling a word -/

theorem withSign_append (negative : Bool) (low : Bytes) (top : UInt8) :
    withSign negative (low ++ [top]) =
      if top.toNat < 128 then low ++ [top ||| if negative then 0x80 else 0]
      else low ++ [top, if negative then 0x80 else 0] := by
  induction low with
  | nil =>
      rw [List.nil_append, withSign]
      simp only [and_high_eq, decide_eq_true_eq]
      by_cases room : top.toNat < 128
      · rw [if_pos room, if_neg (by omega)]
        rfl
      · rw [if_neg room, if_pos (by omega)]
        rfl
  | cons b low ih =>
      obtain ⟨c, rest, hrest⟩ := List.exists_cons_of_ne_nil
        (List.append_ne_nil_of_right_ne_nil low (List.cons_ne_nil top []))
      rw [List.cons_append, hrest, withSign, ← hrest, ih]
      split <;> rfl

/-- A magnitude whose last byte is not zero is spelled shortest by its bytes with the sign. -/
theorem withSign_read (negative : Bool) {b : Bytes} (used : b ≠ []) (last : b.getLast? ≠ some 0) :
    magnitude (withSign negative b) = Bytes.ofLittleEndian b ∧
      isNegative (withSign negative b) = negative ∧ isMinimal (withSign negative b) = true := by
  obtain ⟨low, top, rfl⟩ := (List.eq_nil_or_concat b).resolve_left used
  rw [List.concat_eq_append] at last ⊢
  have nonzero : top.toNat ≠ 0 := by
    intro zero
    have zero : top = 0 := UInt8.toNat_inj.1 zero
    rw [List.getLast?_concat, zero] at last
    exact last rfl
  have whole : Bytes.ofLittleEndian (low ++ [top]) =
      Bytes.ofLittleEndian low + 256 ^ low.length * top.toNat := by
    rw [Bytes.ofLittleEndian_append]
    rfl
  rw [withSign_append, whole]
  split
  · rename_i room
    have own := toNat_or_sign room negative
    rw [Nat.toUInt8_eq, UInt8.ofNat_toNat] at own
    have bits : (top ||| if negative then 0x80 else 0).toNat % 128 = top.toNat := by
      rw [own]
      split <;> omega
    refine ⟨?_, ?_, isMinimal_append low (by rw [bits]; exact nonzero)⟩
    · rw [magnitude_append, bits]
    · rw [isNegative_append, own]
      cases negative <;> simp [room]
  · rename_i full
    have two : ∀ sign : UInt8, low ++ [top, sign] = (low ++ [top]) ++ [sign] := by simp
    have sign : (if negative then 0x80 else 0 : UInt8).toNat = if negative then 128 else 0 := by
      cases negative <;> rfl
    refine ⟨?_, ?_, isMinimal_append_two low _ (Nat.not_lt.1 full)⟩
    · rw [two, magnitude_append, sign, whole]
      cases negative <;> simp
    · rw [two, isNegative_append, sign]
      cases negative <;> rfl

/-- A word is spelled as the integer that it is. -/
theorem encodeWord_eq (v : Int64) : encodeWord v = encode v.toInt := by
  have fits : (wordMagnitude v).toNat < 256 ^ 8 := (wordMagnitude v).toNat_lt
  obtain ⟨read, last⟩ := significantBytes_read fits
  rw [toNat_wordMagnitude] at read
  unfold encodeWord
  split
  · rename_i zero
    rw [zero]
    rfl
  · rename_i nonzero
    have nonzero : v.toInt ≠ 0 := fun zero => nonzero (Int64.toInt_inj.1 zero)
    have used : significantBytes 8 (wordMagnitude v) ≠ [] := by
      intro none
      rw [none] at read
      have read : 0 = v.toInt.natAbs := read
      omega
    obtain ⟨magnitude, sign, minimal⟩ := withSign_read (decide (v < 0)) used last
    refine (encode_eq_iff.2 ⟨?_, minimal⟩).symm
    rw [value, magnitude, sign, read]
    by_cases negative : v.toInt < 0
    · have below : v < 0 := Int64.lt_iff_toInt_lt.2 negative
      rw [if_pos (decide_eq_true below)]
      omega
    · have above : ¬ v < 0 := fun below => negative (Int64.lt_iff_toInt_lt.1 below)
      rw [if_neg (by simpa using above)]
      omega

/-- An integer in the range of words is spelled by its word. -/
theorem encodeWord_ofInt {z : Int} (range : z.natAbs ≤ maxMagnitude) :
    encodeWord (.ofInt z) = encode z := by
  unfold maxMagnitude at range
  rw [encodeWord_eq, Int64.toInt_ofInt_of_le (by omega) (by omega)]

/-- A word takes eight bytes at most, and one more for the sign. -/
theorem length_encodeWord_le (v : Int64) : (encodeWord v).length ≤ 9 := by
  have lower := v.le_toInt
  have upper := v.toInt_lt
  rw [encodeWord_eq]
  refine length_encode_le (k := 8) (Nat.lt_of_le_of_lt (by omega : _ ≤ 2 ^ 63) ?_)
  decide

/-! ## Reading a word -/

/-- The bits that a byte adds to the magnitude of a spelling, with `rest` behind it. -/
theorem magnitude_cons (b : UInt8) (rest : Bytes) :
    magnitude (b :: rest) =
      (if rest.isEmpty then b &&& 0x7f else b).toNat + 256 * magnitude rest := by
  cases rest with
  | nil =>
      rw [List.isEmpty_nil, if_pos rfl, toNat_and_low]
      rfl
  | cons c rest => rfl

/-- A byte is put on top of what has been gathered. -/
theorem toNat_or_shifted {seen : UInt64} {place : Nat} (own : UInt8) (room : place < 8)
    (below : seen.toNat < 256 ^ place) :
    (seen ||| own.toUInt64 <<< (8 * place).toUInt64).toNat =
      seen.toNat + 256 ^ place * own.toNat := by
  have power : 256 ^ place = 2 ^ (8 * place) := by rw [Nat.pow_mul]
  have shift : (8 * place).toUInt64.toNat % 64 = 8 * place := by
    rw [Nat.toUInt64_eq, UInt64.toNat_ofNat']
    omega
  have top : own.toNat * 2 ^ (8 * place) < 2 ^ 64 := by
    have byte : own.toNat < 2 ^ 8 := own.toNat_lt
    calc own.toNat * 2 ^ (8 * place) < 2 ^ 8 * 2 ^ (8 * place) :=
          Nat.mul_lt_mul_of_pos_right byte (Nat.two_pow_pos _)
      _ = 2 ^ (8 + 8 * place) := (Nat.pow_add _ _ _).symm
      _ ≤ 2 ^ 64 := Nat.pow_le_pow_right (by decide) (by omega)
  rw [power] at below ⊢
  rw [UInt64.toNat_or, UInt64.toNat_shiftLeft, shift, UInt8.toNat_toUInt64, Nat.shiftLeft_eq,
    Nat.mod_eq_of_lt top, Nat.or_comm, Nat.mul_comm, ← Nat.two_pow_add_eq_or_of_lt below,
    Nat.add_comm]

/-- What is gathered is the magnitude, if it fits in a word. -/
theorem gather?_eq {place : Nat} {seen : UInt64} (b : Bytes) (below : seen.toNat < 256 ^ place) :
    gather? place seen b =
      if seen.toNat + 256 ^ place * magnitude b < 2 ^ 64 then
        some (.ofNat (seen.toNat + 256 ^ place * magnitude b))
      else none := by
  induction b generalizing place seen with
  | nil =>
      have fits : seen.toNat + 256 ^ place * magnitude [] < 2 ^ 64 := seen.toNat_lt
      rw [gather?, if_pos fits]
      simp
  | cons b rest ih =>
      rw [gather?, magnitude_cons]
      generalize hown : (if rest.isEmpty then b &&& 0x7f else b) = own
      by_cases room : place < 8
      · -- the byte goes on top of what has been seen
        have whole := toNat_or_shifted own room below
        have byte : own.toNat + 1 ≤ 256 := own.toNat_lt
        have next : (seen ||| own.toUInt64 <<< (8 * place).toUInt64).toNat < 256 ^ (place + 1) := by
          rw [whole, Nat.pow_succ]
          calc seen.toNat + 256 ^ place * own.toNat < 256 ^ place * (own.toNat + 1) := by
                rw [Nat.mul_succ]
                omega
            _ ≤ 256 ^ place * 256 := Nat.mul_le_mul_left _ byte
        have same : seen.toNat + 256 ^ place * own.toNat + 256 ^ (place + 1) * magnitude rest =
            seen.toNat + 256 ^ place * (own.toNat + 256 * magnitude rest) := by
          rw [Nat.pow_succ, Nat.mul_add, Nat.mul_assoc, Nat.add_assoc]
        rw [if_pos room, ih next, whole, same]
      · -- there is no place for the byte
        have high : 2 ^ 64 ≤ 256 ^ place := Nat.pow_le_pow_right (n := 256) (by decide)
          (Nat.not_lt.1 room)
        rw [if_neg room]
        split
        · rename_i zero
          have next : seen.toNat < 256 ^ (place + 1) := by
            rw [Nat.pow_succ]
            omega
          have same : 256 ^ (place + 1) * magnitude rest =
              256 ^ place * (own.toNat + 256 * magnitude rest) := by
            rw [zero, Nat.pow_succ, Nat.mul_assoc]
            exact congrArg _ (Nat.zero_add _).symm
          rw [ih next, same]
        · rename_i nonzero
          have pos : 0 < own.toNat + 256 * magnitude rest := by
            have some : own.toNat ≠ 0 := fun none => nonzero (UInt8.toNat_inj.1 none)
            omega
          have large := Nat.le_mul_of_pos_right (256 ^ place) pos
          rw [if_neg (by omega)]

theorem gather?_start (b : Bytes) :
    gather? 0 0 b = if magnitude b < 2 ^ 64 then some (.ofNat (magnitude b)) else none := by
  have start : (0 : UInt64).toNat + 256 ^ 0 * magnitude b = magnitude b := by
    show 0 + 1 * magnitude b = magnitude b
    omega
  rw [gather?_eq b (by decide), start]

/-- A magnitude in range is the same number in a signed word, and so is its opposite. -/
theorem toInt_toInt64 {n : UInt64} (range : n.toNat ≤ maxMagnitude) :
    n.toInt64.toInt = n.toNat ∧ (-n.toInt64).toInt = -(n.toNat : Int) := by
  unfold maxMagnitude at range
  have own : (UInt64.ofNat n.toNat).toInt64.toInt = n.toNat :=
    Int64.toInt_ofNat_of_lt (by omega)
  rw [UInt64.ofNat_toNat] at own
  refine ⟨own, ?_⟩
  rw [Int64.toInt_neg, own]
  exact Int.bmod_eq_of_le (by omega) (by omega)

theorem toInt_magnitude {b : Bytes} (range : magnitude b ≤ maxMagnitude) :
    (if isNegative b then -(UInt64.ofNat (magnitude b)).toInt64
      else (UInt64.ofNat (magnitude b)).toInt64).toInt = value b := by
  have fits : magnitude b < 2 ^ 64 := Nat.lt_of_le_of_lt range (by decide)
  have back : (UInt64.ofNat (magnitude b)).toNat = magnitude b := UInt64.toNat_ofNat_of_lt' fits
  obtain ⟨own, opposite⟩ := toInt_toInt64 (by rwa [back])
  rw [value]
  split
  · rw [opposite, back]
  · rw [own, back]

/-- The word of a spelling is its number, if the magnitude is in range. -/
theorem word?_eq (b : Bytes) :
    (word? b).map Int64.toInt =
      if magnitude b > maxMagnitude then none else some (value b) := by
  unfold word?
  rw [gather?_start]
  by_cases fits : magnitude b < 2 ^ 64
  · have back : (UInt64.ofNat (magnitude b)).toNat = magnitude b := UInt64.toNat_ofNat_of_lt' fits
    simp only [if_pos fits, back]
    split
    · rfl
    · rename_i range
      rw [Option.map_some, toInt_magnitude (Nat.not_lt.1 range)]
  · have beyond : magnitude b > maxMagnitude := by
      unfold maxMagnitude
      omega
    rw [if_neg fits, if_pos beyond]
    rfl

theorem decode?_eq (b : Bytes) (limit : Nat) (minimal : Bool) :
    decode? b limit minimal =
      if b.length > limit then none
      else if minimal && !isMinimal b then none
      else (word? b).map Int64.toInt := by
  unfold decode? operandWord?
  split
  · rfl
  · split <;> rfl

/-- An operand is read from a spelling that is not too long, and the shortest if that is asked
for, with a magnitude in range. -/
theorem decode?_eq_some {b : Bytes} {limit : Nat} {minimal : Bool} {z : Int} :
    decode? b limit minimal = some z ↔
      b.length ≤ limit ∧ (minimal = true → isMinimal b = true) ∧ value b = z ∧
        z.natAbs ≤ maxMagnitude := by
  have size := natAbs_value b
  rw [decode?_eq, word?_eq]
  by_cases long : b.length > limit
  · simp [long, Nat.not_le.2 long]
  · by_cases redundant : (minimal && !isMinimal b) = true
    · have both : minimal = true ∧ isMinimal b = false := by simpa using redundant
      simp [long, both]
    · have spelled : minimal = true → isMinimal b = true := by simpa using redundant
      rw [if_neg long, if_neg redundant]
      by_cases range : magnitude b > maxMagnitude
      · rw [if_pos range]
        refine iff_of_false (by simp) ?_
        rintro ⟨_, _, rfl, small⟩
        omega
      · rw [if_neg range, Option.some.injEq]
        constructor
        · rintro rfl
          exact ⟨Nat.not_lt.1 long, spelled, rfl, by omega⟩
        · exact fun h => h.2.2.1

end ScriptNumber

/-- The integer made of the eight bytes of a magnitude is the word itself. -/
theorem Decimal.ofInt64_eq (v : Int64) : ofInt64 v = v.toInt := by
  have fits : (ScriptNumber.wordMagnitude v).toNat < 256 ^ 8 := UInt64.toNat_lt _
  have magnitude := Bytes.ofBigEndian_bigEndian fits
  unfold ofInt64
  rw [ScriptNumber.toNat_wordMagnitude] at magnitude ⊢
  simp only [magnitude]
  split
  · rename_i negative
    have negative : v.toInt < 0 := by simpa [Int64.lt_iff_toInt_lt] using negative
    omega
  · rename_i positive
    have positive : ¬ v.toInt < 0 := by simpa [Int64.lt_iff_toInt_lt] using positive
    omega

namespace ScriptNumber

/-- Spelling words and reading operands are inverse to each other. Every word, the least one
included, has the shortest spelling of the integer that it is; every word but the least one is
read back from its spelling; an operand is read from the spelling of its word and from nothing
else; and if redundant spellings are allowed, it is read from all its spellings up to the length
that is allowed. -/
theorem decode?_inverse_encodeWord (v : Int64) (z : Int) (b : Bytes) (limit : Nat) :
    (isMinimal (encodeWord v) = true ∧ value (encodeWord v) = v.toInt ∧
        encodeWord v = encode (Decimal.ofInt64 v)) ∧
      (v.toInt.natAbs ≤ 2 ^ 63 - 1 → decode? (encodeWord v) maxLength true = some v.toInt) ∧
      (decode? b maxLength true = some z ↔
        z.natAbs ≤ 2 ^ 63 - 1 ∧ b = encodeWord (.ofInt z)) ∧
      (decode? b limit false = some z ↔
        b.length ≤ limit ∧ value b = z ∧ z.natAbs ≤ 2 ^ 63 - 1) := by
  have largest : maxMagnitude = 2 ^ 63 - 1 := rfl
  have short : ∀ {z : Int}, z.natAbs ≤ maxMagnitude → (encode z).length ≤ maxLength :=
    fun range => length_encode_le (k := 7) (Nat.lt_of_le_of_lt range (by decide))
  have shortest : decode? b maxLength true = some z ↔
      z.natAbs ≤ maxMagnitude ∧ b = encodeWord (.ofInt z) := by
    rw [decode?_eq_some]
    constructor
    · rintro ⟨_, minimal, number, range⟩
      rw [encodeWord_ofInt range]
      exact ⟨range, (encode_eq_iff.2 ⟨number, minimal rfl⟩).symm⟩
    · rintro ⟨range, rfl⟩
      rw [encodeWord_ofInt range]
      exact ⟨short range, fun _ => isMinimal_encode z, value_encode z, range⟩
  rw [← largest]
  refine ⟨?_, fun range => ?_, shortest, ?_⟩
  · rw [encodeWord_eq, Decimal.ofInt64_eq]
    exact ⟨isMinimal_encode _, value_encode _, rfl⟩
  · rw [encodeWord_eq, decode?_eq_some]
    exact ⟨short range, fun _ => isMinimal_encode _, value_encode _, range⟩
  · rw [decode?_eq_some]
    simp

/-- The least word that is read back from its spelling, and a spelling of it with a ninth byte. -/
theorem decode?_inverse_encodeWord_of_least :
    let v : Int64 := .minValue + 1
    let b : Bytes := [0xff, 0xff, 0xff, 0xff, 0xff, 0xff, 0xff, 0x7f, 0x80]
    v.toInt.natAbs ≤ 2 ^ 63 - 1 ∧ decode? (encodeWord v) maxLength true = some v.toInt ∧
      decode? b 9 false = some (-0x7fffffffffffffff) := by
  intro v b
  have range : v.toInt.natAbs ≤ 2 ^ 63 - 1 := by decide
  obtain ⟨_, read, _, loose⟩ := decode?_inverse_encodeWord v (-0x7fffffffffffffff) b 9
  exact ⟨range, read range, loose.2 ⟨by decide, by decide, by decide⟩⟩

end ScriptNumber

namespace Decimal

/-- An integer is an operand if its magnitude is one. The bytes that are counted first only keep
out what the range would keep out. -/
theorem operand?_eq_some {z v : Int} :
    operand? z = some v ↔ v = z ∧ z.natAbs ≤ ScriptNumber.maxMagnitude := by
  have largest : ScriptNumber.maxMagnitude = 2 ^ 63 - 1 := rfl
  unfold operand?
  split
  · rename_i short
    have spelled := ScriptNumber.length_encode_le (z := z) (k := 8)
      (Nat.lt_of_lt_of_le short (by decide))
    rw [ScriptNumber.decode?_eq_some, ScriptNumber.value_encode]
    constructor
    · rintro ⟨_, _, rfl, range⟩
      exact ⟨rfl, range⟩
    · rintro ⟨rfl, range⟩
      exact ⟨spelled, by simp, rfl, range⟩
  · rename_i long
    refine iff_of_false (by simp) ?_
    rintro ⟨_, range⟩
    omega

/-- Integers are operands if they are 64-bit integers, all but the least of these: its magnitude
is out of the range of script numbers, by way of which operands are made. So every word is got
back from the integer that it is, but the least one. -/
theorem operand?_eq_some_iff_fits (z v : Int) (w : Int64) :
    (operand? z = some v ↔ (-2 ^ 63 ≤ z ∧ z ≤ 2 ^ 63 - 1) ∧ z ≠ -2 ^ 63 ∧ v = z) ∧
      (operand? (ofInt64 w) = some w.toInt ↔ w ≠ .minValue) := by
  have largest : ScriptNumber.maxMagnitude = 2 ^ 63 - 1 := rfl
  have lower := w.le_toInt
  have upper := w.toInt_lt
  have least : w ≠ .minValue ↔ w.toInt ≠ -2 ^ 63 := not_congr Int64.toInt_inj.symm
  rw [operand?_eq_some, operand?_eq_some, ofInt64_eq, least, largest]
  omega

/-- The least word is the least integer that fits, and not an operand. -/
theorem operand?_least :
    ofInt64 .minValue = -2 ^ 63 ∧ Int64.minValue.toInt = -2 ^ 63 ∧
      operand? (-2 ^ 63) = none := by
  refine ⟨ofInt64_eq .minValue, rfl, Option.eq_none_iff_forall_ne_some.2 ?_⟩
  intro v some
  exact absurd (operand?_eq_some.1 some).2 (by decide)

end Decimal

end AuthScript
