import AuthScript.Number.Script
import AuthScript.Proofs.Bytes
import Mathlib.Data.Nat.Bitwise

/-!
# Shortest script numbers

A spelling ends in a byte with the sign and the top of the magnitude, so its sign and its
magnitude are read from the end, and each further byte in front makes the magnitude 256 times
larger. A spelling is the shortest if its last byte has more than the sign, or the byte before
has its own top bit. Then its magnitude has no room in one byte less, so the bytes can be taken
off the magnitude again: `encode` gives the one shortest spelling of every integer
(`encode_eq_iff`).
-/

namespace AuthScript

namespace ScriptNumber

/-! ## Single bytes -/

theorem toNat_or_sign {m : Nat} (h : m < 128) (negative : Bool) :
    (m.toUInt8 ||| if negative then 0x80 else 0).toNat = if negative then m + 128 else m := by
  have small : m % 256 = m := Nat.mod_eq_of_lt (by omega)
  cases negative with
  | true =>
      have sum := Nat.two_pow_add_eq_or_of_lt (show m < 2 ^ 7 from h) 1
      have top : (0x80 : UInt8).toNat = 2 ^ 7 * 1 := rfl
      rw [if_pos rfl, if_pos rfl, UInt8.toNat_or, top, Nat.or_comm, Nat.toUInt8_eq,
        UInt8.toNat_ofNat', small, ← sum]
      omega
  | false => simp [small]

/-- The bits of a byte below the sign. -/
theorem toNat_and_low (b : UInt8) : (b &&& 0x7f).toNat = b.toNat % 128 := by
  rw [UInt8.toNat_and]
  exact Nat.and_two_pow_sub_one_eq_mod b.toNat 7

/-- The sign of a byte. -/
theorem toNat_and_high (b : UInt8) : (b &&& 0x80).toNat = if 128 ≤ b.toNat then 128 else 0 := by
  have bound : b.toNat < 256 := b.toNat_lt
  have bit : b.toNat.testBit 7 = decide (128 ≤ b.toNat) := by
    rw [Nat.testBit_eq_decide_div_mod_eq]
    refine decide_eq_decide.2 ?_
    omega
  have high : (b &&& 0x80).toNat = b.toNat &&& 2 ^ 7 := UInt8.toNat_and b 0x80
  rw [high, Nat.and_two_pow, bit]
  by_cases top : 128 ≤ b.toNat <;> simp [top]

/-- A byte carries more than the sign. -/
theorem and_low_eq (b : UInt8) : (b &&& 0x7f != 0) = decide (b.toNat % 128 ≠ 0) := by
  have zero : b &&& 0x7f = 0 ↔ b.toNat % 128 = 0 := by
    rw [← UInt8.toNat_inj, toNat_and_low]
    rfl
  simp [bne, beq_eq_decide, zero]

/-- A byte has its top bit set. -/
theorem and_high_eq (b : UInt8) : (b &&& 0x80 != 0) = decide (128 ≤ b.toNat) := by
  rw [bne, beq_eq_decide, ← decide_not, decide_eq_decide, ← UInt8.toNat_inj, toNat_and_high]
  by_cases top : 128 ≤ b.toNat <;> simp [top]

/-! ## Spellings with one byte more -/

theorem natAbs_value (b : Bytes) : (value b).natAbs = magnitude b := by
  unfold value
  split <;> omega

theorem isNegative_singleton (b : UInt8) : isNegative [b] = decide (128 ≤ b.toNat) := by
  simp [isNegative, UInt8.le_iff_toNat_le]

theorem isNegative_cons_cons (b c : UInt8) (rest : Bytes) :
    isNegative (b :: c :: rest) = isNegative (c :: rest) := by
  rw [isNegative, List.getLast?_cons_cons, isNegative]

theorem isMinimal_singleton (b : UInt8) : isMinimal [b] = decide (b.toNat % 128 ≠ 0) :=
  and_low_eq b

theorem isMinimal_pair (b c : UInt8) :
    isMinimal [b, c] = (decide (c.toNat % 128 ≠ 0) || decide (128 ≤ b.toNat)) := by
  rw [← and_low_eq, ← and_high_eq]
  rfl

theorem isMinimal_cons (b c d : UInt8) (rest : Bytes) :
    isMinimal (b :: c :: d :: rest) = isMinimal (c :: d :: rest) := by
  obtain ⟨top, below, others, hreverse⟩ : ∃ top below others,
      (c :: d :: rest).reverse = top :: below :: others := by
    have length : 2 ≤ (c :: d :: rest).reverse.length := by simp
    match (c :: d :: rest).reverse, length with
    | top :: below :: others, _ => exact ⟨top, below, others, rfl⟩
  rw [isMinimal, isMinimal, List.reverse_cons, hreverse]
  rfl

/-! ## Spellings from their end -/

/-- The last byte has the sign and the seven highest bits of the magnitude. -/
theorem magnitude_append (low : Bytes) (top : UInt8) :
    magnitude (low ++ [top]) =
      Bytes.ofLittleEndian low + 256 ^ low.length * (top.toNat % 128) := by
  induction low with
  | nil => simp
  | cons b low ih =>
      obtain ⟨c, rest, hrest⟩ := List.exists_cons_of_ne_nil
        (List.append_ne_nil_of_right_ne_nil low (List.cons_ne_nil top []))
      rw [List.cons_append, hrest, magnitude_cons_cons, ← hrest, ih, Bytes.ofLittleEndian_cons,
        List.length_cons, Nat.pow_succ', Nat.mul_add, Nat.mul_assoc, Nat.add_assoc]

theorem isNegative_append (low : Bytes) (top : UInt8) :
    isNegative (low ++ [top]) = decide (128 ≤ top.toNat) := by
  rw [isNegative, List.getLast?_concat]
  exact decide_eq_decide.2 UInt8.le_iff_toNat_le

theorem isMinimal_append {top : UInt8} (low : Bytes) (full : top.toNat % 128 ≠ 0) :
    isMinimal (low ++ [top]) = true := by
  have carries : (top &&& 0x7f != 0) = true := by rw [and_low_eq, decide_eq_true full]
  have reversed : (low ++ [top]).reverse = top :: low.reverse := by simp
  rw [isMinimal, reversed]
  cases low.reverse with
  | nil => exact carries
  | cons below rest => exact Bool.or_eq_true_iff.2 (.inl carries)

theorem isMinimal_append_two {high : UInt8} (low : Bytes) (top : UInt8) (needs : 128 ≤ high.toNat) :
    isMinimal (low ++ [high, top]) = true := by
  have bit : (high &&& 0x80 != 0) = true := by rw [and_high_eq, decide_eq_true needs]
  have reversed : (low ++ [high, top]).reverse = top :: high :: low.reverse := by simp
  rw [isMinimal, reversed]
  exact Bool.or_eq_true_iff.2 (.inr bit)

/-! ## Encoding -/

theorem encodeMagnitude_of_lt {n : Nat} (h : n < 128) (negative : Bool) :
    encodeMagnitude negative n = [n.toUInt8 ||| if negative then 0x80 else 0] := by
  rw [encodeMagnitude, dif_pos h]

theorem encodeMagnitude_of_le {n : Nat} (h : 128 ≤ n) (negative : Bool) :
    encodeMagnitude negative n = (n % 256).toUInt8 :: encodeMagnitude negative (n / 256) := by
  rw [encodeMagnitude, dif_neg (Nat.not_lt.2 h)]

theorem encodeMagnitude_ne_nil (negative : Bool) (n : Nat) : encodeMagnitude negative n ≠ [] := by
  rw [encodeMagnitude]
  split
  · exact List.cons_ne_nil _ _
  · exact List.cons_ne_nil _ _

/-- What is encoded is read back, the sign and the magnitude. -/
theorem encodeMagnitude_read (negative : Bool) (n : Nat) :
    magnitude (encodeMagnitude negative n) = n ∧
      isNegative (encodeMagnitude negative n) = negative := by
  induction n using Nat.strongRecOn with
  | _ n ih =>
      rcases Nat.lt_or_ge n 128 with small | large
      · rw [encodeMagnitude_of_lt small, magnitude_singleton, isNegative_singleton,
          toNat_or_sign small]
        cases negative with
        | true =>
            simp only [if_true, decide_eq_true_eq]
            omega
        | false =>
            simp only [Bool.false_eq_true, if_false, decide_eq_false_iff_not]
            omega
      · obtain ⟨hmagnitude, hsign⟩ := ih (n / 256) (by omega)
        obtain ⟨c, rest, hrest⟩ := List.exists_cons_of_ne_nil
          (encodeMagnitude_ne_nil negative (n / 256))
        rw [encodeMagnitude_of_le large, hrest, magnitude_cons_cons, isNegative_cons_cons, ← hrest,
          hmagnitude, hsign]
        refine ⟨?_, rfl⟩
        simp only [Nat.toUInt8_eq, UInt8.toNat_ofNat']
        omega

/-- What is encoded is a shortest spelling. -/
theorem isMinimal_encodeMagnitude (negative : Bool) {n : Nat} (pos : 0 < n) :
    isMinimal (encodeMagnitude negative n) = true := by
  induction n using Nat.strongRecOn with
  | _ n ih =>
      have low : ∀ {m : Nat}, m < 128 →
          (m.toUInt8 ||| if negative then 0x80 else 0).toNat % 128 = m := by
        intro m h
        have read := (encodeMagnitude_read negative m).1
        rwa [encodeMagnitude_of_lt h, magnitude_singleton] at read
      rcases Nat.lt_or_ge n 128 with small | large
      · rw [encodeMagnitude_of_lt small, isMinimal_singleton, low small]
        exact decide_eq_true (by omega)
      · rw [encodeMagnitude_of_le large]
        rcases Nat.lt_or_ge (n / 256) 128 with last | more
        · -- two bytes: without anything in the last one, the first one needs its top bit
          rw [encodeMagnitude_of_lt last, isMinimal_pair, low last]
          simp only [Nat.toUInt8_eq, UInt8.toNat_ofNat', Bool.or_eq_true, decide_eq_true_eq]
          omega
        · have hmore := ih (n / 256) (by omega) (by omega)
          rw [encodeMagnitude_of_le more] at hmore ⊢
          obtain ⟨c, rest, hrest⟩ := List.exists_cons_of_ne_nil
            (encodeMagnitude_ne_nil negative (n / 256 / 256))
          rw [hrest] at hmore ⊢
          rw [isMinimal_cons]
          exact hmore

theorem value_encode (z : Int) : value (encode z) = z := by
  by_cases zero : z = 0
  · rw [zero]
    rfl
  · obtain ⟨hmagnitude, hsign⟩ := encodeMagnitude_read (z < 0) z.natAbs
    rw [encode, if_neg zero, value, hmagnitude, hsign]
    split
    · rename_i negative
      have negative : z < 0 := by simpa using negative
      omega
    · rename_i positive
      have positive : ¬ z < 0 := by simpa using positive
      omega

theorem isMinimal_encode (z : Int) : isMinimal (encode z) = true := by
  unfold encode
  split
  · rfl
  · exact isMinimal_encodeMagnitude _ (by omega)

/-! ## The shortest spelling is unique -/

/-- A shortest spelling of two or more bytes needs all of them. -/
theorem le_magnitude {b c : UInt8} {rest : Bytes} (minimal : isMinimal (b :: c :: rest) = true) :
    128 ≤ magnitude (b :: c :: rest) := by
  induction rest generalizing b c with
  | nil =>
      rw [isMinimal_pair] at minimal
      simp only [Bool.or_eq_true, decide_eq_true_eq] at minimal
      rw [magnitude_cons_cons, magnitude_singleton]
      omega
  | cons d rest ih =>
      rw [isMinimal_cons] at minimal
      have larger := ih minimal
      rw [magnitude_cons_cons]
      omega

/-- A spelling is encoded from its sign and magnitude, if it is a single byte or a shortest
one. -/
theorem encodeMagnitude_magnitude {b : UInt8} {rest : Bytes}
    (h : rest = [] ∨ isMinimal (b :: rest) = true) :
    encodeMagnitude (isNegative (b :: rest)) (magnitude (b :: rest)) = b :: rest := by
  induction rest generalizing b with
  | nil =>
      have small : b.toNat % 128 < 128 := Nat.mod_lt _ (by decide)
      have bound := b.toNat_lt
      rw [magnitude_singleton, isNegative_singleton, encodeMagnitude_of_lt small]
      refine congrArg (· :: []) (UInt8.toNat_inj.1 ?_)
      rw [toNat_or_sign small]
      simp only [decide_eq_true_eq]
      split <;> omega
  | cons c rest ih =>
      have minimal : isMinimal (b :: c :: rest) = true := h.resolve_left (List.cons_ne_nil _ _)
      have bound := b.toNat_lt
      have others : rest = [] ∨ isMinimal (c :: rest) = true := by
        cases rest with
        | nil => exact .inl rfl
        | cons d rest => exact .inr (isMinimal_cons b c d rest ▸ minimal)
      have front : magnitude (b :: c :: rest) % 256 = b.toNat ∧
          magnitude (b :: c :: rest) / 256 = magnitude (c :: rest) := by
        rw [magnitude_cons_cons]
        omega
      rw [encodeMagnitude_of_le (le_magnitude minimal), isNegative_cons_cons, front.1, front.2,
        ih others]
      simp

/-- There is exactly one shortest spelling of each integer. -/
theorem encode_eq_iff {z : Int} {b : Bytes} :
    encode z = b ↔ value b = z ∧ isMinimal b = true := by
  constructor
  · rintro rfl
    exact ⟨value_encode z, isMinimal_encode z⟩
  · rintro ⟨rfl, minimal⟩
    cases b with
    | nil => rfl
    | cons b rest =>
        have pos : 0 < magnitude (b :: rest) := by
          cases rest with
          | nil =>
              rw [isMinimal_singleton, decide_eq_true_eq] at minimal
              rw [magnitude_singleton]
              omega
          | cons c rest =>
              have larger := le_magnitude minimal
              omega
        have back := encodeMagnitude_magnitude (.inr minimal : rest = [] ∨ _)
        have parts : value (b :: rest) ≠ 0 ∧
            decide (value (b :: rest) < 0) = isNegative (b :: rest) ∧
              (value (b :: rest)).natAbs = magnitude (b :: rest) := by
          unfold value
          cases isNegative (b :: rest) with
          | true =>
              simp only [if_true, decide_eq_true_eq]
              omega
          | false =>
              simp only [Bool.false_eq_true, if_false, decide_eq_false_iff_not]
              omega
        rw [encode, if_neg parts.1, parts.2.1, parts.2.2, back]

/-! ## The length of numbers -/

theorem length_encodeMagnitude_le {n k : Nat} (negative : Bool) (h : n < 128 * 256 ^ k) :
    (encodeMagnitude negative n).length ≤ k + 1 := by
  induction k generalizing n with
  | zero => rw [encodeMagnitude_of_lt (by omega), List.length_singleton]
  | succ k ih =>
      rcases Nat.lt_or_ge n 128 with small | large
      · rw [encodeMagnitude_of_lt small, List.length_singleton]
        omega
      · rw [encodeMagnitude_of_le large, List.length_cons]
        refine Nat.succ_le_succ (ih (Nat.div_lt_of_lt_mul ?_))
        rw [Nat.pow_succ] at h
        omega

theorem length_encode_le {z : Int} {k : Nat} (h : z.natAbs < 128 * 256 ^ k) :
    (encode z).length ≤ k + 1 := by
  unfold encode
  split
  · exact Nat.zero_le _
  · exact length_encodeMagnitude_le _ h

theorem length_encodeMagnitude_le_self {n : Nat} (negative : Bool) (pos : 0 < n) :
    (encodeMagnitude negative n).length ≤ n := by
  induction n using Nat.strongRecOn with
  | _ n ih =>
      rcases Nat.lt_or_ge n 128 with small | large
      · rw [encodeMagnitude_of_lt small]
        exact pos
      · have shorter := ih (n / 256) (by omega)
        rw [encodeMagnitude_of_le large, List.length_cons]
        rcases Nat.eq_zero_or_pos (n / 256) with zero | more
        · rw [zero, encodeMagnitude_of_lt (by omega), List.length_singleton]
          omega
        · have := shorter more
          omega

/-- A count is spelled with no more bytes than it counts. -/
theorem length_encode_le_self (n : Nat) : (encode n).length ≤ n := by
  unfold encode
  split
  · exact Nat.zero_le _
  · exact length_encodeMagnitude_le_self _ (by omega)

end ScriptNumber

end AuthScript
