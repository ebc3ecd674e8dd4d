import AuthScript.Curve.Key
import AuthScript.Proofs.Bytes

/-!
# The shape of signatures

Whatever the two numbers of a signature are, its DER form has the shape that the machine asks
for (`isShaped_encode`): an integer takes one to 33 bytes, so all lengths fit in one byte and
add up to at most 72. A compressed public key for which some signature holds is one that
scripts may use (`isPublicKey_of_verify`).
-/

namespace AuthScript

namespace Curve

namespace Signature

/-- Two non-empty integers whose lengths add up have the shape of a signature, whatever their
bytes are. -/
theorem isShaped_of_integers {r s : Bytes} (someR : r ≠ []) (someS : s ≠ [])
    (short : r.length + s.length ≤ 66) :
    isShaped (0x30 :: (r.length + s.length + 4).toUInt8 :: 0x02 :: r.length.toUInt8 ::
      (r ++ 0x02 :: s.length.toUInt8 :: s)) = true := by
  have lowerR : 0 < r.length := List.length_pos_iff.2 someR
  have lowerS : 0 < s.length := List.length_pos_iff.2 someS
  have byte : ∀ n : Nat, n < 256 → n.toUInt8.toNat = n := fun n h => UInt8.toNat_ofNat_of_lt' h
  generalize hb : 0x30 :: (r.length + s.length + 4).toUInt8 :: 0x02 :: r.length.toUInt8 ::
    (r ++ 0x02 :: s.length.toUInt8 :: s) = b
  -- the mark and the length of the second integer stand behind the first one
  have behind : ∀ n, b.getD (r.length + n + 4) 0 =
      (0x02 :: s.length.toUInt8 :: s : Bytes).getD n 0 := by
    intro n
    rw [← hb]
    simp only [List.getD_eq_getElem?_getD, List.getElem?_cons_succ]
    rw [List.getElem?_append_right (Nat.le_add_right _ _), Nat.add_sub_cancel_left]
  have length : b.length = r.length + s.length + 6 := by
    rw [← hb]
    simp only [List.length_cons, List.length_append]
    omega
  have first : b.getD 0 0 = 0x30 := by rw [← hb, List.getD_cons_zero]
  have inner : (b.getD 1 0).toNat = r.length + s.length + 4 := by
    rw [← hb]
    exact byte _ (by omega)
  have markR : b.getD 2 0 = 0x02 := by rw [← hb]; rfl
  have lenR : (b.getD 3 0).toNat = r.length := by
    rw [← hb]
    exact byte _ (by omega)
  have markS : b.getD (4 + r.length) 0 = 0x02 := by
    rw [Nat.add_comm]
    exact behind 0
  have lenS : (b.getD (5 + r.length) 0).toNat = s.length := by
    have place : 5 + r.length = r.length + 1 + 4 := by omega
    rw [place, behind 1]
    exact byte _ (by omega)
  unfold isShaped
  simp only [lenR, first, inner, markR, markS, lenS, length, Bool.and_eq_true, decide_eq_true_eq,
    beq_iff_eq, bne_iff_ne, and_true]
  omega

theorem length_integerBody (n : Nat) :
    1 ≤ (integerBody n).length ∧ (integerBody n).length ≤ 33 := by
  have short := Bytes.length_dropWhile_bigEndian_le 32 n
  unfold integerBody
  split
  · simp
  · rename_i b rest hbody
    rw [hbody, List.length_cons] at short
    split <;> simp only [List.length_cons] <;> omega

/-- A signature in DER, byte for byte. -/
theorem encode_eq (sig : Signature) :
    sig.encode = 0x30 :: ((integerBody sig.r).length + (integerBody sig.s).length + 4).toUInt8 ::
      0x02 :: (integerBody sig.r).length.toUInt8 :: (integerBody sig.r ++
        0x02 :: (integerBody sig.s).length.toUInt8 :: integerBody sig.s) := by
  have length : (encodeInteger sig.r ++ encodeInteger sig.s).length =
      (integerBody sig.r).length + (integerBody sig.s).length + 4 := by
    simp only [encodeInteger, List.length_append, List.length_cons]
    omega
  rw [encode]
  simp only [length]
  rfl

/-- A signature in DER has eight to 72 bytes. -/
theorem length_encode (sig : Signature) : 8 ≤ sig.encode.length ∧ sig.encode.length ≤ 72 := by
  obtain ⟨lowerR, upperR⟩ := length_integerBody sig.r
  obtain ⟨lowerS, upperS⟩ := length_integerBody sig.s
  rw [encode_eq]
  simp only [List.length_cons, List.length_append]
  omega

/-- A signature in DER has the shape of one. -/
theorem isShaped_encode (sig : Signature) : isShaped sig.encode = true := by
  obtain ⟨lowerR, upperR⟩ := length_integerBody sig.r
  obtain ⟨lowerS, upperS⟩ := length_integerBody sig.s
  rw [encode_eq]
  refine isShaped_of_integers ?_ ?_ (by omega)
  · exact List.ne_nil_of_length_pos lowerR
  · exact List.ne_nil_of_length_pos lowerS

end Signature

/-- The distance of the order from a number in its upper half is in its lower half. -/
theorem order_sub_le_halfOrder {s : Nat} (h : halfOrder < s) : order - s ≤ halfOrder := by
  have odd : order = 2 * halfOrder + 1 := by decide
  omega

/-- A compressed public key for which a signature holds is one that scripts may use. -/
theorem isPublicKey_of_verify {publicKey digest signature : Bytes} (length : publicKey.length = 33)
    (h : verify publicKey digest signature = true) : Point.isPublicKey publicKey = true := by
  have decoded : (Point.decode? publicKey).isSome = true := by
    unfold verify at h
    split at h
    · rename_i hq _
      rw [hq]
      rfl
    · cases h
  unfold Point.isPublicKey
  cases hform : Point.form? publicKey with
  | none => simp [Point.decode?, hform] at decoded
  | some form =>
      cases form with
      | compressed odd => exact decoded
      | uncompressed => exact decoded
      | hybrid odd =>
          -- a hybrid has 65 bytes
          unfold Point.form? at hform
          rw [length] at hform
          split at hform <;> simp_all

end Curve

end AuthScript
