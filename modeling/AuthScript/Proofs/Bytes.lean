import AuthScript.Bytes
import Mathlib.Algebra.Group.Nat.Defs

/-!
# Numbers as bytes

A number below `256 ^ width` is read back from its `width` bytes, and any bytes spell
such a number, so bytes of one width and these numbers correspond. Most significant byte first,
leading zero bytes come and go with the width, and nothing else does (`dropWhile_bigEndian`).
-/

namespace AuthScript

namespace Bytes

theorem ofLittleEndian_littleEndian {width n : Nat} (h : n < 256 ^ width) :
    ofLittleEndian (littleEndian width n) = n := by
  induction width generalizing n with
  | zero =>
      rw [littleEndian_zero, ofLittleEndian_nil]
      exact (Nat.lt_one_iff.1 h).symm
  | succ width ih =>
      have hhigh : n / 256 < 256 ^ width := by
        rw [Nat.pow_succ] at h
        exact Nat.div_lt_of_lt_mul (by rwa [Nat.mul_comm])
      have hlow : (n % 256).toUInt8.toNat = n % 256 := by simp
      rw [littleEndian_succ, ofLittleEndian_cons, ih hhigh, hlow]
      exact Nat.mod_add_div n 256

theorem ofLittleEndian_append (b c : Bytes) :
    ofLittleEndian (b ++ c) = ofLittleEndian b + 256 ^ b.length * ofLittleEndian c := by
  induction b with
  | nil => simp
  | cons d b ih =>
      rw [List.cons_append, ofLittleEndian_cons, ofLittleEndian_cons, ih, List.length_cons,
        Nat.pow_succ', Nat.mul_add, Nat.mul_assoc, Nat.add_assoc]

theorem ofLittleEndian_replicate_zero (n : Nat) : ofLittleEndian (List.replicate n 0) = 0 := by
  induction n with
  | zero => rfl
  | succ n ih => simp [List.replicate_succ, ih]

theorem ofLittleEndian_lt (b : Bytes) : ofLittleEndian b < 256 ^ b.length := by
  induction b with
  | nil => exact Nat.one_pos
  | cons c b ih =>
      have hc : c.toNat < 256 := c.toNat_lt
      rw [ofLittleEndian_cons, List.length_cons, Nat.pow_succ]
      omega

theorem ofBigEndian_reverse (b : Bytes) : ofBigEndian b.reverse = ofLittleEndian b := by
  rw [ofBigEndian, List.foldl_reverse, ofLittleEndian]
  exact congrArg (fun f => List.foldr f 0 b) (funext fun c => funext fun n => Nat.add_comm _ _)

theorem ofBigEndian_bigEndian {width n : Nat} (h : n < 256 ^ width) :
    ofBigEndian (bigEndian width n) = n := by
  rw [bigEndian, ofBigEndian_reverse, ofLittleEndian_littleEndian h]

theorem littleEndian_ofLittleEndian (b : Bytes) :
    littleEndian b.length (ofLittleEndian b) = b := by
  induction b with
  | nil => rfl
  | cons c b ih =>
      have hc : c.toNat < 256 := c.toNat_lt
      have hlow : (c.toNat + 256 * ofLittleEndian b) % 256 = c.toNat := by omega
      have hhigh : (c.toNat + 256 * ofLittleEndian b) / 256 = ofLittleEndian b := by omega
      rw [List.length_cons, ofLittleEndian_cons, littleEndian_succ, hlow, hhigh, ih]
      simp

/-- Numbers that fit are told apart by their bytes. -/
theorem littleEndian_inj {width n m : Nat} (hn : n < 256 ^ width) (hm : m < 256 ^ width) :
    littleEndian width n = littleEndian width m ↔ n = m := by
  constructor
  · intro h
    have hread := congrArg ofLittleEndian h
    rwa [ofLittleEndian_littleEndian hn, ofLittleEndian_littleEndian hm] at hread
  · rintro rfl
    rfl

/-! ## Most significant byte first -/

theorem ofBigEndian_eq (b : Bytes) : ofBigEndian b = ofLittleEndian b.reverse := by
  rw [← ofBigEndian_reverse, List.reverse_reverse]

theorem ofBigEndian_cons (c : UInt8) (b : Bytes) :
    ofBigEndian (c :: b) = 256 ^ b.length * c.toNat + ofBigEndian b := by
  rw [ofBigEndian_eq, List.reverse_cons, ofLittleEndian_append, List.length_reverse,
    ← ofBigEndian_eq, ofLittleEndian_cons, ofLittleEndian_nil, Nat.mul_zero, Nat.add_zero,
    Nat.add_comm]

theorem ofBigEndian_zero_cons (b : Bytes) : ofBigEndian (0 :: b) = ofBigEndian b := rfl

theorem ofBigEndian_lt (b : Bytes) : ofBigEndian b < 256 ^ b.length := by
  rw [ofBigEndian_eq, ← List.length_reverse]
  exact ofLittleEndian_lt b.reverse

theorem bigEndian_ofBigEndian (b : Bytes) : bigEndian b.length (ofBigEndian b) = b := by
  rw [bigEndian, ofBigEndian_eq, ← List.length_reverse, littleEndian_ofLittleEndian,
    List.reverse_reverse]

theorem ofBigEndian_zeros_append (n : Nat) (b : Bytes) :
    ofBigEndian (List.replicate n 0 ++ b) = ofBigEndian b := by
  rw [ofBigEndian_eq, List.reverse_append, List.reverse_replicate, ofLittleEndian_append,
    ofLittleEndian_replicate_zero, Nat.mul_zero, Nat.add_zero, ← ofBigEndian_eq]

theorem dropWhile_replicate_zero (n : Nat) (b : Bytes) :
    (List.replicate n 0 ++ b).dropWhile (· = 0) = b.dropWhile (· = 0) := by
  induction n with
  | zero => rfl
  | succ n ih => simp [List.replicate_succ, ih]

theorem takeWhile_zero (b : Bytes) :
    b.takeWhile (· = 0) = List.replicate (b.takeWhile (· = 0)).length 0 :=
  List.eq_replicate_of_mem fun c hc => by simpa using List.all_eq_true.1 List.all_takeWhile c hc

theorem ne_zero_of_dropWhile {b rest : Bytes} {c : UInt8} (h : b.dropWhile (· = 0) = c :: rest) :
    c ≠ 0 := by
  have head := List.head_dropWhile_not (l := b) (fun c : UInt8 => decide (c = 0))
    (by rw [h]; exact List.cons_ne_nil _ _)
  simpa only [h, List.head_cons, decide_eq_false_iff_not] using head

/-- Leading zero bytes do not change the number. -/
theorem ofBigEndian_dropWhile_zero (b : Bytes) :
    ofBigEndian (b.dropWhile (· = 0)) = ofBigEndian b := by
  have split := List.takeWhile_append_dropWhile (p := fun c : UInt8 => decide (c = 0)) (l := b)
  rw [takeWhile_zero] at split
  calc ofBigEndian (b.dropWhile (· = 0))
      = ofBigEndian (List.replicate (b.takeWhile (· = 0)).length 0 ++ b.dropWhile (· = 0)) :=
        (ofBigEndian_zeros_append _ _).symm
    _ = ofBigEndian b := congrArg ofBigEndian split

theorem length_dropWhile_bigEndian_le (width n : Nat) :
    ((bigEndian width n).dropWhile (· = 0)).length ≤ width := by
  have suffix := (List.dropWhile_suffix (l := bigEndian width n) (· = 0)).length_le
  rwa [length_bigEndian] at suffix

/-- Bytes without a leading zero byte are what is left of a field of any width that holds their
number. -/
theorem dropWhile_bigEndian {width : Nat} {b : Bytes} (fits : b.length ≤ width)
    (leading : b.head? ≠ some 0) : (bigEndian width (ofBigEndian b)).dropWhile (· = 0) = b := by
  have field : bigEndian width (ofBigEndian b) = List.replicate (width - b.length) 0 ++ b := by
    have wide : (List.replicate (width - b.length) 0 ++ b : Bytes).length = width := by
      rw [List.length_append, List.length_replicate, Nat.sub_add_cancel fits]
    have read := bigEndian_ofBigEndian (List.replicate (width - b.length) 0 ++ b)
    rwa [wide, ofBigEndian_zeros_append] at read
  rw [field, dropWhile_replicate_zero]
  cases b with
  | nil => rfl
  | cons c rest =>
      have other : c ≠ 0 := fun zero => leading (congrArg some zero)
      exact List.dropWhile_cons_of_neg (by simpa using other)

end Bytes

end AuthScript
