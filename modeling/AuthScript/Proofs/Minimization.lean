import AuthScript.Machine.Stack
import AuthScript.Proofs.ScriptNumber

/-!
# Minimal script numbers

`minimize` does not read the number: it looks for the last byte that is not zero below the byte
with the sign, and puts the sign into it or behind it. Every spelling has one of five shapes
(`Shape`), and in each of them the number stays the same and the result is a shortest spelling.
There is one such spelling of every integer, so `minimize` gives the one that `encode` gives, and
so do all predicates on spellings agree with it (`minimize_canonical`).
-/

namespace AuthScript

namespace ScriptNumber

/-- A number is zero exactly if its magnitude is. -/
theorem value_eq_zero {b : Bytes} : value b = 0 ↔ magnitude b = 0 := by
  rw [← natAbs_value, Int.natAbs_eq_zero]

/-! ## Shapes of spellings -/

/-- What a spelling looks like from its end: nothing; a last byte with more than the sign; the
sign alone above zero bytes; or the sign and zero bytes above a byte that is not zero, which has
its own top bit or has room for the sign. -/
inductive Shape : Bytes → Prop where
  | empty : Shape []
  | full (low : Bytes) (top : UInt8) (carries : top.toNat % 128 ≠ 0) : Shape (low ++ [top])
  | zero (n : Nat) (top : UInt8) (sign : top.toNat % 128 = 0) :
      Shape (List.replicate n 0 ++ [top])
  | needed (low : Bytes) (high : UInt8) (n : Nat) (top : UInt8) (sign : top.toNat % 128 = 0)
      (needs : 128 ≤ high.toNat) : Shape (low ++ high :: List.replicate n 0 ++ [top])
  | spare (low : Bytes) (high : UInt8) (n : Nat) (top : UInt8) (sign : top.toNat % 128 = 0)
      (some : high.toNat ≠ 0) (room : high.toNat < 128) :
      Shape (low ++ high :: List.replicate n 0 ++ [top])

theorem shape (b : Bytes) : Shape b := by
  obtain rfl | ⟨low, top, rfl⟩ := List.eq_nil_or_concat b
  · exact .empty
  · rw [List.concat_eq_append]
    by_cases sign : top.toNat % 128 = 0
    · -- the zero bytes below the sign, from its side
      have split : low = (low.reverse.dropWhile (· = 0)).reverse ++
          List.replicate (low.reverse.takeWhile (· = 0)).length 0 := by
        have both := congrArg List.reverse (List.takeWhile_append_dropWhile
          (p := fun c : UInt8 => decide (c = 0)) (l := low.reverse))
        rw [List.reverse_append, List.reverse_reverse, Bytes.takeWhile_zero, List.reverse_replicate]
          at both
        exact both.symm
      cases hdrop : low.reverse.dropWhile (· = 0) with
      | nil =>
          rw [hdrop] at split
          rw [split]
          exact .zero _ top sign
      | cons high rest =>
          have nonzero : high.toNat ≠ 0 :=
            fun none => Bytes.ne_zero_of_dropWhile hdrop (UInt8.toNat_inj.1 none)
          rw [hdrop, List.reverse_cons, List.append_assoc, List.singleton_append] at split
          rw [split]
          by_cases room : high.toNat < 128
          · exact .spare _ high _ top sign nonzero room
          · exact .needed _ high _ top sign (Nat.not_lt.1 room)
    · exact .full low top sign

/-! ## What minimizing does to each shape -/

section

variable {low : Bytes} {high top : UInt8} {n : Nat}

theorem minimize_full (carries : top.toNat % 128 ≠ 0) : minimize (low ++ [top]) = low ++ [top] := by
  have bits : (top &&& 0x7f != 0) = true := by rw [and_low_eq, decide_eq_true carries]
  have reversed : (low ++ [top]).reverse = top :: low.reverse := by simp
  unfold minimize
  rw [reversed]
  simp only [bits, if_true]

theorem bits_of_sign (sign : top.toNat % 128 = 0) : (top &&& 0x7f != 0) = false := by
  rw [and_low_eq, decide_eq_false (not_not_intro sign)]

theorem minimize_zero (sign : top.toNat % 128 = 0) :
    minimize (List.replicate n 0 ++ [top]) = [] := by
  have reversed : (List.replicate n 0 ++ [top]).reverse = top :: (List.replicate n 0 ++ []) := by
    simp
  unfold minimize
  rw [reversed]
  simp only [bits_of_sign sign, Bytes.dropWhile_replicate_zero, List.dropWhile_nil]
  rfl

/-- The bytes below a sign whose highest byte is not zero. -/
theorem dropWhile_below (some : high.toNat ≠ 0) :
    (List.replicate n 0 ++ high :: low.reverse).dropWhile (· = 0) = high :: low.reverse := by
  have other : high ≠ 0 := fun none => some (by rw [none]; rfl)
  rw [Bytes.dropWhile_replicate_zero, List.dropWhile_cons_of_neg (by simpa using other)]

theorem minimize_needed (sign : top.toNat % 128 = 0) (needs : 128 ≤ high.toNat) :
    minimize (low ++ high :: List.replicate n 0 ++ [top]) = low ++ [high, top] := by
  have bit : (high &&& 0x80 != 0) = true := by rw [and_high_eq, decide_eq_true needs]
  have reversed : (low ++ high :: List.replicate n 0 ++ [top]).reverse =
      top :: (List.replicate n 0 ++ high :: low.reverse) := by simp
  unfold minimize
  rw [reversed]
  simp only [bits_of_sign sign, dropWhile_below (by omega : high.toNat ≠ 0), bit, if_true]
  simp

theorem minimize_spare (sign : top.toNat % 128 = 0) (some : high.toNat ≠ 0)
    (room : high.toNat < 128) :
    minimize (low ++ high :: List.replicate n 0 ++ [top]) = low ++ [high ||| top] := by
  have bit : (high &&& 0x80 != 0) = false := by
    rw [and_high_eq, decide_eq_false (Nat.not_le.2 room)]
  have reversed : (low ++ high :: List.replicate n 0 ++ [top]).reverse =
      top :: (List.replicate n 0 ++ high :: low.reverse) := by simp
  unfold minimize
  rw [reversed]
  simp only [bits_of_sign sign, dropWhile_below some, bit]
  simp

/-- A byte that is only a sign. -/
theorem eq_sign (sign : top.toNat % 128 = 0) :
    top = if decide (128 ≤ top.toNat) then 0x80 else 0 := by
  have bound := top.toNat_lt
  refine UInt8.toNat_inj.1 ?_
  split
  · rename_i negative
    have negative : 128 ≤ top.toNat := by simpa using negative
    show top.toNat = 128
    omega
  · rename_i positive
    have positive : ¬ 128 ≤ top.toNat := by simpa using positive
    show top.toNat = 0
    omega

/-- The sign moves into the byte below, whose own bits stay. -/
theorem toNat_or_top (sign : top.toNat % 128 = 0) (room : high.toNat < 128) :
    (high ||| top).toNat % 128 = high.toNat ∧
      decide (128 ≤ (high ||| top).toNat) = decide (128 ≤ top.toNat) := by
  have own := toNat_or_sign room (decide (128 ≤ top.toNat))
  rw [Nat.toUInt8_eq, UInt8.ofNat_toNat, ← eq_sign sign] at own
  rw [own]
  refine ⟨?_, decide_eq_decide.2 ?_⟩
  · split <;> omega
  · by_cases negative : 128 ≤ top.toNat
    · simp [negative]
    · simp [negative, room]

end

/-! ## The number stays, and its spelling is the shortest -/

/-- What is read from the end of a spelling decides its number. -/
theorem value_congr {low low' : Bytes} {top top' : UInt8}
    (sign : decide (128 ≤ top.toNat) = decide (128 ≤ top'.toNat))
    (magnitude : Bytes.ofLittleEndian low + 256 ^ low.length * (top.toNat % 128) =
      Bytes.ofLittleEndian low' + 256 ^ low'.length * (top'.toNat % 128)) :
    value (low ++ [top]) = value (low' ++ [top']) := by
  rw [value, value, isNegative_append, isNegative_append, magnitude_append, magnitude_append, sign,
    magnitude]

theorem ofLittleEndian_zeros (low : Bytes) (high : UInt8) (n : Nat) :
    Bytes.ofLittleEndian (low ++ high :: List.replicate n 0) =
      Bytes.ofLittleEndian low + 256 ^ low.length * high.toNat := by
  rw [Bytes.ofLittleEndian_append, Bytes.ofLittleEndian_cons, Bytes.ofLittleEndian_replicate_zero]
  rfl

theorem value_minimize (b : Bytes) : value (minimize b) = value b := by
  cases shape b with
  | empty => rfl
  | full low top carries => rw [minimize_full carries]
  | zero n top sign =>
      rw [minimize_zero sign]
      refine (value_eq_zero.2 ?_).symm
      rw [magnitude_append, sign, Bytes.ofLittleEndian_replicate_zero, Nat.mul_zero]
  | needed low high n top sign needs =>
      have two : low ++ [high, top] = (low ++ [high]) ++ [top] := by simp
      rw [minimize_needed sign needs, two]
      refine value_congr rfl ?_
      rw [sign, Nat.mul_zero, Nat.mul_zero, ofLittleEndian_zeros]
      exact congrArg (· + 0) (ofLittleEndian_zeros low high 0)
  | spare low high n top sign some room =>
      obtain ⟨bits, same⟩ := toNat_or_top sign room
      rw [minimize_spare sign some room]
      refine value_congr same ?_
      rw [bits, sign, Nat.mul_zero, ofLittleEndian_zeros, Nat.add_zero]

theorem isMinimal_minimize (b : Bytes) : isMinimal (minimize b) = true := by
  cases shape b with
  | empty => rfl
  | full low top carries =>
      rw [minimize_full carries]
      exact isMinimal_append low carries
  | zero n top sign =>
      rw [minimize_zero sign]
      rfl
  | needed low high n top sign needs =>
      rw [minimize_needed sign needs]
      exact isMinimal_append_two low top needs
  | spare low high n top sign some room =>
      rw [minimize_spare sign some room]
      refine isMinimal_append low ?_
      rw [(toNat_or_top sign room).1]
      exact some

/-- Minimizing gives the shortest spelling of the number. -/
theorem minimize_eq_encode (b : Bytes) : minimize b = encode (value b) :=
  (encode_eq_iff.2 ⟨value_minimize b, isMinimal_minimize b⟩).symm

theorem encode_eq_nil {z : Int} : encode z = [] ↔ z = 0 := by
  rw [encode_eq_iff]
  constructor
  · rintro ⟨rfl, _⟩
    rfl
  · rintro rfl
    exact ⟨rfl, rfl⟩

end ScriptNumber

/-- An item counts as true if the number that it spells is not zero. -/
theorem Machine.isTrue_eq (b : Bytes) : isTrue b = decide (ScriptNumber.value b ≠ 0) := by
  rw [decide_eq_decide.2 (not_congr ScriptNumber.value_eq_zero)]
  have byte : ∀ c d : UInt8, decide (c ≠ d) = decide (c.toNat ≠ d.toNat) := fun c d =>
    decide_eq_decide.2 (not_congr UInt8.toNat_inj.symm)
  induction b with
  | nil => rfl
  | cons b rest ih =>
      have bound := b.toNat_lt
      cases rest with
      | nil =>
          rw [isTrue, byte, byte, ScriptNumber.magnitude_singleton, ← Bool.decide_and,
            decide_eq_decide]
          show b.toNat ≠ 0 ∧ b.toNat ≠ 128 ↔ b.toNat % 128 ≠ 0
          omega
      | cons c rest =>
          rw [isTrue, ih, byte, ScriptNumber.magnitude_cons_cons, ← Bool.decide_or,
            decide_eq_decide]
          show b.toNat ≠ 0 ∨ _ ↔ _
          omega

/-- Minimizing is the canonical form of script numbers: it gives the spelling that the number is
encoded to, the shortest spellings are those that it leaves as they are, a number has only one of
them, and an item counts as true if something is left of it. -/
theorem ScriptNumber.minimize_canonical (b c : Bytes) :
    minimize b = encode (value b) ∧
      (isMinimal b = true ↔ minimize b = b) ∧
      (isMinimal b = true → isMinimal c = true → value b = value c → b = c) ∧
      (Machine.isTrue b = true ↔ minimize b ≠ []) := by
  refine ⟨minimize_eq_encode b, ?_, ?_, ?_⟩
  · rw [minimize_eq_encode, encode_eq_iff]
    exact ⟨fun minimal => ⟨rfl, minimal⟩, And.right⟩
  · intro hb hc same
    exact (encode_eq_iff.2 ⟨rfl, hb⟩).symm.trans (encode_eq_iff.2 ⟨same.symm, hc⟩)
  · rw [Machine.isTrue_eq, minimize_eq_encode, decide_eq_true_eq]
    exact not_congr encode_eq_nil.symm

/-- Zero bytes between a sign and a byte that needs its own top bit. -/
theorem ScriptNumber.minimize_canonical_of_zeros :
    let b : Bytes := [0x05, 0x80, 0x00, 0x00, 0x80]
    let c : Bytes := [0x05, 0x80, 0x80]
    value b = -0x8005 ∧ isMinimal b = false ∧ minimize b = c ∧ c = encode (-0x8005) := by
  intro b c
  have same : minimize b = c := (minimize_canonical (minimize b) c).2.2.1 rfl rfl rfl
  exact ⟨rfl, rfl, same, same.symm.trans (minimize_canonical b c).1⟩

end AuthScript
