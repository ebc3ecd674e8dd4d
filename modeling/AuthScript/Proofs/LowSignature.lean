import AuthScript.Proofs.StrictDer

/-!
# Low signatures

`normalize` changes the bytes that read as a signature with a second number above half of the
order, and no others. What it puts there is the distance of that number from the order, also where
the number is above the order itself, as bytes may say; the distance is in the lower half whatever
the number is (`reflect_le_halfOrder`). So the result reads as a low signature, and there is
nothing to change in it (`normalize_canonical`). That is also what a key signs with, whatever it
is given as a signature (`Key.sign_eq_ok`).
-/

namespace AuthScript

namespace Curve

namespace Signature

theorem reflect_eq (s : Nat) : reflect s = ((order : Int) - s).natAbs := by
  unfold reflect
  split <;> omega

/-- The distance from the order is in the lower half for all numbers above it that fit into 32
bytes: the order is close to `2 ^ 256`. -/
theorem reflect_le_halfOrder {s : Nat} (high : halfOrder < s) (fits : s < 2 ^ 256) :
    reflect s ≤ halfOrder := by
  unfold reflect
  split
  · exact order_sub_le_halfOrder high
  · have close : 2 ^ 256 ≤ order + halfOrder := by decide
    omega

theorem halfOrder_lt : halfOrder < 2 ^ 256 := by decide

theorem normalize?_eq_some {b c : Bytes} :
    normalize? b = some c ↔
      ∃ sig, decode? b = some sig ∧ halfOrder < sig.s ∧ c = encode ⟨sig.r, reflect sig.s⟩ := by
  unfold normalize?
  cases decode? b with
  | none => simp
  | some sig =>
      simp only [isLow, decide_eq_true_eq, Option.some.injEq, exists_eq_left']
      split
      · rename_i low
        exact iff_of_false (by simp) fun changed => Nat.not_lt.2 low changed.1
      · rename_i high
        rw [Option.some.injEq, eq_comm]
        exact (and_iff_right (Nat.lt_of_not_le high)).symm

/-- Bytes that read as a low signature need no change. -/
theorem normalize?_of_low {b : Bytes} {sig : Signature} (decoded : decode? b = some sig)
    (low : sig.s ≤ halfOrder) : normalize? b = none := by
  rw [Option.eq_none_iff_forall_ne_some]
  intro c changed
  obtain ⟨other, again, high, _⟩ := normalize?_eq_some.1 changed
  obtain rfl := Option.some.inj (decoded.symm.trans again)
  exact Nat.not_lt.2 low high

/-- What bytes are changed to reads as a low signature. -/
theorem decode?_of_normalize? {b : Bytes} {sig : Signature} (decoded : decode? b = some sig)
    (high : halfOrder < sig.s) :
    decode? (encode ⟨sig.r, reflect sig.s⟩) = some ⟨sig.r, reflect sig.s⟩ := by
  obtain ⟨hr, hs⟩ := decode?_lt decoded
  exact decode?_encode hr (Nat.lt_of_le_of_lt (reflect_le_halfOrder high hs) halfOrder_lt)

/-- There is nothing left to change after normalizing. -/
theorem normalize?_normalize (b : Bytes) : normalize? (normalize b) = none := by
  unfold normalize
  cases change : normalize? b with
  | none => exact change
  | some c =>
      obtain ⟨sig, decoded, high, rfl⟩ := normalize?_eq_some.1 change
      exact normalize?_of_low (decode?_of_normalize? decoded high)
        (reflect_le_halfOrder high (decode?_lt decoded).2)

/-- What bytes that read as a signature are normalized to is the DER form of a low one with the
same first number. -/
theorem normalize_of_decode? {b : Bytes} {sig : Signature} (canonical : sig.encode = b)
    (decoded : decode? b = some sig) :
    ∃ low : Signature, low.r = sig.r ∧ low.isLow = true ∧ normalize b = low.encode := by
  unfold normalize
  by_cases high : halfOrder < sig.s
  · refine ⟨⟨sig.r, reflect sig.s⟩, rfl, ?_, ?_⟩
    · exact decide_eq_true (reflect_le_halfOrder high (decode?_lt decoded).2)
    · rw [normalize?_eq_some.2 ⟨sig, decoded, high, rfl⟩, Option.getD_some]
  · refine ⟨sig, rfl, decide_eq_true (Nat.not_lt.1 high), ?_⟩
    rw [normalize?_of_low decoded (Nat.not_lt.1 high), Option.getD_none, canonical]

/-- Bytes are changed exactly if they read as a signature with a second number above half of the
order; that number becomes its distance from the order, in the lower half, and the first number
stays. All other bytes stay as they are, and so do bytes that have been normalized. -/
theorem normalize_canonical (b : Bytes) :
    ((normalize? b).isSome = true ↔ ∃ sig, decode? b = some sig ∧ order / 2 < sig.s) ∧
    (∀ sig, decode? b = some sig → order / 2 < sig.s →
      let low : Signature := ⟨sig.r, ((order : Int) - sig.s).natAbs⟩
      low.s ≤ order / 2 ∧ normalize b = encode low ∧ decode? (normalize b) = some low) ∧
    ((normalize? b).isSome = false → normalize b = b) ∧
    normalize? (normalize b) = none ∧ normalize (normalize b) = normalize b := by
  have stays : ∀ c, normalize? c = none → normalize c = c := fun c same => by
    rw [normalize, same, Option.getD_none]
  refine ⟨?_, fun sig decoded high => ?_, fun same => ?_, normalize?_normalize b, ?_⟩
  · rw [Option.isSome_iff_exists]
    constructor
    · rintro ⟨c, change⟩
      obtain ⟨sig, decoded, high, _⟩ := normalize?_eq_some.1 change
      exact ⟨sig, decoded, high⟩
    · rintro ⟨sig, decoded, high⟩
      exact ⟨_, normalize?_eq_some.2 ⟨sig, decoded, high, rfl⟩⟩
  · have change : normalize b = encode ⟨sig.r, reflect sig.s⟩ := by
      rw [normalize, normalize?_eq_some.2 ⟨sig, decoded, high, rfl⟩, Option.getD_some]
    rw [change, ← reflect_eq]
    exact ⟨reflect_le_halfOrder high (decode?_lt decoded).2, rfl,
      decode?_of_normalize? decoded high⟩
  · exact stays b (Option.isSome_eq_false_iff.1 same |> Option.isNone_iff_eq_none.1)
  · exact stays _ (normalize?_normalize b)

/-- The greatest number is above the order. It stands here after a first number with a leading
zero byte too many, and before bytes that do not belong to the signature. -/
theorem normalize_canonical_of_greatest :
    let b : Bytes := 0x30 :: 0x27 :: 0x02 :: 0x02 :: 0x00 :: 0x01 :: 0x02 :: 0x21 :: 0x00 ::
      (List.replicate 32 0xff ++ [0xca, 0xfe])
    (decode? b = some ⟨1, 2 ^ 256 - 1⟩ ∧ order / 2 < 2 ^ 256 - 1) ∧
      normalize b = encode ⟨1, 2 ^ 256 - 1 - order⟩ ∧
      normalize? (normalize b) = none := by
  intro b
  have decoded : decode? b = some ⟨1, 2 ^ 256 - 1⟩ := by decide
  have high : order / 2 < 2 ^ 256 - 1 := by decide
  obtain ⟨_, changed, _, settled, _⟩ := normalize_canonical b
  have distance : ((order : Int) - (2 ^ 256 - 1 : Nat)).natAbs = 2 ^ 256 - 1 - order := by decide
  have result := (changed _ decoded high).2.1
  rw [distance] at result
  exact ⟨⟨decoded, high⟩, result, settled⟩

end Signature

/-- Whatever a signer gives, a key signs with the DER form of a low signature. -/
theorem Key.sign_eq_ok {signer : Signer} {key : Key} {digest b : Bytes}
    (h : (key.sign signer digest).value = .ok b) :
    ∃ sig : Signature, sig.isLow = true ∧ sig.encode = b := by
  cases key with
  | empty => cases h
  | scalar k pos lt =>
      cases made : signer.raw k digest with
      | error failure =>
          simp only [sign, made] at h
          cases h
      | ok der =>
          cases decoded : Signature.decode? der with
          | none =>
              simp only [sign, made, decoded] at h
              cases h
          | some sig =>
              simp only [sign, made, decoded] at h
              obtain rfl := Except.ok.inj h
              -- the numbers are written again before they are normalized
              obtain ⟨hr, hs⟩ := Signature.decode?_lt decoded
              obtain ⟨low, _, isLow, same⟩ :=
                Signature.normalize_of_decode? rfl (Signature.decode?_encode hr hs)
              exact ⟨low, isLow, same.symm⟩

end Curve

end AuthScript
