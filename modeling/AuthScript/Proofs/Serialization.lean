import AuthScript.Proofs.Bytes
import AuthScript.Signing.Serialization

/-!
# What a signing serialization commits to

The fields of a signing serialization have fixed widths, except for the bytecode of the
locking script and the length before it. A longer script never has a shorter length
field, so the width of the whole tells the length of the script, and serializations are
equal exactly if they are equal field by field.

This holds for any digest of 32 bytes in the place of the double SHA-256
(`serializeWith`). So a serialization commits to the fields of the transaction that its
algorithm covers (`Agree`), to the bytecode and to the algorithm, and to nothing else.
-/

namespace AuthScript

theorem Algorithm.hashType_inj {a b : Algorithm} : a.hashType = b.hashType ↔ a = b := by
  cases a <;> cases b <;> decide

namespace Signing

variable {digest : Bytes → Bytes} {x y : Transaction} {alg : Algorithm}

/-! ## Widths of the fields -/

@[simp] theorem length_word32 (n : UInt32) : (word32 n).length = 4 :=
  Bytes.length_littleEndian 4 n.toNat

@[simp] theorem length_word64 (n : UInt64) : (word64 n).length = 8 :=
  Bytes.length_littleEndian 8 n.toNat

theorem word32_inj {n m : UInt32} : word32 n = word32 m ↔ n = m := by
  rw [word32, word32, Bytes.littleEndian_inj n.toNat_lt m.toNat_lt, UInt32.toNat_inj]

theorem word64_inj {n m : UInt64} : word64 n = word64 m ↔ n = m := by
  rw [word64, word64, Bytes.littleEndian_inj n.toNat_lt m.toNat_lt, UInt64.toNat_inj]

/-- The field at the end tells the algorithm. -/
theorem hashTypeField_inj {a b : Algorithm} :
    Bytes.littleEndian 4 a.hashType.toNat = Bytes.littleEndian 4 b.hashType.toNat ↔ a = b := by
  have fits : ∀ n : UInt8, n.toNat < 256 ^ 4 := fun n => Nat.lt_trans n.toNat_lt (by decide)
  rw [Bytes.littleEndian_inj (fits _) (fits _), UInt8.toNat_inj, Algorithm.hashType_inj]

theorem length_compactSize (n : Nat) :
    (compactSize n).length =
      if n < 253 then 1 else if n ≤ 0xffff then 3 else if n ≤ 0xffffffff then 5 else 9 := by
  simp only [compactSize, apply_ite List.length, List.length_cons, Bytes.length_littleEndian]

/-- A greater number takes no fewer bytes. -/
theorem length_compactSize_mono {n m : Nat} (h : n ≤ m) :
    (compactSize n).length ≤ (compactSize m).length := by
  rw [length_compactSize, length_compactSize]
  grind

theorem length_outpointsDigest (width : ∀ b, (digest b).length = 32) (tx : Transaction)
    (alg : Algorithm) : (outpointsDigest digest tx alg).length = 32 := by
  unfold outpointsDigest
  split
  · exact width _
  · rfl

theorem length_sequenceNumbersDigest (width : ∀ b, (digest b).length = 32) (tx : Transaction)
    (alg : Algorithm) : (sequenceNumbersDigest digest tx alg).length = 32 := by
  unfold sequenceNumbersDigest
  split
  · exact width _
  · rfl

theorem length_outputsDigest (width : ∀ b, (digest b).length = 32) (tx : Transaction)
    (alg : Algorithm) : (outputsDigest digest tx alg).length = 32 := by
  unfold outputsDigest correspondingDigest
  cases alg.outputs with
  | all => exact width _
  | corresponding => cases tx.correspondingOutput <;> simp [width, zeroDigest]
  | none => rfl

/-! ## Equal serializations -/

/-- The width of a serialization tells the length of the bytecode in it. -/
theorem length_covered_eq (width : ∀ b, (digest b).length = 32)
    (hx : x.outpointHash.length = 32) (hy : y.outpointHash.length = 32) {p q : Bytes}
    {a b : Algorithm} (h : serializeWith digest x p a = serializeWith digest y q b) :
    p.length = q.length := by
  have whole := congrArg List.length h
  simp only [serializeWith, List.length_append, length_word32, length_word64,
    length_outpointsDigest width, length_sequenceNumbersDigest width, length_outputsDigest width,
    Bytes.length_littleEndian, hx, hy] at whole
  rcases Nat.le_total p.length q.length with shorter | longer
  · have prefixes := length_compactSize_mono shorter
    omega
  · have prefixes := length_compactSize_mono longer
    omega

/-- Serializations are equal exactly if they are equal field by field. -/
theorem serializeWith_eq_iff_fields (width : ∀ b, (digest b).length = 32)
    (hx : x.outpointHash.length = 32) (hy : y.outpointHash.length = 32) {p q : Bytes}
    {a b : Algorithm} :
    serializeWith digest x p a = serializeWith digest y q b ↔
      x.version = y.version ∧ outpointsDigest digest x a = outpointsDigest digest y b ∧
      sequenceNumbersDigest digest x a = sequenceNumbersDigest digest y b ∧
      x.outpointHash = y.outpointHash ∧ x.outpointIndex = y.outpointIndex ∧ p = q ∧
      x.outputValue = y.outputValue ∧ x.sequenceNumber = y.sequenceNumber ∧
      outputsDigest digest x a = outputsDigest digest y b ∧ x.locktime = y.locktime ∧ a = b := by
  constructor
  · intro h
    have hlength := length_covered_eq width hx hy h
    unfold serializeWith at h
    -- the last field first, since the fields are appended one after another
    obtain ⟨h, halg⟩ := List.append_inj' h (by simp)
    obtain ⟨h, hlocktime⟩ := List.append_inj' h (by simp)
    obtain ⟨h, houtputs⟩ := List.append_inj' h (by simp [length_outputsDigest width])
    obtain ⟨h, hsequence⟩ := List.append_inj' h (by simp)
    obtain ⟨h, hvalue⟩ := List.append_inj' h (by simp)
    obtain ⟨h, hcovered⟩ := List.append_inj' h hlength
    obtain ⟨h, _⟩ := List.append_inj' h (by rw [hlength])
    obtain ⟨h, hindex⟩ := List.append_inj' h (by simp)
    obtain ⟨h, hhash⟩ := List.append_inj' h (by rw [hx, hy])
    obtain ⟨h, hnumbers⟩ := List.append_inj' h (by simp [length_sequenceNumbersDigest width])
    obtain ⟨hversion, houtpoints⟩ := List.append_inj' h (by simp [length_outpointsDigest width])
    exact ⟨word32_inj.1 hversion, houtpoints, hnumbers, hhash, word32_inj.1 hindex, hcovered,
      word64_inj.1 hvalue, word32_inj.1 hsequence, houtputs, word32_inj.1 hlocktime,
      hashTypeField_inj.1 halg⟩
  · rintro ⟨hversion, houtpoints, hnumbers, hhash, hindex, rfl, hvalue, hsequence, houtputs,
      hlocktime, rfl⟩
    unfold serializeWith
    rw [hversion, houtpoints, hnumbers, hhash, hindex, hvalue, hsequence, houtputs, hlocktime]

/-! ## Fields that are covered -/

theorem outpointsDigest_eq_iff :
    outpointsDigest digest x alg = outpointsDigest digest y alg ↔
      (alg ∈ [.allOutputs, .correspondingOutput, .noOutputs] →
        digest x.outpoints = digest y.outpoints) := by
  simp only [outpointsDigest, Algorithm.coversOutpoints_iff]
  split <;> simp [*]

theorem sequenceNumbersDigest_eq_iff :
    sequenceNumbersDigest digest x alg = sequenceNumbersDigest digest y alg ↔
      (alg = .allOutputs → digest x.sequenceNumbers = digest y.sequenceNumbers) := by
  simp only [sequenceNumbersDigest, Algorithm.coversSequenceNumbers_iff]
  split <;> simp [*]

theorem outputsDigest_eq_iff :
    outputsDigest digest x alg = outputsDigest digest y alg ↔
      (alg ∈ [.allOutputs, .allOutputsSingleInput] → digest x.outputs = digest y.outputs) ∧
      (alg ∈ [.correspondingOutput, .correspondingOutputSingleInput] →
        correspondingDigest digest x = correspondingDigest digest y) := by
  cases alg <;> simp [outputsDigest, Algorithm.outputs_eq]

/-- Two transactions agree on all that an algorithm covers. -/
structure Agree (digest : Bytes → Bytes) (alg : Algorithm) (x y : Transaction) : Prop where
  version : x.version = y.version
  outpointHash : x.outpointHash = y.outpointHash
  outpointIndex : x.outpointIndex = y.outpointIndex
  outputValue : x.outputValue = y.outputValue
  sequenceNumber : x.sequenceNumber = y.sequenceNumber
  locktime : x.locktime = y.locktime
  /-- All inputs are covered, unless only a single one is. -/
  outpoints : alg ∈ [.allOutputs, .correspondingOutput, .noOutputs] →
    digest x.outpoints = digest y.outpoints
  sequenceNumbers : alg = .allOutputs → digest x.sequenceNumbers = digest y.sequenceNumbers
  outputs : alg ∈ [.allOutputs, .allOutputsSingleInput] → digest x.outputs = digest y.outputs
  correspondingOutput : alg ∈ [.correspondingOutput, .correspondingOutputSingleInput] →
    correspondingDigest digest x = correspondingDigest digest y

end Signing

end AuthScript
