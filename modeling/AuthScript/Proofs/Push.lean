import AuthScript.Bytecode.Literal
import AuthScript.Proofs.Instruction

/-!
# Minimal pushes

For every payload there is one instruction that pushes it in the fewest bytes: an opcode
of its own, or the payload after the shortest length that has room for it
(`Push.instruction`). The generator of bytecode writes this instruction
(`Push.encode?_eq_some`), and the machine accepts no other
(`Instruction.isMinimalPush_iff`). Whatever else pushes the payload has at least as many
bytes (`Push.length_encode_instruction_le`).
-/

namespace AuthScript

open Machine

/-! ## Small numbers -/

theorem ScriptNumber.encode_neg_one : encode (-1) = [0x81] := by
  rw [encode, if_neg (by decide), encodeMagnitude, dif_pos (by decide)]
  rfl

theorem ScriptNumber.encode_natCast {k : Nat} (pos : 0 < k) (h : k < 128) :
    encode k = [k.toUInt8] := by
  have hzero : (k : Int) ≠ 0 := by omega
  have hsign : ¬ (k : Int) < 0 := by omega
  rw [encode, if_neg hzero, Int.natAbs_natCast, encodeMagnitude, dif_pos h]
  simp [hsign]

/-- The numbers that have opcodes of their own. -/
def Opcode.IsSmall (n : Int) : Prop := n = -1 ∨ ∃ k : Nat, n = k ∧ 1 ≤ k ∧ k ≤ 16

theorem Opcode.smallNumber?_eq_some {op : UInt8} {n : Int} :
    smallNumber? op = some n ↔ IsSmall n ∧ op = ofSmallNumber n := by
  constructor
  · intro h
    unfold smallNumber? at h
    split at h
    · rename_i hop
      obtain rfl := Option.some.inj h
      exact ⟨.inl rfl, hop⟩
    · split at h
      · rename_i hop
        obtain rfl := Option.some.inj h
        have lower : 0x51 ≤ op.toNat := UInt8.le_iff_toNat_le.1 hop.1
        have upper : op.toNat ≤ 0x60 := UInt8.le_iff_toNat_le.1 hop.2
        have hsum : ((0x50 : Int) + ((op.toNat : Int) - 0x50)).toNat = op.toNat := by omega
        refine ⟨.inr ⟨op.toNat - 0x50, by omega, by omega, by omega⟩, ?_⟩
        rw [ofSmallNumber, if_neg (by omega), hsum]
        simp
      · cases h
  · rintro ⟨rfl | ⟨k, rfl, lower, upper⟩, rfl⟩
    · rfl
    · have all : ∀ k : Fin 17, 1 ≤ k.val → smallNumber? (ofSmallNumber k.val) = some k.val := by
        decide
      exact all ⟨k, Nat.lt_succ_of_le upper⟩ lower

theorem Opcode.toNat_ofSmallNumber {n : Int} (h : IsSmall n) :
    0x4e < (ofSmallNumber n).toNat ∧ (ofSmallNumber n).toNat ≤ 0x60 := by
  obtain rfl | ⟨k, rfl, lower, upper⟩ := h
  · decide
  · have all : ∀ k : Fin 17, 0x4e < (ofSmallNumber k.val).toNat ∧
        (ofSmallNumber k.val).toNat ≤ 0x60 := by decide
    exact all ⟨k, Nat.lt_succ_of_le upper⟩

/-- What an instruction pushes, if it is a push: its payload, or the number that its
opcode stands for. -/
def Machine.Instruction.pushed? (i : Instruction) : Option Bytes :=
  if i.opcode ≤ 0x4e then some i.payload
  else (Opcode.smallNumber? i.opcode).map ScriptNumber.encode

namespace Push

/-! ## The shortest push -/

/-- The opcode of a push that spells out its payload, by the length of the payload. -/
def lengthOpcode (length : Nat) : UInt8 :=
  if length ≤ 75 then length.toUInt8
  else if length ≤ 0xff then 0x4c
  else if length ≤ 0xffff then 0x4d
  else 0x4e

/-- The shortest instruction that pushes a payload. -/
def instruction (payload : Bytes) : Instruction :=
  match smallOpcode? payload with
  | some op => ⟨op, []⟩
  | none => ⟨lengthOpcode payload.length, payload⟩

/-- One byte has an opcode of its own if it spells a small number. -/
theorem smallOpcode?_eq_some {payload : Bytes} {op : UInt8} :
    smallOpcode? payload = some op ↔
      (payload = [] ∧ op = 0) ∨
        ∃ n, Opcode.IsSmall n ∧ op = Opcode.ofSmallNumber n ∧ payload = ScriptNumber.encode n := by
  constructor
  · intro h
    unfold smallOpcode? at h
    split at h
    · exact .inl ⟨rfl, (Option.some.inj h).symm⟩
    · rename_i b
      split at h
      · rename_i hb
        refine .inr ⟨-1, .inl rfl, (Option.some.inj h).symm, ?_⟩
        rw [ScriptNumber.encode_neg_one, hb]
      · split at h
        · rename_i hb
          have lower : 1 ≤ b.toNat := UInt8.le_iff_toNat_le.1 hb.1
          have upper : b.toNat ≤ 16 := UInt8.le_iff_toNat_le.1 hb.2
          refine .inr ⟨b.toNat, .inr ⟨b.toNat, rfl, lower, upper⟩, (Option.some.inj h).symm, ?_⟩
          rw [ScriptNumber.encode_natCast lower (by omega)]
          simp
        · cases h
    · cases h
  · rintro (⟨rfl, rfl⟩ | ⟨n, rfl | ⟨k, rfl, lower, upper⟩, rfl, rfl⟩)
    · rfl
    · rw [ScriptNumber.encode_neg_one]
      rfl
    · have all : ∀ k : Fin 17, 1 ≤ k.val →
          smallOpcode? [k.val.toUInt8] = some (Opcode.ofSmallNumber k.val) := by decide
      rw [ScriptNumber.encode_natCast lower (by omega)]
      exact all ⟨k, Nat.lt_succ_of_le upper⟩ lower

theorem toNat_lengthOpcode (n : Nat) :
    (n ≤ 75 ∧ (lengthOpcode n).toNat = n) ∨
      (75 < n ∧ 0x4c ≤ (lengthOpcode n).toNat ∧ (lengthOpcode n).toNat ≤ 0x4e) := by
  unfold lengthOpcode
  split
  · rename_i short
    have hbyte : n % 256 = n := Nat.mod_eq_of_lt (by omega)
    exact .inl ⟨short, by simpa using hbyte⟩
  · rename_i long
    refine .inr ⟨Nat.not_le.1 long, ?_⟩
    split
    · decide
    · split <;> decide

/-- The length of a payload fits the length field that its opcode asks for. -/
theorem lengthWidth_lengthOpcode (n : Nat) :
    Instruction.lengthWidth (lengthOpcode n) =
      if n ≤ 75 then 0 else if n ≤ 0xff then 1 else if n ≤ 0xffff then 2 else 4 := by
  rcases toNat_lengthOpcode n with ⟨short, hop⟩ | ⟨long, _⟩
  · rw [if_pos short]
    exact Instruction.lengthWidth_eq_zero (.inl (by omega))
  · unfold lengthOpcode
    rw [if_neg (Nat.not_le.2 long), if_neg (Nat.not_le.2 long)]
    split
    · rfl
    · split <;> rfl

theorem header?_eq_some {n : Nat} {h : Bytes} :
    header? n = some h ↔
      n ≤ maxLength ∧
        lengthOpcode n :: Bytes.littleEndian (Instruction.lengthWidth (lengthOpcode n)) n = h := by
  rw [lengthWidth_lengthOpcode]
  unfold header? lengthOpcode maxLength
  split
  · simp
    omega
  · split
    · simp
      omega
    · split
      · simp
        omega
      · split <;> simp [*]

theorem instruction_of_some {payload : Bytes} {op : UInt8} (h : smallOpcode? payload = some op) :
    instruction payload = ⟨op, []⟩ := by
  rw [instruction, h]

theorem instruction_of_none {payload : Bytes} (h : smallOpcode? payload = none) :
    instruction payload = ⟨lengthOpcode payload.length, payload⟩ := by
  rw [instruction, h]

/-- An opcode that pushes a payload by itself stands alone. -/
theorem of_smallOpcode? {payload : Bytes} {op : UInt8} (h : smallOpcode? payload = some op) :
    payload.length ≤ 1 ∧ (op = 0 ∨ 0x4e < op.toNat) := by
  rcases smallOpcode?_eq_some.1 h with ⟨rfl, rfl⟩ | ⟨n, hn, rfl, rfl⟩
  · exact ⟨Nat.zero_le _, .inl rfl⟩
  · refine ⟨?_, .inr (Opcode.toNat_ofSmallNumber hn).1⟩
    obtain rfl | ⟨k, rfl, lower, upper⟩ := hn
    · rw [ScriptNumber.encode_neg_one]
      exact Nat.le_refl _
    · rw [ScriptNumber.encode_natCast lower (by omega)]
      exact Nat.le_refl _

theorem lengthWidth_smallOpcode {payload : Bytes} {op : UInt8}
    (h : smallOpcode? payload = some op) : Instruction.lengthWidth op = 0 := by
  obtain rfl | large := (of_smallOpcode? h).2
  · rfl
  · exact Instruction.lengthWidth_eq_zero (.inr large)

/-- Bytecode for a push is the shortest instruction. -/
theorem encode?_eq_some {payload b : Bytes} :
    encode? payload = some b ↔ payload.length ≤ maxLength ∧ (instruction payload).encode = b := by
  unfold encode?
  cases h : smallOpcode? payload with
  | some op =>
      have fits : payload.length ≤ maxLength := Nat.le_trans (of_smallOpcode? h).1 (by decide)
      simp [instruction_of_some h, Instruction.encode_eq, lengthWidth_smallOpcode h, fits]
  | none =>
      simp only [instruction_of_none h, Instruction.encode_eq, Option.map_eq_some_iff,
        header?_eq_some]
      constructor
      · rintro ⟨header, ⟨fits, rfl⟩, rfl⟩
        exact ⟨fits, rfl⟩
      · rintro ⟨fits, rfl⟩
        exact ⟨_, ⟨fits, rfl⟩, rfl⟩

theorem wellFormed_instruction {payload : Bytes} (h : payload.length ≤ maxLength) :
    (instruction payload).WellFormed := by
  unfold Instruction.WellFormed
  cases hop : smallOpcode? payload with
  | some op =>
      have spelled : Opcode.isDirectPush op = false := by
        rw [Bool.eq_false_iff, Ne, Instruction.isDirectPush_iff]
        obtain rfl | large := (of_smallOpcode? hop).2
        · decide
        · omega
      simp [instruction_of_some hop, spelled, lengthWidth_smallOpcode hop]
  | none =>
      have nonempty : payload.length ≠ 0 := by
        intro hzero
        obtain rfl := List.length_eq_zero_iff.1 hzero
        cases hop
      rw [instruction_of_none hop]
      dsimp only
      split
      · rename_i direct
        have hdirect := Instruction.isDirectPush_iff.1 direct
        rcases toNat_lengthOpcode payload.length with ⟨_, hlength⟩ | ⟨_, large, _⟩
        · exact hlength.symm
        · exact absurd (Nat.le_trans large hdirect.2) (by decide)
      · rename_i spelled
        rw [Instruction.isDirectPush_iff] at spelled
        have long : ¬ payload.length ≤ 75 := by
          intro short
          rcases toNat_lengthOpcode payload.length with ⟨_, hlength⟩ | ⟨long, _⟩ <;> omega
        unfold maxLength at h
        rw [lengthWidth_lengthOpcode, if_neg long]
        split
        · omega
        · split <;> omega

/-- The shortest instruction does push the payload. -/
theorem pushed?_instruction (payload : Bytes) :
    (instruction payload).pushed? = some payload := by
  unfold Instruction.pushed?
  cases h : smallOpcode? payload with
  | some op =>
      rw [instruction_of_some h]
      rcases smallOpcode?_eq_some.1 h with ⟨rfl, rfl⟩ | ⟨n, hn, rfl, rfl⟩
      · rfl
      · have large : ¬ Opcode.ofSmallNumber n ≤ 0x4e :=
          UInt8.not_le.2 (UInt8.lt_iff_toNat_lt.2 (Opcode.toNat_ofSmallNumber hn).1)
        rw [if_neg large, Opcode.smallNumber?_eq_some.2 ⟨hn, rfl⟩]
        rfl
  | none =>
      rw [instruction_of_none h]
      have small : lengthOpcode payload.length ≤ 0x4e := by
        rw [UInt8.le_iff_toNat_le]
        rcases toNat_lengthOpcode payload.length with ⟨short, hop⟩ | ⟨_, _, upper⟩
        · rw [hop]
          exact Nat.le_trans short (by decide)
        · exact upper
      rw [if_pos small]

/-- A length that fits an instruction needs no more bytes than that instruction has for it. -/
theorem lengthWidth_lengthOpcode_le {i : Instruction} (h : i.WellFormed) :
    Instruction.lengthWidth (lengthOpcode i.payload.length) ≤ Instruction.lengthWidth i.opcode := by
  rw [lengthWidth_lengthOpcode]
  unfold Instruction.WellFormed at h
  split at h
  · rename_i direct
    have hdirect := Instruction.isDirectPush_iff.1 direct
    rw [if_pos (by omega)]
    exact Nat.zero_le _
  · obtain hwidth | hwidth | hwidth | hwidth := Instruction.lengthWidth_cases i.opcode
    all_goals
      rw [hwidth] at h ⊢
      grind

/-- Whatever pushes a payload has as many bytes as the shortest instruction, or more. -/
theorem length_encode_instruction_le {i : Instruction} (hi : i.WellFormed) {payload : Bytes}
    (h : i.pushed? = some payload) :
    (instruction payload).encode.length ≤ i.encode.length := by
  rw [Instruction.length_encode, Instruction.length_encode]
  cases hop : smallOpcode? payload with
  | some op =>
      simp only [instruction_of_some hop, lengthWidth_smallOpcode hop, List.length_nil]
      omega
  | none =>
      unfold Instruction.pushed? at h
      split at h
      · obtain rfl := Option.some.inj h
        have hwidth := lengthWidth_lengthOpcode_le hi
        rw [instruction_of_none hop]
        dsimp only
        omega
      · obtain ⟨n, hn, rfl⟩ := Option.map_eq_some_iff.1 h
        obtain ⟨small, _⟩ := Opcode.smallNumber?_eq_some.1 hn
        rw [smallOpcode?_eq_some.2 (.inr ⟨n, small, rfl, rfl⟩)] at hop
        cases hop

end Push

/-- The machine accepts the shortest instruction that pushes a payload and no other. -/
theorem Machine.Instruction.isMinimalPush_iff (i : Instruction) :
    i.isMinimalPush = true ↔ i = Push.instruction i.payload := by
  obtain ⟨op, payload⟩ := i
  match payload with
  | [] => simp [isMinimalPush, Push.instruction, Push.smallOpcode?]
  | [b] =>
      unfold isMinimalPush Push.instruction Push.smallOpcode?
      dsimp only
      by_cases negative : b = 0x81
      · simp [negative]
      · by_cases small : 1 ≤ b ∧ b ≤ 16
        · simp [negative, small]
        · have outside : (decide (1 ≤ b) && decide (b ≤ 16)) = false := by
            rw [← Bool.decide_and, decide_eq_false small]
          rw [outside]
          simp [negative, small, Push.lengthOpcode]
  | b :: c :: rest =>
      rw [Push.instruction_of_none rfl]
      unfold isMinimalPush Push.lengthOpcode
      dsimp only
      split
      · rename_i short
        have hbyte : (b :: c :: rest).length.toUInt8.toNat = (b :: c :: rest).length :=
          Nat.mod_eq_of_lt (Nat.lt_of_le_of_lt short (by decide))
        rw [decide_eq_true_iff, Instruction.mk.injEq, and_iff_left rfl, ← UInt8.toNat_inj, hbyte]
      · split
        · simp
        · split <;> simp

/-- A payload that can stand in a program can be pushed. -/
theorem Machine.Instruction.WellFormed.length_le {i : Instruction} (h : i.WellFormed) :
    i.payload.length ≤ Push.maxLength := by
  unfold WellFormed at h
  unfold Push.maxLength
  split at h
  · rename_i direct
    have hdirect := isDirectPush_iff.1 direct
    omega
  · obtain hwidth | hwidth | hwidth | hwidth := lengthWidth_cases i.opcode
    all_goals
      rw [hwidth] at h
      omega

/-- Of the pushes in a program the machine accepts those whose bytes are the bytecode that
is generated for their payload. That bytecode reads as one instruction, which pushes the
payload, and nothing shorter does. -/
theorem Push.isMinimalPush_iff_generated :
    (∀ b : Bytes, (Program.decode b).instructions.flatMap Instruction.encode <+: b ∧
      ∀ i ∈ (Program.decode b).instructions, i.opcode ≤ 0x4e →
        (i.isMinimalPush = true ↔ encode? i.payload = some i.encode)) ∧
    ∀ payload : Bytes, payload.length ≤ 0xffffffff →
      ∃ b i, encode? payload = some b ∧ Program.decode b = ⟨[i], false⟩ ∧
        i.pushed? = some payload ∧
        ∀ b' i', (Program.decode b').instructions = [i'] → i'.pushed? = some payload →
          b.length ≤ b'.length := by
  constructor
  · intro b
    obtain ⟨wellFormed, bytes⟩ := Program.decode_wellFormed b
    refine ⟨bytes, fun i hi _ => ?_⟩
    have fits := (wellFormed i hi).length_le
    have unique := Instruction.encode_inj (wellFormed_instruction fits) (wellFormed i hi)
    rw [Instruction.isMinimalPush_iff, encode?_eq_some, unique, and_iff_right fits, eq_comm]
  · intro payload fits
    have wellFormed := wellFormed_instruction fits
    refine ⟨(instruction payload).encode, instruction payload, ?_, ?_, ?_, ?_⟩
    · exact encode?_eq_some.2 ⟨fits, rfl⟩
    · simpa using Program.decode_encode_append wellFormed []
    · exact pushed?_instruction payload
    · intro b' i' hread hpushed
      obtain ⟨others, bytes⟩ := Program.decode_wellFormed b'
      rw [hread, List.flatMap_singleton] at bytes
      have hi' : i'.WellFormed := others i' (by rw [hread]; exact List.mem_singleton_self i')
      exact Nat.le_trans (length_encode_instruction_le hi' hpushed) bytes.length_le

theorem Push.isMinimalPush_iff_generated_two_bytes :
    let i : Instruction := ⟨0x4c, [0xaa, 0xbb]⟩
    i ∈ (Program.decode [0x4c, 0x02, 0xaa, 0xbb]).instructions ∧ i.opcode ≤ 0x4e ∧
      i.isMinimalPush = false ∧ encode? i.payload ≠ some i.encode ∧
      i.payload.length ≤ 0xffffffff ∧ encode? i.payload = some [0x02, 0xaa, 0xbb] ∧
      (Program.decode [0x02, 0xaa, 0xbb]).instructions = [⟨0x02, i.payload⟩] ∧
      ∀ b' i', (Program.decode b').instructions = [i'] → i'.pushed? = some i.payload →
        3 ≤ b'.length := by
  intro i
  obtain ⟨reads, pushes⟩ := isMinimalPush_iff_generated
  have hi : i ∈ (Program.decode [0x4c, 0x02, 0xaa, 0xbb]).instructions := by decide +kernel
  have accepts := (reads _).2 i hi (by decide)
  have generated : encode? i.payload = some [0x02, 0xaa, 0xbb] := by decide
  obtain ⟨b, j, hb, hread, _, shortest⟩ := pushes i.payload (by decide)
  obtain rfl := Option.some.inj (generated.symm.trans hb)
  refine ⟨hi, by decide, by decide, ?_, by decide, generated, by decide +kernel, shortest⟩
  intro hencode
  exact absurd (accepts.2 hencode) (by decide)

end AuthScript
