import AuthScript.Machine.Instruction
import AuthScript.Proofs.Bytes

/-!
# Reading instructions

Some instructions can stand in a program and others cannot: the payload must have the
length that the opcode, or the length field after it, can say (`WellFormed`). Reading
one instruction takes exactly its bytes off the front (`readPayload?_eq_some`), and there
is none to read only if the program ends within a push (`readPayload?_eq_none`). So every
program is the bytes of well-formed instructions and an end, which is nothing or a push
that is cut off. There is only one way to take a program apart like this, and reading
finds it (`decode_eq_iff`).
-/

namespace AuthScript

theorem Bytes.splitAt?_eq_some {n : Nat} {b front back : Bytes} :
    splitAt? n b = some (front, back) ↔ front.length = n ∧ b = front ++ back := by
  constructor
  · intro h
    obtain ⟨rfl, hlength⟩ := append_of_splitAt? h
    exact ⟨hlength, rfl⟩
  · rintro ⟨rfl, rfl⟩
    simp [splitAt?]

theorem Bytes.splitAt?_eq_none {n : Nat} {b : Bytes} : splitAt? n b = none ↔ b.length < n := by
  have front : (b.take n).length = min n b.length := List.length_take
  unfold splitAt?
  split
  · exact iff_of_false (by simp) (by omega)
  · exact iff_of_true rfl (by omega)

namespace Machine

namespace Instruction

/-- The payload has a length that the opcode, or its length field, can say. -/
def WellFormed (i : Instruction) : Prop :=
  if Opcode.isDirectPush i.opcode then i.payload.length = i.opcode.toNat
  else i.payload.length < 256 ^ lengthWidth i.opcode

instance (i : Instruction) : Decidable i.WellFormed :=
  inferInstanceAs (Decidable (if Opcode.isDirectPush i.opcode then _ = _ else _ < _))

theorem lengthWidth_eq_zero {op : UInt8} (h : op.toNat ≤ 0x4b ∨ 0x4e < op.toNat) :
    lengthWidth op = 0 := by
  have other : ∀ n : UInt8, 0x4b < n.toNat → n.toNat ≤ 0x4e → op ≠ n := by
    rintro n lower upper rfl
    omega
  simp [lengthWidth, other 0x4c (by decide) (by decide), other 0x4d (by decide) (by decide),
    other 0x4e (by decide) (by decide)]

theorem lengthWidth_cases (op : UInt8) :
    lengthWidth op = 0 ∨ lengthWidth op = 1 ∨ lengthWidth op = 2 ∨ lengthWidth op = 4 := by
  unfold lengthWidth
  split
  · simp
  · split
    · simp
    · split <;> simp

theorem isDirectPush_iff {op : UInt8} :
    Opcode.isDirectPush op = true ↔ 1 ≤ op.toNat ∧ op.toNat ≤ 0x4b := by
  simp [Opcode.isDirectPush, UInt8.le_iff_toNat_le]

theorem encode_eq (i : Instruction) :
    i.encode = i.opcode ::
      (Bytes.littleEndian (lengthWidth i.opcode) i.payload.length ++ i.payload) := rfl

theorem length_encode (i : Instruction) :
    i.encode.length = 1 + lengthWidth i.opcode + i.payload.length := by
  simp [encode_eq]
  omega

/-- Reading an instruction takes its bytes off the front. -/
theorem readPayload?_eq_some {op : UInt8} {rest payload back : Bytes} :
    readPayload? op rest = some (payload, back) ↔
      WellFormed ⟨op, payload⟩ ∧ op :: rest = encode ⟨op, payload⟩ ++ back := by
  unfold readPayload? WellFormed
  by_cases direct : Opcode.isDirectPush op = true
  · have width : lengthWidth op = 0 := lengthWidth_eq_zero (.inl (isDirectPush_iff.1 direct).2)
    simp [direct, Bytes.splitAt?_eq_some, encode_eq, width]
  · simp only [direct, Bool.false_eq_true, if_false, encode_eq, List.cons_append, List.cons.injEq,
      true_and, Option.bind_eq_bind, Option.bind_eq_some_iff, Prod.exists, Bytes.splitAt?_eq_some]
    constructor
    · rintro ⟨len, middle, ⟨hwidth, rfl⟩, hlength, rfl⟩
      have hlen := Bytes.littleEndian_ofLittleEndian len
      have hlt := Bytes.ofLittleEndian_lt len
      rw [hwidth] at hlen hlt
      rw [hlength, hlen, List.append_assoc]
      exact ⟨hlt, rfl⟩
    · rintro ⟨hlt, rfl⟩
      refine ⟨_, payload ++ back, ⟨?_, List.append_assoc _ _ _⟩, ?_, rfl⟩
      · rw [Bytes.length_littleEndian]
      · rw [Bytes.ofLittleEndian_littleEndian hlt]

/-- What follows an opcode ends before the push is complete: the payload that the opcode tells is
not all there, or the length field is not, or the payload that the length field tells. -/
inductive CutOff (op : UInt8) : Bytes → Prop
  | direct {rest : Bytes} (push : Opcode.isDirectPush op = true)
      (short : rest.length < op.toNat) : CutOff op rest
  | length {rest : Bytes} (short : rest.length < lengthWidth op) : CutOff op rest
  | payload {len rest : Bytes} (width : len.length = lengthWidth op)
      (short : rest.length < Bytes.ofLittleEndian len) : CutOff op (len ++ rest)

/-- Where no length field follows the opcode, it is a direct push that is cut off. -/
theorem CutOff.direct_of_width {op : UInt8} {rest : Bytes} (width : lengthWidth op = 0)
    (cut : CutOff op rest) : Opcode.isDirectPush op = true ∧ rest.length < op.toNat := by
  cases cut with
  | direct push short => exact ⟨push, short⟩
  | length short => omega
  | payload len short =>
      rw [List.eq_nil_of_length_eq_zero (len.trans width)] at short
      exact absurd short (Nat.not_lt_zero _)

/-- Only a push can be cut off. -/
theorem CutOff.opcode_push {op : UInt8} {rest : Bytes} (cut : CutOff op rest) :
    1 ≤ op.toNat ∧ op.toNat ≤ 0x4e := by
  by_cases width : lengthWidth op = 0
  · have lengths := isDirectPush_iff.1 (cut.direct_of_width width).1
    omega
  · have inside : ¬ (op.toNat ≤ 0x4b ∨ 0x4e < op.toNat) := mt lengthWidth_eq_zero width
    omega

/-- The payload cannot be read exactly if the push is cut off. -/
theorem readPayload?_eq_none {op : UInt8} {rest : Bytes} :
    readPayload? op rest = none ↔ CutOff op rest := by
  unfold readPayload?
  split
  · rename_i direct
    have width : lengthWidth op = 0 := lengthWidth_eq_zero (.inl (isDirectPush_iff.1 direct).2)
    rw [Bytes.splitAt?_eq_none]
    exact ⟨.direct direct, fun cut => (cut.direct_of_width width).2⟩
  · rename_i other
    cases hlen : Bytes.splitAt? (lengthWidth op) rest with
    | none => exact iff_of_true rfl (.length (Bytes.splitAt?_eq_none.1 hlen))
    | some parts =>
        obtain ⟨len, back⟩ := parts
        obtain ⟨width, rfl⟩ := Bytes.splitAt?_eq_some.1 hlen
        show Bytes.splitAt? (Bytes.ofLittleEndian len) back = none ↔ _
        rw [Bytes.splitAt?_eq_none]
        refine ⟨.payload width, fun cut => ?_⟩
        -- a cut may split the bytes at another place, but the length field has only one length
        generalize whole : len ++ back = rest at cut
        cases cut with
        | direct push => exact absurd push other
        | length short =>
            rw [← whole, List.length_append] at short
            omega
        | payload width' short =>
            obtain ⟨rfl, rfl⟩ := List.append_inj whole (width.trans width'.symm)
            exact short

end Instruction

/-! ## Whole programs -/

namespace Program

theorem decode_of_some {op : UInt8} {rest payload back : Bytes}
    (h : Instruction.readPayload? op rest = some (payload, back)) :
    decode (op :: rest) =
      ⟨⟨op, payload⟩ :: (decode back).instructions, (decode back).malformed⟩ := by
  rw [decode]
  split
  · rename_i cut
    rw [h] at cut
    cases cut
  · rename_i read
    rw [h] at read
    cases read
    rfl

/-- An instruction in front of a program is read first. -/
theorem decode_encode_append {i : Instruction} (h : i.WellFormed) (back : Bytes) :
    decode (i.encode ++ back) =
      ⟨i :: (decode back).instructions, (decode back).malformed⟩ :=
  decode_of_some (Instruction.readPayload?_eq_some.2 ⟨h, rfl⟩)

/-- Instructions in front of a program are read first. -/
theorem decode_flatMap_encode_append {instructions : List Instruction}
    (h : ∀ i ∈ instructions, i.WellFormed) (back : Bytes) :
    decode (instructions.flatMap Instruction.encode ++ back) =
      ⟨instructions ++ (decode back).instructions, (decode back).malformed⟩ := by
  induction instructions with
  | nil => rfl
  | cons i rest ih =>
      obtain ⟨first, others⟩ := List.forall_mem_cons.1 h
      rw [List.flatMap_cons, List.append_assoc, decode_encode_append first, ih others]
      rfl

/-- Instructions are read from their bytes. -/
theorem decode_flatMap_encode {instructions : List Instruction}
    (h : ∀ i ∈ instructions, i.WellFormed) :
    decode (instructions.flatMap Instruction.encode) = ⟨instructions, false⟩ := by
  simpa using decode_flatMap_encode_append h []

theorem decode_of_cutOff {op : UInt8} {rest : Bytes} (cut : Instruction.CutOff op rest) :
    decode (op :: rest) = ⟨[], true⟩ := by
  rw [decode]
  split
  · rfl
  · rename_i read
    rw [Instruction.readPayload?_eq_none.2 cut] at read
    cases read

/-- How a program can end behind its last instruction: `true` is said of one that is cut off. -/
inductive Ends : Bool → Bytes → Prop
  | whole : Ends false []
  | cutOff {op : UInt8} {rest : Bytes} (cut : Instruction.CutOff op rest) : Ends true (op :: rest)

theorem Ends.eq_nil_iff {malformed : Bool} {rest : Bytes} (ends : Ends malformed rest) :
    rest = [] ↔ malformed = false := by
  cases ends <;> simp

theorem Ends.exists_cutOff {rest : Bytes} (ends : Ends true rest) :
    ∃ op payload, rest = op :: payload ∧ Instruction.CutOff op payload := by
  cases ends with
  | cutOff cut => exact ⟨_, _, rfl, cut⟩

/-- What is read from a program is well formed, and behind its bytes the program ends. -/
theorem decode_parts (b : Bytes) :
    (∀ i ∈ (decode b).instructions, i.WellFormed) ∧
      ∃ rest, b = (decode b).instructions.flatMap Instruction.encode ++ rest ∧
        Ends (decode b).malformed rest := by
  fun_induction decode b with
  | case1 => exact ⟨by simp, [], rfl, .whole⟩
  | case2 op rest cut =>
      exact ⟨by simp, op :: rest, rfl, .cutOff (Instruction.readPayload?_eq_none.1 cut)⟩
  | case3 op rest payload back read program ih =>
      obtain ⟨own, bytes⟩ := Instruction.readPayload?_eq_some.1 read
      obtain ⟨others, last, hback, ends⟩ := ih
      refine ⟨List.forall_mem_cons.2 ⟨own, others⟩, last, ?_, ends⟩
      rw [bytes, List.flatMap_cons, List.append_assoc, ← hback]

/-- A program is read as instructions exactly if it is their bytes, as far as it is not cut
off. -/
theorem decode_eq_iff {b : Bytes} {program : Program} :
    decode b = program ↔ (∀ i ∈ program.instructions, i.WellFormed) ∧
      ∃ rest, b = program.instructions.flatMap Instruction.encode ++ rest ∧
        Ends program.malformed rest := by
  constructor
  · rintro rfl
    exact decode_parts b
  · rintro ⟨wf, rest, rfl, ends⟩
    rw [decode_flatMap_encode_append wf]
    obtain ⟨instructions, malformed⟩ := program
    cases ends with
    | whole => simp
    | cutOff cut => simp [decode_of_cutOff cut]

/-- What is read from a program is well formed, and its bytes are the front of the
program. -/
theorem decode_wellFormed (b : Bytes) :
    (∀ i ∈ (decode b).instructions, i.WellFormed) ∧
      (decode b).instructions.flatMap Instruction.encode <+: b := by
  obtain ⟨wf, rest, bytes, _⟩ := decode_parts b
  exact ⟨wf, rest, bytes.symm⟩

/-- A program that is read to its end is the bytes of its instructions. -/
theorem flatMap_encode_decode {b : Bytes} (whole : (decode b).malformed = false) :
    (decode b).instructions.flatMap Instruction.encode = b := by
  obtain ⟨_, rest, bytes, ends⟩ := decode_parts b
  rw [ends.eq_nil_iff.2 whole, List.append_nil] at bytes
  exact bytes.symm

/-- Behind a whole program another one reads as it does by itself. -/
theorem decode_append {p : Bytes} (whole : (decode p).malformed = false) (q : Bytes) :
    decode (p ++ q) =
      ⟨(decode p).instructions ++ (decode q).instructions, (decode q).malformed⟩ := by
  have both := decode_flatMap_encode_append (decode_wellFormed p).1 q
  rw [flatMap_encode_decode whole] at both
  exact both

/-- What a program reads as is read from every longer one first. -/
theorem instructions_prefix_append (p q : Bytes) :
    (decode p).instructions <+: (decode (p ++ q)).instructions := by
  obtain ⟨wf, rest, bytes, _⟩ := decode_parts p
  have both := decode_flatMap_encode_append wf (rest ++ q)
  rw [← List.append_assoc, ← bytes] at both
  rw [both]
  exact List.prefix_append _ _

end Program

/-- An instruction is known from its bytes. -/
theorem Instruction.encode_inj {i j : Instruction} (hi : i.WellFormed) (hj : j.WellFormed) :
    i.encode = j.encode ↔ i = j := by
  constructor
  · intro h
    have hread := Program.decode_encode_append hi []
    rw [h, Program.decode_encode_append hj [], Program.decode_nil] at hread
    simpa [eq_comm] using hread
  · rintro rfl
    rfl

namespace Program

/-- Reading programs and spelling instructions are inverse to each other. The bytes of what a
program reads as stand at its front, they are the program exactly if it is not malformed, and
what is left of a malformed one is a push that its end cuts off. Well-formed instructions are read
from their bytes as they are, and two programs of which the first is whole are read as the first
and then the second. -/
theorem decode_inverse_encode (b p q : Bytes) (instructions : List Instruction) :
    let read := decode b
    let bytes := read.instructions.flatMap Instruction.encode
    ((∀ i ∈ read.instructions, i.WellFormed) ∧ bytes <+: b ∧
        (bytes = b ↔ read.malformed = false) ∧
        (read.malformed = true → ∃ op rest, b = bytes ++ op :: rest ∧
          (1 ≤ op.toNat ∧ op.toNat ≤ 0x4e) ∧ Instruction.CutOff op rest)) ∧
      ((∀ i ∈ instructions, i.WellFormed) →
        decode (instructions.flatMap Instruction.encode) = ⟨instructions, false⟩) ∧
      ((decode p).malformed = false →
        decode (p ++ q) =
          ⟨(decode p).instructions ++ (decode q).instructions, (decode q).malformed⟩) := by
  intro read bytes
  obtain ⟨wf, rest, parts, ends⟩ := decode_eq_iff.1 (rfl : decode b = read)
  have front : b = bytes ++ rest := parts
  refine ⟨⟨wf, ⟨rest, front.symm⟩, ?_, fun malformed => ?_⟩, decode_flatMap_encode,
    fun whole => decode_append whole q⟩
  · rw [← ends.eq_nil_iff, front]
    simp
  · rw [malformed] at ends
    obtain ⟨op, payload, rfl, cut⟩ := ends.exists_cutOff
    exact ⟨op, payload, front, cut.opcode_push, cut⟩

/-- A push that its length field cuts off, behind a program that is whole. -/
theorem decode_inverse_encode_of_pushes :
    let pushes : List Instruction := [⟨0x02, [1, 2]⟩, ⟨0x4c, [7]⟩]
    let p : Bytes := [0x02, 1, 2, 0x4c, 1, 7]
    let q : Bytes := [0x51, 0x4d, 5]
    decode p = ⟨pushes, false⟩ ∧ decode (p ++ q) = ⟨pushes ++ [⟨0x51, []⟩], true⟩ ∧
      ∃ op rest, q = [0x51] ++ op :: rest ∧ (1 ≤ op.toNat ∧ op.toNat ≤ 0x4e) ∧
        Instruction.CutOff op rest := by
  intro pushes p q
  have wf : ∀ i ∈ pushes, i.WellFormed := by decide
  have cut : decode q = ⟨[⟨0x51, []⟩], true⟩ :=
    decode_eq_iff.2 ⟨by decide, [0x4d, 5], rfl, .cutOff (.length (by decide))⟩
  obtain ⟨⟨_, _, _, tail⟩, pushed, behind⟩ := decode_inverse_encode q p q pushes
  have whole : decode p = ⟨pushes, false⟩ := pushed wf
  rw [cut] at tail behind
  rw [whole] at behind
  exact ⟨whole, behind rfl, tail rfl⟩

end Program

end Machine

end AuthScript
