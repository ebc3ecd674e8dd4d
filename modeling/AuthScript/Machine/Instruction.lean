import AuthScript.Bytes.Hex
import AuthScript.Machine.Opcode

/-!
# Instructions

A program is a byte string that is read as instructions one after another. An
instruction is an opcode and, for a push, the bytes pushed. A push says how many
bytes it takes by its opcode, or by a length of one, two or four bytes after the
opcode; if the program ends before it has them all, the push is cut off and the
program is malformed.
-/

namespace AuthScript

namespace Bytes

/-- The first `n` bytes and the others, if there are that many. -/
def splitAt? (n : Nat) (b : Bytes) : Option (Bytes × Bytes) :=
  if (b.take n).length = n then some (b.take n, b.drop n) else none

theorem append_of_splitAt? {n : Nat} {b front back : Bytes}
    (h : splitAt? n b = some (front, back)) : front ++ back = b ∧ front.length = n := by
  unfold splitAt? at h
  split at h
  · rename_i enough
    injection h with h
    injection h with h1 h2
    rw [← h1, ← h2]
    exact ⟨List.take_append_drop n b, enough⟩
  · cases h

end Bytes

namespace Machine

/-- An opcode with the bytes it pushes, if it is a push. -/
structure Instruction where
  opcode : UInt8
  payload : Bytes := []
deriving DecidableEq

namespace Instruction

/-- The number of bytes of the length that follows an opcode. -/
def lengthWidth (op : UInt8) : Nat :=
  if op = 0x4c then 1 else if op = 0x4d then 2 else if op = 0x4e then 4 else 0

/-- An instruction as it stands in a program. -/
def encode (i : Instruction) : Bytes :=
  i.opcode :: (Bytes.littleEndian (lengthWidth i.opcode) i.payload.length ++ i.payload)

/-- The payload of an opcode and what follows it. -/
def readPayload? (op : UInt8) (rest : Bytes) : Option (Bytes × Bytes) :=
  if Opcode.isDirectPush op then Bytes.splitAt? op.toNat rest
  else do
    let (len, rest) ← Bytes.splitAt? (lengthWidth op) rest
    Bytes.splitAt? (Bytes.ofLittleEndian len) rest

theorem readPayload?_length {op : UInt8} {rest payload back : Bytes}
    (h : readPayload? op rest = some (payload, back)) : back.length ≤ rest.length := by
  unfold readPayload? at h
  split at h
  · have split := congrArg List.length (Bytes.append_of_splitAt? h).1
    rw [List.length_append] at split
    omega
  · obtain ⟨⟨len, middle⟩, first, second⟩ := Option.bind_eq_some_iff.1 h
    have split1 := congrArg List.length (Bytes.append_of_splitAt? first).1
    have split2 := congrArg List.length (Bytes.append_of_splitAt? second).1
    rw [List.length_append] at split1 split2
    omega

/-- Whether a push takes the fewest bytes a push of its payload can take. -/
def isMinimalPush (i : Instruction) : Bool :=
  match i.payload with
  | [] => i.opcode = 0
  | [b] => !(1 ≤ b && b ≤ 16) && b ≠ 0x81 && i.opcode = 1
  | payload =>
    if payload.length ≤ 75 then i.opcode.toNat = payload.length
    else if payload.length ≤ 0xff then i.opcode = 0x4c
    else if payload.length ≤ 0xffff then i.opcode = 0x4d
    else i.opcode = 0x4e

/-- An instruction in words: the name of its opcode and the bytes of a push. -/
def format (i : Instruction) : Bytes :=
  if 1 ≤ i.opcode ∧ i.opcode ≤ 0x4e then
    Opcode.name i.opcode ++ text " 0x" ++ Hex.encode i.payload
  else Opcode.name i.opcode

end Instruction

/-- What a program reads as: the instructions up to its end or to a push that is cut
off. -/
structure Program where
  instructions : List Instruction := []
  malformed : Bool := false
deriving DecidableEq

namespace Program

/-- Reads a program. -/
def decode (b : Bytes) : Program :=
  match b with
  | [] => {}
  | op :: rest =>
    match _read : Instruction.readPayload? op rest with
    | none => { malformed := true }
    | some (payload, back) =>
      let program := decode back
      ⟨⟨op, payload⟩ :: program.instructions, program.malformed⟩
termination_by b.length
decreasing_by
  have := Instruction.readPayload?_length _read
  simp only [List.length_cons]
  omega

/-- A program in words. -/
def format (p : Program) : Bytes :=
  Bytes.join (text " ")
    (p.instructions.map Instruction.format ++ if p.malformed then [text "[malformed]"] else [])

@[simp] theorem decode_nil : decode [] = {} := by rw [decode]

end Program

/-- The instructions of a byte string in words. -/
def disassemble (b : Bytes) : Bytes := (Program.decode b).format

end Machine

end AuthScript
