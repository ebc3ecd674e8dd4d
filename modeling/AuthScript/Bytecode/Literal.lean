import AuthScript.Diagnostic
import AuthScript.Machine.Opcode
import AuthScript.Number.Script

/-!
# Bytes of literals and pushes

A literal stands for bytes: an integer for its shortest script number, a string for
its contents, hexadecimal digits for the bytes they spell. A push of bytes is the
shortest instruction that puts them on the stack: nothing, minus one and one to
sixteen have opcodes of their own, up to 75 bytes their number is the opcode, and
more bytes follow a length of one, two or four bytes.
-/

namespace AuthScript

namespace Push

/-- The longest payload a push can have. -/
def maxLength : Nat := 0xffffffff

/-- The opcode that pushes a payload by itself. -/
def smallOpcode? : Bytes → Option UInt8
  | [] => some 0
  | [b] =>
    if b = 0x81 then some (Opcode.ofSmallNumber (-1))
    else if 1 ≤ b ∧ b ≤ 16 then some (Opcode.ofSmallNumber b.toNat)
    else none
  | _ => none

/-- What stands before a payload that no opcode pushes by itself. -/
def header? (length : Nat) : Option Bytes :=
  if length ≤ 75 then some [length.toUInt8]
  else if length ≤ 0xff then some (0x4c :: Bytes.littleEndian 1 length)
  else if length ≤ 0xffff then some (0x4d :: Bytes.littleEndian 2 length)
  else if length ≤ maxLength then some (0x4e :: Bytes.littleEndian 4 length)
  else none

/-- The shortest instruction that pushes a payload; none if it is too long. -/
def encode? (payload : Bytes) : Option Bytes :=
  match smallOpcode? payload with
  | some op => some [op]
  | none => (header? payload.length).map (· ++ payload)

/-- The shortest push of a payload, for a node at a range. -/
def encodeAt (range : Range) (payload : Bytes) : Except CompileError Bytes :=
  match encode? payload with
  | some b => .ok b
  | none => .error ⟨.pushTooLong payload.length, range, [], []⟩

theorem encodeAt_eq_ok {range : Range} {payload b : Bytes} :
    encodeAt range payload = .ok b ↔ encode? payload = some b := by
  unfold encodeAt
  cases encode? payload <;> simp

end Push

namespace Literal

/-- The bytes that hexadecimal digits spell, for a literal at a range. -/
def ofHex (range : Range) (digits : Bytes) : Except CompileError Bytes :=
  if digits.length % 2 ≠ 0 then .error ⟨.oddHex digits, range, [], []⟩
  else match Hex.decode? digits with
    | some b => .ok b
    | none => .error ⟨.invalidHex digits, range, [], []⟩

theorem ofHex_eq_ok {range : Range} {digits b : Bytes} :
    ofHex range digits = .ok b ↔ digits.length % 2 = 0 ∧ Hex.decode? digits = some b := by
  unfold ofHex
  by_cases even : digits.length % 2 = 0
  · cases Hex.decode? digits <;> simp [even]
  · simp [even]

/-- The bytes of an integer. -/
def ofInteger (value : Int) : Bytes := ScriptNumber.encode value

/-- The bytes of a string. -/
def ofString (contents : Bytes) : Bytes := contents

end Literal

end AuthScript
