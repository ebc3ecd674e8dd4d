import AuthScript.Curve.Key
import AuthScript.Hash.Composite
import AuthScript.Machine.Arithmetic
import AuthScript.Number.Script

/-!
# Operations on the stack

The stack is a list of byte strings with the top first. An operation either gives
a new stack or fails, and a failure keeps the stack as far as the operation had
got: operands that were taken before the failure stay taken.

Numbers on the stack are script numbers of at most eight bytes in their shortest
spelling. A result is pushed only if it is in the range of operands again.
-/

namespace AuthScript

namespace Machine

open Opcode

/-- The items of a stack, the top first. -/
abbrev Stack := List Bytes

/-- The outcome of an operation: a stack, or a failure and the stack it left. -/
abbrev Effect (α : Type) := Except (Error × Stack) α

/-- Whether an item counts as true: some byte is set, other than the sign of a last
byte. -/
def isTrue : Bytes → Bool
  | [] => false
  | [b] => b ≠ 0 && b ≠ 0x80
  | b :: c :: rest => b ≠ 0 || isTrue (c :: rest)

/-- One for true and the empty item for false. -/
def ofBool (b : Bool) : Bytes := if b then [1] else []

namespace Stack

/-- Takes a number from the top. -/
def popNumber : Stack → Effect (Int64 × Stack)
  | [] => .error (.invalidStackOperation, [])
  | item :: rest =>
    match ScriptNumber.operandWord? item ScriptNumber.maxLength true with
    | some n => .ok (n, rest)
    | none => .error (.numberRange, item :: rest)

/-- Pushes the shortest spelling of a number, unless it is the one word that is no operand. -/
def pushNumber (n : Int64) (s : Stack) : Effect Stack :=
  if n = Int64.minValue then .error (.numberRange, s)
  else .ok (ScriptNumber.encodeWord n :: s)

/-- Pushes the result of a computation. -/
def pushResult (result : Except Error Int64) (s : Stack) : Effect Stack :=
  match result with
  | .ok n => pushNumber n s
  | .error e => .error (e, s)

/-- A rearrangement of the top of the stack. -/
def shuffle : Shuffle → Stack → Effect Stack
  | .drop, _ :: s => .ok s
  | .dup, a :: s => .ok (a :: a :: s)
  | .nip, b :: _ :: s => .ok (b :: s)
  | .over, b :: a :: s => .ok (a :: b :: a :: s)
  | .rot, c :: b :: a :: s => .ok (a :: c :: b :: s)
  | .swap, b :: a :: s => .ok (a :: b :: s)
  | .tuck, b :: a :: s => .ok (b :: a :: b :: s)
  | .drop2, _ :: _ :: s => .ok s
  | .dup2, b :: a :: s => .ok (b :: a :: b :: a :: s)
  | .dup3, c :: b :: a :: s => .ok (c :: b :: a :: c :: b :: a :: s)
  | .over2, d :: c :: b :: a :: s => .ok (b :: a :: d :: c :: b :: a :: s)
  | .rot2, f :: e :: d :: c :: b :: a :: s => .ok (b :: a :: f :: e :: d :: c :: s)
  | .swap2, d :: c :: b :: a :: s => .ok (b :: a :: d :: c :: s)
  | _, s => .error (.invalidStackOperation, s)

/-- The item at a depth that the top number gives, which must be on the stack. -/
def select (s : Stack) : Effect (Nat × Bytes × Stack) := do
  let (n, s) ← s.popNumber
  match if 0 ≤ n.toInt then s[n.toInt.toNat]? else none with
  | some item => .ok (n.toInt.toNat, item, s)
  | none => .error (.invalidStackOperation, s)

/-- Copies the item at a depth to the top. -/
def pick (s : Stack) : Effect Stack := do
  let (_, item, s) ← s.select
  return item :: s

/-- Moves the item at a depth to the top. -/
def roll (s : Stack) : Effect Stack := do
  let (n, item, s) ← s.select
  return item :: s.eraseIdx n

/-- Joins the two top items, the top one last. -/
def cat (limit : Nat) : Stack → Effect Stack
  | b :: a :: s =>
    if limit < a.length + b.length then .error (.pushSize, b :: a :: s) else .ok ((a ++ b) :: s)
  | s => .error (.invalidStackOperation, s)

/-- Splits an item at a position. -/
def split (s : Stack) : Effect Stack := do
  let (n, s) ← s.popNumber
  match s with
  | [] => .error (.invalidStackOperation, [])
  | item :: rest =>
    if n.toInt < 0 ∨ item.length < n.toInt.toNat then .error (.splitRange, item :: rest)
    else .ok (item.drop n.toInt.toNat :: item.take n.toInt.toNat :: rest)

/-- A minimal spelling of a number with zero bytes before its sign, so that it has
`n` bytes. -/
def widened (n : Nat) (b : Bytes) : Bytes :=
  if n ≤ b.length then b
  else match b.reverse with
    | [] => List.replicate (n - 1) 0 ++ [0]
    | top :: below =>
      ((top &&& 0x7f) :: below).reverse ++ List.replicate (n - 1 - b.length) 0 ++ [top &&& 0x80]

/-- Spells a number with as many bytes as the top number says. -/
def widen (limit : Nat) (s : Stack) : Effect Stack := do
  let (n, s) ← s.popNumber
  if n.toInt < 0 ∨ limit < n.toInt.toNat then .error (.pushSize, s)
  else match s with
    | [] => .error (.invalidStackOperation, [])
    | item :: rest =>
      let minimal := ScriptNumber.minimize item
      if n.toInt.toNat < minimal.length then .error (.impossibleEncoding, minimal :: rest)
      else .ok (widened n.toInt.toNat minimal :: rest)

/-- Spells a number with as few bytes as possible, and no more than an operand has. -/
def narrow : Stack → Effect Stack
  | [] => .error (.invalidStackOperation, [])
  | item :: rest =>
    let minimal := ScriptNumber.minimize item
    if ScriptNumber.maxLength < minimal.length then .error (.numberRange, minimal :: rest)
    else .ok (minimal :: rest)

/-- The byte operation of a bitwise operation. -/
def bitwiseByte : Bitwise → UInt8 → UInt8 → UInt8
  | .and, a, b => a &&& b
  | .or, a, b => a ||| b
  | .xor, a, b => a ^^^ b

/-- Combines two items of equal length bit by bit. -/
def bitwise (op : Bitwise) : Stack → Effect Stack
  | b :: a :: s =>
    if a.length ≠ b.length then .error (.operandSize, b :: a :: s)
    else .ok (List.zipWith (bitwiseByte op) a b :: s)
  | s => .error (.invalidStackOperation, s)

/-- Compares two items; either pushes the answer or insists on it. -/
def equal (verify : Bool) : Stack → Effect Stack
  | b :: a :: s =>
    if verify then (if a = b then .ok s else .error (.equalVerifyFailed, s))
    else .ok (ofBool (a = b) :: s)
  | s => .error (.invalidStackOperation, s)

/-- An operation on the number at the top. -/
def unary (op : Unary) (s : Stack) : Effect Stack := do
  let (n, s) ← s.popNumber
  pushResult (unaryResult op n) s

/-- Fails unless the stack has at least `n` items. -/
def require (n : Nat) (s : Stack) : Effect Unit :=
  if s.length < n then .error (.invalidStackOperation, s) else .ok ()

/-- Takes two numbers, the second from the top. -/
def popTwo (s : Stack) : Effect (Int64 × Int64 × Stack) := do
  s.require 2
  let (b, s) ← s.popNumber
  let (a, s) ← s.popNumber
  return (a, b, s)

/-- An operation on the two numbers at the top. -/
def binary (op : Binary) (s : Stack) : Effect Stack := do
  let (a, b, s) ← s.popTwo
  pushResult (binaryResult op a b) s

/-- Insists that the two numbers at the top are equal. -/
def numEqualVerify (s : Stack) : Effect Stack := do
  let (a, b, s) ← s.popTwo
  if a = b then .ok s else .error (.numEqualVerifyFailed, s)

/-- Whether the third number from the top is at least the second and below the
first. -/
def within (s : Stack) : Effect Stack := do
  s.require 3
  let (c, s) ← s.popNumber
  let (b, s) ← s.popNumber
  let (a, s) ← s.popNumber
  pushNumber (truth (b ≤ a ∧ a < c)) s

/-- The function of a digest. -/
def digestOf : Digest → Bytes → Bytes
  | .ripemd160 => ripemd160
  | .sha1 => sha1
  | .sha256 => sha256
  | .hash160 => hash160
  | .hash256 => hash256

/-- Replaces the top item by its digest. -/
def digest (d : Digest) : Stack → Effect Stack
  | [] => .error (.invalidStackOperation, [])
  | item :: s => .ok (digestOf d item :: s)

/-- Whether a signature holds for the SHA-256 digest of a message. The empty
signature never does, and fails nothing. -/
def dataSigHolds (signature message publicKey : Bytes) : Bool :=
  !signature.isEmpty && Curve.verify publicKey (sha256 message) signature

/-- Checks a signature of a message; either pushes the answer or insists on it. -/
def checkDataSig (verify : Bool) : Stack → Effect Stack
  | publicKey :: message :: signature :: s =>
    if !signature.isEmpty && !Curve.Signature.isShaped signature then
      .error (.signatureShape, publicKey :: message :: signature :: s)
    else if !Curve.Point.isPublicKey publicKey then
      .error (.publicKeyForm, publicKey :: message :: signature :: s)
    else
      let holds := dataSigHolds signature message publicKey
      if verify then (if holds then .ok s else .error (.checkDataSigVerifyFailed, s))
      else .ok (ofBool holds :: s)
  | s => .error (.invalidStackOperation, s)

/-- Insists that the top item is true, and takes it. -/
def verify : Stack → Effect Stack
  | [] => .error (.invalidStackOperation, [])
  | item :: s => if isTrue item then .ok s else .error (.verifyFailed, item :: s)

/-- Replaces the top item. -/
def mapTop (f : Bytes → Bytes) : Stack → Effect Stack
  | [] => .error (.invalidStackOperation, [])
  | item :: s => .ok (f item :: s)

/-- Puts something computed from the top item above it. -/
def aboveTop (f : Bytes → Option Bytes) : Stack → Effect Stack
  | [] => .error (.invalidStackOperation, [])
  | item :: s => .ok ((f item).toList ++ item :: s)

end Stack

end Machine

end AuthScript
