import AuthScript.Table

/-!
# Opcodes

An opcode is a byte. The bytes 1 to 75 push that many bytes that follow them; most
others have a row in `rows`, which gives their name and what they do; the rest are
unknown. What an opcode does is an `Action`: opcodes that differ only in a sign, a
comparison or a digest share a constructor.
-/

namespace AuthScript

namespace Opcode

/-- Rearrangements of the top of the stack. -/
inductive Shuffle where
  | drop
  | dup
  | nip
  | over
  | rot
  | swap
  | tuck
  | drop2
  | dup2
  | dup3
  | over2
  | rot2
  | swap2
deriving DecidableEq

/-- Operations on two items of equal length, bit by bit. -/
inductive Bitwise where
  | and
  | or
  | xor
deriving DecidableEq

/-- Operations on one number. -/
inductive Unary where
  | increment
  | decrement
  | negate
  | abs
  | not
  | notZero
deriving DecidableEq

/-- Operations on two numbers. -/
inductive Binary where
  | add
  | sub
  | mul
  | div
  | mod
  | boolAnd
  | boolOr
  | equal
  | notEqual
  | less
  | greater
  | lessOrEqual
  | greaterOrEqual
  | min
  | max
deriving DecidableEq

/-- Digests of one item. -/
inductive Digest where
  | ripemd160
  | sha1
  | sha256
  | hash160
  | hash256
deriving DecidableEq

/-- What an opcode does. -/
inductive Action where
  /-- Pushes the bytes that come with the instruction. -/
  | push
  /-- Pushes a number. -/
  | constant (n : Int)
  | nop
  /-- Fails where it is executed. -/
  | reserved
  /-- Fails wherever it stands. -/
  | forbidden
  /-- Fails wherever it stands, as an opcode that has been switched off. -/
  | disabled
  /-- Opens a conditional on the top item, negated or not. -/
  | openBranch (negated : Bool)
  | switchBranch
  | closeBranch
  | verify
  | halt
  | toAlt
  | fromAlt
  | shuffle (s : Shuffle)
  | dupIfTrue
  | depth
  | pick
  | roll
  | cat
  | split
  /-- Spells a number with a given number of bytes. -/
  | widen
  /-- Spells a number with as few bytes as possible. -/
  | narrow
  | size
  | reverseBytes
  | bitwise (op : Bitwise)
  | equal (verify : Bool)
  | unary (op : Unary)
  | binary (op : Binary)
  | numEqualVerify
  | within
  | digest (d : Digest)
  | checkDataSig (verify : Bool)
  /-- Reads the spending transaction, which the machine does not have. -/
  | needsTransaction
deriving DecidableEq

/-- An opcode with a name of its own. -/
structure Row where
  opcode : UInt8
  name : String
  action : Action

/-- The opcodes with names of their own. -/
def rows : List Row := [
  ⟨0x00, "OP_0", .push⟩,
  ⟨0x4c, "OP_PUSHDATA1", .push⟩,
  ⟨0x4d, "OP_PUSHDATA2", .push⟩,
  ⟨0x4e, "OP_PUSHDATA4", .push⟩,
  ⟨0x4f, "OP_1NEGATE", .constant (-1)⟩,
  ⟨0x50, "OP_RESERVED", .reserved⟩,
  ⟨0x51, "OP_1", .constant 1⟩,
  ⟨0x52, "OP_2", .constant 2⟩,
  ⟨0x53, "OP_3", .constant 3⟩,
  ⟨0x54, "OP_4", .constant 4⟩,
  ⟨0x55, "OP_5", .constant 5⟩,
  ⟨0x56, "OP_6", .constant 6⟩,
  ⟨0x57, "OP_7", .constant 7⟩,
  ⟨0x58, "OP_8", .constant 8⟩,
  ⟨0x59, "OP_9", .constant 9⟩,
  ⟨0x5a, "OP_10", .constant 10⟩,
  ⟨0x5b, "OP_11", .constant 11⟩,
  ⟨0x5c, "OP_12", .constant 12⟩,
  ⟨0x5d, "OP_13", .constant 13⟩,
  ⟨0x5e, "OP_14", .constant 14⟩,
  ⟨0x5f, "OP_15", .constant 15⟩,
  ⟨0x60, "OP_16", .constant 16⟩,
  ⟨0x61, "OP_NOP", .nop⟩,
  ⟨0x62, "OP_VER", .reserved⟩,
  ⟨0x63, "OP_IF", .openBranch false⟩,
  ⟨0x64, "OP_NOTIF", .openBranch true⟩,
  ⟨0x65, "OP_VERIF", .forbidden⟩,
  ⟨0x66, "OP_VERNOTIF", .forbidden⟩,
  ⟨0x67, "OP_ELSE", .switchBranch⟩,
  ⟨0x68, "OP_ENDIF", .closeBranch⟩,
  ⟨0x69, "OP_VERIFY", .verify⟩,
  ⟨0x6a, "OP_RETURN", .halt⟩,
  ⟨0x6b, "OP_TOALTSTACK", .toAlt⟩,
  ⟨0x6c, "OP_FROMALTSTACK", .fromAlt⟩,
  ⟨0x6d, "OP_2DROP", .shuffle .drop2⟩,
  ⟨0x6e, "OP_2DUP", .shuffle .dup2⟩,
  ⟨0x6f, "OP_3DUP", .shuffle .dup3⟩,
  ⟨0x70, "OP_2OVER", .shuffle .over2⟩,
  ⟨0x71, "OP_2ROT", .shuffle .rot2⟩,
  ⟨0x72, "OP_2SWAP", .shuffle .swap2⟩,
  ⟨0x73, "OP_IFDUP", .dupIfTrue⟩,
  ⟨0x74, "OP_DEPTH", .depth⟩,
  ⟨0x75, "OP_DROP", .shuffle .drop⟩,
  ⟨0x76, "OP_DUP", .shuffle .dup⟩,
  ⟨0x77, "OP_NIP", .shuffle .nip⟩,
  ⟨0x78, "OP_OVER", .shuffle .over⟩,
  ⟨0x79, "OP_PICK", .pick⟩,
  ⟨0x7a, "OP_ROLL", .roll⟩,
  ⟨0x7b, "OP_ROT", .shuffle .rot⟩,
  ⟨0x7c, "OP_SWAP", .shuffle .swap⟩,
  ⟨0x7d, "OP_TUCK", .shuffle .tuck⟩,
  ⟨0x7e, "OP_CAT", .cat⟩,
  ⟨0x7f, "OP_SPLIT", .split⟩,
  ⟨0x80, "OP_NUM2BIN", .widen⟩,
  ⟨0x81, "OP_BIN2NUM", .narrow⟩,
  ⟨0x82, "OP_SIZE", .size⟩,
  ⟨0x83, "OP_INVERT", .disabled⟩,
  ⟨0x84, "OP_AND", .bitwise .and⟩,
  ⟨0x85, "OP_OR", .bitwise .or⟩,
  ⟨0x86, "OP_XOR", .bitwise .xor⟩,
  ⟨0x87, "OP_EQUAL", .equal false⟩,
  ⟨0x88, "OP_EQUALVERIFY", .equal true⟩,
  ⟨0x89, "OP_RESERVED1", .reserved⟩,
  ⟨0x8a, "OP_RESERVED2", .reserved⟩,
  ⟨0x8b, "OP_1ADD", .unary .increment⟩,
  ⟨0x8c, "OP_1SUB", .unary .decrement⟩,
  ⟨0x8d, "OP_2MUL", .disabled⟩,
  ⟨0x8e, "OP_2DIV", .disabled⟩,
  ⟨0x8f, "OP_NEGATE", .unary .negate⟩,
  ⟨0x90, "OP_ABS", .unary .abs⟩,
  ⟨0x91, "OP_NOT", .unary .not⟩,
  ⟨0x92, "OP_0NOTEQUAL", .unary .notZero⟩,
  ⟨0x93, "OP_ADD", .binary .add⟩,
  ⟨0x94, "OP_SUB", .binary .sub⟩,
  ⟨0x95, "OP_MUL", .binary .mul⟩,
  ⟨0x96, "OP_DIV", .binary .div⟩,
  ⟨0x97, "OP_MOD", .binary .mod⟩,
  ⟨0x98, "OP_LSHIFT", .disabled⟩,
  ⟨0x99, "OP_RSHIFT", .disabled⟩,
  ⟨0x9a, "OP_BOOLAND", .binary .boolAnd⟩,
  ⟨0x9b, "OP_BOOLOR", .binary .boolOr⟩,
  ⟨0x9c, "OP_NUMEQUAL", .binary .equal⟩,
  ⟨0x9d, "OP_NUMEQUALVERIFY", .numEqualVerify⟩,
  ⟨0x9e, "OP_NUMNOTEQUAL", .binary .notEqual⟩,
  ⟨0x9f, "OP_LESSTHAN", .binary .less⟩,
  ⟨0xa0, "OP_GREATERTHAN", .binary .greater⟩,
  ⟨0xa1, "OP_LESSTHANOREQUAL", .binary .lessOrEqual⟩,
  ⟨0xa2, "OP_GREATERTHANOREQUAL", .binary .greaterOrEqual⟩,
  ⟨0xa3, "OP_MIN", .binary .min⟩,
  ⟨0xa4, "OP_MAX", .binary .max⟩,
  ⟨0xa5, "OP_WITHIN", .within⟩,
  ⟨0xa6, "OP_RIPEMD160", .digest .ripemd160⟩,
  ⟨0xa7, "OP_SHA1", .digest .sha1⟩,
  ⟨0xa8, "OP_SHA256", .digest .sha256⟩,
  ⟨0xa9, "OP_HASH160", .digest .hash160⟩,
  ⟨0xaa, "OP_HASH256", .digest .hash256⟩,
  ⟨0xab, "OP_CODESEPARATOR", .nop⟩,
  ⟨0xac, "OP_CHECKSIG", .needsTransaction⟩,
  ⟨0xad, "OP_CHECKSIGVERIFY", .needsTransaction⟩,
  ⟨0xae, "OP_CHECKMULTISIG", .needsTransaction⟩,
  ⟨0xaf, "OP_CHECKMULTISIGVERIFY", .needsTransaction⟩,
  ⟨0xb0, "OP_NOP1", .nop⟩,
  ⟨0xb1, "OP_CHECKLOCKTIMEVERIFY", .needsTransaction⟩,
  ⟨0xb2, "OP_CHECKSEQUENCEVERIFY", .needsTransaction⟩,
  ⟨0xb3, "OP_NOP4", .nop⟩,
  ⟨0xb4, "OP_NOP5", .nop⟩,
  ⟨0xb5, "OP_NOP6", .nop⟩,
  ⟨0xb6, "OP_NOP7", .nop⟩,
  ⟨0xb7, "OP_NOP8", .nop⟩,
  ⟨0xb8, "OP_NOP9", .nop⟩,
  ⟨0xb9, "OP_NOP10", .nop⟩,
  ⟨0xba, "OP_CHECKDATASIG", .checkDataSig false⟩,
  ⟨0xbb, "OP_CHECKDATASIGVERIFY", .checkDataSig true⟩,
  ⟨0xbc, "OP_REVERSEBYTES", .reverseBytes⟩]

/-- The row of an opcode. -/
def row? (op : UInt8) : Option Row := rows.find? fun row => row.opcode = op

/-- Whether an opcode pushes as many of the following bytes as its value says. -/
def isDirectPush (op : UInt8) : Bool := 1 ≤ op && op ≤ 0x4b

/-- The display name of an opcode. -/
def name (op : UInt8) : Bytes :=
  match row? op with
  | some row => text row.name
  | none =>
    (if isDirectPush op then text "OP_PUSHBYTES_" else text "OP_UNKNOWN") ++ Bytes.decimal op.toNat

/-- What an opcode does. -/
def action (op : UInt8) : Action :=
  match row? op with
  | some row => row.action
  | none => if isDirectPush op then .push else .reserved

/-- All opcodes in increasing order. -/
def all : List UInt8 := (List.range 256).map Nat.toUInt8

/-- Every opcode under its display name. -/
def table : Table UInt8 := Table.ofList (all.map fun op => (name op, op))

/-- The opcode with a display name. -/
def ofName? (name : Bytes) : Option UInt8 := table.find? name

/-- Whether an opcode only pushes data or is in the range of those that do. -/
def isPush (op : UInt8) : Bool := op ≤ 0x60

/-- The small number that an opcode pushes: minus one, or one to sixteen. -/
def smallNumber? (op : UInt8) : Option Int :=
  if op = 0x4f then some (-1)
  else if 0x51 ≤ op ∧ op ≤ 0x60 then some (op.toNat - 0x50)
  else none

/-- The opcode that pushes a small number. -/
def ofSmallNumber (n : Int) : UInt8 := if n = -1 then 0x4f else (0x50 + n).toNat.toUInt8

end Opcode

end AuthScript
