import AuthScript.Bytes

/-!
# Failures of the machine

Each way a program can fail is a constructor, with one sentence for it.
-/

namespace AuthScript

namespace Machine

/-- Why a program fails. -/
inductive Error where
  /-- No answer of a program: what is computed is undefined. -/
  | unknown
  | returned
  | scriptSize
  | pushSize
  | opCount
  | stackSize
  | malformedPush
  | nonMinimalPush
  | disabledOpcode
  | badOpcode
  | unbalancedConditional
  | invalidStackOperation
  | invalidAltStackOperation
  | numberRange
  | divisionByZero
  | moduloByZero
  | splitRange
  | operandSize
  | impossibleEncoding
  | verifyFailed
  | equalVerifyFailed
  | numEqualVerifyFailed
  | checkDataSigVerifyFailed
  | signatureShape
  | publicKeyForm
  | needsTransaction
deriving DecidableEq

namespace Error

/-- All failures. -/
def all : List Error :=
  [unknown, returned, scriptSize, pushSize, opCount, stackSize, malformedPush, nonMinimalPush,
    disabledOpcode, badOpcode, unbalancedConditional, invalidStackOperation,
    invalidAltStackOperation, numberRange, divisionByZero, moduloByZero, splitRange, operandSize,
    impossibleEncoding, verifyFailed, equalVerifyFailed, numEqualVerifyFailed,
    checkDataSigVerifyFailed, signatureShape, publicKeyForm, needsTransaction]

/-- The sentence for a failure. -/
def message : Error → Bytes
  | unknown => text "Unknown error"
  | returned => text "OP_RETURN was encountered"
  | scriptSize => text "Script is too large"
  | pushSize => text "Push value size limit exceeded"
  | opCount => text "Operation limit exceeded"
  | stackSize => text "Stack size limit exceeded"
  | malformedPush => text "Push runs past the end of the script"
  | nonMinimalPush => text "Data push is not minimally encoded"
  | disabledOpcode => text "Attempted to use a disabled opcode"
  | badOpcode => text "Opcode missing or not understood"
  | unbalancedConditional => text "Invalid OP_IF construction"
  | invalidStackOperation => text "Operation not valid with the current stack size"
  | invalidAltStackOperation => text "Operation not valid with the current altstack size"
  | numberRange => text "Script number overflow or non-minimal encoding"
  | divisionByZero => text "Division by zero"
  | moduloByZero => text "Modulo by zero"
  | splitRange => text "OP_SPLIT index out of range"
  | operandSize => text "Operands must have equal length"
  | impossibleEncoding => text "Number does not fit the requested size"
  | verifyFailed => text "Script failed an OP_VERIFY operation"
  | equalVerifyFailed => text "Script failed an OP_EQUALVERIFY operation"
  | numEqualVerifyFailed => text "Script failed an OP_NUMEQUALVERIFY operation"
  | checkDataSigVerifyFailed => text "Script failed an OP_CHECKDATASIGVERIFY operation"
  | signatureShape => text "Non-canonical DER signature"
  | publicKeyForm => text "Public key is neither compressed nor uncompressed"
  | needsTransaction => text "Opcode requires a transaction context"

/-- The sentence for the outcome of a program, which may be no failure. -/
def describe : Option Error → Bytes
  | none => text "No error"
  | some e => e.message

end Error

end Machine

end AuthScript
