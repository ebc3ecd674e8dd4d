import AuthScript.Diagnostic
import AuthScript.Log.Line
import AuthScript.Machine.Run
import AuthScript.Signing.Serialization
import AuthScript.Table

/-!
# Environments

A compilation reads an environment, which says what names mean, and data, which
give the values of variables. What a variable stands for is computed by operations,
one binding for each capability; a binding may hold an operation to call and one to
wait for. Operations and virtual machines are functions of what they are given, and
tell what they do in log lines. The numbers that literals are read as may be limited
too; that limit is the environment's.
-/

namespace AuthScript

/-- The values that a compilation may use, by the names of their variables.
Signatures that have been made already are under the full identifier. -/
structure Data where
  privateKeys : Table Bytes := ∅
  publicKeys : Table Bytes := ∅
  signatures : Table Bytes := ∅
  walletData : Table Bytes := ∅
  addressData : Table Bytes := ∅
  currentBlockHeight : Option UInt32 := none
  currentBlockTime : Option UInt32 := none
  transaction : Option Transaction := none

/-- What an identifier of a variable asks for. -/
structure Request where
  /-- The whole identifier. -/
  identifier : Bytes
  /-- The variable it belongs to. -/
  variableId : Bytes
  /-- The segments after the variable. -/
  path : List Bytes := []
  /-- The definition of the variable; a built-in variable has none. -/
  definition : Option Variable := none
  /-- The script that is being compiled. -/
  script : Bytes
  /-- The bytecode of the locking script, where it is covered. -/
  covered : Option Bytes := none
  /-- The bytecode of the script that is signed as data. -/
  signed : Option Bytes := none

/-- Why an operation gives no bytes: it refuses, or it breaks off. -/
inductive Refusal where
  | refused (fault : Fault)
  | thrown (what : Bytes)
deriving DecidableEq

/-- An operation. -/
abbrev Handler := Request → Data → Logged (Except Refusal Bytes)

/-- The operations bound to a capability: one to call and one to wait for. -/
structure Binding where
  sync : Option Handler := none
  async : Option Handler := none

namespace Binding

/-- Whether some operation is bound. -/
def isBound (b : Binding) : Bool := b.sync.isSome || b.async.isSome

/-- The binding itself if it is bound, else another. -/
def orElse (b other : Binding) : Binding := if b.isBound then b else other

end Binding

/-- What an identifier may require. -/
inductive Capability where
  | key
  | signature
  | hash
  | walletData
  | transactionContext
  | scriptComposition
deriving DecidableEq

namespace Capability

/-- All capabilities. -/
def all : List Capability :=
  [key, signature, hash, walletData, transactionContext, scriptComposition]

/-- The name of a capability. -/
def name : Capability → Bytes
  | key => text "Key"
  | signature => text "Signature"
  | hash => text "Hash"
  | walletData => text "WalletData"
  | transactionContext => text "TransactionContext"
  | scriptComposition => text "ScriptComposition"

end Capability

/-- The bindings of the capabilities that operations serve. Scripts are composed by
the compiler itself. -/
structure Operations where
  key : Binding := {}
  signature : Binding := {}
  hash : Binding := {}
  walletData : Binding := {}
  transactionContext : Binding := {}

namespace Operations

/-- The binding of a capability. -/
def binding? (ops : Operations) : Capability → Option Binding
  | .key => some ops.key
  | .signature => some ops.signature
  | .hash => some ops.hash
  | .walletData => some ops.walletData
  | .transactionContext => some ops.transactionContext
  | .scriptComposition => none

/-- The bindings with those of a second list in place of the empty ones. -/
def fillMissing (ops defaults : Operations) : Operations where
  key := ops.key.orElse defaults.key
  signature := ops.signature.orElse defaults.signature
  hash := ops.hash.orElse defaults.hash
  walletData := ops.walletData.orElse defaults.walletData
  transactionContext := ops.transactionContext.orElse defaults.transactionContext

end Operations

/-- How a virtual machine ended: the words for a failure, if there was one, the stack,
and the number of instructions. -/
structure Evaluation where
  failure : Option Bytes := none
  stack : Machine.Stack := []
  executed : Nat := 0
deriving DecidableEq

/-- Anything that runs programs. -/
abbrev VirtualMachine := Bytes → Logged Evaluation

/-- The machine of this library under limits, on an empty stack. -/
def interpreter (limits : Machine.Limits) : VirtualMachine := fun program =>
  let outcome := Machine.execute limits [] program
  match outcome.error with
  | none => .silent ⟨none, outcome.stack, outcome.executed⟩
  | some e =>
    ⟨[⟨.trace, .machine, text "evaluation failed after " ++ Bytes.decimal outcome.executed ++
        text " instructions: " ++ e.message⟩],
      ⟨some e.message, outcome.stack, outcome.executed⟩⟩

/-- What names mean, and what computes their values. -/
structure Environment where
  opcodes : Table UInt8 := ∅
  /-- The definitions of the variables. -/
  definitions : Table Variable := ∅
  /-- The source of each script. -/
  scripts : Table Bytes := ∅
  /-- The entity that owns a variable. -/
  owners : Table Bytes := ∅
  /-- The locking script that a script unlocks. -/
  unlocks : Table Bytes := ∅
  /-- The type of a locking script. -/
  lockingTypes : Table Bytes := ∅
  /-- The type of the time lock of an unlocking script. -/
  timeLockTypes : Table Bytes := ∅
  operations : Operations := {}
  machine : Option VirtualMachine := none
  asyncMachine : Option VirtualMachine := none
  /-- How many digits the numbers in sources may have, if there is a limit. -/
  digits : Option Nat := none

/-- How deep a compilation may go. -/
structure Options where
  /-- The number of script references on a path. -/
  referenceDepth : Nat := 32
  /-- The number of open evaluations. -/
  evaluationDepth : Nat := 64
  /-- The number of open brackets. -/
  nestingDepth : Nat := 256
deriving DecidableEq

end AuthScript
