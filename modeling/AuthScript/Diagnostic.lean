import AuthScript.Bytes.Hex
import AuthScript.Fault
import AuthScript.Source.Range
import AuthScript.Variable

/-!
# Compile errors

A compile error has a cause, the range of the source it points at, the script that
range belongs to, and the chain of scripts that led there, from the root of the
compilation down to the direct parent. Causes are told apart by constructors; the
stage a cause belongs to and the words it is reported in are functions of it.
-/

namespace AuthScript

/-- The stages of a compilation. -/
inductive Stage where
  | lex
  | parse
  | resolve
  | evaluation
  | encoding
deriving DecidableEq

namespace Stage

/-- All stages. -/
def all : List Stage := [lex, parse, resolve, evaluation, encoding]

/-- The name of a stage. -/
def name : Stage → Bytes
  | lex => text "Lex"
  | parse => text "Parse"
  | resolve => text "Resolve"
  | evaluation => text "Evaluation"
  | encoding => text "Encoding"

end Stage

/-- The name spaces in which an identifier is looked up. -/
inductive NameSpace where
  | opcode
  | variable_
  | script
deriving DecidableEq

/-- The word for a name space. -/
def NameSpace.word : NameSpace → Bytes
  | opcode => text "opcode"
  | variable_ => text "variable"
  | script => text "script"

/-- Why an evaluation gives no value. -/
inductive EvaluationFailure where
  | noMachine
  | failed (reason : Bytes)
  | emptyStack
deriving DecidableEq

/-- Why a compilation fails. -/
inductive Cause where
  | unexpectedCharacter (c : UInt8)
  | badHexCharacter (c : UInt8)
  | badIntegerCharacter (c : UInt8)
  | unterminatedComment
  | unterminatedString
  | crossedBracket (found opened : Bytes) (openedAt : Range)
  | unmatchedBracket (bracket : Bytes)
  | nestingTooDeep (limit : Nat)
  | malformedInteger (reason : Bytes)
  | emptyHex (literal : Bytes)
  | oddHex (digits : Bytes)
  | invalidHex (digits : Bytes)
  | pushTooLong (length : Nat)
  | unknownScript (id : Bytes)
  | referenceCycle (chain : List Bytes) (id : Bytes)
  | referenceTooDeep (limit : Nat) (id : Bytes)
  | bracketsTooDeep (limit : Nat)
  | unknownIdentifier (name : Bytes)
  | ambiguousIdentifier (name : Bytes) (spaces : List NameSpace)
  | bareKey (variableId : Bytes)
  | unknownOperation (name : Bytes) (kind : Variable.Kind) (variableId : Bytes)
  | unlocksNothing (name script : Bytes)
  | signsUnknownScript (name target : Bytes)
  | refused (fault : Fault)
  | thrown (what : Bytes)
  | evaluationTooDeep (limit : Nat)
  | evaluation (range : Range) (failure : EvaluationFailure)
deriving DecidableEq

namespace Cause

/-- The stage a cause belongs to. -/
def stage : Cause → Stage
  | unexpectedCharacter _ | badHexCharacter _ | badIntegerCharacter _ | unterminatedComment
  | unterminatedString => .lex
  | crossedBracket .. | unmatchedBracket _ | nestingTooDeep _ | malformedInteger _
  | emptyHex _ => .parse
  | oddHex _ | invalidHex _ | pushTooLong _ => .encoding
  | evaluationTooDeep _ | evaluation .. => .evaluation
  | unknownScript _ | referenceCycle .. | referenceTooDeep .. | bracketsTooDeep _
  | unknownIdentifier _ | ambiguousIdentifier .. | bareKey _ | unknownOperation ..
  | unlocksNothing .. | signsUnknownScript .. | refused _ | thrown _ => .resolve

/-- A byte as messages show it, control characters by their number. -/
def printable (c : UInt8) : Bytes := if c < 0x20 then text "\\x" ++ Hex.digits c else [c]

/-- The words for an evaluation without a value. -/
def failureMessage : EvaluationFailure → Bytes
  | .noMachine => text "cannot run: no virtual machine is available"
  | .failed reason => text "failed: " ++ reason
  | .emptyStack => text "left an empty stack"

/-- The words in which a cause is reported. -/
def message : Cause → Bytes
  | unexpectedCharacter c => text "unexpected character " ++ quoted (printable c)
  | badHexCharacter c =>
    text "invalid character " ++ quoted (printable c) ++ text " in hex literal"
  | badIntegerCharacter c =>
    text "invalid character " ++ quoted (printable c) ++ text " in integer literal"
  | unterminatedComment => text "unterminated block comment"
  | unterminatedString => text "unterminated string literal"
  | crossedBracket found opened openedAt =>
    text "unexpected " ++ quoted found ++ text "; " ++ quoted opened ++ text " at " ++
      openedAt.format ++ text " is not closed"
  | unmatchedBracket bracket => text "unmatched " ++ quoted bracket
  | nestingTooDeep limit => text "bracket nesting exceeds " ++ Bytes.decimal limit
  | malformedInteger reason => reason
  | emptyHex literal =>
    text "malformed hex literal " ++ quoted literal ++ text ": no digits"
  | oddHex digits =>
    text "hex literal " ++ quoted (text "0x" ++ digits) ++ text " has an odd number of digits"
  | invalidHex digits => text "invalid hex literal " ++ quoted (text "0x" ++ digits)
  | pushTooLong length =>
    text "push of " ++ Bytes.decimal length ++ text " bytes exceeds the OP_PUSHDATA4 limit"
  | unknownScript id => text "unknown script " ++ quoted id
  | referenceCycle chain id =>
    text "script reference cycle: " ++ Bytes.join (text " -> ") (chain ++ [id])
  | referenceTooDeep limit id =>
    text "script reference depth exceeds " ++ Bytes.decimal limit ++ text " at " ++ quoted id
  | bracketsTooDeep limit =>
    text "bracket nesting across script references exceeds " ++ Bytes.decimal limit
  | unknownIdentifier name => text "unknown identifier " ++ quoted name
  | ambiguousIdentifier name spaces =>
    text "ambiguous identifier " ++ quoted name ++ text " matches more than one of: " ++
      Bytes.join (text ", ") (spaces.map NameSpace.word)
  | bareKey variableId =>
    text "Key variable " ++ quoted variableId ++ text " must name an operation, e.g. " ++
      quoted (variableId ++ text ".public_key")
  | unknownOperation name kind variableId =>
    text "unknown operation " ++ quoted name ++ text " on " ++ kind.name ++ text " variable " ++
      quoted variableId
  | unlocksNothing name script =>
    text "identifier " ++ quoted name ++ text " covers a locking script, but script " ++
      quoted script ++ text " unlocks none"
  | signsUnknownScript name target =>
    text "identifier " ++ quoted name ++ text " signs unknown script " ++ quoted target
  | refused fault => fault.message
  | thrown what => text "operation failed: " ++ what
  | evaluationTooDeep limit => text "evaluation nesting exceeds " ++ Bytes.decimal limit
  | evaluation range failure =>
    text "evaluation at " ++ range.format ++ text " " ++ failureMessage failure

end Cause

/-- What is reported of a failure: its stage, if known, the words, and the place. -/
structure Report where
  stage : Option Stage
  message : Bytes
  range : Range := {}
  script : Bytes := []
  chain : List Bytes := []

namespace Report

/-- The name of the stage. -/
def stageName (r : Report) : Bytes := (r.stage.map Stage.name).getD (text "Unknown")

/-- The report with the script that referenced the head of its chain. -/
def referencedBy (r : Report) (id : Bytes) : Report := { r with chain := id :: r.chain }

/-- One line: the stage, the script and its chain where there are any, the place and
the words. -/
def format (r : Report) : Bytes :=
  r.stageName ++ text " error" ++
    (if r.script.isEmpty then [] else text " in " ++ quoted r.script) ++
    (if r.chain.isEmpty then []
      else text " (via " ++ Bytes.join (text " -> ") (r.chain.map quoted) ++ text ")") ++
    text " at " ++ r.range.format ++ text ": " ++ r.message

end Report

/-- A located cause, with the script it happened in and the chain of scripts that led
there. The script is empty until it is known. -/
structure CompileError where
  cause : Cause
  range : Range := {}
  script : Bytes := []
  chain : List Bytes := []
deriving DecidableEq

namespace CompileError

/-- The stage the compilation failed in. -/
def stage (e : CompileError) : Stage := e.cause.stage

/-- What is reported of an error. -/
def report (e : CompileError) : Report :=
  ⟨some e.stage, e.cause.message, e.range, e.script, e.chain⟩

/-- The error as it leaves a script: the script is where it happened, or one that led
there. -/
def within (e : CompileError) (id : Bytes) : CompileError :=
  if e.script.isEmpty then { e with script := id } else { e with chain := id :: e.chain }

@[simp] theorem cause_within (e : CompileError) (id : Bytes) : (e.within id).cause = e.cause := by
  unfold within
  split <;> rfl

@[simp] theorem range_within (e : CompileError) (id : Bytes) : (e.within id).range = e.range := by
  unfold within
  split <;> rfl

end CompileError

end AuthScript
