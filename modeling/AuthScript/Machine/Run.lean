import AuthScript.Machine.Instruction
import AuthScript.Machine.Stack

/-!
# Running programs

A program runs on a stack under limits. Next to the stack there is a second one to
put items aside on, and one flag for each open conditional: instructions take
effect only while all flags are set. Some checks do not wait for that: the size of
pushes, the number of operations, and opcodes that fail wherever they stand.

`step` is one instruction. A run stops at the first instruction that fails, and a
program that is malformed or leaves a conditional open fails at its end.
-/

namespace AuthScript

namespace Machine

/-- What a program may use: bytes of the program, bytes of an item, items on both
stacks together, and operations other than pushes. -/
structure Limits where
  scriptSize : Nat := 10000
  elementSize : Nat := 520
  stackSize : Nat := 1000
  operations : Nat := 201
deriving DecidableEq

/-- The state between two instructions. The flags of the open conditionals and the
stacks have their newest entry first. -/
structure State where
  stack : Stack := []
  alt : Stack := []
  branches : List Bool := []
  operations : Nat := 0
  executed : Nat := 0
deriving DecidableEq

/-- A failure and the state it left. -/
structure Stop where
  error : Error
  state : State
deriving DecidableEq

namespace State

/-- Whether instructions take effect. -/
def isExecuting (s : State) : Bool := s.branches.all id

/-- Fails if both stacks together hold too many items. -/
def checkSize (limits : Limits) (s : State) : Except Stop State :=
  if limits.stackSize < s.stack.length + s.alt.length then .error ⟨.stackSize, s⟩ else .ok s

/-- The state after an operation on the stack. -/
def withStack (s : State) (effect : Effect Stack) : Except Stop State :=
  match effect with
  | .ok stack => .ok { s with stack }
  | .error (e, stack) => .error ⟨e, { s with stack }⟩

/-- Opens a conditional. Its flag is the top item or its negation; where nothing
takes effect the flag is not set. -/
def openBranch (negated : Bool) (s : State) : Except Stop State :=
  if s.isExecuting then
    match s.stack with
    | [] => .error ⟨.unbalancedConditional, s⟩
    | item :: stack => .ok { s with stack, branches := (isTrue item != negated) :: s.branches }
  else .ok { s with branches := false :: s.branches }

/-- Turns the flag of the innermost conditional over. -/
def switchBranch (s : State) : Except Stop State :=
  match s.branches with
  | [] => .error ⟨.unbalancedConditional, s⟩
  | flag :: outer => .ok { s with branches := (!flag) :: outer }

/-- Closes the innermost conditional. -/
def closeBranch (s : State) : Except Stop State :=
  match s.branches with
  | [] => .error ⟨.unbalancedConditional, s⟩
  | _ :: outer => .ok { s with branches := outer }

/-- Moves the top item aside. -/
def toAlt (s : State) : Except Stop State :=
  match s.stack with
  | [] => .error ⟨.invalidStackOperation, s⟩
  | item :: stack => .ok { s with stack, alt := item :: s.alt }

/-- Moves the item put aside last back. -/
def fromAlt (s : State) : Except Stop State :=
  match s.alt with
  | [] => .error ⟨.invalidAltStackOperation, s⟩
  | item :: alt => .ok { s with stack := item :: s.stack, alt }

/-- Pushes the payload of an instruction, which must be spelled minimally. -/
def push (i : Instruction) (s : State) : Except Stop State :=
  if i.isMinimalPush then .ok { s with stack := i.payload :: s.stack }
  else .error ⟨.nonMinimalPush, s⟩

/-- The effect of an action where instructions take effect. -/
def perform (limits : Limits) (action : Opcode.Action) (s : State) : Except Stop State :=
  match action with
  | .constant n => s.withStack (.ok (ScriptNumber.encode n :: s.stack))
  | .nop => .ok s
  | .verify => s.withStack s.stack.verify
  | .halt => .error ⟨.returned, s⟩
  | .toAlt => s.toAlt
  | .fromAlt => s.fromAlt
  | .shuffle op => s.withStack (s.stack.shuffle op)
  | .dupIfTrue =>
    s.withStack (s.stack.aboveTop fun item => if isTrue item then some item else none)
  | .depth => s.withStack (.ok (ScriptNumber.encode s.stack.length :: s.stack))
  | .pick => s.withStack s.stack.pick
  | .roll => s.withStack s.stack.roll
  | .cat => s.withStack (s.stack.cat limits.elementSize)
  | .split => s.withStack s.stack.split
  | .widen => s.withStack (s.stack.widen limits.elementSize)
  | .narrow => s.withStack s.stack.narrow
  | .size => s.withStack (s.stack.aboveTop fun item => some (ScriptNumber.encode item.length))
  | .reverseBytes => s.withStack (s.stack.mapTop List.reverse)
  | .bitwise op => s.withStack (s.stack.bitwise op)
  | .equal verify => s.withStack (s.stack.equal verify)
  | .unary op => s.withStack (s.stack.unary op)
  | .binary op => s.withStack (s.stack.binary op)
  | .numEqualVerify => s.withStack s.stack.numEqualVerify
  | .within => s.withStack s.stack.within
  | .digest d => s.withStack (s.stack.digest d)
  | .checkDataSig verify => s.withStack (s.stack.checkDataSig verify)
  | .needsTransaction => .error ⟨.needsTransaction, s⟩
  | .push | .reserved | .forbidden | .disabled | .openBranch _ | .switchBranch | .closeBranch =>
    .error ⟨.badOpcode, s⟩

/-- Counts an operation that is not a push. -/
def count (limits : Limits) (op : UInt8) (s : State) : Except Stop State :=
  if Opcode.isPush op then .ok s
  else if limits.operations < s.operations + 1 then .error ⟨.opCount, s⟩
  else .ok { s with operations := s.operations + 1 }

end State

/-- The state after an instruction. -/
def step (limits : Limits) (s : State) (i : Instruction) : Except Stop State :=
  let s := { s with executed := s.executed + 1 }
  match Opcode.action i.opcode with
  | .disabled => .error ⟨.disabledOpcode, s⟩
  | .forbidden => .error ⟨.badOpcode, s⟩
  | .push => do
    if limits.elementSize < i.payload.length then .error ⟨.pushSize, s⟩
    else (← if s.isExecuting then s.push i else .ok s).checkSize limits
  | .openBranch negated => do (← s.count limits i.opcode).openBranch negated
  | .switchBranch => do (← s.count limits i.opcode).switchBranch
  | .closeBranch => do (← s.count limits i.opcode).closeBranch
  | action => do
    let s ← s.count limits i.opcode
    if s.isExecuting then (← s.perform limits action).checkSize limits else .ok s

/-- The state after instructions one after another. -/
def steps (limits : Limits) (s : State) (instructions : List Instruction) : Except Stop State :=
  instructions.foldlM (step limits) s

/-- How a run ended: the failure, if any, the stack, and the number of instructions
reached. -/
structure Outcome where
  error : Option Error
  stack : Stack
  executed : Nat
deriving DecidableEq

/-- How a program ends that has been run to its end: a push that is cut off fails
first, then an open conditional. -/
def Program.ending (p : Program) (s : State) : Option Error :=
  if p.malformed then some .malformedPush
  else if s.branches.isEmpty then none
  else some .unbalancedConditional

/-- Runs a program on top of a stack. -/
def execute (limits : Limits) (stack : Stack) (bytecode : Bytes) : Outcome :=
  if limits.scriptSize < bytecode.length then ⟨some .scriptSize, stack, 0⟩
  else
    let program := Program.decode bytecode
    match steps limits { stack } program.instructions with
    | .ok s => ⟨program.ending s, s.stack, s.executed⟩
    | .error stop => ⟨some stop.error, stop.state.stack, stop.state.executed⟩

/-- The bytecode of each whole instruction together with all before it. -/
def wholePrograms (bytecode : Bytes) : List Bytes :=
  let encoded := (Program.decode bytecode).instructions.map Instruction.encode
  (List.range encoded.length).map fun n => (encoded.take (n + 1)).flatten

@[simp] theorem steps_nil (limits : Limits) (s : State) : steps limits s [] = .ok s := rfl

theorem steps_cons (limits : Limits) (s : State) (i : Instruction) (rest : List Instruction) :
    steps limits s (i :: rest) = (step limits s i).bind fun t => steps limits t rest := rfl

/-- Running instructions and then others is running all of them. -/
theorem steps_append (limits : Limits) (s : State) (first second : List Instruction) :
    steps limits s (first ++ second) =
      (steps limits s first).bind fun t => steps limits t second := by
  induction first generalizing s with
  | nil => rfl
  | cons i rest ih =>
    rw [List.cons_append, steps_cons, steps_cons]
    cases step limits s i with
    | error stop => rfl
    | ok t => exact ih t

end Machine

end AuthScript
