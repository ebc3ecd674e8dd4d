import AuthScript.Bytecode.Literal

/-!
# Resolved trees

A resolved node is a syntax node whose identifiers and evaluations have become
bytes. Its bytecode is these bytes; only a push looks at its children, and pushes
their bytecode, the innermost push first.
-/

namespace AuthScript

/-- A node whose bytes are known. -/
inductive Resolved where
  | literal (bytes : Bytes) (range : Range)
  /-- An identifier that names an opcode. -/
  | opcode (name : Bytes) (op : UInt8) (range : Range)
  | push (children : List Resolved) (range : Range)
  /-- An evaluation and the item it left on top of the stack. -/
  | evaluation (children : List Resolved) (result : Bytes) (range : Range)
  /-- An identifier that stands for data or for a script. -/
  | bytecode (name : Bytes) (bytes : Bytes) (range : Range)

namespace Resolved

/-- The kinds of resolved nodes. -/
inductive Kind where
  | literal
  | opcode
  | push
  | evaluation
  | bytecode
deriving DecidableEq

namespace Kind

/-- All kinds. -/
def all : List Kind := [literal, opcode, push, evaluation, bytecode]

/-- The name of a kind. -/
def name : Kind → Bytes
  | literal => text "Literal"
  | opcode => text "Opcode"
  | push => text "Push"
  | evaluation => text "Evaluation"
  | bytecode => text "Bytecode"

end Kind

/-- The kind of a node. -/
def kind : Resolved → Kind
  | literal .. => .literal
  | opcode .. => .opcode
  | push .. => .push
  | evaluation .. => .evaluation
  | bytecode .. => .bytecode

/-- The range of the syntax node. -/
def range : Resolved → Range
  | literal _ r | opcode _ _ r | push _ r | evaluation _ _ r | bytecode _ _ r => r

/-- The identifier that a node was, if it was one. -/
def label : Resolved → Bytes
  | opcode name _ _ | bytecode name _ _ => name
  | _ => []

/-- The nodes directly inside a node. -/
def children : Resolved → List Resolved
  | push c _ | evaluation c _ _ => c
  | _ => []

/-- The bytes that a node holds itself; a push holds none. -/
def ownBytes : Resolved → Bytes
  | literal b _ | evaluation _ b _ | bytecode _ b _ => b
  | opcode _ op _ => [op]
  | push .. => []

mutual

/-- The bytecode of a node. -/
def generate : Resolved → Except CompileError Bytes
  | push children range =>
    match generateAll children with
    | .ok contents => Push.encodeAt range contents
    | .error e => .error e
  | literal b _ => .ok b
  | opcode _ op _ => .ok [op]
  | evaluation _ b _ => .ok b
  | bytecode _ b _ => .ok b

/-- The bytecode of nodes one after another. -/
def generateAll : List Resolved → Except CompileError Bytes
  | [] => .ok []
  | node :: rest =>
    match generate node with
    | .ok b =>
      match generateAll rest with
      | .ok c => .ok (b ++ c)
      | .error e => .error e
    | .error e => .error e

end

@[simp] theorem generateAll_nil : generateAll [] = .ok [] := by rw [generateAll]

theorem generateAll_cons_eq_ok {node : Resolved} {rest : List Resolved} {b : Bytes} :
    generateAll (node :: rest) = .ok b ↔
      ∃ own other, generate node = .ok own ∧ generateAll rest = .ok other ∧ own ++ other = b := by
  rw [generateAll]
  cases generate node with
  | error e => simp
  | ok own => cases generateAll rest <;> simp

theorem generate_push_eq_ok {children : List Resolved} {range : Range} {b : Bytes} :
    generate (.push children range) = .ok b ↔
      ∃ contents, generateAll children = .ok contents ∧ Push.encode? contents = some b := by
  rw [generate]
  cases generateAll children with
  | error e => simp
  | ok contents => simp [Push.encodeAt_eq_ok]

theorem generateAll_singleton (node : Resolved) : generateAll [node] = generate node := by
  rw [generateAll]
  cases generate node <;> simp

end Resolved

end AuthScript
