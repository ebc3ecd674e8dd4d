import AuthScript.Proofs.PushRun
import AuthScript.Proofs.Reading

/-!
# Operations on operands that are pushed

A program that pushes operands and has one operation behind them leaves on the stack what the
operation makes of the operands (`execute_operation`). So an evaluation of identifiers in
pushes and the name of an opcode comes to what the opcode leaves on top, given the bytes that
the identifiers stand for (`nodeYields_operation`).
-/

namespace AuthScript

open Machine

/-! ## In sources -/

/-- An evaluation of an opcode on identifiers in pushes. -/
def Node.operation (names : List Bytes) (name : Bytes) : Node :=
  .evaluation ((names.map fun operand => .push [.identifier operand {}] {}) ++
    [.identifier name {}]) {}

/-- The source of such an evaluation, with a blank behind each push. -/
def operationSource (names : List Bytes) (name : Bytes) : Bytes :=
  text "$(" ++ (names.flatMap fun operand => text "<" ++ operand ++ text "> ") ++ name ++ text ")"

namespace Token

/-- The tokens inside of such an evaluation. -/
def operands (names : List Bytes) (name : Bytes) : List Token :=
  (names.flatMap fun operand => [pushOpening, ⟨.identifier, operand, {}⟩, pushClosing, blank]) ++
    [⟨.identifier, name, {}⟩]

variable {names : List Bytes} {name : Bytes}

theorem operands_cons (first : Bytes) (names : List Bytes) (name : Bytes) :
    operands (first :: names) name =
      pushOpening :: ⟨.identifier, first, {}⟩ :: pushClosing :: blank :: operands names name := rfl

theorem source_operands (names : List Bytes) (name : Bytes) (rest : List Token) :
    source (operands names name ++ rest) =
      (names.flatMap fun operand => AuthScript.text "<" ++ operand ++ AuthScript.text "> ") ++
        name ++ source rest := by
  induction names with
  | nil => rfl
  | cons first names ih =>
      have closing : pushClosing.text ++ blank.text = AuthScript.text "> " := rfl
      rw [operands_cons]
      simp only [List.cons_append, source_cons, ih, List.flatMap_cons, ← closing,
        List.append_assoc]
      rfl

/-- They are legible in front of a closing bracket. -/
theorem legible_operands (words : ∀ operand ∈ names, Word ⟨.identifier, operand, {}⟩)
    (word : Word ⟨.identifier, name, {}⟩) : Legible (operands names name ++ [evalClosing]) := by
  induction names with
  | nil => exact .word word (word.stops_cons rfl (by decide) []) (.cons .evalClose trivial .nil)
  | cons first names ih =>
      obtain ⟨own, others⟩ := List.forall_mem_cons.1 words
      have stops : Stops .whitespace (source (operands names name ++ [evalClosing])) := by
        cases names with
        | nil => exact word.blank_stops _
        | cons second names => rfl
      exact .pushed own (.cons (.whitespace rfl (by simp)) stops (ih others))

theorem significant_operands (words : ∀ operand ∈ names, Word ⟨.identifier, operand, {}⟩)
    (word : Word ⟨.identifier, name, {}⟩) :
    (significant (operands names name ++ [evalClosing])).map bare =
      ((names.flatMap fun operand => [pushOpening, ⟨.identifier, operand, {}⟩, pushClosing]) ++
        [⟨.identifier, name, {}⟩]) ++ [evalClosing] := by
  induction names with
  | nil => exact congrArg (List.map bare) (word.significant_cons [evalClosing])
  | cons first names ih =>
      obtain ⟨own, others⟩ := List.forall_mem_cons.1 words
      have behind : significant (blank :: (operands names name ++ [evalClosing])) =
          significant (operands names name ++ [evalClosing]) :=
        List.filter_cons_of_neg Bool.false_ne_true
      rw [operands_cons]
      simp only [List.cons_append]
      rw [significant_pushed own, behind]
      simp only [List.map_cons, ih others]
      rfl

theorem reads_operands (digits : Option Nat) (names : List Bytes) (name : Bytes) :
    Reads digits 1 ((names.flatMap fun operand =>
        [pushOpening, ⟨.identifier, operand, {}⟩, pushClosing]) ++ [⟨.identifier, name, {}⟩])
      ((names.map fun operand => .push [.identifier operand {}] {}) ++ [.identifier name {}]) := by
  induction names with
  | nil => exact (spells_identifier name {}).reads.mono (Nat.zero_le 1)
  | cons first names ih => exact (spells_identifier first {}).reads_push.append ih

end Token

/-- An operation on identifiers can be read where two brackets can be opened. -/
theorem Compiler.treeOf?_operation {bounds : Tree.Bounds} {names : List Bytes} {name : Bytes}
    (words : ∀ operand ∈ names, Token.Word ⟨.identifier, operand, {}⟩)
    (word : Token.Word ⟨.identifier, name, {}⟩) (room : 2 ≤ bounds.brackets) :
    (treeOf? bounds (operationSource names name)).map Node.bareAll =
      some [.operation names name] := by
  let tokens := Token.evalOpening :: (Token.operands names name ++ [Token.evalClosing])
  have legible : Token.Legible tokens :=
    .cons .evalOpen trivial (Token.legible_operands words word)
  have source : operationSource names name = Token.source tokens := by
    rw [Token.source_cons, Token.source_operands, operationSource]
    simp only [List.append_assoc]
    rfl
  have significant : (Token.significant tokens).map Token.bare =
      Token.evalOpening :: (((names.flatMap fun operand => [Token.pushOpening,
        ⟨.identifier, operand, {}⟩, Token.pushClosing]) ++ [⟨.identifier, name, {}⟩]) ++
          [Token.evalClosing]) := by
    have opening : Token.significant tokens =
        Token.evalOpening :: Token.significant (Token.operands names name ++ [Token.evalClosing]) :=
      List.filter_cons_of_pos rfl
    rw [opening, List.map_cons, Token.significant_operands words word]
    rfl
  have pair : Tree.isPair Token.evalOpening.kind Token.evalClosing.kind = true := rfl
  have read :=
    Node.ofTokens_of_reads ((Token.reads_operands bounds.digits names name).bracket pair) room
  rw [source, legible.treeOf?, significant, read]
  rfl

/-! ## In the machine -/

/-- The shortest pushes of operands, and an operation behind them. -/
def Push.program (operands : List Bytes) (op : UInt8) : Bytes :=
  (operands.flatMap fun c => (instruction c).encode) ++ [op]

/-- The shortest push has at most five bytes more than its payload. -/
theorem Push.length_encode_instruction_le_add {payload : Bytes} (h : payload.length ≤ maxLength) :
    (instruction payload).encode.length ≤ payload.length + 5 := by
  have wf : (⟨0x4e, payload⟩ : Instruction).WellFormed := by
    unfold maxLength at h
    show payload.length < 256 ^ 4
    omega
  have pushed : (⟨0x4e, payload⟩ : Instruction).pushed? = some payload := rfl
  have upper := length_encode_instruction_le wf pushed
  have width : (⟨0x4e, payload⟩ : Instruction).encode.length = 1 + 4 + payload.length :=
    Instruction.length_encode _
  omega

theorem Push.length_program_le {operands : List Bytes} {n : Nat} (op : UInt8)
    (fits : ∀ c ∈ operands, c.length ≤ n) (room : n ≤ maxLength) :
    (program operands op).length ≤ operands.length * (n + 5) + 1 := by
  have pushes : (operands.flatMap fun c => (instruction c).encode).length ≤
      operands.length * (n + 5) := by
    induction operands with
    | nil => simp
    | cons c operands ih =>
        obtain ⟨first, others⟩ := List.forall_mem_cons.1 fits
        have own := length_encode_instruction_le_add (Nat.le_trans first room)
        have rest := ih others
        rw [List.flatMap_cons, List.length_append, List.length_cons, Nat.succ_mul]
        omega
  rw [program, List.length_append]
  exact Nat.succ_le_succ pushes

namespace Machine

variable {limits : Limits} {operands : List Bytes} {op : UInt8} {s : State}

/-- An opcode that has nothing behind it. -/
def Bare (op : UInt8) : Prop := Opcode.isDirectPush op = false ∧ Instruction.lengthWidth op = 0

theorem decode_program (bare : Bare op) (short : ∀ c ∈ operands, c.length ≤ Push.maxLength) :
    Program.decode (Push.program operands op) =
      ⟨operands.map Push.instruction ++ [⟨op, []⟩], false⟩ := by
  obtain ⟨direct, width⟩ := bare
  have wf : ∀ i ∈ operands.map Push.instruction ++ [⟨op, []⟩], i.WellFormed := by
    intro i hi
    rcases List.mem_append.1 hi with hi | hi
    · obtain ⟨c, hc, rfl⟩ := List.mem_map.1 hi
      exact Push.wellFormed_instruction (short c hc)
    · obtain rfl := List.mem_singleton.1 hi
      simp [Instruction.WellFormed, direct, width]
  have bytes : Push.program operands op =
      (operands.map Push.instruction ++ [(⟨op, []⟩ : Instruction)]).flatMap
        Instruction.encode := by
    rw [Push.program, List.flatMap_append, List.flatMap_map, List.flatMap_singleton,
      Instruction.encode_eq, width, Bytes.littleEndian_zero]
    rfl
  rw [bytes]
  exact Program.decode_flatMap_encode wf

/-- Operands that are pushed are on the stack when the operation behind them runs. -/
theorem execute_operation (bare : Bare op)
    (short : ∀ c ∈ operands, c.length ≤ min Push.maxLength limits.elementSize)
    (room : operands.length ≤ limits.stackSize)
    (size : (Push.program operands op).length ≤ limits.scriptSize)
    (h : step limits { stack := operands.reverse, executed := operands.length } ⟨op, []⟩ = .ok s)
    (closed : s.branches = []) :
    execute limits [] (Push.program operands op) = ⟨none, s.stack, s.executed⟩ := by
  have fits : ∀ c ∈ operands, c.length ≤ limits.elementSize :=
    fun c hc => Nat.le_trans (short c hc) (Nat.min_le_right _ _)
  have decoded := decode_program bare fun c hc =>
    Nat.le_trans (short c hc) (Nat.min_le_left _ _)
  have empty : ({} : State).stack.length + ({} : State).alt.length + operands.length ≤
      limits.stackSize := by simpa using room
  have pushed : steps limits {} (operands.map Push.instruction) =
      .ok { stack := operands.reverse, executed := operands.length } := by
    rw [steps_instructions rfl fits empty]
    simp
  have run : steps limits {} (operands.map Push.instruction ++ [⟨op, []⟩]) = .ok s := by
    rw [steps_append, pushed]
    simp only [Except.bind, steps_cons, h, steps_nil]
  rw [execute, if_neg (Nat.not_lt.2 size), decoded]
  dsimp only
  rw [run]
  simp [Program.ending, closed]

end Machine

namespace Context

variable {ctx : Context} {p : Place}

/-- What the machine of this library leaves on top is what an evaluation comes to. -/
theorem evaluates_of_execute {limits : Limits}
    (machine : ctx.invoker.machine ctx.env = some (interpreter limits)) {program b : Bytes}
    {outcome : Outcome} (h : execute limits [] program = outcome) (ended : outcome.error = none)
    (top : outcome.stack.head? = some b) : ctx.Evaluates program b := by
  have run : (interpreter limits program).value = ⟨none, outcome.stack, outcome.executed⟩ := by
    simp only [interpreter, h, ended]
    rfl
  refine ⟨_, machine, ?_, ?_⟩
  · rw [run]
  · rw [run]
    exact top

/-- Identifiers in pushes come to the shortest pushes of the bytes that they stand for. -/
theorem yields_pushes {names operands : List Bytes} (room : p.brackets < ctx.options.nestingDepth)
    (short : ∀ c ∈ operands, c.length ≤ Push.maxLength)
    (h : List.Forall₂ (ctx.Denotes p.inBracket) names operands) :
    ctx.Yields p (names.map fun name => .push [.identifier name {}] {})
      (operands.flatMap fun c => (Push.instruction c).encode) := by
  induction h with
  | nil => exact yields_nil.2 rfl
  | @cons name c names operands first _ ih =>
      obtain ⟨fits, others⟩ := List.forall_mem_cons.1 short
      have contents : ctx.Yields p.inBracket [.identifier name {}] c :=
        yields_singleton.2 (nodeYields_identifier.2 first)
      have own : ctx.NodeYields p (.push [.identifier name {}] {}) (Push.instruction c).encode :=
        nodeYields_push.2 ⟨room, c, contents, Push.encode?_eq_some.2 ⟨fits, rfl⟩⟩
      exact yields_cons.2 ⟨_, _, own, ih others, rfl⟩

/-- Identifiers in pushes come to bytes only if each of them stands for some. -/
theorem denotes_of_yields_pushes {names : List Bytes} {b : Bytes}
    (h : ctx.Yields p (names.map fun name => .push [.identifier name {}] {}) b) :
    ∃ operands, List.Forall₂ (ctx.Denotes p.inBracket) names operands := by
  induction names generalizing b with
  | nil => exact ⟨[], .nil⟩
  | cons name names ih =>
      obtain ⟨_, _, first, others, _⟩ := yields_cons.1 h
      obtain ⟨_, c, contents, _⟩ := nodeYields_push.1 first
      obtain ⟨operands, denoted⟩ := ih others
      exact ⟨c :: operands, .cons (nodeYields_identifier.1 (yields_singleton.1 contents)) denoted⟩

/-- So does an operation on them. -/
theorem denotes_of_nodeYields_operation {names : List Bytes} {name b : Bytes}
    (h : ctx.NodeYields p (.operation names name) b) :
    ∃ operands, List.Forall₂ (ctx.Denotes p.inBracket.inEvaluation.inBracket) names operands := by
  obtain ⟨_, _, _, yields, _⟩ := nodeYields_evaluation.1 h
  obtain ⟨_, _, pushes, _⟩ := yields_append.1 yields
  exact denotes_of_yields_pushes pushes

/-- An evaluation of an operation on identifiers comes to what the operation leaves on top of
the bytes that they stand for. -/
theorem nodeYields_operation {limits : Limits}
    (machine : ctx.invoker.machine ctx.env = some (interpreter limits))
    (brackets : p.brackets + 1 < ctx.options.nestingDepth)
    (evaluations : p.evaluations < ctx.options.evaluationDepth) {names operands : List Bytes}
    (h : List.Forall₂ (ctx.Denotes p.inBracket.inEvaluation.inBracket) names operands)
    {name : Bytes} {op : UInt8} (operation : Meaning.ofName ctx.env name = .ok (.opcode op))
    (bare : Bare op)
    (short : ∀ c ∈ operands, c.length ≤ min Push.maxLength limits.elementSize)
    (room : operands.length ≤ limits.stackSize)
    (size : (Push.program operands op).length ≤ limits.scriptSize) {s : State}
    (hstep : step limits { stack := operands.reverse, executed := operands.length } ⟨op, []⟩ =
      .ok s)
    (closed : s.branches = []) {b : Bytes} (top : s.stack.head? = some b) :
    ctx.NodeYields p (.operation names name) b := by
  have run := execute_operation bare short room size hstep closed
  have pushes := yields_pushes (p := p.inBracket.inEvaluation) brackets
    (fun c hc => Nat.le_trans (short c hc) (Nat.min_le_left _ _)) h
  have opcode : ctx.Yields p.inBracket.inEvaluation [.identifier name {}] [op] := by
    rw [yields_singleton, nodeYields_identifier, Denotes, operation]
  refine nodeYields_evaluation.2 ⟨Nat.lt_of_succ_lt brackets, evaluations, _, ?_,
    evaluates_of_execute machine run rfl top⟩
  exact yields_append.2 ⟨_, _, pushes, opcode, rfl⟩

end Context

end AuthScript
