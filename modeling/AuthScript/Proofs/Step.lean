import AuthScript.Machine.Run
import AuthScript.Proofs.Run

/-!
# What one instruction does

An instruction is a push, opens, switches or closes a conditional, fails wherever it stands, or
is ordinary: it counts as an operation unless its opcode is in the range of pushes, and takes
effect only where the flags of all open conditionals are set. `step` has one equation for each
of these kinds. What takes effect reads and changes nothing but the two stacks (`perform_eq`).

Of a run that does not fail, three things are known from the instructions alone: how many they
are, how many of them count (`counted`), and how many conditionals they leave open
(`depthAfter`, which is none if one is switched or closed that is not open). And it does not let
the stacks grow beyond their limit. That is `steps_progress`. The state in which the run of a
whole program ends, whether it fails or not, is `final`.
-/

namespace AuthScript

open Machine

namespace Opcode.Action

/-- An action that is neither a push nor about conditionals, and that fails only where it takes
effect. -/
def IsOrdinary : Action → Bool
  | .push | .disabled | .forbidden | .openBranch _ | .switchBranch | .closeBranch => false
  | _ => true

theorem kinds (a : Action) :
    a = .disabled ∨ a = .forbidden ∨ a = .push ∨ (∃ negated, a = .openBranch negated) ∨
      a = .switchBranch ∨ a = .closeBranch ∨ a.IsOrdinary = true := by
  cases a <;> simp [IsOrdinary]

end Opcode.Action

namespace Opcode

/-- An opcode does what its row says. Without a row it is a direct push, or reserved. -/
theorem action_cases (op : UInt8) :
    (∃ row ∈ rows, row.opcode = op ∧ action op = row.action) ∨
      row? op = none ∧ (isDirectPush op = true ∧ action op = .push ∨ action op = .reserved) := by
  unfold action
  cases hrow : row? op with
  | some row =>
      have opcode : row.opcode = op := by simpa using List.find?_some hrow
      exact .inl ⟨row, List.mem_of_find?_eq_some hrow, opcode, rfl⟩
  | none =>
      refine .inr ⟨rfl, ?_⟩
      cases hdirect : isDirectPush op with
      | true => exact .inl ⟨rfl, rfl⟩
      | false => exact .inr rfl

theorem isPush_of_action {op : UInt8} (h : action op = .push) : isPush op = true := by
  have pushes : rows.all (fun row => row.action != .push || isPush row.opcode) = true := rfl
  rcases action_cases op with ⟨row, listed, rfl, same⟩ | ⟨_, ⟨direct, _⟩ | reserved⟩
  · have own := List.all_eq_true.1 pushes row listed
    rw [← same, h] at own
    exact own
  · simp only [isDirectPush, Bool.and_eq_true, decide_eq_true_eq] at direct
    exact decide_eq_true (UInt8.le_trans direct.2 (by decide))
  · rw [reserved] at h
    cases h

end Opcode

namespace Machine

open Opcode (action isPush)

/-! ## Instructions by themselves -/

namespace Instruction

/-- The number of operations that an instruction counts as. -/
def operations (i : Instruction) : Nat := if isPush i.opcode then 0 else 1

/-- The number of conditionals that are open behind an instruction with `n` open before it;
none if it is about one that is not open. -/
def depthAfter (n : Nat) (i : Instruction) : Option Nat :=
  match action i.opcode with
  | .openBranch _ => some (n + 1)
  | .switchBranch => if n = 0 then none else some n
  | .closeBranch => if n = 0 then none else some (n - 1)
  | _ => some n

theorem depthAfter_of_ordinary {i : Instruction} (h : (action i.opcode).IsOrdinary = true)
    (n : Nat) : i.depthAfter n = some n := by
  unfold depthAfter
  generalize action i.opcode = a at h
  cases a <;> first | rfl | cases h

end Instruction

/-- The number of operations among instructions. -/
def counted : List Instruction → Nat
  | [] => 0
  | i :: rest => i.operations + counted rest

@[simp] theorem counted_nil : counted [] = 0 := rfl

@[simp] theorem counted_cons (i : Instruction) (rest : List Instruction) :
    counted (i :: rest) = i.operations + counted rest := rfl

@[simp] theorem counted_append (first second : List Instruction) :
    counted (first ++ second) = counted first + counted second := by
  induction first with
  | nil => simp
  | cons i rest ih => rw [List.cons_append, counted_cons, counted_cons, ih, Nat.add_assoc]

/-- The number of conditionals that are open behind instructions with `n` open before them. -/
def depthAfter (n : Nat) (instructions : List Instruction) : Option Nat :=
  instructions.foldlM (fun n i => i.depthAfter n) n

theorem depthAfter_cons (n : Nat) (i : Instruction) (rest : List Instruction) :
    depthAfter n (i :: rest) = (i.depthAfter n).bind fun m => depthAfter m rest := rfl

/-! ## The parts of a step -/

namespace State

variable {limits : Limits} {s t : State} {op : UInt8}

/-- The state when one more instruction is reached. -/
def reached (s : State) : State := { s with executed := s.executed + 1 }

/-- The number of items on both stacks. -/
def size (s : State) : Nat := s.stack.length + s.alt.length

/-- The state behind an operation that leaves a stack. -/
def after (s : State) (stack : Stack) : State :=
  { s with stack, operations := s.operations + 1, executed := s.executed + 1 }

/-- Opcodes take effect in this state, another one may be counted, and there are not too many
items. -/
structure Ready (limits : Limits) (s : State) : Prop where
  executing : s.isExecuting = true
  few : s.operations < limits.operations
  room : s.size ≤ limits.stackSize

namespace Ready

variable {stack : Stack} (ready : s.Ready limits) (fewer : stack.length ≤ s.stack.length)

include ready fewer

theorem withStack : ({ s with stack } : State).Ready limits :=
  ⟨ready.executing, ready.few, Nat.le_trans (Nat.add_le_add_right fewer _) ready.room⟩

theorem after (few : s.operations + 1 < limits.operations) : (s.after stack).Ready limits :=
  ⟨ready.executing, few, (ready.withStack fewer).room⟩

end Ready

theorem checkSize_eq_ok_iff : s.checkSize limits = .ok t ↔ s.size ≤ limits.stackSize ∧ s = t := by
  unfold checkSize
  split
  · rename_i large
    simp [size, Nat.not_le.2 large]
  · rename_i room
    simp [size, Nat.not_lt.1 room]

theorem count_of_room {i : Instruction} (room : s.operations + i.operations ≤ limits.operations) :
    s.count limits i.opcode = .ok { s with operations := s.operations + i.operations } := by
  unfold Instruction.operations at room ⊢
  unfold count
  split
  · rfl
  · rename_i counts
    rw [if_neg counts] at room
    rw [if_neg (Nat.not_lt.2 room)]

theorem count_eq_ok {i : Instruction} (h : s.count limits i.opcode = .ok t) :
    { s with operations := s.operations + i.operations } = t := by
  unfold Instruction.operations
  unfold count at h
  split at h
  · rename_i pushes
    rw [if_pos pushes]
    exact Except.ok.inj h
  · rename_i counts
    rw [if_neg counts]
    split at h
    · cases h
    · exact Except.ok.inj h

/-- What comes of a state whose stacks have been worked on elsewhere. -/
def keeping (s : State) : Except Stop State → Except Stop State
  | .ok t => .ok { s with stack := t.stack, alt := t.alt }
  | .error stop =>
    .error ⟨stop.error, { s with stack := stop.state.stack, alt := stop.state.alt }⟩

/-- The state with nothing but its stacks. -/
def bare (s : State) : State := { stack := s.stack, alt := s.alt }

theorem withStack_eq (s : State) (effect : Effect Stack) :
    s.withStack effect = s.keeping (s.bare.withStack effect) := by
  cases effect <;> rfl

/-- What an action does is a matter of the stacks. -/
theorem perform_eq (limits : Limits) (a : Opcode.Action) (s : State) :
    s.perform limits a = s.keeping (s.bare.perform limits a) := by
  obtain ⟨stack, alt, branches, operations, executed⟩ := s
  cases a with
  | toAlt => cases stack <;> rfl
  | fromAlt => cases alt <;> rfl
  | _ => first | rfl | exact withStack_eq _ _

theorem perform_eq_ok {a : Opcode.Action} (h : s.perform limits a = .ok t) :
    { s with stack := t.stack, alt := t.alt } = t := by
  rw [perform_eq] at h
  cases hbare : s.bare.perform limits a with
  | error stop =>
      rw [hbare] at h
      cases h
  | ok u =>
      rw [hbare] at h
      obtain rfl := Except.ok.inj h
      rfl

theorem openBranch_eq_ok {negated : Bool} (h : s.openBranch negated = .ok t) :
    ∃ flag stack, stack.length ≤ s.stack.length ∧
      { s with stack, branches := flag :: s.branches } = t := by
  unfold openBranch at h
  split at h
  · split at h
    · cases h
    · rename_i item stack hstack
      refine ⟨_, stack, ?_, Except.ok.inj h⟩
      rw [hstack]
      exact Nat.le_succ _
  · exact ⟨false, s.stack, Nat.le_refl _, Except.ok.inj h⟩

theorem switchBranch_eq_ok (h : s.switchBranch = .ok t) :
    ∃ flag outer, s.branches = flag :: outer ∧ { s with branches := (!flag) :: outer } = t := by
  unfold switchBranch at h
  split at h
  · cases h
  · rename_i flag outer hbranches
    exact ⟨flag, outer, hbranches, Except.ok.inj h⟩

theorem closeBranch_eq_ok (h : s.closeBranch = .ok t) :
    ∃ flag outer, s.branches = flag :: outer ∧ { s with branches := outer } = t := by
  unfold closeBranch at h
  split at h
  · cases h
  · rename_i flag outer hbranches
    exact ⟨flag, outer, hbranches, Except.ok.inj h⟩

end State

/-! ## The equations of a step -/

section

variable {limits : Limits} {s t : State} {i : Instruction}

theorem step_of_disabled (h : action i.opcode = .disabled) :
    step limits s i = .error ⟨.disabledOpcode, s.reached⟩ := by
  simp only [step, h]
  rfl

theorem step_of_forbidden (h : action i.opcode = .forbidden) :
    step limits s i = .error ⟨.badOpcode, s.reached⟩ := by
  simp only [step, h]
  rfl

theorem step_of_push (h : action i.opcode = .push) :
    step limits s i =
      if limits.elementSize < i.payload.length then .error ⟨.pushSize, s.reached⟩
      else (if s.isExecuting then s.reached.push i else .ok s.reached).bind
        (State.checkSize limits) := by
  simp only [step, h]
  split
  · rfl
  · split
    · rename_i executing
      have own : s.isExecuting = true := executing
      rw [if_pos own]
      rfl
    · rename_i idle
      have own : ¬ s.isExecuting = true := idle
      rw [if_neg own]
      rfl

theorem step_of_openBranch {negated : Bool} (h : action i.opcode = .openBranch negated) :
    step limits s i = (s.reached.count limits i.opcode).bind (State.openBranch negated) := by
  simp only [step, h]
  rfl

theorem step_of_switchBranch (h : action i.opcode = .switchBranch) :
    step limits s i = (s.reached.count limits i.opcode).bind State.switchBranch := by
  simp only [step, h]
  rfl

theorem step_of_closeBranch (h : action i.opcode = .closeBranch) :
    step limits s i = (s.reached.count limits i.opcode).bind State.closeBranch := by
  simp only [step, h]
  rfl

theorem step_of_ordinary (h : (action i.opcode).IsOrdinary = true) :
    step limits s i = (s.reached.count limits i.opcode).bind fun t =>
      if t.isExecuting then (t.perform limits (action i.opcode)).bind (State.checkSize limits)
      else .ok t := by
  unfold step
  generalize action i.opcode = a at h
  cases a <;> first | rfl | cases h

/-- An opcode that counts and is an operation on the stack. -/
structure Operates (limits : Limits) (op : UInt8) (effect : Stack → Effect Stack) : Prop where
  ordinary : (action op).IsOrdinary = true
  counts : isPush op = false
  performs : ∀ t : State, t.perform limits (action op) = t.withStack (effect t.stack)

section

variable {op : UInt8} {effect : Stack → Effect Stack} (operates : Operates limits op effect)

include operates

/-- An operation on the stack that takes effect puts what it leaves in the place of the stack
before. If it does not fail, the number of items is checked behind it. -/
theorem step_of_operates (executing : s.isExecuting = true)
    (few : s.operations < limits.operations) :
    step limits s ⟨op, []⟩ =
      ((s.after s.stack).withStack (effect s.stack)).bind (State.checkSize limits) := by
  have own : (⟨op, []⟩ : Instruction).operations = 1 := by
    unfold Instruction.operations
    rw [operates.counts]
    rfl
  have counted : s.reached.count limits op = .ok (s.after s.stack) := by
    have room : s.reached.operations + (⟨op, []⟩ : Instruction).operations ≤
        limits.operations := by
      rw [own]
      exact few
    have count := State.count_of_room room
    rwa [own] at count
  have executing' : (s.after s.stack).isExecuting = true := executing
  have reached : (s.after s.stack).stack = s.stack := rfl
  rw [step_of_ordinary operates.ordinary, counted]
  simp only [Except.bind, executing', if_true, operates.performs, reached]

/-- There is nothing to check if the operation does not add to the stack. -/
theorem step_of_ready {r : Effect Stack} (ready : s.Ready limits) (result : effect s.stack = r)
    (shrinks : ∀ stack, r = .ok stack → stack.length ≤ s.stack.length) :
    step limits s ⟨op, []⟩ = (s.after s.stack).withStack r := by
  rw [step_of_operates operates ready.executing ready.few, result]
  cases r with
  | error failure => rfl
  | ok stack =>
      exact State.checkSize_eq_ok_iff.2 ⟨(ready.withStack (shrinks stack rfl)).room, rfl⟩

end

/-- An operation on the stack that takes effect puts another stack in the place of the one
before, where that has room. -/
theorem step_of_effect {op : UInt8} {effect : Stack → Effect Stack} {stack : Stack}
    (ordinary : (action op).IsOrdinary = true) (counts : isPush op = false)
    (performs : ∀ t : State, t.perform limits (action op) = t.withStack (effect t.stack))
    (executing : s.isExecuting = true) (few : s.operations < limits.operations)
    (result : effect s.stack = .ok stack)
    (room : stack.length + s.alt.length ≤ limits.stackSize) :
    step limits s ⟨op, []⟩ =
      .ok { s with stack, operations := s.operations + 1, executed := s.executed + 1 } := by
  rw [step_of_operates ⟨ordinary, counts, performs⟩ executing few, result]
  exact State.checkSize_eq_ok_iff.2 ⟨room, rfl⟩

/-! ## What is known of a run that does not fail -/

/-- What an instruction that does not fail makes of a state: stacks of some kind, the flags of
the conditionals that are open behind it, and counts that are larger by the instruction. -/
theorem step_eq_ok (h : step limits s i = .ok t) :
    ∃ stack alt branches, i.depthAfter s.branches.length = some branches.length ∧
      (s.size ≤ limits.stackSize → stack.length + alt.length ≤ limits.stackSize) ∧
      { stack, alt, branches, operations := s.operations + i.operations,
        executed := s.executed + 1 } = t := by
  unfold Instruction.depthAfter
  rcases (action i.opcode).kinds with ha | ha | ha | ⟨negated, ha⟩ | ha | ha | ha
  · rw [step_of_disabled ha] at h
    cases h
  · rw [step_of_forbidden ha] at h
    cases h
  · have free : i.operations = 0 := if_pos (Opcode.isPush_of_action ha)
    rw [step_of_push ha] at h
    split at h
    · cases h
    · obtain ⟨u, hu, ht⟩ := except_bind_eq_ok.1 h
      obtain ⟨room, rfl⟩ := State.checkSize_eq_ok_iff.1 ht
      rw [ha, free]
      split at hu
      · unfold State.push at hu
        split at hu
        · obtain rfl := Except.ok.inj hu
          exact ⟨_, _, _, rfl, fun _ => room, rfl⟩
        · cases hu
      · obtain rfl := Except.ok.inj hu
        exact ⟨_, _, _, rfl, fun _ => room, rfl⟩
  · rw [step_of_openBranch ha] at h
    obtain ⟨u, hu, ht⟩ := except_bind_eq_ok.1 h
    obtain rfl := State.count_eq_ok hu
    obtain ⟨flag, stack, shorter, rfl⟩ := State.openBranch_eq_ok ht
    rw [ha]
    exact ⟨_, _, _, rfl, fun room => Nat.le_trans (Nat.add_le_add_right shorter _) room, rfl⟩
  · rw [step_of_switchBranch ha] at h
    obtain ⟨u, hu, ht⟩ := except_bind_eq_ok.1 h
    obtain rfl := State.count_eq_ok hu
    obtain ⟨flag, outer, hbranches, rfl⟩ := State.switchBranch_eq_ok ht
    have branches : s.branches = flag :: outer := hbranches
    rw [ha, branches]
    exact ⟨_, _, (!flag) :: outer, rfl, id, rfl⟩
  · rw [step_of_closeBranch ha] at h
    obtain ⟨u, hu, ht⟩ := except_bind_eq_ok.1 h
    obtain rfl := State.count_eq_ok hu
    obtain ⟨flag, outer, hbranches, rfl⟩ := State.closeBranch_eq_ok ht
    have branches : s.branches = flag :: outer := hbranches
    rw [ha, branches]
    exact ⟨_, _, _, rfl, id, rfl⟩
  · rw [step_of_ordinary ha] at h
    obtain ⟨u, hu, ht⟩ := except_bind_eq_ok.1 h
    obtain rfl := State.count_eq_ok hu
    have depth := Instruction.depthAfter_of_ordinary ha s.branches.length
    unfold Instruction.depthAfter at depth
    rw [depth]
    split at ht
    · obtain ⟨v, hv, hsize⟩ := except_bind_eq_ok.1 ht
      obtain ⟨room, rfl⟩ := State.checkSize_eq_ok_iff.1 hsize
      exact ⟨_, _, _, rfl, fun _ => room, State.perform_eq_ok hv⟩
    · obtain rfl := Except.ok.inj ht
      exact ⟨_, _, _, rfl, id, rfl⟩

theorem steps_cons_eq_ok {rest : List Instruction} :
    steps limits s (i :: rest) = .ok t ↔
      ∃ u, step limits s i = .ok u ∧ steps limits u rest = .ok t := by
  rw [steps_cons]
  exact except_bind_eq_ok

/-- What is known of a state behind instructions from the state before them. -/
structure Progress (limits : Limits) (s : State) (instructions : List Instruction) (t : State) :
    Prop where
  executed : t.executed = s.executed + instructions.length
  operations : t.operations = s.operations + counted instructions
  depth : depthAfter s.branches.length instructions = some t.branches.length
  size : s.size ≤ limits.stackSize → t.size ≤ limits.stackSize

theorem steps_progress {instructions : List Instruction}
    (h : steps limits s instructions = .ok t) : Progress limits s instructions t := by
  induction instructions generalizing s with
  | nil =>
      obtain rfl := Except.ok.inj h
      exact ⟨rfl, rfl, rfl, id⟩
  | cons i rest ih =>
      obtain ⟨u, hstep, hrest⟩ := steps_cons_eq_ok.1 h
      obtain ⟨stack, alt, branches, depth, room, rfl⟩ := step_eq_ok hstep
      have others := ih hrest
      refine ⟨?_, ?_, ?_, fun fits => others.size (room fits)⟩
      · rw [others.executed, List.length_cons, Nat.add_right_comm]
        rfl
      · rw [others.operations, counted_cons, Nat.add_assoc]
      · rw [depthAfter_cons, depth]
        exact others.depth

end

/-! ## Whole programs -/

/-- The state in which the run of a program ends: at the end of the program, or where an
instruction fails. -/
def final (limits : Limits) (stack : Stack) (bytecode : Bytes) : State :=
  if limits.scriptSize < bytecode.length then { stack }
  else
    match steps limits { stack } (Program.decode bytecode).instructions with
    | .ok s => s
    | .error stop => stop.state

section

variable {limits : Limits} {stack : Stack} {bytecode : Bytes}

theorem execute_of_ok {s : State} (size : bytecode.length ≤ limits.scriptSize)
    (h : steps limits { stack } (Program.decode bytecode).instructions = .ok s) :
    execute limits stack bytecode = ⟨(Program.decode bytecode).ending s, s.stack, s.executed⟩ ∧
      final limits stack bytecode = s := by
  simp only [execute, final, if_neg (Nat.not_lt.2 size), h, and_self]

theorem execute_of_error {stop : Stop} (size : bytecode.length ≤ limits.scriptSize)
    (h : steps limits { stack } (Program.decode bytecode).instructions = .error stop) :
    execute limits stack bytecode =
        ⟨some stop.error, stop.state.stack, stop.state.executed⟩ ∧
      final limits stack bytecode = stop.state := by
  simp only [execute, final, if_neg (Nat.not_lt.2 size), h, and_self]

theorem final_stack :
    (final limits stack bytecode).stack = (execute limits stack bytecode).stack := by
  unfold final execute
  split
  · rfl
  · split <;> simp only [*]

/-- A program that does not fail has been read and run to its end, with no conditional open. -/
theorem execute_eq_none (h : (execute limits stack bytecode).error = none) :
    ∃ s, steps limits { stack } (Program.decode bytecode).instructions = .ok s ∧
      (Program.decode bytecode).malformed = false ∧ s.branches = [] := by
  by_cases size : bytecode.length ≤ limits.scriptSize
  · cases hsteps : steps limits { stack } (Program.decode bytecode).instructions with
    | error stop =>
        rw [(execute_of_error size hsteps).1] at h
        cases h
    | ok s =>
        rw [(execute_of_ok size hsteps).1] at h
        simp only [Program.ending] at h
        split at h
        · cases h
        · rename_i whole
          split at h
          · rename_i closed
            exact ⟨s, rfl, Bool.eq_false_iff.2 whole, List.isEmpty_iff.1 closed⟩
          · cases h
  · rw [execute, if_pos (Nat.not_le.1 size)] at h
    cases h

end

end Machine

end AuthScript
