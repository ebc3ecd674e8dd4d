import AuthScript.Proofs.Frame

/-!
# Conditionals

The machine has no tree of branches, only the flags of the open conditionals. Instructions that
are balanced, in that they close what they open and switch and close nothing else, leave the
flags under their own as they are. So where one of those is not set, balanced instructions only
count, unless one is among them that fails wherever it stands (`steps_idle`); and where all of
them are set, they do what they do without the innermost one (`steps_inBranch`). A conditional
with balanced branches then does what the branch that is taken does by itself
(`Conditional.visible_steps`), and the conditionals around it are open as before.
-/

namespace AuthScript

namespace Machine

open Opcode (action)

/-- Instructions that close the conditionals that they open, and switch and close no others. -/
def Balanced (instructions : List Instruction) : Prop := depthAfter 0 instructions = some 0

instance decidableBalanced (instructions : List Instruction) : Decidable (Balanced instructions) :=
  inferInstanceAs (Decidable (depthAfter 0 instructions = some 0))

/-- `OP_VERIF` and `OP_VERNOTIF`, and the disabled `OP_INVERT`, `OP_2MUL`, `OP_2DIV`, `OP_LSHIFT`
and `OP_RSHIFT`. -/
def failingOpcodes : List UInt8 := [0x65, 0x66, 0x83, 0x8d, 0x8e, 0x98, 0x99]

/-- An instruction that does not fail where nothing takes effect. -/
def Instruction.Skippable (limits : Limits) (i : Instruction) : Prop :=
  i.opcode ∉ failingOpcodes ∧ (action i.opcode = .push → i.payload.length ≤ limits.elementSize)

instance Instruction.decidableSkippable (limits : Limits) (i : Instruction) :
    Decidable (i.Skippable limits) :=
  inferInstanceAs (Decidable (_ ∧ _))

/-- These are the opcodes that fail wherever they stand. -/
theorem mem_failingOpcodes_iff {op : UInt8} :
    op ∈ failingOpcodes ↔ action op = .disabled ∨ action op = .forbidden := by
  have known : Opcode.rows.all (fun row => decide (row.opcode ∈ failingOpcodes ↔
      row.action = .disabled ∨ row.action = .forbidden)) = true := rfl
  have listed : failingOpcodes.all (fun op => (Opcode.row? op).isSome) = true := rfl
  rcases Opcode.action_cases op with ⟨row, hrow, rfl, same⟩ | ⟨unlisted, fine⟩
  · have own := List.all_eq_true.1 known row hrow
    rw [same]
    exact of_decide_eq_true own
  · refine iff_of_false (fun member => ?_) ?_
    · have some := List.all_eq_true.1 listed op member
      rw [unlisted] at some
      cases some
    · rcases fine with ⟨_, push⟩ | reserved
      · rw [push]
        simp
      · rw [reserved]
        simp

/-! ## Where nothing takes effect -/

/-- A state behind instructions that only counted. -/
def State.passed (s : State) (branches : List Bool) (instructions : List Instruction) : State :=
  { s with
    branches
    operations := s.operations + counted instructions
    executed := s.executed + instructions.length }

theorem State.passed_passed (s : State) (branches branches' : List Bool)
    (first second : List Instruction) :
    (s.passed branches first).passed branches' second = s.passed branches' (first ++ second) := by
  simp [passed, Nat.add_assoc]

variable {limits : Limits} {s : State} {i : Instruction} {flag : Bool} {outer : List Bool}

theorem step_switch (ha : action i.opcode = .switchBranch) (branches : s.branches = flag :: outer)
    (room : s.operations + i.operations ≤ limits.operations) :
    step limits s i = .ok (s.passed ((!flag) :: outer) [i]) := by
  rw [step_of_switchBranch ha, State.count_of_room (s := s.reached) room]
  show State.switchBranch _ = _
  simp only [State.switchBranch, State.reached, branches]
  rfl

theorem step_close (ha : action i.opcode = .closeBranch) (branches : s.branches = flag :: outer)
    (room : s.operations + i.operations ≤ limits.operations) :
    step limits s i = .ok (s.passed outer [i]) := by
  rw [step_of_closeBranch ha, State.count_of_room (s := s.reached) room]
  show State.closeBranch _ = _
  simp only [State.closeBranch, State.reached, branches]
  rfl

section

variable (idle : outer.all id = false)

include idle

theorem step_idle {inner : List Bool} {depth : Nat} (branches : s.branches = inner ++ outer)
    (skippable : i.Skippable limits) (fits : s.size ≤ limits.stackSize)
    (room : s.operations + i.operations ≤ limits.operations)
    (hdepth : i.depthAfter inner.length = some depth) :
    ∃ flags, flags.length = depth ∧ step limits s i = .ok (s.passed (flags ++ outer) [i]) := by
  have executing : s.isExecuting = false := by
    rw [State.isExecuting, branches, List.all_append, idle, Bool.and_false]
  have counts : s.reached.count limits i.opcode = .ok (s.passed s.branches [i]) :=
    State.count_of_room (s := s.reached) room
  have counted_isExecuting : (s.passed s.branches [i]).isExecuting = false := executing
  obtain ⟨fine, short⟩ := skippable
  rw [mem_failingOpcodes_iff, not_or] at fine
  unfold Instruction.depthAfter at hdepth
  rcases (action i.opcode).kinds with ha | ha | ha | ⟨negated, ha⟩ | ha | ha | ha
  · exact absurd ha fine.1
  · exact absurd ha fine.2
  · rw [ha] at hdepth
    have free : counted [i] = 0 := if_pos (Opcode.isPush_of_action ha)
    refine ⟨inner, Option.some.inj hdepth, ?_⟩
    rw [step_of_push ha, if_neg (Nat.not_lt.2 (short ha)), executing, ← branches, State.passed,
      free]
    exact State.checkSize_eq_ok_iff.2 ⟨fits, rfl⟩
  · rw [ha] at hdepth
    refine ⟨false :: inner, Option.some.inj hdepth, ?_⟩
    rw [step_of_openBranch ha, counts]
    show State.openBranch _ _ = _
    rw [State.openBranch, counted_isExecuting, List.cons_append, ← branches]
    rfl
  · rw [ha] at hdepth
    cases inner with
    | nil => cases hdepth
    | cons flag inner =>
        exact ⟨(!flag) :: inner, Option.some.inj hdepth, step_switch ha branches room⟩
  · rw [ha] at hdepth
    cases inner with
    | nil => cases hdepth
    | cons flag inner => exact ⟨inner, Option.some.inj hdepth, step_close ha branches room⟩
  · have same := Instruction.depthAfter_of_ordinary ha inner.length
    refine ⟨inner, Option.some.inj (same.symm.trans hdepth), ?_⟩
    rw [step_of_ordinary ha, counts, ← branches]
    show (if _ then _ else _) = _
    rw [counted_isExecuting]
    rfl

/-- Where the flag of a conditional is not set, instructions that leave it alone only count. -/
theorem steps_idle {instructions : List Instruction} {inner : List Bool} {depth : Nat}
    (branches : s.branches = inner ++ outer)
    (skippable : ∀ i ∈ instructions, i.Skippable limits) (fits : s.size ≤ limits.stackSize)
    (room : s.operations + counted instructions ≤ limits.operations)
    (hdepth : depthAfter inner.length instructions = some depth) :
    ∃ flags, flags.length = depth ∧
      steps limits s instructions = .ok (s.passed (flags ++ outer) instructions) := by
  induction instructions generalizing s inner with
  | nil =>
      refine ⟨inner, Option.some.inj hdepth, ?_⟩
      rw [← branches]
      rfl
  | cons i rest ih =>
      obtain ⟨own, others⟩ := List.forall_mem_cons.1 skippable
      rw [counted_cons] at room
      obtain ⟨next, hfirst, hrest⟩ := Option.bind_eq_some_iff.1 hdepth
      obtain ⟨flags, hflags, hstep⟩ := step_idle idle branches own fits (by omega) hfirst
      have roomRest : (s.passed (flags ++ outer) [i]).operations + counted rest ≤
          limits.operations := by
        show s.operations + (i.operations + 0) + counted rest ≤ limits.operations
        omega
      rw [← hflags] at hrest
      obtain ⟨last, hlast, hsteps⟩ := ih (s := s.passed (flags ++ outer) [i]) rfl others fits
        roomRest hrest
      refine ⟨last, hlast, ?_⟩
      rw [steps_cons, hstep]
      exact hsteps.trans (congrArg Except.ok (State.passed_passed _ _ _ _ _))

end

/-- Balanced instructions in a conditional whose flag is not set only count. -/
theorem steps_skipped {body : List Instruction} (branches : s.branches = false :: outer)
    (balanced : Balanced body) (skippable : ∀ i ∈ body, i.Skippable limits)
    (fits : s.size ≤ limits.stackSize) (room : s.operations + counted body ≤ limits.operations) :
    steps limits s body = .ok (s.passed (false :: outer) body) := by
  have idle : (false :: outer).all id = false := rfl
  have own : s.branches = [] ++ false :: outer := branches
  obtain ⟨flags, closed, hsteps⟩ := steps_idle idle own skippable fits room balanced
  obtain rfl := List.length_eq_zero_iff.1 closed
  exact hsteps

/-! ## Where everything takes effect -/

/-- What a run comes to without its counts: the stacks and the open conditionals, or a failure
and the stacks that it left. -/
def visible : Except Stop State → Except (Error × Stack × Stack) (Stack × Stack × List Bool)
  | .ok s => .ok (s.stack, s.alt, s.branches)
  | .error stop => .error (stop.error, stop.state.stack, stop.state.alt)

/-- A state in a conditional whose flag is set, behind operations and instructions that counted
only there. -/
def State.inBranch (s : State) (operations executed : Nat) : State :=
  { s with
    branches := true :: s.branches
    operations := s.operations + operations
    executed := s.executed + executed }

/-- Balanced instructions do in a conditional whose flag is set what they do outside of it. -/
theorem steps_inBranch (executing : s.isExecuting = true) {body : List Instruction}
    (balanced : Balanced body) {operations : Nat} (executed : Nat)
    (room : s.operations + operations + counted body ≤ limits.operations) :
    (∃ stop stop', steps limits s body = .error stop ∧
        steps limits (s.inBranch operations executed) body = .error stop' ∧
        visible (.error stop') = visible (.error stop)) ∨
      ∃ t, steps limits s body = .ok t ∧ t.branches = s.branches ∧
        steps limits (s.inBranch operations executed) body =
          .ok (t.inBranch operations executed) := by
  -- both are the run with no conditional open, in two frames
  let bare : State := { s with branches := [] }
  let outside : Frame := { outer := s.branches }
  let inside : Frame := { outer := true :: s.branches, operations, executed }
  have hs : s = outside.state bare := rfl
  have hbranch : s.inBranch operations executed = inside.state bare := rfl
  have leaves : (depthAfter bare.branches.length body).isSome = true :=
    Option.isSome_of_mem balanced
  have roomBare : bare.operations + outside.operations + counted body ≤ limits.operations := by
    show s.operations + 0 + counted body ≤ limits.operations
    omega
  have hout : steps limits s body = outside.result (steps limits bare body) :=
    Frame.steps_state (f := outside) (s := bare) executing roomBare (.inr leaves)
  have hin : steps limits (s.inBranch operations executed) body =
      inside.result (steps limits bare body) :=
    Frame.steps_state (f := inside) (s := bare) executing room (.inr leaves)
  rw [hout, hin]
  cases hbody : steps limits bare body with
  | error stop => exact .inl ⟨_, _, rfl, rfl, rfl⟩
  | ok t =>
      have closed : t.branches = [] := by
        have depth := (steps_progress hbody).depth
        exact List.length_eq_zero_iff.1 (Option.some.inj (depth.symm.trans balanced))
      refine .inr ⟨_, rfl, ?_, ?_⟩
      · show t.branches ++ s.branches = s.branches
        rw [closed]
        rfl
      · simp [Frame.result, Frame.state, State.inBranch, inside, outside, closed]

/-! ## The taken branch -/

namespace Instruction

/-- `OP_IF`, or `OP_NOTIF` for the negated one. -/
def opening (negated : Bool) : Instruction := { opcode := if negated then 0x64 else 0x63 }

/-- `OP_ELSE`. -/
def switching : Instruction := { opcode := 0x67 }

/-- `OP_ENDIF`. -/
def closing : Instruction := { opcode := 0x68 }

theorem action_opening (negated : Bool) :
    action (opening negated).opcode = .openBranch negated := by
  cases negated <;> rfl

theorem action_switching : action switching.opcode = .switchBranch := rfl

theorem action_closing : action closing.opcode = .closeBranch := rfl

@[simp] theorem operations_opening (negated : Bool) : (opening negated).operations = 1 := by
  cases negated <;> rfl

@[simp] theorem operations_switching : switching.operations = 1 := rfl

@[simp] theorem operations_closing : closing.operations = 1 := rfl

end Instruction

/-- A conditional: `OP_IF` or `OP_NOTIF`, a branch, maybe another one behind `OP_ELSE`, and
`OP_ENDIF`. The branches are balanced. -/
structure Conditional where
  negated : Bool
  first : List Instruction
  second : Option (List Instruction)
  balancedFirst : Balanced first
  balancedSecond : Balanced (second.getD [])

namespace Conditional

/-- The instructions between the first branch and the end. -/
def alternative (c : Conditional) : List Instruction :=
  match c.second with
  | none => []
  | some second => .switching :: second

/-- All of its instructions. -/
def instructions (c : Conditional) : List Instruction :=
  .opening c.negated :: (c.first ++ (c.alternative ++ [.closing]))

/-- The branch that is taken for an item on top of the stack. A branch that is left out has no
instructions. -/
def taken (c : Conditional) (item : Bytes) : List Instruction :=
  if isTrue item != c.negated then c.first else c.second.getD []

/-- The branch that is not taken. -/
def skipped (c : Conditional) (item : Bytes) : List Instruction :=
  if isTrue item != c.negated then c.second.getD [] else c.first

theorem counted_instructions (c : Conditional) :
    counted c.instructions = 1 + (counted c.first + (counted c.alternative + 1)) := by
  simp [instructions]

/-- Opening takes the item off the stack, and its truth or the opposite is the flag. -/
theorem step_opening {negated : Bool} {item : Bytes} (executing : s.isExecuting = true)
    (room : s.operations + 1 ≤ limits.operations) :
    step limits { s with stack := item :: s.stack } (.opening negated) =
      .ok (s.passed ((isTrue item != negated) :: s.branches) [.opening negated]) := by
  let before : State := { s with stack := item :: s.stack }
  have own : before.reached.operations + (Instruction.opening negated).operations ≤
      limits.operations := by
    rw [Instruction.operations_opening]
    exact room
  have counts := State.count_of_room own
  rw [Instruction.operations_opening] at counts
  rw [step_of_openBranch (Instruction.action_opening negated)]
  refine (congrArg (Except.bind · (State.openBranch negated)) counts).trans ?_
  have still : State.isExecuting { before.reached with operations := s.operations + 1 } = true :=
    executing
  show State.openBranch _ { before.reached with operations := s.operations + 1 } = _
  rw [State.openBranch, still]
  simp [before, State.reached, State.passed]

/-- Behind the first branch, if that is the one that is taken, the second one only counts. -/
theorem steps_alternative {c : Conditional} (branches : s.branches = true :: outer)
    (skippable : ∀ i ∈ c.second.getD [], i.Skippable limits) (fits : s.size ≤ limits.stackSize)
    (room : s.operations + counted c.alternative ≤ limits.operations) :
    ∃ flag, steps limits s c.alternative = .ok (s.passed (flag :: outer) c.alternative) := by
  have balanced := c.balancedSecond
  unfold alternative at room ⊢
  cases hsecond : c.second with
  | none =>
      refine ⟨true, ?_⟩
      rw [← branches]
      rfl
  | some second =>
      rw [hsecond] at balanced skippable room
      rw [counted_cons, Instruction.operations_switching] at room
      have roomSwitching : s.operations + Instruction.switching.operations ≤ limits.operations := by
        rw [Instruction.operations_switching]
        omega
      have switched := step_switch Instruction.action_switching branches roomSwitching
      have roomSecond : (s.passed (false :: outer) [.switching]).operations + counted second ≤
          limits.operations := by
        show s.operations + 1 + counted second ≤ limits.operations
        omega
      have idle := steps_skipped (s := s.passed (false :: outer) [.switching]) rfl balanced
        skippable fits roomSecond
      rw [State.passed_passed] at idle
      refine ⟨false, ?_⟩
      rw [steps_cons, switched]
      exact idle

/-- A branch that is taken, and instructions behind it that do nothing but close its
conditional. -/
theorem visible_steps_taken {body rest : List Instruction} (executing : s.isExecuting = true)
    (balanced : Balanced body) {operations executed : Nat}
    (room : s.operations + operations + counted body ≤ limits.operations)
    (closing : ∀ t, Progress limits s body t → ∃ u,
      steps limits (t.inBranch operations executed) rest = .ok u ∧
        visible (.ok u) = visible (.ok t)) :
    visible (steps limits (s.inBranch operations executed) (body ++ rest)) =
      visible (steps limits s body) := by
  rw [steps_append]
  rcases steps_inBranch executing balanced executed room with
    ⟨stop, stop', alone, inside, same⟩ | ⟨t, alone, -, inside⟩
  · rw [inside, alone]
    exact same
  · obtain ⟨u, hu, same⟩ := closing t (steps_progress alone)
    rw [inside, alone]
    exact (congrArg visible hu).trans same

/-- The end of a conditional leaves nothing of it but the counts. -/
theorem steps_closing (branches : s.branches = flag :: outer)
    (room : s.operations + 1 ≤ limits.operations) :
    steps limits s [.closing] = .ok (s.passed outer [.closing]) := by
  rw [steps_cons, step_close Instruction.action_closing branches room]
  rfl

section

variable {c : Conditional} (executing : s.isExecuting = true) (fits : s.size ≤ limits.stackSize)
  (room : s.operations + counted c.instructions ≤ limits.operations)

include executing fits room

/-- Behind the opening, if the flag is set. -/
theorem visible_steps_first (skippable : ∀ i ∈ c.second.getD [], i.Skippable limits) :
    visible (steps limits (s.passed (true :: s.branches) [.opening c.negated])
        (c.first ++ (c.alternative ++ [.closing]))) =
      visible (steps limits s c.first) := by
  rw [counted_instructions] at room
  have entered : s.passed (true :: s.branches) [.opening c.negated] = s.inBranch 1 1 := by
    simp [State.passed, State.inBranch]
  rw [entered]
  refine visible_steps_taken executing c.balancedFirst (by omega) fun t known => ?_
  have counts : (t.inBranch 1 1).operations = s.operations + counted c.first + 1 :=
    congrArg (· + 1) known.operations
  obtain ⟨flag, idle⟩ := steps_alternative (s := t.inBranch 1 1) rfl skippable
    (known.size fits) (by omega)
  have roomClosing : ((t.inBranch 1 1).passed (flag :: t.branches) c.alternative).operations + 1 ≤
      limits.operations := by
    show (t.inBranch 1 1).operations + counted c.alternative + 1 ≤ limits.operations
    omega
  rw [steps_append, idle]
  exact ⟨_, steps_closing rfl roomClosing, rfl⟩

/-- Behind the opening, if the flag is not set. -/
theorem visible_steps_second (skippable : ∀ i ∈ c.first, i.Skippable limits) :
    visible (steps limits (s.passed (false :: s.branches) [.opening c.negated])
        (c.first ++ (c.alternative ++ [.closing]))) =
      visible (steps limits s (c.second.getD [])) := by
  rw [counted_instructions] at room
  let opened : State := s.passed (false :: s.branches) [.opening c.negated]
  let behind : State := s.passed (false :: s.branches) (.opening c.negated :: c.first)
  have idle : steps limits opened c.first = .ok behind := by
    have roomFirst : opened.operations + counted c.first ≤ limits.operations := by
      show s.operations + counted [.opening c.negated] + counted c.first ≤ limits.operations
      rw [counted_cons, Instruction.operations_opening, counted_nil]
      omega
    refine (steps_skipped (s := opened) rfl c.balancedFirst skippable fits roomFirst).trans ?_
    exact congrArg Except.ok (State.passed_passed _ _ _ _ _)
  have counts : behind.operations = s.operations + (1 + counted c.first) := by
    show s.operations + counted (.opening c.negated :: c.first) = _
    rw [counted_cons, Instruction.operations_opening]
  rw [steps_append, idle]
  show visible (steps limits behind _) = _
  cases hsecond : c.second with
  | none =>
      rw [alternative, hsecond]
      have closed : steps limits behind [.closing] = .ok (behind.passed s.branches [.closing]) :=
        steps_closing rfl (by omega)
      exact (congrArg visible closed).trans rfl
  | some second =>
      rw [alternative, hsecond] at room ⊢
      rw [counted_cons, Instruction.operations_switching] at room
      have roomSwitching : behind.operations + Instruction.switching.operations ≤
          limits.operations := by
        rw [Instruction.operations_switching]
        omega
      have balanced : Balanced second := by simpa [hsecond] using c.balancedSecond
      have switched : step limits behind .switching =
          .ok (s.inBranch (1 + counted c.first + 1) (c.first.length + 2)) := by
        refine (step_switch Instruction.action_switching rfl roomSwitching).trans ?_
        simp [behind, State.passed, State.inBranch, Nat.add_assoc]
      rw [List.cons_append, steps_cons, switched]
      refine visible_steps_taken executing balanced (by omega) fun t known => ?_
      have total : (t.inBranch (1 + counted c.first + 1) (c.first.length + 2)).operations =
          s.operations + counted second + (1 + counted c.first + 1) :=
        congrArg (· + (1 + counted c.first + 1)) known.operations
      exact ⟨_, steps_closing rfl (by omega), rfl⟩

/-- A conditional does what the branch that is taken does by itself: the failure, both stacks and
the open conditionals are the same. Of the other branch it is enough that nothing in it fails
wherever it stands. -/
theorem visible_steps {item : Bytes} (skippable : ∀ i ∈ c.skipped item, i.Skippable limits) :
    visible (steps limits { s with stack := item :: s.stack } c.instructions) =
      visible (steps limits s (c.taken item)) := by
  have roomOpening : s.operations + 1 ≤ limits.operations := by
    rw [counted_instructions] at room
    omega
  rw [instructions, steps_cons, step_opening executing roomOpening]
  unfold skipped at skippable
  unfold taken
  cases hflag : isTrue item != c.negated with
  | true =>
      rw [hflag, if_pos rfl] at skippable
      rw [if_pos rfl]
      exact visible_steps_first executing fits room skippable
  | false =>
      rw [hflag, if_neg Bool.false_ne_true] at skippable
      rw [if_neg Bool.false_ne_true]
      exact visible_steps_second executing fits room skippable

end

/-- `OP_NOTIF` on an item that is not true. The branch that is taken has a conditional in itself
that is switched twice; the other one has an opcode without a meaning and a negative number of
items to take. -/
theorem visible_steps_of_nested :
    let c : Conditional :=
      { negated := true
        first := [{ opcode := 0x76 }, .opening false, { opcode := 0x51 }, .switching,
          { opcode := 0x52 }, .switching, { opcode := 0x53 }, .closing]
        second := some [{ opcode := 0x50 }, { opcode := 0x4f }, { opcode := 0x79 }]
        balancedFirst := rfl
        balancedSecond := rfl }
    let s : State := { stack := [[7]], alt := [[1, 2]], operations := 3, branches := [true] }
    visible (steps {} { s with stack := [] :: s.stack } c.instructions) =
      .ok ([[3], [1], [7]], [[1, 2]], [true]) := by
  intro c s
  have checked : (c.skipped []).all (fun i => decide (i.Skippable {})) = true := rfl
  have skippable : ∀ i ∈ c.skipped [], i.Skippable {} := fun i hi =>
    of_decide_eq_true (List.all_eq_true.1 checked i hi)
  have whole : visible (steps {} { s with stack := [] :: s.stack } c.instructions) =
      visible (steps {} s (c.taken [])) :=
    visible_steps rfl (by decide) (by decide) skippable
  rw [whole]
  with_unfolding_all rfl

end Conditional

end Machine

end AuthScript
