import AuthScript.Proofs.Step

/-!
# Running inside of something

A frame is what lies around a run and is not its own: conditionals that are open already,
operations that have been counted, and instructions that have been executed. If the flags of
these conditionals are set, a run inside of the frame is the run by itself with the frame put
around every state, failures included (`steps_state`). Two things are asked for: all operations
together stay within the limit, and the run switches and closes no conditional of the frame. The
second one is nothing to ask for if the frame has no conditionals.
-/

namespace AuthScript

namespace Machine

open Opcode (action)

/-- What lies around a run. -/
structure Frame where
  outer : List Bool := []
  operations : Nat := 0
  executed : Nat := 0

namespace Frame

/-- A state with a frame around it. -/
def state (f : Frame) (s : State) : State :=
  { s with
    branches := s.branches ++ f.outer
    operations := s.operations + f.operations
    executed := s.executed + f.executed }

/-- What a run comes to, with a frame around it. -/
def result (f : Frame) : Except Stop State → Except Stop State
  | .ok s => .ok (f.state s)
  | .error stop => .error ⟨stop.error, f.state stop.state⟩

variable {f : Frame} {limits : Limits} {s : State} {i : Instruction}

theorem result_bind {r : Except Stop State} {g g' : State → Except Stop State}
    (h : ∀ t, r = .ok t → g' (f.state t) = f.result (g t)) :
    (f.result r).bind g' = f.result (r.bind g) := by
  cases r with
  | error stop => rfl
  | ok t => exact h t rfl

theorem reached_state : (f.state s).reached = f.state s.reached := by
  simp [state, State.reached, Nat.add_right_comm]

theorem count_state (room : s.operations + f.operations + i.operations ≤ limits.operations) :
    (f.state s).count limits i.opcode = f.result (s.count limits i.opcode) := by
  have own : s.operations + i.operations ≤ limits.operations := by omega
  have framed : (f.state s).operations + i.operations ≤ limits.operations := room
  rw [State.count_of_room own, State.count_of_room framed]
  simp [state, result, Nat.add_right_comm]

theorem checkSize_state : (f.state s).checkSize limits = f.result (s.checkSize limits) := by
  unfold State.checkSize
  split
  · rename_i large
    have own : limits.stackSize < s.stack.length + s.alt.length := large
    rw [if_pos own]
    rfl
  · rename_i room
    have own : ¬ limits.stackSize < s.stack.length + s.alt.length := room
    rw [if_neg own]
    rfl

theorem push_state : (f.state s).push i = f.result (s.push i) := by
  unfold State.push
  split <;> rfl

/-- What a state keeps of work done elsewhere, it keeps in a frame. -/
theorem keeping_state (r : Except Stop State) : (f.state s).keeping r = f.result (s.keeping r) := by
  cases r <;> rfl

theorem perform_state (a : Opcode.Action) :
    (f.state s).perform limits a = f.result (s.perform limits a) := by
  rw [State.perform_eq, State.perform_eq limits a s]
  exact keeping_state _

theorem switchBranch_state (own : f.outer = [] ∨ s.branches ≠ []) :
    (f.state s).switchBranch = f.result s.switchBranch := by
  obtain ⟨stack, alt, branches, operations, executed⟩ := s
  cases branches with
  | nil =>
      have empty : f.outer = [] := own.resolve_right (fun some => some rfl)
      simp [State.switchBranch, state, result, empty]
  | cons flag inner => rfl

theorem closeBranch_state (own : f.outer = [] ∨ s.branches ≠ []) :
    (f.state s).closeBranch = f.result s.closeBranch := by
  obtain ⟨stack, alt, branches, operations, executed⟩ := s
  cases branches with
  | nil =>
      have empty : f.outer = [] := own.resolve_right (fun some => some rfl)
      simp [State.closeBranch, state, result, empty]
  | cons flag inner => rfl

section

variable (executing : f.outer.all id = true)

include executing

theorem isExecuting_state : (f.state s).isExecuting = s.isExecuting := by
  simp only [State.isExecuting, state, List.all_append, executing, Bool.and_true]

theorem openBranch_state (negated : Bool) :
    (f.state s).openBranch negated = f.result (s.openBranch negated) := by
  unfold State.openBranch
  rw [isExecuting_state executing]
  obtain ⟨stack, alt, branches, operations, executed⟩ := s
  split
  · cases stack <;> rfl
  · rfl

/-- An instruction that leaves the conditionals of a frame alone does in it what it does by
itself. -/
theorem step_state (room : s.operations + f.operations + i.operations ≤ limits.operations)
    (own : f.outer = [] ∨ (i.depthAfter s.branches.length).isSome = true) :
    step limits (f.state s) i = f.result (step limits s i) := by
  have counts : (f.state s).reached.count limits i.opcode =
      f.result (s.reached.count limits i.opcode) := by
    rw [reached_state]
    exact count_state room
  unfold Instruction.depthAfter at own
  rcases (action i.opcode).kinds with ha | ha | ha | ⟨negated, ha⟩ | ha | ha | ha
  · rw [step_of_disabled ha, step_of_disabled ha, reached_state]
    rfl
  · rw [step_of_forbidden ha, step_of_forbidden ha, reached_state]
    rfl
  · rw [step_of_push ha, step_of_push ha, isExecuting_state executing, reached_state]
    split
    · rfl
    · split
      · rw [push_state]
        exact result_bind fun t _ => checkSize_state
      · exact checkSize_state
  · rw [step_of_openBranch ha, step_of_openBranch ha, counts]
    exact result_bind fun t _ => openBranch_state executing negated
  · rw [step_of_switchBranch ha, step_of_switchBranch ha, counts]
    refine result_bind fun t ht => switchBranch_state (own.imp_right ?_)
    obtain rfl := State.count_eq_ok ht
    rw [ha]
    rintro some (empty : s.branches = [])
    simp [empty] at some
  · rw [step_of_closeBranch ha, step_of_closeBranch ha, counts]
    refine result_bind fun t ht => closeBranch_state (own.imp_right ?_)
    obtain rfl := State.count_eq_ok ht
    rw [ha]
    rintro some (empty : s.branches = [])
    simp [empty] at some
  · rw [step_of_ordinary ha, step_of_ordinary ha, counts]
    refine result_bind fun t _ => ?_
    rw [isExecuting_state executing]
    split
    · rw [perform_state]
      exact result_bind fun u _ => checkSize_state
    · rfl

/-- Instructions that leave the conditionals of a frame alone do in it what they do by
themselves. -/
theorem steps_state {instructions : List Instruction}
    (room : s.operations + f.operations + counted instructions ≤ limits.operations)
    (own : f.outer = [] ∨ (depthAfter s.branches.length instructions).isSome = true) :
    steps limits (f.state s) instructions = f.result (steps limits s instructions) := by
  induction instructions generalizing s with
  | nil => rfl
  | cons i rest ih =>
      rw [counted_cons] at room
      have first : f.outer = [] ∨ (i.depthAfter s.branches.length).isSome = true :=
        own.imp_right fun some => Option.isSome_of_isSome_bind some
      rw [steps_cons, steps_cons, step_state executing (by omega) first]
      refine result_bind fun t ht => ih ?_ ?_
      · obtain ⟨_, _, _, _, _, rfl⟩ := step_eq_ok ht
        show s.operations + i.operations + f.operations + counted rest ≤ limits.operations
        omega
      · obtain ⟨_, _, _, depth, _, rfl⟩ := step_eq_ok ht
        refine own.imp_right fun some => ?_
        rw [depthAfter_cons, depth] at some
        exact some

end

end Frame

end Machine

end AuthScript
