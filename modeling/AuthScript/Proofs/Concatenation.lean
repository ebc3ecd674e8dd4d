import AuthScript.Proofs.Frame
import AuthScript.Proofs.Instruction

/-!
# Programs one after another

What stands in front of a program does not change how it reads, if it is whole by itself; and
a program that is cut off reads the same as far as it goes. So running one program and another
behind it is running the first and then the second on the stack that the first one leaves,
provided that it leaves nothing aside: the second run has the operations and instructions of the
first one around it as a frame without conditionals. If the first program fails at one of its
instructions, what is behind it does not matter.
-/

namespace AuthScript

namespace Machine

namespace Program

/-- The number of operations in a program. -/
def operations (b : Bytes) : Nat := counted (decode b).instructions

end Program

/-- The run of a program fails at an instruction, and not only at the end of the program. -/
def FailsInside (limits : Limits) (stack : Stack) (bytecode : Bytes) : Prop :=
  ∃ stop, steps limits { stack } (Program.decode bytecode).instructions = .error stop

variable {limits : Limits} {stack : Stack} {p q : Bytes}

/-- A second program runs on what the first one leaves. -/
theorem execute_append_of_ended (size : p.length + q.length ≤ limits.scriptSize)
    (ended : (execute limits stack p).error = none) (aside : (final limits stack p).alt = [])
    (room : Program.operations p + Program.operations q ≤ limits.operations) :
    execute limits stack (p ++ q) =
      ⟨(execute limits (execute limits stack p).stack q).error,
        (execute limits (execute limits stack p).stack q).stack,
        (execute limits stack p).executed +
          (execute limits (execute limits stack p).stack q).executed⟩ := by
  obtain ⟨t, hfirst, whole, closed⟩ := execute_eq_none ended
  have sizes : p.length ≤ limits.scriptSize ∧ q.length ≤ limits.scriptSize ∧
      (p ++ q).length ≤ limits.scriptSize := by
    rw [List.length_append]
    omega
  obtain ⟨sizeFirst, sizeSecond, sizeBoth⟩ := sizes
  obtain ⟨first, last⟩ := execute_of_ok sizeFirst hfirst
  rw [last] at aside
  have known := steps_progress hfirst
  -- at the seam only the counts tell the state from a new one
  let f : Frame := { operations := t.operations, executed := t.executed }
  have seam : t = f.state { stack := t.stack } := by
    obtain ⟨_, alt, branches, _, _⟩ := t
    obtain rfl : alt = [] := aside
    obtain rfl : branches = [] := closed
    simp [f, Frame.state]
  have decoded := Program.decode_append whole q
  have fits : ({ stack := t.stack } : State).operations + f.operations +
      counted (Program.decode q).instructions ≤ limits.operations := by
    have operations : t.operations = 0 + Program.operations p := known.operations
    show 0 + t.operations + Program.operations q ≤ limits.operations
    omega
  have second : steps limits { stack } (Program.decode (p ++ q)).instructions =
      f.result (steps limits { stack := t.stack } (Program.decode q).instructions) := by
    rw [decoded, steps_append, hfirst]
    show steps limits t (Program.decode q).instructions = _
    rw [seam]
    exact Frame.steps_state rfl fits (.inl rfl)
  rw [first]
  cases hsecond : steps limits { stack := t.stack } (Program.decode q).instructions with
  | error stop =>
      rw [hsecond] at second
      rw [(execute_of_error sizeBoth second).1, (execute_of_error sizeSecond hsecond).1]
      simp [f, Frame.state, Nat.add_comm]
  | ok u =>
      rw [hsecond] at second
      rw [(execute_of_ok sizeBoth second).1, (execute_of_ok sizeSecond hsecond).1]
      simp [f, Frame.state, Nat.add_comm, decoded, Program.ending]

/-- Nothing behind an instruction that fails is run. -/
theorem execute_append_of_failed (size : p.length + q.length ≤ limits.scriptSize)
    (failed : FailsInside limits stack p) :
    (execute limits stack p).error ≠ none ∧
      execute limits stack (p ++ q) = execute limits stack p := by
  obtain ⟨stop, hfirst⟩ := failed
  have sizeFirst : p.length ≤ limits.scriptSize := by omega
  have sizeBoth : (p ++ q).length ≤ limits.scriptSize := by
    rw [List.length_append]
    exact size
  obtain ⟨rest, decoded⟩ := Program.instructions_prefix_append p q
  have both : steps limits { stack } (Program.decode (p ++ q)).instructions = .error stop := by
    rw [← decoded, steps_append, hfirst]
    rfl
  rw [(execute_of_error sizeBoth both).1, (execute_of_error sizeFirst hfirst).1]
  exact ⟨nofun, rfl⟩

/-- Running two programs one behind the other is running them in sequence, if the first one
ends without a failure and leaves nothing aside. If the first one fails at an instruction, the
second one does not matter. -/
theorem execute_append (size : p.length + q.length ≤ limits.scriptSize) :
    ((execute limits stack p).error = none → (final limits stack p).alt = [] →
        Program.operations p + Program.operations q ≤ limits.operations →
      let first := execute limits stack p
      let second := execute limits first.stack q
      execute limits stack (p ++ q) =
        ⟨second.error, second.stack, first.executed + second.executed⟩) ∧
    (FailsInside limits stack p →
      (execute limits stack p).error ≠ none ∧
        execute limits stack (p ++ q) = execute limits stack p) :=
  ⟨execute_append_of_ended size, execute_append_of_failed size⟩

/-- A conditional in front of an addition; and an addition without operands, with a push behind
it that is cut off at the seam. -/
theorem execute_append_of_conditional :
    let p : Bytes := [0x52, 0x63, 0x53, 0x68]
    let q : Bytes := [0x93, 0x67]
    let cut : Bytes := [0x93, 0x02, 0x68]
    execute {} [[5]] p = ⟨none, [[3], [5]], 4⟩ ∧
      execute {} [[3], [5]] q = ⟨some .unbalancedConditional, [[8]], 2⟩ ∧
      execute {} [[5]] (p ++ q) = ⟨some .unbalancedConditional, [[8]], 6⟩ ∧
      execute {} [[5]] (cut ++ q) = ⟨some .invalidStackOperation, [[5]], 1⟩ := by
  intro p q cut
  have first : execute {} [[5]] p = ⟨none, [[3], [5]], 4⟩ := by with_unfolding_all rfl
  have second : execute {} [[3], [5]] q = ⟨some .unbalancedConditional, [[8]], 2⟩ := by
    with_unfolding_all rfl
  have failed : FailsInside {} [[5]] cut :=
    ⟨⟨.invalidStackOperation, ⟨[[5]], [], [], 1, 1⟩⟩, by with_unfolding_all rfl⟩
  have own : execute {} [[5]] cut = ⟨some .invalidStackOperation, [[5]], 1⟩ := by
    with_unfolding_all rfl
  refine ⟨first, second, ?_, ?_⟩
  · have size : p.length + q.length ≤ ({} : Limits).scriptSize := by decide
    have operations : Program.operations p = 2 ∧ Program.operations q = 2 :=
      ⟨by with_unfolding_all rfl, by with_unfolding_all rfl⟩
    have room : Program.operations p + Program.operations q ≤ ({} : Limits).operations := by
      rw [operations.1, operations.2]
      decide
    have both : execute {} [[5]] (p ++ q) = ⟨_, _, _⟩ :=
      (execute_append size).1 (congrArg Outcome.error first) (by with_unfolding_all rfl) room
    rw [both, first, second]
    rfl
  · have size : cut.length + q.length ≤ ({} : Limits).scriptSize := by decide
    exact ((execute_append size).2 failed).2.trans own

end Machine

end AuthScript
