import AuthScript.Proofs.StackBounds
import AuthScript.Proofs.Step

/-!
# The limits hold on every run

A run that starts with stacks within the limits stays within them: after every instruction that
does not fail both stacks together hold no more items than they may, and no item on either is
longer than it may be. An instruction that fails leaves them within the limits as well, unless
it fails because there are too many items. Then it is by three at most.

Two things are asked of the limits. Items may have as many bytes as a digest. And the limit on the
number of items is a machine word, since that number becomes an item by `OP_DEPTH`.
-/

namespace AuthScript

namespace Machine

open Opcode (action)

namespace State

/-- Both stacks together have at most `count` items, each of at most `limit` bytes. -/
structure Within (limit count : Nat) (s : State) : Prop where
  stack : ∀ item ∈ s.stack, item.length ≤ limit
  alt : ∀ item ∈ s.alt, item.length ≤ limit
  size : s.size ≤ count

theorem Within.mono {limit count count' : Nat} {s : State} (h : s.Within limit count)
    (le : count ≤ count') : s.Within limit count' := ⟨h.stack, h.alt, Nat.le_trans h.size le⟩

end State

/-- What is known of the state that a run leaves from how it ends. -/
structure Leaves (limits : Limits) (error : Option Error) (s : State) : Prop where
  within : error ≠ some .stackSize → s.Within limits.elementSize limits.stackSize
  beyond : error = some .stackSize →
    limits.stackSize < s.size ∧ s.Within limits.elementSize (limits.stackSize + 3)

/-- What is known of the state that a failure leaves. -/
abbrev Stop.Leaves (limits : Limits) (stop : Stop) : Prop :=
  Machine.Leaves limits (some stop.error) stop.state

/-- A computation within the limits. -/
abbrev Stays (limits : Limits) (r : Except Stop State) : Prop :=
  Ends (Stop.Leaves limits) (State.Within limits.elementSize limits.stackSize) r

/-- An action within the limits, before the check of the number of items. -/
abbrev Grows (limits : Limits) (r : Except Stop State) : Prop :=
  Ends (Stop.Leaves limits) (State.Within limits.elementSize (limits.stackSize + 3)) r

variable {limits : Limits} {s : State}

/-- Before the check of their number there may be three items too many. -/
theorem checkSize_stays (h : s.Within limits.elementSize (limits.stackSize + 3)) :
    Stays limits (s.checkSize limits) := by
  unfold State.checkSize
  split
  · rename_i beyond
    exact ⟨fun other => absurd rfl other, fun _ => ⟨beyond, h⟩⟩
  · rename_i room
    exact ⟨h.stack, h.alt, Nat.not_lt.1 room⟩

/-- The numbers that opcodes push. -/
theorem constant_of_action {op : UInt8} {n : Int} (h : action op = .constant n) :
    n.natAbs < 128 := by
  have known : Opcode.rows.all (fun row =>
      match row.action with
      | .constant n => n.natAbs < 128
      | _ => true) = true := rfl
  rcases Opcode.action_cases op with ⟨row, hrow, rfl, same⟩ | ⟨_, ⟨_, push⟩ | reserved⟩
  · have own := List.all_eq_true.1 known row hrow
    rw [← same, h] at own
    exact of_decide_eq_true own
  · rw [push] at h
    cases h
  · rw [reserved] at h
    cases h

/-! ## The parts of a step -/

section

variable (h : s.Within limits.elementSize limits.stackSize)

include h

theorem leaves_of_within {error : Option Error} (other : error ≠ some .stackSize) :
    Leaves limits error s := ⟨fun _ => h, fun same => absurd same other⟩

/-- A failure within the limits. -/
theorem ends_of_within {e : Error} {result : State → Prop} (other : some e ≠ some .stackSize) :
    Ends (Stop.Leaves limits) result (.error ⟨e, s⟩) := leaves_of_within h other

theorem count_stays {op : UInt8} : Stays limits (s.count limits op) := by
  unfold State.count
  split
  · exact h
  · split
    · exact ends_of_within h (by decide)
    · exact ⟨h.stack, h.alt, h.size⟩

theorem openBranch_stays (negated : Bool) : Stays limits (s.openBranch negated) := by
  unfold State.openBranch
  split
  · split
    · exact ends_of_within h (by decide)
    · rename_i item stack hstack
      obtain ⟨items, alt, size⟩ := h
      rw [State.size, hstack] at size
      rw [hstack] at items
      exact ⟨fun a ha => items a (List.mem_cons_of_mem _ ha), alt,
        Nat.le_trans (Nat.add_le_add_right (Nat.le_succ _) _) size⟩
  · exact ⟨h.stack, h.alt, h.size⟩

theorem switchBranch_stays : Stays limits s.switchBranch := by
  unfold State.switchBranch
  split
  · exact ends_of_within h (by decide)
  · exact ⟨h.stack, h.alt, h.size⟩

theorem closeBranch_stays : Stays limits s.closeBranch := by
  unfold State.closeBranch
  split
  · exact ends_of_within h (by decide)
  · exact ⟨h.stack, h.alt, h.size⟩

theorem push_grows {i : Instruction} (short : i.payload.length ≤ limits.elementSize) :
    Grows limits (s.push i) := by
  unfold State.push
  split
  · refine ⟨List.forall_mem_cons.2 ⟨short, h.stack⟩, h.alt, ?_⟩
    have size := h.size
    simp only [State.size, List.length_cons] at size ⊢
    omega
  · exact ends_of_within h (by decide)

theorem withStack_grows {effect : Effect Stack}
    (bounded : Stack.Bounded limits.elementSize s.stack.length effect) :
    Grows limits (s.withStack effect) := by
  have size := h.size
  unfold State.size at size
  unfold State.withStack
  split
  · rename_i stack
    have ended : stack.Within limits.elementSize (s.stack.length + 3) := bounded
    refine ⟨ended.items, h.alt, ?_⟩
    have := ended.length
    show stack.length + s.alt.length ≤ _
    omega
  · rename_i e stack
    obtain ⟨other, kept⟩ : Stack.Spared limits.elementSize s.stack.length (e, stack) := bounded
    have fits : State.Within limits.elementSize limits.stackSize { s with stack } := by
      refine ⟨kept.items, h.alt, ?_⟩
      have : stack.length ≤ s.stack.length := kept.length
      show stack.length + s.alt.length ≤ _
      omega
    exact ends_of_within fits fun same => other (Option.some.inj same)

/-! The second stack takes items from the first and gives them back. -/

theorem toAlt_grows : Grows limits s.toAlt := by
  have size := h.size
  unfold State.size at size
  unfold State.toAlt
  split
  · exact ends_of_within h (by decide)
  · rename_i item rest hstack
    have items := h.stack
    rw [hstack] at items size
    obtain ⟨moved, others⟩ := List.forall_mem_cons.1 items
    refine ⟨others, List.forall_mem_cons.2 ⟨moved, h.alt⟩, ?_⟩
    simp only [State.size, List.length_cons] at size ⊢
    omega

theorem fromAlt_grows : Grows limits s.fromAlt := by
  have size := h.size
  unfold State.size at size
  unfold State.fromAlt
  split
  · exact ends_of_within h (by decide)
  · rename_i item rest halt
    have items := h.alt
    rw [halt] at items size
    obtain ⟨moved, others⟩ := List.forall_mem_cons.1 items
    refine ⟨List.forall_mem_cons.2 ⟨moved, h.stack⟩, others, ?_⟩
    simp only [State.size, List.length_cons] at size ⊢
    omega

theorem perform_grows {op : UInt8} (large : 32 ≤ limits.elementSize)
    (word : limits.stackSize < UInt64.size) : Grows limits (s.perform limits (action op)) := by
  have bounds : s.stack.Within limits.elementSize s.stack.length := ⟨h.stack, Nat.le_refl _⟩
  cases ha : action op with
  | constant n =>
      have short := ScriptNumber.length_encode_le (k := 0) (constant_of_action ha)
      exact withStack_grows h (Stack.push_bounded bounds (by omega))
  | nop => exact h.mono (by omega)
  | verify => exact withStack_grows h (Stack.verify_bounded bounds)
  | halt => exact ends_of_within h (by decide)
  | toAlt => exact toAlt_grows h
  | fromAlt => exact fromAlt_grows h
  | shuffle op => exact withStack_grows h (Stack.shuffle_bounded bounds op)
  | dupIfTrue =>
      refine withStack_grows h (Stack.aboveTop_bounded bounds fun b a ha => ?_)
      split at ha
      · cases ha
        exact Nat.le_refl _
      · cases ha
  | depth =>
      -- nine bytes are enough for a machine word and a sign
      have few : s.stack.length < UInt64.size := by
        have := h.size
        unfold State.size at this
        omega
      have short := ScriptNumber.length_encode_le (z := s.stack.length) (k := 8) (by
        rw [Int.natAbs_natCast]
        exact Nat.lt_trans few (by decide))
      exact withStack_grows h (Stack.push_bounded bounds (by omega))
  | pick => exact withStack_grows h (Stack.pick_bounded bounds)
  | roll => exact withStack_grows h (Stack.roll_bounded bounds)
  | cat => exact withStack_grows h (Stack.cat_bounded bounds)
  | split => exact withStack_grows h (Stack.split_bounded bounds)
  | widen => exact withStack_grows h (Stack.widen_bounded bounds)
  | narrow => exact withStack_grows h (Stack.narrow_bounded bounds)
  | size =>
      refine withStack_grows h (Stack.aboveTop_bounded bounds fun b a ha => ?_)
      cases ha
      exact ScriptNumber.length_encode_le_self b.length
  | reverseBytes =>
      exact withStack_grows h
        (Stack.mapTop_bounded bounds fun b => Nat.le_of_eq List.length_reverse)
  | bitwise op => exact withStack_grows h (Stack.bitwise_bounded bounds op)
  | equal verify => exact withStack_grows h (Stack.equal_bounded bounds large verify)
  | unary op => exact withStack_grows h (Stack.unary_bounded bounds large op)
  | binary op => exact withStack_grows h (Stack.binary_bounded bounds large op)
  | numEqualVerify => exact withStack_grows h (Stack.numEqualVerify_bounded bounds)
  | within => exact withStack_grows h (Stack.within_bounded bounds large)
  | digest d => exact withStack_grows h (Stack.digest_bounded bounds large d)
  | checkDataSig verify => exact withStack_grows h (Stack.checkDataSig_bounded bounds large verify)
  | _ => exact ends_of_within h (by decide)

end

/-! ## Steps and runs -/

section

variable (large : 32 ≤ limits.elementSize) (word : limits.stackSize < UInt64.size)

include large word

/-- An instruction keeps the stacks within the limits. -/
theorem step_stays {i : Instruction} (h : s.Within limits.elementSize limits.stackSize) :
    Stays limits (step limits s i) := by
  have reached : s.reached.Within limits.elementSize limits.stackSize :=
    ⟨h.stack, h.alt, h.size⟩
  have counts : Stays limits (s.reached.count limits i.opcode) := count_stays reached
  rcases (action i.opcode).kinds with ha | ha | ha | ⟨negated, ha⟩ | ha | ha | ha
  · rw [step_of_disabled ha]
    exact ends_of_within reached (by decide)
  · rw [step_of_forbidden ha]
    exact ends_of_within reached (by decide)
  · rw [step_of_push ha]
    split
    · exact ends_of_within reached (by decide)
    · rename_i short
      have pushed : Grows limits (if s.isExecuting then s.reached.push i else .ok s.reached) := by
        split
        · exact push_grows reached (Nat.not_lt.1 short)
        · exact reached.mono (by omega)
      exact pushed.bind fun t ht => checkSize_stays ht
  · rw [step_of_openBranch ha]
    exact counts.bind fun t ht => openBranch_stays ht negated
  · rw [step_of_switchBranch ha]
    exact counts.bind fun t ht => switchBranch_stays ht
  · rw [step_of_closeBranch ha]
    exact counts.bind fun t ht => closeBranch_stays ht
  · rw [step_of_ordinary ha]
    refine counts.bind fun t ht => ?_
    split
    · exact (perform_grows ht large word).bind fun u hu => checkSize_stays hu
    · exact ht

/-- Instructions keep the stacks within the limits. -/
theorem steps_stays {instructions : List Instruction}
    (h : s.Within limits.elementSize limits.stackSize) :
    Stays limits (steps limits s instructions) := by
  induction instructions generalizing s with
  | nil => exact h
  | cons i rest ih => exact (step_stays large word h).bind fun t ht => ih ht

/-- How a program leaves the stacks. -/
theorem final_leaves {stack : Stack} (h : stack.Within limits.elementSize limits.stackSize)
    (bytecode : Bytes) :
    Leaves limits (execute limits stack bytecode).error (final limits stack bytecode) := by
  have start : State.Within limits.elementSize limits.stackSize { stack } :=
    ⟨h.items, List.forall_mem_nil _, h.length⟩
  rcases Nat.lt_or_ge limits.scriptSize bytecode.length with long | size
  · rw [execute, final, if_pos long, if_pos long]
    show Leaves limits (some .scriptSize) { stack }
    exact leaves_of_within start (by decide)
  · have stays : Stays limits (steps limits { stack } (Program.decode bytecode).instructions) :=
      steps_stays large word start
    cases hsteps : steps limits { stack } (Program.decode bytecode).instructions with
    | error stop =>
        rw [hsteps] at stays
        obtain ⟨hexecute, hfinal⟩ := execute_of_error size hsteps
        rw [hexecute, hfinal]
        exact stays
    | ok s =>
        rw [hsteps] at stays
        obtain ⟨hexecute, hfinal⟩ := execute_of_ok size hsteps
        rw [hexecute, hfinal]
        refine ⟨fun _ => stays, fun same => ?_⟩
        unfold Program.ending at same
        split at same
        · cases same
        · split at same <;> cases same

/-- The run of a program that starts with a stack within the limits: after every instruction that
does not fail both stacks are within the limits. They are when the run ends, too, unless it ends
because there are too many items. Then no item is too long, and there are three too many at
most. -/
theorem execute_within {stack : Stack} (h : stack.Within limits.elementSize limits.stackSize)
    (bytecode : Bytes) :
    (∀ run t, run <+: (Program.decode bytecode).instructions →
      steps limits { stack } run = .ok t → t.Within limits.elementSize limits.stackSize) ∧
    (execute limits stack bytecode).stack = (final limits stack bytecode).stack ∧
    ((execute limits stack bytecode).error ≠ some .stackSize →
      (final limits stack bytecode).Within limits.elementSize limits.stackSize) ∧
    ((execute limits stack bytecode).error = some .stackSize →
      limits.stackSize < (final limits stack bytecode).size ∧
        (final limits stack bytecode).Within limits.elementSize (limits.stackSize + 3)) := by
  have start : State.Within limits.elementSize limits.stackSize { stack } :=
    ⟨h.items, List.forall_mem_nil _, h.length⟩
  obtain ⟨within, beyond⟩ := final_leaves large word h bytecode
  refine ⟨fun run t _ hrun => ?_, final_stack.symm, within, beyond⟩
  have stays : Stays limits (steps limits { stack } run) := steps_stays large word start
  rw [hrun] at stays
  exact stays

end

/-- Two items on a stack for four, of which one is put aside and the other one made three, and
then six. -/
theorem execute_within_of_dup3 :
    let limits : Limits := { elementSize := 32, stackSize := 4 }
    let bytecode : Bytes := [0x6b, 0x76, 0x76, 0x6f]
    execute limits [[1], [2]] bytecode = ⟨some .stackSize, List.replicate 6 [2], 4⟩ ∧
      (final limits [[1], [2]] bytecode).size = limits.stackSize + 3 := by
  intro limits bytecode
  have fails : execute limits [[1], [2]] bytecode =
      ⟨some .stackSize, List.replicate 6 [2], 4⟩ := by with_unfolding_all rfl
  have start : Stack.Within limits.elementSize limits.stackSize [[1], [2]] :=
    ⟨by decide, by decide⟩
  have large : 32 ≤ limits.elementSize := Nat.le_refl 32
  have word : limits.stackSize < UInt64.size := by decide
  have ends := (execute_within large word start bytecode).2.2.2 (congrArg Outcome.error fails)
  have beyond : limits.stackSize + 3 ≤ (final limits [[1], [2]] bytecode).size := by
    with_unfolding_all exact Nat.le_refl 7
  exact ⟨fails, Nat.le_antisymm ends.2.size beyond⟩

end Machine

end AuthScript
