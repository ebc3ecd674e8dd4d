import AuthScript.Proofs.Arithmetic
import AuthScript.Proofs.StackBounds
import AuthScript.Proofs.Step

/-!
# Nothing undefined is computed

A word that is taken from the stack is an operand, and what is computed from operands is defined.
No other part of a step computes with words that nothing checks, so no instruction ends in
`Error.unknown`, and no run does (`execute_defined`), whatever the program, the stack and the
limits are.
-/

namespace AuthScript

namespace Machine

open Opcode (action)

/-! ## Operations on the stack -/

namespace Stack

open Opcode ScriptNumber

/-- A computation on the stack that is defined, with what is known of its result. -/
abbrev Defined {α : Type} (result : α → Prop) (r : Effect α) : Prop :=
  Ends (fun failure => failure.1 ≠ .unknown) result r

/-- An operation on the stack that is defined. -/
abbrev DefinedEffect (r : Effect Stack) : Prop := Defined (fun _ => True) r

theorem refused {α : Type} {result : α → Prop} {e : Error} (s : Stack) (other : e ≠ .unknown) :
    Defined result (.error (e, s)) := other

variable (s : Stack)

theorem popNumber_defined : Defined (fun r => InRange r.1) s.popNumber := by
  unfold popNumber
  split
  · exact refused _ (by decide)
  · rename_i item rest
    split
    · rename_i n word
      have operand : Operand item n.toInt := congrArg (Option.map Int64.toInt) word
      exact operand.range
    · exact refused _ (by decide)

theorem require_defined (n : Nat) : Defined (fun _ => True) (s.require n) := by
  unfold require
  split
  · exact refused _ (by decide)
  · trivial

theorem popTwo_defined : Defined (fun r => InRange r.1) s.popTwo := by
  refine (require_defined s 2).bind fun _ _ => ?_
  refine (popNumber_defined s).bind fun top _ => ?_
  exact (popNumber_defined top.2).bind fun _ range => range

theorem pushInteger_defined (z : Int) : DefinedEffect (pushInteger z s) := by
  unfold pushInteger
  split
  · trivial
  · exact refused _ (by decide)

theorem unary_defined (op : Unary) : DefinedEffect (s.unary op) := by
  refine (popNumber_defined s).bind ?_
  rintro ⟨n, rest⟩ range
  show DefinedEffect (pushResult (unaryResult op n) rest)
  rw [pushResult_unary op range]
  exact pushInteger_defined rest _

theorem binary_defined (op : Binary) : DefinedEffect (s.binary op) := by
  refine (popTwo_defined s).bind ?_
  rintro ⟨a, b, rest⟩ range
  show DefinedEffect (pushResult (binaryResult op a b) rest)
  cases byZero : op.byZero? with
  | none =>
      rw [pushResult_binary op range fun _ => byZero]
      exact pushInteger_defined rest _
  | some e =>
      by_cases zero : b = 0
      · rw [zero, binaryResult_byZero byZero]
        have other : e ≠ .unknown := by
          cases op <;> cases byZero <;> decide
        exact refused _ other
      · rw [pushResult_binary op range fun same => absurd same zero]
        exact pushInteger_defined rest _

/-- A truth value is one or zero, and neither is refused. -/
theorem pushNumber_defined (n : Int64) : DefinedEffect (pushNumber n s) := by
  rw [pushNumber_eq]
  exact pushInteger_defined s _

theorem within_defined : DefinedEffect s.within := by
  refine (require_defined s 3).bind fun _ _ => ?_
  refine (popNumber_defined s).bind fun top _ => ?_
  refine (popNumber_defined top.2).bind fun middle _ => ?_
  exact (popNumber_defined middle.2).bind fun below _ => pushNumber_defined below.2 _

theorem numEqualVerify_defined : DefinedEffect s.numEqualVerify := by
  refine (popTwo_defined s).bind ?_
  rintro ⟨a, b, rest⟩ _
  show DefinedEffect (if a = b then _ else _)
  split
  · trivial
  · exact refused _ (by decide)

/-! The other operations have failures of their own, and compute with no words. -/

theorem shuffle_defined (op : Shuffle) : DefinedEffect (s.shuffle op) := by
  refine (shuffle_ends op s).mono ?_ fun _ _ => trivial
  rintro failure rfl
  show Error.invalidStackOperation ≠ .unknown
  decide

theorem select_defined : Defined (fun _ => True) s.select := by
  refine (popNumber_defined s).bind ?_
  rintro ⟨n, rest⟩ _
  dsimp only
  split
  · trivial
  · exact refused _ (by decide)

theorem cat_defined (limit : Nat) : DefinedEffect (s.cat limit) := by
  unfold cat
  split
  · split
    · exact refused _ (by decide)
    · trivial
  · exact refused _ (by decide)

theorem split_defined : DefinedEffect s.split := by
  refine (popNumber_defined s).bind ?_
  rintro ⟨n, rest⟩ _
  cases rest with
  | nil =>
      exact refused _ (by decide)
  | cons item rest =>
      show DefinedEffect (if _ then _ else _)
      split
      · exact refused _ (by decide)
      · trivial

theorem widen_defined (limit : Nat) : DefinedEffect (s.widen limit) := by
  refine (popNumber_defined s).bind ?_
  rintro ⟨n, rest⟩ _
  show DefinedEffect (if _ then _ else _)
  split
  · exact refused _ (by decide)
  · cases rest with
    | nil =>
        exact refused _ (by decide)
    | cons item rest =>
        show DefinedEffect (if _ then _ else _)
        split
        · exact refused _ (by decide)
        · trivial

theorem narrow_defined : DefinedEffect s.narrow := by
  unfold narrow
  split
  · exact refused _ (by decide)
  · show DefinedEffect (if _ then _ else _)
    split
    · exact refused _ (by decide)
    · trivial

theorem bitwise_defined (op : Bitwise) : DefinedEffect (s.bitwise op) := by
  unfold bitwise
  split
  · split
    · exact refused _ (by decide)
    · trivial
  · exact refused _ (by decide)

theorem equal_defined (verify : Bool) : DefinedEffect (s.equal verify) := by
  unfold equal
  split
  · split
    · split
      · trivial
      · exact refused _ (by decide)
    · trivial
  · exact refused _ (by decide)

theorem digest_defined (d : Digest) : DefinedEffect (s.digest d) := by
  unfold digest
  split
  · exact refused _ (by decide)
  · trivial

theorem checkDataSig_defined (verify : Bool) : DefinedEffect (s.checkDataSig verify) := by
  unfold checkDataSig
  split
  · split
    · exact refused _ (by decide)
    · split
      · exact refused _ (by decide)
      · show DefinedEffect (if _ then _ else _)
        split
        · split
          · trivial
          · exact refused _ (by decide)
        · trivial
  · exact refused _ (by decide)

theorem verify_defined : DefinedEffect s.verify := by
  unfold verify
  split
  · exact refused _ (by decide)
  · split
    · trivial
    · exact refused _ (by decide)

theorem mapTop_defined (f : Bytes → Bytes) : DefinedEffect (s.mapTop f) := by
  unfold mapTop
  split
  · exact refused _ (by decide)
  · trivial

theorem aboveTop_defined (f : Bytes → Option Bytes) : DefinedEffect (s.aboveTop f) := by
  unfold aboveTop
  split
  · exact refused _ (by decide)
  · trivial

end Stack

/-! ## Steps and runs -/

/-- A computation on states that is defined. -/
abbrev DefinedState (r : Except Stop State) : Prop :=
  Ends (fun stop => stop.error ≠ .unknown) (fun _ => True) r

theorem State.stopped {e : Error} (s : State) (other : e ≠ .unknown) :
    DefinedState (.error ⟨e, s⟩) := other

variable (limits : Limits) (s : State)

theorem withStack_defined {effect : Effect Stack} (h : Stack.DefinedEffect effect) :
    DefinedState (s.withStack effect) := by
  cases effect with
  | error failure => exact h
  | ok stack => trivial

theorem checkSize_defined : DefinedState (s.checkSize limits) := by
  unfold State.checkSize
  split
  · exact s.stopped (by decide)
  · trivial

theorem count_defined (op : UInt8) : DefinedState (s.count limits op) := by
  unfold State.count
  split
  · trivial
  · split
    · exact s.stopped (by decide)
    · trivial

theorem openBranch_defined (negated : Bool) : DefinedState (s.openBranch negated) := by
  unfold State.openBranch
  split
  · split
    · exact s.stopped (by decide)
    · trivial
  · trivial

theorem switchBranch_defined : DefinedState s.switchBranch := by
  unfold State.switchBranch
  split
  · exact s.stopped (by decide)
  · trivial

theorem closeBranch_defined : DefinedState s.closeBranch := by
  unfold State.closeBranch
  split
  · exact s.stopped (by decide)
  · trivial

theorem push_defined (i : Instruction) : DefinedState (s.push i) := by
  unfold State.push
  split
  · trivial
  · exact s.stopped (by decide)

theorem toAlt_defined : DefinedState s.toAlt := by
  unfold State.toAlt
  split
  · exact s.stopped (by decide)
  · trivial

theorem fromAlt_defined : DefinedState s.fromAlt := by
  unfold State.fromAlt
  split
  · exact s.stopped (by decide)
  · trivial

theorem perform_defined (a : Opcode.Action) : DefinedState (s.perform limits a) := by
  cases a with
  | constant | nop | depth => trivial
  | verify => exact withStack_defined s s.stack.verify_defined
  | halt => exact s.stopped (by decide)
  | toAlt => exact toAlt_defined s
  | fromAlt => exact fromAlt_defined s
  | shuffle op => exact withStack_defined s (s.stack.shuffle_defined op)
  | dupIfTrue => exact withStack_defined s (s.stack.aboveTop_defined _)
  | pick => exact withStack_defined s (s.stack.select_defined.bind fun _ _ => trivial)
  | roll => exact withStack_defined s (s.stack.select_defined.bind fun _ _ => trivial)
  | cat => exact withStack_defined s (s.stack.cat_defined limits.elementSize)
  | split => exact withStack_defined s s.stack.split_defined
  | widen => exact withStack_defined s (s.stack.widen_defined limits.elementSize)
  | narrow => exact withStack_defined s s.stack.narrow_defined
  | size => exact withStack_defined s (s.stack.aboveTop_defined _)
  | reverseBytes => exact withStack_defined s (s.stack.mapTop_defined _)
  | bitwise op => exact withStack_defined s (s.stack.bitwise_defined op)
  | equal verify => exact withStack_defined s (s.stack.equal_defined verify)
  | unary op => exact withStack_defined s (s.stack.unary_defined op)
  | binary op => exact withStack_defined s (s.stack.binary_defined op)
  | numEqualVerify => exact withStack_defined s s.stack.numEqualVerify_defined
  | within => exact withStack_defined s s.stack.within_defined
  | digest d => exact withStack_defined s (s.stack.digest_defined d)
  | checkDataSig verify => exact withStack_defined s (s.stack.checkDataSig_defined verify)
  | needsTransaction => exact s.stopped (by decide)
  | push | reserved | forbidden | disabled | openBranch _ | switchBranch | closeBranch =>
      exact s.stopped (by decide)

theorem step_defined (i : Instruction) : DefinedState (step limits s i) := by
  have counts := count_defined limits s.reached i.opcode
  rcases (action i.opcode).kinds with ha | ha | ha | ⟨negated, ha⟩ | ha | ha | ha
  · rw [step_of_disabled ha]
    exact s.reached.stopped (by decide)
  · rw [step_of_forbidden ha]
    exact s.reached.stopped (by decide)
  · rw [step_of_push ha]
    split
    · exact s.reached.stopped (by decide)
    · have pushes : DefinedState (if s.isExecuting then s.reached.push i else .ok s.reached) := by
        split
        · exact push_defined s.reached i
        · trivial
      exact pushes.bind fun t _ => checkSize_defined limits t
  · rw [step_of_openBranch ha]
    exact counts.bind fun t _ => openBranch_defined t negated
  · rw [step_of_switchBranch ha]
    exact counts.bind fun t _ => switchBranch_defined t
  · rw [step_of_closeBranch ha]
    exact counts.bind fun t _ => closeBranch_defined t
  · rw [step_of_ordinary ha]
    refine counts.bind fun t _ => ?_
    split
    · exact (perform_defined limits t _).bind fun u _ => checkSize_defined limits u
    · trivial

theorem steps_defined (instructions : List Instruction) :
    DefinedState (steps limits s instructions) := by
  induction instructions generalizing s with
  | nil => trivial
  | cons i rest ih =>
      rw [steps_cons]
      exact (step_defined limits s i).bind fun t _ => ih t

/-- No run ends in anything undefined. -/
theorem execute_defined (stack : Stack) (bytecode : Bytes) :
    (execute limits stack bytecode).error ≠ some .unknown := by
  have run := steps_defined limits { stack } (Program.decode bytecode).instructions
  by_cases size : bytecode.length ≤ limits.scriptSize
  · cases h : steps limits { stack } (Program.decode bytecode).instructions with
    | error stop =>
        rw [(execute_of_error size h).1]
        rw [h] at run
        exact fun same => run (Option.some.inj same)
    | ok t =>
        rw [(execute_of_ok size h).1]
        show Program.ending _ t ≠ some .unknown
        unfold Program.ending
        split
        · decide
        · split <;> decide
  · rw [execute, if_pos (Nat.not_le.1 size)]
    show some Error.scriptSize ≠ some .unknown
    decide

end Machine

end AuthScript
