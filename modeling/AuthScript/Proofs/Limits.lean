import AuthScript.Proofs.Step

/-!
# Higher limits

Limits are compared where a program is too large, a push or a result too long, an operation or
an item one too many, and the outcome of a comparison is a failure or nothing. They enter no
value. So two computations that differ in nothing but their limits are the same, unless the one
with the lower limits fails because of them (`Kept`). That is kept by sequencing and holds of the
few parts of a step that read limits at all, and so of every step and every run (`steps_kept`).

Joining two items and spelling a number with so many bytes are the only operations on the stack
with a limit. A number of bytes that is below zero is refused like one that is too high, and
counts as such here.
-/

namespace AuthScript

namespace Machine

open Opcode (action)

/-- A failure that is about limits. -/
def Error.ofLimit : Error → Bool
  | .scriptSize | .pushSize | .opCount | .stackSize => true
  | _ => false

/-- No limit is lower than in the first limits. -/
structure Limits.Le (limits limits' : Limits) : Prop where
  scriptSize : limits.scriptSize ≤ limits'.scriptSize
  elementSize : limits.elementSize ≤ limits'.elementSize
  stackSize : limits.stackSize ≤ limits'.stackSize
  operations : limits.operations ≤ limits'.operations

/-- The second computation comes to the same as the first one, unless that fails because of its
limits. -/
def Kept {ε α : Type} (limited : ε → Bool) (r r' : Except ε α) : Prop :=
  (∃ e, r = .error e ∧ limited e = true) ∨ r = r'

namespace Kept

variable {ε α β : Type} {limited : ε → Bool} {r r' : Except ε α}

theorem refl (r : Except ε α) : Kept limited r r := .inr rfl

theorem refused {e : ε} (h : limited e = true) : Kept limited (.error e) r' := .inl ⟨e, rfl, h⟩

theorem bind {f f' : α → Except ε β} (h : Kept limited r r')
    (next : ∀ a, Kept limited (f a) (f' a)) : Kept limited (r.bind f) (r'.bind f') := by
  rcases h with ⟨e, rfl, he⟩ | rfl
  · exact refused he
  · cases r with
    | error e => exact refl _
    | ok a => exact next a

/-- Where the lower limit is exceeded the first computation fails because of it. -/
theorem ite {n limit limit' : Nat} {e : ε} (le : limit ≤ limit') (he : limited e = true)
    (h : Kept limited r r') :
    Kept limited (if limit < n then .error e else r) (if limit' < n then .error e else r') := by
  by_cases exceeds : limit < n
  · rw [if_pos exceeds]
    exact refused he
  · have room : ¬ limit' < n := by omega
    rw [if_neg exceeds, if_neg room]
    exact h

end Kept

namespace Stack

/-- An operation on the stack under two limits. -/
abbrev Kept (r r' : Effect Stack) : Prop := Machine.Kept (fun failure => failure.1.ofLimit) r r'

variable {limit limit' : Nat}

theorem cat_kept (le : limit ≤ limit') (s : Stack) : Kept (s.cat limit) (s.cat limit') := by
  unfold cat
  split
  · exact .ite le rfl (.refl _)
  · exact .refl _

theorem widen_kept (le : limit ≤ limit') (s : Stack) : Kept (s.widen limit) (s.widen limit') := by
  refine .bind (.refl _) ?_
  rintro ⟨n, s⟩
  show Machine.Kept _ (if n.toInt < 0 ∨ limit < n.toInt.toNat then _ else _)
    (if n.toInt < 0 ∨ limit' < n.toInt.toNat then _ else _)
  by_cases refuses : n.toInt < 0 ∨ limit < n.toInt.toNat
  · rw [if_pos refuses]
    exact .refused rfl
  · have room : ¬ (n.toInt < 0 ∨ limit' < n.toInt.toNat) := by omega
    rw [if_neg refuses, if_neg room]
    exact .refl _

end Stack

/-! ## Steps and runs -/

/-- A computation on states under two limits. -/
abbrev KeptState (r r' : Except Stop State) : Prop := Kept (fun stop => stop.error.ofLimit) r r'

section

variable {limits limits' : Limits} (higher : limits.Le limits') (s : State)

theorem withStack_kept {effect effect' : Effect Stack} (h : Stack.Kept effect effect') :
    KeptState (s.withStack effect) (s.withStack effect') := by
  rcases h with ⟨⟨e, stack⟩, rfl, he⟩ | rfl
  · exact .refused he
  · exact .refl _

include higher

theorem count_kept (op : UInt8) : KeptState (s.count limits op) (s.count limits' op) := by
  unfold State.count
  split
  · exact .refl _
  · exact .ite higher.operations rfl (.refl _)

theorem checkSize_kept : KeptState (s.checkSize limits) (s.checkSize limits') :=
  .ite higher.stackSize rfl (.refl _)

theorem perform_kept (a : Opcode.Action) :
    KeptState (s.perform limits a) (s.perform limits' a) := by
  cases a with
  | cat => exact withStack_kept s (Stack.cat_kept higher.elementSize s.stack)
  | widen => exact withStack_kept s (Stack.widen_kept higher.elementSize s.stack)
  | _ => exact .refl _

/-- An instruction does the same under higher limits. -/
theorem step_kept (i : Instruction) : KeptState (step limits s i) (step limits' s i) := by
  have counts : KeptState (s.reached.count limits i.opcode) (s.reached.count limits' i.opcode) :=
    count_kept higher s.reached i.opcode
  rcases (action i.opcode).kinds with ha | ha | ha | ⟨negated, ha⟩ | ha | ha | ha
  · rw [step_of_disabled ha, step_of_disabled ha]
    exact .refl _
  · rw [step_of_forbidden ha, step_of_forbidden ha]
    exact .refl _
  · rw [step_of_push ha, step_of_push ha]
    exact .ite higher.elementSize rfl (.bind (.refl _) fun t => checkSize_kept higher t)
  · rw [step_of_openBranch ha, step_of_openBranch ha]
    exact counts.bind fun t => .refl _
  · rw [step_of_switchBranch ha, step_of_switchBranch ha]
    exact counts.bind fun t => .refl _
  · rw [step_of_closeBranch ha, step_of_closeBranch ha]
    exact counts.bind fun t => .refl _
  · rw [step_of_ordinary ha, step_of_ordinary ha]
    refine counts.bind fun t => ?_
    split
    · exact (perform_kept higher t _).bind fun u => checkSize_kept higher u
    · exact .refl _

/-- So do instructions one after another. -/
theorem steps_kept (instructions : List Instruction) :
    KeptState (steps limits s instructions) (steps limits' s instructions) := by
  induction instructions generalizing s with
  | nil => exact .refl _
  | cons i rest ih => exact (step_kept higher s i).bind fun t => ih t

/-- A program that does not fail because of its limits does the same under higher ones. -/
theorem execute_kept {stack : Stack} {bytecode : Bytes}
    (settled : ∀ e, (execute limits stack bytecode).error = some e → e.ofLimit = false) :
    execute limits' stack bytecode = execute limits stack bytecode := by
  by_cases size : bytecode.length ≤ limits.scriptSize
  · have size' : bytecode.length ≤ limits'.scriptSize := Nat.le_trans size higher.scriptSize
    rcases steps_kept higher { stack } (Program.decode bytecode).instructions with
      ⟨stop, hstop, limited⟩ | same
    · have fails := congrArg Outcome.error (execute_of_error size hstop).1
      exact absurd (limited.symm.trans (settled _ fails)) (by decide)
    · simp only [execute, if_neg (Nat.not_lt.2 size), if_neg (Nat.not_lt.2 size'), same]
  · have fails : (execute limits stack bytecode).error = some .scriptSize := by
      rw [execute, if_pos (Nat.not_le.1 size)]
    exact absurd (settled _ fails) (by decide)

end

/-- Raising limits changes no run that succeeds: it succeeds with the same stack and as many
instructions. Nor does it change a run that fails for a reason other than the limits. -/
theorem execute_of_higher {limits limits' : Limits} (higher : limits.Le limits') (stack : Stack)
    (bytecode : Bytes) :
    ((execute limits stack bytecode).error = none →
      (execute limits' stack bytecode).error = none ∧
        (execute limits' stack bytecode).stack = (execute limits stack bytecode).stack ∧
        (execute limits' stack bytecode).executed = (execute limits stack bytecode).executed) ∧
    (∀ e, (execute limits stack bytecode).error = some e → e.ofLimit = false →
      execute limits' stack bytecode = execute limits stack bytecode) := by
  refine ⟨fun ended => ?_, fun e fails other => ?_⟩
  · have same : execute limits' stack bytecode = execute limits stack bytecode :=
      execute_kept higher fun e fails => by
        rw [ended] at fails
        cases fails
    rw [same]
    exact ⟨ended, rfl, rfl⟩
  · refine execute_kept higher fun e' fails' => ?_
    obtain rfl : e = e' := Option.some.inj (fails.symm.trans fails')
    exact other

/-- Two items are joined, and a number is spelled with as many bytes, under limits that leave no
room for more; and an item is not as long as another one. -/
theorem execute_of_higher_of_tight :
    let tight : Limits := ⟨4, 4, 3, 2⟩
    let joined : Bytes := [0x7e, 0x53, 0x54, 0x80]
    let compared : Bytes := [0x54, 0x80, 0x84]
    execute tight [[2], [1]] joined = ⟨none, [[3, 0, 0, 0], [1, 2]], 4⟩ ∧
      (execute {} [[2], [1]] joined).error = none ∧
      (execute {} [[2], [1]] joined).stack = [[3, 0, 0, 0], [1, 2]] ∧
      execute { tight with operations := 3 } [[2], [1]] compared =
        ⟨some .operandSize, [[2, 0, 0, 0], [1]], 3⟩ := by
  intro tight joined compared
  have ends : execute tight [[2], [1]] joined = ⟨none, [[3, 0, 0, 0], [1, 2]], 4⟩ := by
    with_unfolding_all rfl
  have fails : execute tight [[2], [1]] compared =
      ⟨some .operandSize, [[2, 0, 0, 0], [1]], 3⟩ := by with_unfolding_all rfl
  have standard : tight.Le {} := ⟨by decide, by decide, by decide, by decide⟩
  have another : tight.Le { tight with operations := 3 } :=
    ⟨by decide, by decide, by decide, by decide⟩
  obtain ⟨error, stack, _⟩ :=
    (execute_of_higher standard [[2], [1]] joined).1 (congrArg Outcome.error ends)
  have same := (execute_of_higher another [[2], [1]] compared).2 .operandSize
    (congrArg Outcome.error fails) rfl
  exact ⟨ends, error, stack.trans (congrArg Outcome.stack ends), same.trans fails⟩

end Machine

end AuthScript
