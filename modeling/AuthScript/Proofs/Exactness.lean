import AuthScript.Proofs.Definedness

/-!
# Arithmetic is exact or fails

An opcode of arithmetic takes its operands off the stack and pushes the shortest spelling of the
integer that it is meant to give, if that is an operand again. Otherwise it fails, and a division
fails by zero (`arithmetic_exact`). Only sums, differences and products can be out of range. The
quotient and the remainder are those of division rounded towards zero.
-/

namespace AuthScript

namespace Opcode

/-- The opcode of an operation on one number. -/
def Unary.opcode : Unary → UInt8
  | .increment => 0x8b
  | .decrement => 0x8c
  | .negate => 0x8f
  | .abs => 0x90
  | .not => 0x91
  | .notZero => 0x92

/-- The opcode of an operation on two numbers. -/
def Binary.opcode : Binary → UInt8
  | .add => 0x93
  | .sub => 0x94
  | .mul => 0x95
  | .div => 0x96
  | .mod => 0x97
  | .boolAnd => 0x9a
  | .boolOr => 0x9b
  | .equal => 0x9c
  | .notEqual => 0x9e
  | .less => 0x9f
  | .greater => 0xa0
  | .lessOrEqual => 0xa1
  | .greaterOrEqual => 0xa2
  | .min => 0xa3
  | .max => 0xa4

open Machine

theorem Unary.operates (limits : Limits) (op : Unary) :
    Operates limits op.opcode (Stack.unary op) := by
  cases op <;> exact ⟨rfl, rfl, fun _ => rfl⟩

theorem Binary.operates (limits : Limits) (op : Binary) :
    Operates limits op.opcode (Stack.binary op) := by
  cases op <;> exact ⟨rfl, rfl, fun _ => rfl⟩

/-! ## The integers that are meant -/

section

variable {a b : Int}

theorem Unary.meant_inRange {op : Unary} (ha : a.natAbs ≤ ScriptNumber.maxMagnitude)
    (steady : op ≠ .increment ∧ op ≠ .decrement) :
    (op.meant a).natAbs ≤ ScriptNumber.maxMagnitude := by
  cases op with
  | increment => exact absurd rfl steady.1
  | decrement => exact absurd rfl steady.2
  | negate | abs =>
      rw [meant]
      omega
  | not | notZero =>
      rw [meant]
      split <;> decide

theorem Binary.meant_inRange {op : Binary} (ha : a.natAbs ≤ ScriptNumber.maxMagnitude)
    (hb : b.natAbs ≤ ScriptNumber.maxMagnitude) (steady : op ≠ .add ∧ op ≠ .sub ∧ op ≠ .mul) :
    (op.meant a b).natAbs ≤ ScriptNumber.maxMagnitude := by
  cases op with
  | add => exact absurd rfl steady.1
  | sub => exact absurd rfl steady.2.1
  | mul => exact absurd rfl steady.2.2
  | div => exact Nat.le_trans (Int.natAbs_tdiv_le_natAbs a b) ha
  | mod =>
      rw [meant, Int.natAbs_tmod]
      exact Nat.le_trans (Nat.mod_le _ _) ha
  | min | max =>
      rw [meant]
      omega
  | _ =>
      rw [meant]
      split <;> decide

/-- The quotient is rounded towards zero: what remains is smaller than the divisor and on the side
of the dividend. -/
theorem Binary.meant_division (nonzero : b ≠ 0) :
    a = meant .div a b * b + meant .mod a b ∧ (meant .mod a b).natAbs < b.natAbs ∧
      (meant .mod a b = 0 ∨ (meant .mod a b).sign = a.sign) := by
  refine ⟨(Int.tdiv_mul_add_tmod a b).symm, ?_, ?_⟩
  · rw [meant, Int.natAbs_tmod]
    exact Nat.mod_lt _ (Int.natAbs_pos.2 nonzero)
  · have sign : (meant .mod a b).sign = if b ∣ a then 0 else a.sign := Int.sign_tmod a b
    split at sign
    · exact .inl (Int.sign_eq_zero_iff_zero.1 sign)
    · exact .inr sign

end

end Opcode

namespace Machine

open ScriptNumber

/-- What an operation with the integer `z` for a result comes to: the shortest spelling of it
above the items that are left, or a failure if it is out of range. -/
def State.answer (s : State) (rest : Stack) (z : Int) : Except Stop State :=
  if z.natAbs ≤ maxMagnitude then .ok (s.after (encode z :: rest))
  else .error ⟨.numberRange, s.after rest⟩

section

variable {limits : Limits} {s : State} {x y z : Bytes} {a b c : Int} {rest : Stack}

theorem State.withStack_pushInteger (n : Int) :
    (s.after s.stack).withStack (Stack.pushInteger n rest) = s.answer rest n := by
  unfold Stack.pushInteger answer
  split <;> rfl

theorem Stack.length_pushInteger {n : Int} {stack : Stack} (h : pushInteger n rest = .ok stack) :
    stack.length = rest.length + 1 := by
  unfold pushInteger at h
  split at h
  · rw [← Except.ok.inj h]
    rfl
  · cases h

variable (ready : s.Ready limits) (ha : Operand x a)

include ready ha

theorem step_unary (op : Opcode.Unary) (stack : s.stack = x :: rest) :
    step limits s ⟨op.opcode, []⟩ = s.answer rest (op.meant a) := by
  have result : Stack.unary op s.stack = _ := stack ▸ ha.unary_eq op
  rw [step_of_ready (op.operates limits) ready result ?_, State.withStack_pushInteger]
  intro stack' pushed
  rw [Stack.length_pushInteger pushed, stack, List.length_cons]

variable (hb : Operand y b) (stack : s.stack = y :: x :: rest)

include hb stack

theorem step_binary (op : Opcode.Binary) (defined : b = 0 → op.byZero? = none) :
    step limits s ⟨op.opcode, []⟩ = s.answer rest (op.meant a b) := by
  have result : Stack.binary op s.stack = _ := stack ▸ ha.binary_eq op hb defined
  rw [step_of_ready (op.operates limits) ready result ?_, State.withStack_pushInteger]
  intro stack' pushed
  rw [Stack.length_pushInteger pushed, stack]
  exact Nat.le_succ _

theorem step_binary_byZero {op : Opcode.Binary} {e : Error} (zero : b = 0)
    (h : op.byZero? = some e) :
    step limits s ⟨op.opcode, []⟩ = .error ⟨e, s.after rest⟩ := by
  subst zero
  have result : Stack.binary op s.stack = _ := stack ▸ ha.binary_byZero hb h
  rw [step_of_ready (op.operates limits) ready result fun _ failed => by cases failed]
  rfl

theorem step_numEqualVerify :
    step limits s ⟨0x9d, []⟩ =
      if a = b then .ok (s.after rest) else .error ⟨.numEqualVerifyFailed, s.after rest⟩ := by
  have operates : Operates limits 0x9d Stack.numEqualVerify := ⟨rfl, rfl, fun _ => rfl⟩
  have result : s.stack.numEqualVerify = _ := stack ▸ ha.numEqualVerify_eq hb
  rw [step_of_ready operates ready result ?_]
  · split <;> rfl
  · intro stack' left
    split at left
    · rw [← Except.ok.inj left, stack]
      exact Nat.le_succ_of_le (Nat.le_succ _)
    · cases left

omit stack in
theorem step_within (hc : Operand z c) (stack : s.stack = z :: y :: x :: rest) :
    step limits s ⟨0xa5, []⟩ = .ok (s.after (ofBool (b ≤ a ∧ a < c) :: rest)) := by
  have operates : Operates limits 0xa5 Stack.within := ⟨rfl, rfl, fun _ => rfl⟩
  have result : s.stack.within = _ := stack ▸ ha.within_eq hb hc
  rw [step_of_ready operates ready result ?_]
  · rfl
  · intro stack' pushed
    rw [← Except.ok.inj pushed, stack]
    exact Nat.le_succ_of_le (Nat.le_succ _)

end

/-- Arithmetic is exact or fails. On operands `a`, `b` and `c` the opcodes push the shortest
spelling of the integer meant, which is an operand again, or fail if that is out of range; a
quotient and a remainder fail by zero, and satisfy the law of division otherwise; and only sums,
differences and products can be out of range. On the way nothing that is not checked overflows or
traps: no instruction does so in any state, nor does the spelling of a word below zero or the
reading of a magnitude in range. -/
theorem arithmetic_exact {limits : Limits} {s : State} {x y z : Bytes} {a b c : Int}
    {rest : Stack} (ready : s.Ready limits) (ha : Operand x a) (hb : Operand y b)
    (hc : Operand z c) :
    (s.stack = x :: rest → ∀ op : Opcode.Unary,
        step limits s ⟨op.opcode, []⟩ = s.answer rest (op.meant a)) ∧
      (s.stack = y :: x :: rest →
        (∀ op : Opcode.Binary, (b = 0 → op ≠ .div ∧ op ≠ .mod) →
          step limits s ⟨op.opcode, []⟩ = s.answer rest (op.meant a b)) ∧
        (b = 0 →
          step limits s ⟨Opcode.Binary.div.opcode, []⟩ = .error ⟨.divisionByZero, s.after rest⟩ ∧
          step limits s ⟨Opcode.Binary.mod.opcode, []⟩ = .error ⟨.moduloByZero, s.after rest⟩) ∧
        step limits s ⟨0x9d, []⟩ =
          if a = b then .ok (s.after rest) else .error ⟨.numEqualVerifyFailed, s.after rest⟩) ∧
      (s.stack = z :: y :: x :: rest →
        step limits s ⟨0xa5, []⟩ = .ok (s.after (ofBool (b ≤ a ∧ a < c) :: rest))) ∧
      (b ≠ 0 →
        let q := Opcode.Binary.div.meant a b
        let r := Opcode.Binary.mod.meant a b
        a = q * b + r ∧ r.natAbs < b.natAbs ∧ (r = 0 ∨ r.sign = a.sign)) ∧
      (∀ op : Opcode.Unary, op ≠ .increment ∧ op ≠ .decrement →
        (op.meant a).natAbs ≤ maxMagnitude) ∧
      (∀ op : Opcode.Binary, op ≠ .add ∧ op ≠ .sub ∧ op ≠ .mul →
        (op.meant a b).natAbs ≤ maxMagnitude) ∧
      (∀ n : Int, n.natAbs ≤ maxMagnitude → Operand (encode n) n) ∧
      (∀ p : Bool, Operand (ofBool p) (if p then 1 else 0)) ∧
      (∀ (t : State) (i : Instruction) (stop : Stop),
        step limits t i = .error stop → stop.error ≠ .unknown) ∧
      (∀ v : Int64, v.toInt < 0 →
        (v + 1).toInt = v.toInt + 1 ∧ (-(v + 1)).toInt = -(v.toInt + 1)) ∧
      (∀ n : UInt64, n.toNat ≤ maxMagnitude →
        n.toInt64.toInt = n.toNat ∧ (-n.toInt64).toInt = -(n.toNat : Int)) := by
  refine ⟨fun stack op => step_unary ready ha op stack, fun stack => ⟨?_, ?_, ?_⟩,
    fun stack => step_within ready ha hb hc stack, Opcode.Binary.meant_division,
    fun op => Opcode.Unary.meant_inRange ha.range,
    fun op => Opcode.Binary.meant_inRange ha.range hb.range, fun n => Operand.encode, ?_, ?_,
    fun v => toInt_neg_add_one, fun n => toInt_toInt64⟩
  · intro op other
    refine step_binary ready ha hb stack op fun zero => ?_
    cases op with
    | div => exact absurd rfl (other zero).1
    | mod => exact absurd rfl (other zero).2
    | _ => rfl
  · intro zero
    exact ⟨step_binary_byZero ready ha hb stack zero rfl,
      step_binary_byZero ready ha hb stack zero rfl⟩
  · exact step_numEqualVerify ready ha hb stack
  · intro p
    cases p <;> exact decode?_eq_some.2 ⟨by decide, fun _ => rfl, rfl, by decide⟩
  · intro t i stop failed
    have defined := step_defined limits t i
    rw [failed] at defined
    exact defined

/-- The least operand, divided by minus one and increased by it. -/
theorem arithmetic_exact_of_least :
    let x : Bytes := [0xff, 0xff, 0xff, 0xff, 0xff, 0xff, 0xff, 0xff]
    let largest : Bytes := [0xff, 0xff, 0xff, 0xff, 0xff, 0xff, 0xff, 0x7f]
    let s : State := { stack := [[0x81], x] }
    s.Ready {} ∧ Operand x (-0x7fffffffffffffff) ∧ Operand [0x81] (-1) ∧
      step {} s ⟨0x96, []⟩ = .ok (s.after [largest]) ∧
      step {} s ⟨0x93, []⟩ = .error ⟨.numberRange, s.after []⟩ ∧
      step {} s ⟨0x9d, []⟩ = .error ⟨.numEqualVerifyFailed, s.after []⟩ := by
  intro x largest s
  have ready : s.Ready {} := ⟨rfl, by decide, by decide⟩
  have ha : Operand x (-0x7fffffffffffffff) :=
    decode?_eq_some.2 ⟨by decide, fun _ => rfl, rfl, by decide⟩
  have hb : Operand [0x81] (-1) := decode?_eq_some.2 ⟨by decide, fun _ => rfl, rfl, by decide⟩
  obtain ⟨_, binary, _⟩ := @arithmetic_exact {} s x [0x81] [0x81] _ _ _ [] ready ha hb hb
  obtain ⟨exact, _, verify⟩ := binary rfl
  refine ⟨ready, ha, hb, ?_, ?_, ?_⟩
  · have shortest : encode 0x7fffffffffffffff = largest := encode_eq_iff.2 ⟨rfl, rfl⟩
    have quotient := exact .div (by decide)
    rw [State.answer, if_pos (by decide)] at quotient
    rw [← shortest]
    exact quotient
  · have sum := exact .add (by decide)
    rw [State.answer, if_neg (by decide)] at sum
    exact sum
  · rw [if_neg (by decide)] at verify
    exact verify

end Machine

end AuthScript
