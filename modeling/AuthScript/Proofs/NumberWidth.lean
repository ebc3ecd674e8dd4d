import AuthScript.Proofs.Arithmetic
import AuthScript.Proofs.Minimization
import AuthScript.Proofs.StackBounds
import AuthScript.Proofs.Step

/-!
# The width of numbers

A number can be spelled with any number of bytes from those of its shortest spelling on: the sign
leaves the last byte, zero bytes follow, and the sign stands in the last of them. That changes
neither the sign nor the magnitude (`value_widened`), also where the last byte has nothing but the
sign, and where there is no byte at all. Spelled shortest again it is the spelling that it was
before, so making a number wider and then narrow is making it narrow (`width_keeps_number`).
-/

namespace AuthScript

namespace ScriptNumber

open Machine

/-- The sign of the last byte moves behind zero bytes. -/
theorem widened_append {low : Bytes} {top : UInt8} {n : Nat} (wide : low.length + 1 < n) :
    Stack.widened n (low ++ [top]) =
      low ++ (top &&& 0x7f) :: List.replicate (n - 1 - (low.length + 1)) 0 ++ [top &&& 0x80] := by
  have length : (low ++ [top]).length = low.length + 1 := by simp
  have reversed : (low ++ [top]).reverse = top :: low.reverse := by simp
  rw [Stack.widened, length, if_neg (Nat.not_le.2 wide), reversed]
  simp

/-- A wider spelling denotes the same number. -/
theorem value_widened (n : Nat) (b : Bytes) : value (Stack.widened n b) = value b := by
  by_cases short : n ≤ b.length
  · rw [Stack.widened, if_pos short]
  · obtain rfl | ⟨low, top, rfl⟩ := List.eq_nil_or_concat b
    · rw [Stack.widened, if_neg short]
      refine value_eq_zero.2 ?_
      show magnitude (List.replicate (n - 1) 0 ++ [0]) = 0
      rw [magnitude_append, Bytes.ofLittleEndian_replicate_zero]
      rfl
    · rw [List.concat_eq_append] at short ⊢
      rw [List.length_append, List.length_singleton] at short
      rw [widened_append (Nat.not_le.1 short)]
      refine value_congr ?_ ?_
      · rw [toNat_and_high]
        by_cases negative : 128 ≤ top.toNat <;> simp [negative]
      · have sign : (top &&& 0x80).toNat % 128 = 0 := by
          rw [toNat_and_high]
          split <;> rfl
        rw [sign, Nat.mul_zero, Nat.add_zero, ofLittleEndian_zeros, toNat_and_low]

/-- Eight bytes have room for no magnitude that is out of range. -/
theorem magnitude_le {b : Bytes} (short : b.length ≤ maxLength) : magnitude b ≤ maxMagnitude := by
  obtain rfl | ⟨low, top, rfl⟩ := List.eq_nil_or_concat b
  · exact Nat.zero_le _
  · rw [List.concat_eq_append] at short ⊢
    rw [List.length_append, List.length_singleton] at short
    have below := Bytes.ofLittleEndian_lt low
    have bits : top.toNat % 128 + 1 ≤ 128 := Nat.mod_lt _ (by decide)
    have bytes : 256 ^ low.length ≤ 256 ^ 7 :=
      Nat.pow_le_pow_right (by decide) (Nat.le_of_succ_le_succ short)
    refine Nat.le_of_lt_succ ?_
    calc magnitude (low ++ [top])
        = Bytes.ofLittleEndian low + 256 ^ low.length * (top.toNat % 128) :=
          magnitude_append low top
      _ < 256 ^ low.length * (top.toNat % 128 + 1) := by
          rw [Nat.mul_succ]
          omega
      _ ≤ 256 ^ 7 * 128 := Nat.mul_le_mul bytes bits

end ScriptNumber

namespace Machine

open ScriptNumber

/-- A shortest spelling of at most eight bytes is an operand. -/
theorem operand_encode {z : Int} (short : (encode z).length ≤ maxLength) :
    Operand (encode z) z := by
  have range := magnitude_le short
  rw [← natAbs_value, value_encode] at range
  exact Operand.encode range

namespace Stack

variable {x size : Bytes} {rest : Stack} {limit n : Nat}

theorem widen_eq (hsize : Operand size n) (fits : n ≤ limit) :
    widen limit (size :: x :: rest) =
      if n < (encode (value x)).length then
        .error (.impossibleEncoding, encode (value x) :: rest)
      else .ok (widened n (encode (value x)) :: rest) := by
  obtain ⟨m, pop, same⟩ := hsize.popNumber (x :: rest)
  have range : ¬ (m.toInt < 0 ∨ limit < m.toInt.toNat) := by omega
  have bytes : m.toInt.toNat = n := by omega
  rw [widen, pop]
  show (if m.toInt < 0 ∨ limit < m.toInt.toNat then _ else _) = _
  rw [if_neg range, bytes, ← minimize_eq_encode]

theorem narrow_eq :
    narrow (x :: rest) =
      if maxLength < (encode (value x)).length then
        .error (.numberRange, encode (value x) :: rest)
      else .ok (encode (value x) :: rest) := by
  rw [← minimize_eq_encode]
  rfl

end Stack

section

variable {limits : Limits} {s : State} {x size : Bytes} {rest : Stack} {n : Nat}
  (ready : s.Ready limits)

include ready

theorem step_widen (hsize : Operand size n) (fits : n ≤ limits.elementSize)
    (stack : s.stack = size :: x :: rest) :
    step limits s ⟨0x80, []⟩ =
      if n < (encode (value x)).length then
        .error ⟨.impossibleEncoding, s.after (encode (value x) :: rest)⟩
      else .ok (s.after (Stack.widened n (encode (value x)) :: rest)) := by
  have operates : Operates limits 0x80 (Stack.widen limits.elementSize) :=
    ⟨rfl, rfl, fun _ => rfl⟩
  have result : s.stack.widen limits.elementSize = _ := stack ▸ Stack.widen_eq hsize fits
  rw [step_of_ready operates ready result ?_]
  · split <;> rfl
  · intro stack' left
    split at left
    · cases left
    · rw [← Except.ok.inj left, stack]
      exact Nat.le_succ _

theorem step_narrow (stack : s.stack = x :: rest) :
    step limits s ⟨0x81, []⟩ =
      if maxLength < (encode (value x)).length then
        .error ⟨.numberRange, s.after (encode (value x) :: rest)⟩
      else .ok (s.after (encode (value x) :: rest)) := by
  have operates : Operates limits 0x81 Stack.narrow := ⟨rfl, rfl, fun _ => rfl⟩
  have result : s.stack.narrow = _ := stack ▸ Stack.narrow_eq
  rw [step_of_ready operates ready result ?_]
  · split <;> rfl
  · intro stack' left
    split at left
    · cases left
    · rw [← Except.ok.inj left, stack]
      exact Nat.le_refl _

end

/-- Another width keeps the number. An item is spelled with `n` bytes exactly if its shortest
spelling has no more, and then by a spelling with `n` bytes of the same number; it is made an
operand exactly if that has no more than eight, and then it is an operand of the same number. So
where both succeed, the first does not matter to the second. -/
theorem width_keeps_number {limits : Limits} {s : State} {x size : Bytes} {rest : Stack} {n : Nat}
    (ready : s.Ready limits) (hsize : Operand size n) (fits : n ≤ limits.elementSize) :
    let shortest := encode (value x)
    (s.stack = size :: x :: rest →
        (shortest.length ≤ n →
          ∃ wide, step limits s ⟨0x80, []⟩ = .ok (s.after (wide :: rest)) ∧
            wide.length = n ∧ value wide = value x) ∧
        (n < shortest.length →
          step limits s ⟨0x80, []⟩ = .error ⟨.impossibleEncoding, s.after (shortest :: rest)⟩)) ∧
      (s.stack = x :: rest →
        (shortest.length ≤ 8 →
          step limits s ⟨0x81, []⟩ = .ok (s.after (shortest :: rest)) ∧
            Operand shortest (value x)) ∧
        (8 < shortest.length →
          step limits s ⟨0x81, []⟩ = .error ⟨.numberRange, s.after (shortest :: rest)⟩)) ∧
      (s.stack = size :: x :: rest → s.operations + 1 < limits.operations → ∀ t u,
        step limits s ⟨0x80, []⟩ = .ok t →
        step limits { s with stack := x :: rest } ⟨0x81, []⟩ = .ok u →
          step limits t ⟨0x81, []⟩ = .ok (t.after u.stack)) := by
  intro shortest
  refine ⟨fun stack => ⟨fun enough => ?_, fun short => ?_⟩,
    fun stack => ⟨fun short => ?_, fun long => ?_⟩, ?_⟩
  · refine ⟨Stack.widened n shortest, ?_, ?_, ?_⟩
    · rw [step_widen ready hsize fits stack, if_neg (Nat.not_lt.2 enough)]
    · rw [Stack.length_widened, Nat.max_eq_left enough]
    · rw [value_widened, value_encode]
  · rw [step_widen ready hsize fits stack, if_pos short]
  · refine ⟨?_, operand_encode short⟩
    have few : ¬ maxLength < shortest.length := Nat.not_lt.2 short
    rw [step_narrow ready stack, if_neg few]
  · have many : maxLength < shortest.length := long
    rw [step_narrow ready stack, if_pos many]
  · intro stack few t u widens narrows
    have fewer : ∀ item : Bytes, (item :: rest).length ≤ s.stack.length := by
      intro item
      rw [stack]
      exact Nat.le_succ _
    rw [step_widen ready hsize fits stack] at widens
    rw [step_narrow (ready.withStack (fewer x)) rfl] at narrows
    split at widens
    · cases widens
    · split at narrows
      · cases narrows
      · rename_i short
        obtain rfl := Except.ok.inj widens
        obtain rfl := Except.ok.inj narrows
        have same : value (Stack.widened n (encode (value x))) = value x := by
          rw [value_widened, value_encode]
        rw [step_narrow (ready.after (fewer _) few) rfl, same, if_neg short]
        rfl

/-- A number whose last byte is nothing but the sign, first with a zero byte too many. -/
theorem width_keeps_number_of_sign :
    let x : Bytes := [0xff, 0x00, 0x80]
    let s : State := { stack := [[0x04], x] }
    s.Ready {} ∧ Operand [0x04] (4 : Nat) ∧ encode (value x) = [0xff, 0x80] ∧
      ∃ wide, step {} s ⟨0x80, []⟩ = .ok (s.after [wide]) ∧ wide.length = 4 ∧
        value wide = -0xff ∧
        step {} (s.after [wide]) ⟨0x81, []⟩ = .ok ((s.after [wide]).after [[0xff, 0x80]]) := by
  intro x s
  have ready : s.Ready {} := ⟨rfl, by decide, by decide⟩
  have hsize : Operand [0x04] (4 : Nat) :=
    decode?_eq_some.2 ⟨by decide, fun _ => rfl, rfl, by decide⟩
  have shortest : encode (value x) = [0xff, 0x80] := encode_eq_iff.2 ⟨rfl, rfl⟩
  have alone : step {} { s with stack := [x] } ⟨0x81, []⟩ =
      .ok (({ s with stack := [x] } : State).after [[0xff, 0x80]]) := by
    have narrow := step_narrow (ready.withStack (by decide : [x].length ≤ 2)) rfl
    rw [shortest] at narrow
    exact narrow
  obtain ⟨widens, _, both⟩ := @width_keeps_number {} s x [0x04] [] 4 ready hsize (by decide)
  have enough : (encode (value x)).length ≤ 4 := by
    rw [shortest]
    decide
  obtain ⟨wide, widened, length, number⟩ := (widens rfl).1 enough
  exact ⟨ready, hsize, shortest, wide, widened, length, number,
    both rfl (by decide) _ _ widened alone⟩

end Machine

end AuthScript
