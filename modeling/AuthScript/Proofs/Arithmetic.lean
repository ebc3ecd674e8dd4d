import AuthScript.Machine.Stack
import AuthScript.Proofs.NumberWord

/-!
# Arithmetic with words and with integers

The machine computes with words, but each of its operations is meant for integers (`Unary.meant`,
`Binary.meant`). Words that are read from items are operands: their magnitude is in range, so the
least word is none of them. On operands the two agree (`unary_eq`, `binary_eq`). An operation that
is checked comes to the integer meant, or to a failure if that is out of range; and one that is
not checked is defined and in range, for the opposite and the quotient of operands are no larger
than the operands are.
-/

namespace AuthScript

namespace Opcode

/-- The integer that an operation on one integer is meant to give. -/
def Unary.meant : Unary → Int → Int
  | .increment, n => n + 1
  | .decrement, n => n - 1
  | .negate, n => -n
  | .abs, n => n.natAbs
  | .not, n => if n = 0 then 1 else 0
  | .notZero, n => if n ≠ 0 then 1 else 0

/-- The integer that an operation on two integers is meant to give, the top one second. -/
def Binary.meant : Binary → Int → Int → Int
  | .add, a, b => a + b
  | .sub, a, b => a - b
  | .mul, a, b => a * b
  | .div, a, b => a.tdiv b
  | .mod, a, b => a.tmod b
  | .boolAnd, a, b => if a ≠ 0 ∧ b ≠ 0 then 1 else 0
  | .boolOr, a, b => if a ≠ 0 ∨ b ≠ 0 then 1 else 0
  | .equal, a, b => if a = b then 1 else 0
  | .notEqual, a, b => if a ≠ b then 1 else 0
  | .less, a, b => if a < b then 1 else 0
  | .greater, a, b => if a > b then 1 else 0
  | .lessOrEqual, a, b => if a ≤ b then 1 else 0
  | .greaterOrEqual, a, b => if a ≥ b then 1 else 0
  | .min, a, b => Min.min a b
  | .max, a, b => Max.max a b

/-- The failure of an operation by zero, if it is one of those that have none. -/
def Binary.byZero? : Binary → Option Machine.Error
  | .div => some .divisionByZero
  | .mod => some .moduloByZero
  | _ => none

end Opcode

namespace Machine

open Opcode ScriptNumber

/-! ## Results -/

/-- A word in the range of operands. -/
def InRange (n : Int64) : Prop := n.toInt.natAbs ≤ maxMagnitude

section

variable {n a b : Int64} {z : Int}

theorem exactly_of_eq {e : Error} (h : n.toInt = z) : exactly e n z = .ok n := if_pos h

theorem toInt_bmod (h : -(2 ^ 63 : Int) ≤ z ∧ z < 2 ^ 63) : z.bmod (2 ^ 64) = z :=
  Int.bmod_eq_of_le (by omega) (by omega)

theorem opposite_eq (range : InRange n) : opposite n = .ok (-n) ∧ (-n).toInt = -n.toInt := by
  unfold InRange maxMagnitude at range
  have exact : (-n).toInt = -n.toInt := by rw [Int64.toInt_neg, toInt_bmod (by omega)]
  exact ⟨exactly_of_eq exact, exact⟩

/-- The quotient of an operand is no larger than the operand, so it is no matter that the quotient
of the least word by minus one is undefined. -/
theorem quotient_eq (range : InRange a) (nonzero : b ≠ 0) :
    quotient a b = .ok (a / b) ∧ (a / b).toInt = a.toInt.tdiv b.toInt := by
  unfold InRange maxMagnitude at range
  have smaller := Int.natAbs_tdiv_le_natAbs a.toInt b.toInt
  have exact : (a / b).toInt = a.toInt.tdiv b.toInt := by
    rw [Int64.toInt_div, toInt_bmod (by omega)]
  refine ⟨?_, exact⟩
  rw [quotient, if_neg nonzero, exactly_of_eq exact]

theorem remainder_eq (range : InRange a) (nonzero : b ≠ 0) :
    remainder a b = .ok (a % b) ∧ (a % b).toInt = a.toInt.tmod b.toInt := by
  refine ⟨?_, Int64.toInt_mod a b⟩
  rw [remainder, (quotient_eq range nonzero).1]
  exact exactly_of_eq (Int64.toInt_mod a b)

theorem toInt_truth {p q : Prop} [Decidable p] [Decidable q] (same : p ↔ q) :
    (truth p).toInt = if q then 1 else 0 := by
  unfold truth
  by_cases h : q
  · rw [if_pos (same.2 h), if_pos h]
    rfl
  · rw [if_neg fun hp => h (same.1 hp), if_neg h]
    rfl

theorem eq_zero_iff : n = 0 ↔ n.toInt = 0 := by
  rw [← Int64.toInt_inj, Int64.toInt_zero]

end

namespace Stack

/-- Pushes the shortest spelling of an integer in the range of operands. -/
def pushInteger (z : Int) (s : Stack) : Effect Stack :=
  if z.natAbs ≤ maxMagnitude then .ok (encode z :: s) else .error (.numberRange, s)

variable {n a b : Int64} {z : Int} {s : Stack}

/-- Every word but the least one is in the range of operands. -/
theorem pushNumber_eq (n : Int64) (s : Stack) : pushNumber n s = pushInteger n.toInt s := by
  have lower := n.le_toInt
  have upper := n.toInt_lt
  unfold pushNumber pushInteger maxMagnitude
  by_cases least : n = Int64.minValue
  · have beyond : ¬ n.toInt.natAbs ≤ 0x7fffffffffffffff := by
      rw [least]
      decide
    rw [if_pos least, if_neg beyond]
  · have other : n.toInt ≠ Int64.minValue.toInt := fun same => least (Int64.toInt_inj.1 same)
    rw [Int64.toInt_minValue] at other
    rw [if_neg least, if_pos (by omega), encodeWord_eq]

/-- A truth value is pushed as the number one or zero. -/
theorem pushInteger_truth (p : Prop) [Decidable p] (s : Stack) :
    pushInteger (if p then 1 else 0) s = .ok (ofBool p :: s) := by
  have one : encode 1 = [1] := encode_eq_iff.2 ⟨rfl, rfl⟩
  by_cases h : p
  · rw [if_pos h, decide_eq_true h, pushInteger, one]
    rfl
  · rw [if_neg h, decide_eq_false h]
    rfl

theorem pushResult_ok (h : n.toInt = z) : pushResult (.ok n) s = pushInteger z s := by
  rw [← h]
  exact pushNumber_eq n s

/-- A word that is not the integer meant shows that the integer is no word. -/
theorem pushResult_exactly (wraps : n.toInt = z.bmod (2 ^ 64)) :
    pushResult (exactly .numberRange n z) s = pushInteger z s := by
  unfold exactly
  split
  · rename_i same
    exact pushResult_ok same
  · rename_i other
    have beyond : ¬ z.natAbs ≤ maxMagnitude := by
      intro range
      unfold maxMagnitude at range
      exact other (wraps.trans (toInt_bmod (by omega)))
    rw [pushInteger, if_neg beyond]
    rfl

theorem pushResult_unary (op : Unary) (range : InRange n) :
    pushResult (unaryResult op n) s = pushInteger (op.meant n.toInt) s := by
  cases op with
  | increment => exact pushResult_exactly (Int64.toInt_add n 1)
  | decrement => exact pushResult_exactly (Int64.toInt_sub n 1)
  | negate =>
      obtain ⟨defined, exact⟩ := opposite_eq range
      rw [unaryResult, defined]
      exact pushResult_ok exact
  | abs =>
      obtain ⟨defined, exact⟩ := opposite_eq range
      rw [unaryResult, defined]
      split
      · rename_i negative
        have negative : n.toInt < 0 := Int64.lt_iff_toInt_lt.1 negative
        refine pushResult_ok ?_
        rw [exact, Unary.meant]
        omega
      · rename_i positive
        have positive : ¬ n.toInt < 0 := fun below => positive (Int64.lt_iff_toInt_lt.2 below)
        refine pushResult_ok ?_
        rw [Unary.meant]
        omega
  | not => exact pushResult_ok (toInt_truth eq_zero_iff)
  | notZero => exact pushResult_ok (toInt_truth (not_congr eq_zero_iff))

theorem pushResult_binary (op : Binary) (range : InRange a)
    (defined : b = 0 → op.byZero? = none) :
    pushResult (binaryResult op a b) s = pushInteger (op.meant a.toInt b.toInt) s := by
  cases op with
  | add => exact pushResult_exactly (Int64.toInt_add a b)
  | sub => exact pushResult_exactly (Int64.toInt_sub a b)
  | mul => exact pushResult_exactly (Int64.toInt_mul a b)
  | div =>
      have nonzero : b ≠ 0 := fun zero => Option.some_ne_none _ (defined zero)
      obtain ⟨divides, exact⟩ := quotient_eq range nonzero
      rw [binaryResult, if_neg nonzero, divides]
      exact pushResult_ok exact
  | mod =>
      have nonzero : b ≠ 0 := fun zero => Option.some_ne_none _ (defined zero)
      obtain ⟨divides, exact⟩ := remainder_eq range nonzero
      rw [binaryResult, if_neg nonzero, divides]
      exact pushResult_ok exact
  | boolAnd =>
      exact pushResult_ok (toInt_truth (and_congr (not_congr eq_zero_iff) (not_congr eq_zero_iff)))
  | boolOr =>
      exact pushResult_ok (toInt_truth (or_congr (not_congr eq_zero_iff) (not_congr eq_zero_iff)))
  | equal => exact pushResult_ok (toInt_truth Int64.toInt_inj.symm)
  | notEqual => exact pushResult_ok (toInt_truth (not_congr Int64.toInt_inj.symm))
  | less | greater => exact pushResult_ok (toInt_truth Int64.lt_iff_toInt_lt)
  | lessOrEqual | greaterOrEqual => exact pushResult_ok (toInt_truth Int64.le_iff_toInt_le)
  | min =>
      have compare : b < a ↔ b.toInt < a.toInt := Int64.lt_iff_toInt_lt
      refine pushResult_ok ?_
      rw [apply_ite Int64.toInt, Binary.meant, if_congr compare rfl rfl]
      split <;> omega
  | max =>
      have compare : a < b ↔ a.toInt < b.toInt := Int64.lt_iff_toInt_lt
      refine pushResult_ok ?_
      rw [apply_ite Int64.toInt, Binary.meant, if_congr compare rfl rfl]
      split <;> omega

theorem binaryResult_byZero {op : Binary} {e : Error} (h : op.byZero? = some e) :
    binaryResult op a 0 = .error e := by
  cases op with
  | div | mod =>
      obtain rfl := Option.some.inj h
      rfl
  | _ => cases h

end Stack

/-! ## Operands -/

/-- An item that is read as a number. -/
def Operand (item : Bytes) (n : Int) : Prop := decode? item maxLength true = some n

namespace Operand

variable {x y z : Bytes} {a b c : Int} {rest : Stack}

theorem range (h : Operand x a) : a.natAbs ≤ maxMagnitude := (decode?_eq_some.1 h).2.2.2

/-- The shortest spelling of an integer in range is an operand again. -/
theorem encode (range : a.natAbs ≤ maxMagnitude) : Operand (ScriptNumber.encode a) a :=
  decode?_eq_some.2 ⟨length_encode_le (k := 7) (Nat.lt_of_le_of_lt range (by decide)),
    fun _ => isMinimal_encode a, value_encode a, range⟩

theorem popNumber (h : Operand x a) (rest : Stack) :
    ∃ n, Stack.popNumber (x :: rest) = .ok (n, rest) ∧ n.toInt = a := by
  obtain ⟨n, word, same⟩ := Option.map_eq_some_iff.1 h
  refine ⟨n, ?_, same⟩
  rw [Stack.popNumber, word]

theorem popTwo (ha : Operand x a) (hb : Operand y b) (rest : Stack) :
    ∃ m n, Stack.popTwo (y :: x :: rest) = .ok (m, n, rest) ∧ m.toInt = a ∧ n.toInt = b := by
  obtain ⟨n, top, hn⟩ := hb.popNumber (x :: rest)
  obtain ⟨m, below, hm⟩ := ha.popNumber rest
  refine ⟨m, n, ?_, hm, hn⟩
  have enough : ¬ (y :: x :: rest).length < 2 := by simp
  rw [Stack.popTwo, Stack.require, if_neg enough]
  show (Stack.popNumber (y :: x :: rest)).bind _ = _
  rw [top]
  show (Stack.popNumber (x :: rest)).bind _ = _
  rw [below]
  rfl

theorem unary_eq (op : Unary) (h : Operand x a) :
    Stack.unary op (x :: rest) = Stack.pushInteger (op.meant a) rest := by
  obtain ⟨n, pop, rfl⟩ := h.popNumber rest
  rw [Stack.unary, pop]
  exact Stack.pushResult_unary op h.range

theorem binary_eq (op : Binary) (ha : Operand x a) (hb : Operand y b)
    (defined : b = 0 → op.byZero? = none) :
    Stack.binary op (y :: x :: rest) = Stack.pushInteger (op.meant a b) rest := by
  obtain ⟨m, n, pop, rfl, rfl⟩ := ha.popTwo hb rest
  rw [Stack.binary, pop]
  exact Stack.pushResult_binary op ha.range fun zero => defined (eq_zero_iff.1 zero)

theorem binary_byZero {op : Binary} {e : Error} (ha : Operand x a) (hb : Operand y 0)
    (h : op.byZero? = some e) : Stack.binary op (y :: x :: rest) = .error (e, rest) := by
  obtain ⟨m, n, pop, _, zero⟩ := ha.popTwo hb rest
  obtain rfl := eq_zero_iff.2 zero
  rw [Stack.binary, pop]
  show Stack.pushResult (binaryResult op m 0) rest = _
  rw [Stack.binaryResult_byZero h]
  rfl

theorem numEqualVerify_eq (ha : Operand x a) (hb : Operand y b) :
    Stack.numEqualVerify (y :: x :: rest) =
      if a = b then .ok rest else .error (.numEqualVerifyFailed, rest) := by
  obtain ⟨m, n, pop, rfl, rfl⟩ := ha.popTwo hb rest
  rw [Stack.numEqualVerify, pop]
  show (if m = n then _ else _) = _
  by_cases same : m = n
  · rw [if_pos same, if_pos (congrArg Int64.toInt same)]
  · rw [if_neg same, if_neg fun equal => same (Int64.toInt_inj.1 equal)]

theorem within_eq (ha : Operand x a) (hb : Operand y b) (hc : Operand z c) :
    Stack.within (z :: y :: x :: rest) = .ok (ofBool (b ≤ a ∧ a < c) :: rest) := by
  obtain ⟨k, top, rfl⟩ := hc.popNumber (y :: x :: rest)
  obtain ⟨n, middle, rfl⟩ := hb.popNumber (x :: rest)
  obtain ⟨m, below, rfl⟩ := ha.popNumber rest
  have enough : ¬ (z :: y :: x :: rest).length < 3 := by simp
  have compare : n ≤ m ∧ m < k ↔ n.toInt ≤ m.toInt ∧ m.toInt < k.toInt :=
    and_congr Int64.le_iff_toInt_le Int64.lt_iff_toInt_lt
  rw [Stack.within, Stack.require, if_neg enough]
  show (Stack.popNumber (z :: y :: x :: rest)).bind _ = _
  rw [top]
  show (Stack.popNumber (y :: x :: rest)).bind _ = _
  rw [middle]
  show (Stack.popNumber (x :: rest)).bind _ = _
  rw [below]
  show Stack.pushNumber (truth (n ≤ m ∧ m < k)) rest = _
  rw [Stack.pushNumber_eq, toInt_truth compare, Stack.pushInteger_truth]

end Operand

end Machine

end AuthScript
