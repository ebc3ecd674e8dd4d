import AuthScript.Machine.Error
import AuthScript.Machine.Opcode

/-!
# Arithmetic of the machine

The machine computes with 64-bit integers. A sum, a difference and a product are checked: the
program is told when the integer meant is no word, and fails. An opposite, a quotient and a
remainder are not checked, and are undefined where that happens: the least integer has no
opposite and no quotient by minus one. So is every quotient by zero.

What is undefined is a failure of its own here, `Error.unknown`, which no answer of a program is.
-/

namespace AuthScript

namespace Machine

open Opcode

/-- The word that a computation gives, if it is the integer meant. -/
def exactly (failure : Error) (n : Int64) (meant : Int) : Except Error Int64 :=
  if n.toInt = meant then .ok n else .error failure

/-- The opposite, which is not checked. -/
def opposite (n : Int64) : Except Error Int64 := exactly .unknown (-n) (-n.toInt)

/-- The quotient rounded towards zero, which is not checked. -/
def quotient (a b : Int64) : Except Error Int64 :=
  if b = 0 then .error .unknown else exactly .unknown (a / b) (a.toInt.tdiv b.toInt)

/-- The remainder, with the sign of the dividend. It is defined where the quotient is. -/
def remainder (a b : Int64) : Except Error Int64 := do
  let _ ← quotient a b
  exactly .unknown (a % b) (a.toInt.tmod b.toInt)

/-- One for true and zero for false. -/
def truth (p : Prop) [Decidable p] : Int64 := if p then 1 else 0

/-- The result of an operation on one number. -/
def unaryResult : Unary → Int64 → Except Error Int64
  | .increment, n => exactly .numberRange (n + 1) (n.toInt + 1)
  | .decrement, n => exactly .numberRange (n - 1) (n.toInt - 1)
  | .negate, n => opposite n
  | .abs, n => if n < 0 then opposite n else .ok n
  | .not, n => .ok (truth (n = 0))
  | .notZero, n => .ok (truth (n ≠ 0))

/-- The result of an operation on two numbers, the top one second. -/
def binaryResult : Binary → Int64 → Int64 → Except Error Int64
  | .add, a, b => exactly .numberRange (a + b) (a.toInt + b.toInt)
  | .sub, a, b => exactly .numberRange (a - b) (a.toInt - b.toInt)
  | .mul, a, b => exactly .numberRange (a * b) (a.toInt * b.toInt)
  | .div, a, b => if b = 0 then .error .divisionByZero else quotient a b
  | .mod, a, b => if b = 0 then .error .moduloByZero else remainder a b
  | .boolAnd, a, b => .ok (truth (a ≠ 0 ∧ b ≠ 0))
  | .boolOr, a, b => .ok (truth (a ≠ 0 ∨ b ≠ 0))
  | .equal, a, b => .ok (truth (a = b))
  | .notEqual, a, b => .ok (truth (a ≠ b))
  | .less, a, b => .ok (truth (a < b))
  | .greater, a, b => .ok (truth (a > b))
  | .lessOrEqual, a, b => .ok (truth (a ≤ b))
  | .greaterOrEqual, a, b => .ok (truth (a ≥ b))
  | .min, a, b => .ok (if b < a then b else a)
  | .max, a, b => .ok (if a < b then b else a)

end Machine

end AuthScript
