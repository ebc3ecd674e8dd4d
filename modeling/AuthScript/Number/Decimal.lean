import AuthScript.Fault
import AuthScript.Number.Script

/-!
# Decimal integers

Integer literals are decimal numbers with an optional minus sign. The integers they
denote come from outside and may be limited: then a literal with too many digits is
refused. An integer has a shortest script number whatever its size, and an operand
value only if that script number can be read back as one.
-/

namespace AuthScript

namespace Decimal

/-- Whether a byte is a decimal digit. -/
def isDigit (c : UInt8) : Bool := 48 ≤ c && c ≤ 57

/-- The natural number spelled by decimal digits. -/
def ofDigits (digits : Bytes) : Nat := digits.foldl (fun n c => 10 * n + (c.toNat - 48)) 0

/-- Whether there are no more digits than a limit allows, if there is one. -/
def within (limit : Option Nat) (digits : Bytes) : Bool := limit.all (digits.length ≤ ·)

/-- The integer spelled by an optional minus sign and at least one digit, and not by more
digits than a limit allows. -/
def parse (limit : Option Nat) (literal : Bytes) : Except Fault Int :=
  let negative := literal.head? = some 45
  let digits := if negative then literal.tail else literal
  if digits.isEmpty then .error ⟨.parseBadFormat, text "empty integer literal"⟩
  else if !digits.all isDigit then
    .error ⟨.parseBadFormat, text "invalid integer literal " ++ quoted literal⟩
  else if within limit digits then
    .ok (if negative then -(ofDigits digits) else ofDigits digits)
  else .error ⟨.parseOverflow, text "cannot convert integer literal " ++ quoted literal⟩

/-- The integer that a 64-bit integer is: the eight bytes of its magnitude, most significant
first, with its sign. -/
def ofInt64 (v : Int64) : Int :=
  let magnitude := Bytes.ofBigEndian (Bytes.bigEndian 8 (ScriptNumber.wordMagnitude v).toNat)
  if v < 0 then -magnitude else magnitude

/-- The operand that an integer is on the machine: one that takes at most eight
bytes and whose script number is in range when read back. -/
def operand? (z : Int) : Option Int :=
  if z.natAbs < 0x10000000000000000 then ScriptNumber.decode? (ScriptNumber.encode z) 9 false
  else none

end Decimal

end AuthScript
