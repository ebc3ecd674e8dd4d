import AuthScript.Bytes

/-!
# Words of settings

In settings, blanks around a word do not count, and in fixed words the case of
letters does not either.
-/

namespace AuthScript

namespace Bytes

/-- Whether a byte is a blank: a space, or one of the five bytes from a tab to a
carriage return. -/
def isBlank (c : UInt8) : Bool := c = 0x20 || (0x09 ≤ c && c ≤ 0x0d)

/-- The bytes without blanks at the end. -/
def trimRight : Bytes → Bytes
  | [] => []
  | c :: rest =>
    match trimRight rest with
    | [] => if isBlank c then [] else [c]
    | kept => c :: kept

/-- The bytes without blanks at either end. -/
def trim (b : Bytes) : Bytes := trimRight (b.dropWhile isBlank)

/-- A letter from A to Z as the small one, any other byte as it is. -/
def small (c : UInt8) : UInt8 := if 0x41 ≤ c && c ≤ 0x5a then c + 0x20 else c

/-- Whether two words differ at most in the case of their letters. -/
def sameWord (b c : Bytes) : Bool := b.map small = c.map small

@[simp] theorem trimRight_nil : trimRight [] = [] := rfl

end Bytes

end AuthScript
