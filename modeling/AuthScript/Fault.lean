import AuthScript.Bytes

/-!
# Faults

A fault is the refusal of a component below the compiler: a 16-bit code, some of
which have names, and a message. Two faults are of the same kind when their codes
agree; the message only explains.
-/

namespace AuthScript

namespace Fault

/-- The code of a fault. -/
structure Code where
  number : UInt16
deriving DecidableEq

namespace Code

def none : Code := ⟨0⟩
def parseOverflow : Code := ⟨101⟩
def parseBadFormat : Code := ⟨102⟩
def encodingRange : Code := ⟨201⟩
def signatureFailed : Code := ⟨402⟩
def keyFailed : Code := ⟨403⟩
def settingsNotFound : Code := ⟨501⟩
def settingsBadValue : Code := ⟨502⟩
def capabilityError : Code := ⟨600⟩
def capabilityMissingData : Code := ⟨601⟩
def capabilityUnsupported : Code := ⟨602⟩

/-- The codes that have a name. -/
def named : List (Code × String) := [
  (none, "NONE"),
  (parseOverflow, "PARSE_OVERFLOW"),
  (parseBadFormat, "PARSE_BAD_FORMAT"),
  (encodingRange, "ENCODING_RANGE"),
  (signatureFailed, "CRYPTO_SIG_FAIL"),
  (keyFailed, "CRYPTO_KEY_FAIL"),
  (settingsNotFound, "CONFIG_NOT_FOUND"),
  (settingsBadValue, "CONFIG_BAD_VALUE"),
  (capabilityError, "CAPABILITY_ERROR"),
  (capabilityMissingData, "CAPABILITY_MISSING_DATA"),
  (capabilityUnsupported, "CAPABILITY_UNSUPPORTED")]

/-- The name of a code, `UNKNOWN` for a code without one. -/
def name (c : Code) : Bytes := text ((named.lookup c).getD "UNKNOWN")

/-- The code with a name. -/
def ofName? (name : Bytes) : Option Code :=
  (named.find? fun entry => text entry.2 = name).map (·.1)

end Code

end Fault

/-- A refusal: its code, and the message that explains it. -/
structure Fault where
  code : Fault.Code
  message : Bytes := []
deriving DecidableEq

namespace Fault

/-- The absence of a fault, as a fault. -/
def ok : Fault := ⟨.none, []⟩

/-- Whether this stands for the absence of a fault. -/
def isOk (f : Fault) : Bool := f.code = .none

/-- Faults are of the same kind when their codes agree. -/
def sameKind (f g : Fault) : Bool := f.code = g.code

/-- One line: the name and number of the code, then the message if there is one. -/
def format (f : Fault) : Bytes :=
  if f.isOk then text "no error"
  else f.code.name ++ text "(" ++ Bytes.decimal f.code.number.toNat ++ text ")" ++
    (if f.message.isEmpty then [] else text ": " ++ f.message)

end Fault

end AuthScript
