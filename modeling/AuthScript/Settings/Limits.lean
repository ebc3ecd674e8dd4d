import AuthScript.Environment
import AuthScript.Settings

/-!
# Limits from settings

The limits of compilations can be settings. A limit is a positive integer of at most
64 bits, written in digits alone; a limit that is not set has its usual value.
-/

namespace AuthScript

namespace Settings

/-- The limit that a value spells. -/
def limit? (value : Bytes) : Option Nat :=
  if value.all Decimal.isDigit && !value.isEmpty then
    let n := Decimal.ofDigits value
    if n = 0 ∨ 0x10000000000000000 ≤ n then none else some n
  else none

/-- The limit that is the value of a key, or the usual one if it has none. -/
def limit (s : Settings) (key : String) (usual : Nat) : Except Fault Nat :=
  match s.find? (text key) with
  | none => .ok usual
  | some value =>
    match limit? value with
    | some n => .ok n
    | none => .error ⟨.settingsBadValue, text "invalid value " ++ quoted value ++ text " for " ++
        quoted (text key) ++ text ": expected a positive integer"⟩

/-- The limits that the settings give. -/
def limits (s : Settings) : Except Fault Options := do
  let references ← s.limit "maxreferencedepth" ({} : Options).referenceDepth
  let evaluations ← s.limit "maxevaluationdepth" ({} : Options).evaluationDepth
  let nesting ← s.limit "maxnestingdepth" ({} : Options).nestingDepth
  return ⟨references, evaluations, nesting⟩

/-- The log line that shows limits. -/
def limitsLine (o : Options) : Log.Line :=
  ⟨.debug, .settings, text "compiler options: maxreferencedepth=" ++
    Bytes.decimal o.referenceDepth ++ text " maxevaluationdepth=" ++
    Bytes.decimal o.evaluationDepth ++ text " maxnestingdepth=" ++ Bytes.decimal o.nestingDepth⟩

/-- The limits that the settings give, and a line that shows them. -/
def options (s : Settings) : Logged (Except Fault Options) :=
  match s.limits with
  | .ok o => ⟨[limitsLine o], .ok o⟩
  | .error f => .silent (.error f)

end Settings

end AuthScript
