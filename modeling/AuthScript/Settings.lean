import AuthScript.Bytes.Word
import AuthScript.Fault
import AuthScript.Log.Line
import AuthScript.Number.Decimal

/-!
# Settings

Settings are values for keys from two sources: the arguments of a command, and files
together with values set by the program. A key may have several values from either
source. All of them are kept in the order in which they arrive (`values`), and those
from arguments come first; where one value is asked for, it is the first.

In a text each line is a setting, `key=value` or only a key, which then has the
value `1`. Empty lines and lines that begin with `#` say nothing. Reading a text
stops at a line with an empty key, and the lines before it stay read.
-/

namespace AuthScript

/-- A value for a key. -/
structure Setting where
  key : Bytes
  value : Bytes
deriving DecidableEq

namespace Setting

/-- The setting that a text spells: the key before the first `=` and the value after
it, or a key alone. -/
def ofText (t : Bytes) : Setting :=
  match t.dropWhile (· ≠ 0x3d) with
  | [] => ⟨Bytes.trim t, text "1"⟩
  | _ :: value => ⟨Bytes.trim (t.takeWhile (· ≠ 0x3d)), Bytes.trim value⟩

/-- The setting of a line, if it says anything. -/
def ofLine? (line : Bytes) : Option Setting :=
  match Bytes.trim line with
  | [] => none
  | c :: rest => if c = 0x23 then none else some (ofText (c :: rest))

/-- The settings of lines up to the first one with an empty key, and the number of
that line. -/
def ofLines (number : Nat) : List Bytes → List Setting × Option Nat
  | [] => ([], none)
  | line :: rest =>
    match ofLine? line with
    | none => ofLines (number + 1) rest
    | some s =>
      if s.key.isEmpty then ([], some number)
      else
        let (more, bad) := ofLines (number + 1) rest
        (s :: more, bad)

end Setting

/-- The settings from both sources in the order in which they arrived. -/
structure Settings where
  arguments : List Setting := []
  file : List Setting := []
deriving DecidableEq

namespace Settings

/-- The values that arguments give for a key. -/
def argumentValues (s : Settings) (key : Bytes) : List Bytes :=
  (s.arguments.filter (·.key = key)).map (·.value)

/-- The values that files and the program give for a key. -/
def fileValues (s : Settings) (key : Bytes) : List Bytes :=
  (s.file.filter (·.key = key)).map (·.value)

/-- All values of a key. -/
def values (s : Settings) (key : Bytes) : List Bytes := s.argumentValues key ++ s.fileValues key

/-- The values that count where one is asked for: those from arguments if there are any,
else those from files. -/
def decisive (s : Settings) (key : Bytes) : List Bytes :=
  match s.argumentValues key with
  | [] => s.fileValues key
  | given => given

/-- The value of a key. -/
def find? (s : Settings) (key : Bytes) : Option Bytes := (s.decisive key).head?

/-- Whether a key has a value. -/
def contains (s : Settings) (key : Bytes) : Bool := !(s.decisive key).isEmpty

/-- An argument without the dashes before it. -/
def undashed : Bytes → Bytes
  | 0x2d :: 0x2d :: rest => rest
  | 0x2d :: rest => rest
  | arg => arg

/-- The settings with an argument, which ends at its first zero byte. An argument
without a dash before it is not a setting. -/
def readArgument (s : Settings) (arg : Bytes) : Logged Settings :=
  let arg := arg.takeWhile (· ≠ 0)
  if arg.isEmpty then .silent s
  else if arg.head? = some 0x2d then
    .silent { s with arguments := s.arguments ++ [.ofText (undashed arg)] }
  else ⟨[⟨.warn, .settings, text "Config: ignoring positional argument " ++ quoted arg⟩], s⟩

/-- The settings with the arguments of a command. -/
def readArguments (s : Settings) (args : List Bytes) : Logged Settings :=
  args.foldlM readArgument s

/-- The settings with those of a text. -/
def readText (s : Settings) (t : Bytes) : Settings :=
  { s with file := s.file ++ (Setting.ofLines 1 (Bytes.pieces 0x0a t)).1 }

/-- What is wrong with a text. -/
def textFault? (t origin : Bytes) : Option Fault :=
  (Setting.ofLines 1 (Bytes.pieces 0x0a t)).2.map fun number =>
    ⟨.settingsBadValue, text "empty key on line " ++ Bytes.decimal number ++ text " of " ++
      quoted origin⟩

/-- The settings with this value in place of all that a key has from files. -/
def set (s : Settings) (key value : Bytes) : Settings :=
  { s with file := s.file.filter (·.key ≠ key) ++ [⟨key, value⟩] }

/-- The integer that a value spells, if it fits 64 bits. -/
def integer? (value : Bytes) : Option Int :=
  match Decimal.parse none value with
  | .ok z => if -0x8000000000000000 ≤ z ∧ z < 0x8000000000000000 then some z else none
  | .error _ => none

/-- The integer that is the value of a key, or another if it has none. -/
def integer (s : Settings) (key : Bytes) (usual : Int) : Logged Int :=
  match s.find? key with
  | none => .silent usual
  | some value =>
    match integer? value with
    | some z => .silent z
    | none =>
      ⟨[⟨.warn, .settings, text "Config: cannot parse " ++ quoted value ++
        text " as integer for key " ++ quoted key⟩], usual⟩

/-- The truth value that a value spells. -/
def truth? (value : Bytes) : Option Bool :=
  if ["1", "true", "yes", "on"].any fun w => Bytes.sameWord (text w) value then some true
  else if ["0", "false", "no", "off"].any fun w => Bytes.sameWord (text w) value then some false
  else none

/-- The truth value that is the value of a key, or another if it has none. -/
def truth (s : Settings) (key : Bytes) (usual : Bool) : Bool :=
  ((s.find? key).bind truth?).getD usual

/-- A set value takes the place of all values of its key and of no other. -/
@[simp] theorem fileValues_set (s : Settings) (key other value : Bytes) :
    (s.set key value).fileValues other = if other = key then [value] else s.fileValues other := by
  by_cases h : other = key
  · simp [set, fileValues, List.filter_append, List.filter_filter, h]
  · have stays : ∀ x : Setting,
        (decide (x.key = other) && !decide (x.key = key)) = decide (x.key = other) := by
      intro x
      by_cases hx : x.key = other
      · simp [hx, h]
      · simp [hx]
    simp [set, fileValues, List.filter_append, List.filter_filter, Ne.symm h, h, stays]

theorem find?_eq_head? (s : Settings) (key : Bytes) : s.find? key = (s.values key).head? := by
  rw [find?, decisive, values]
  cases s.argumentValues key <;> rfl

theorem contains_iff (s : Settings) (key : Bytes) :
    s.contains key = true ↔ s.values key ≠ [] := by
  rw [contains, decisive, values]
  cases s.argumentValues key <;> simp

/-- Where arguments give a key, the first value that they give is the one that counts. -/
theorem find?_of_argumentValues {s : Settings} {key value : Bytes} {more : List Bytes}
    (h : s.argumentValues key = value :: more) : s.find? key = some value := by
  rw [find?_eq_head?, values, h]
  rfl

end Settings

end AuthScript
