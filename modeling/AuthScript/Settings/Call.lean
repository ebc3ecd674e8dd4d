import AuthScript.Settings.Loading

/-!
# Histories of settings

Settings come together by calls: the arguments of a command, texts, files, and values that
the program sets, in any order and any number. The calls are data (`Settings.Call`), so that
a history is a list. A call to load a file has the text that was read, if there was one.
-/

namespace AuthScript

namespace Settings

/-- A call that adds settings. -/
inductive Call where
  | readArguments (args : List Bytes)
  | readText (t origin : Bytes)
  | load (path : Bytes) (found : Option Bytes)
  | set (key value : Bytes)

/-- The settings after a call. -/
def apply (s : Settings) : Call → Settings
  | .readArguments args => (s.readArguments args).value
  | .readText t _ => s.readText t
  | .load path found => (s.load path found).value.1
  | .set key value => s.set key value

/-- What is wrong with a call. -/
def fault? (s : Settings) : Call → Option Fault
  | .readArguments _ => none
  | .readText t origin => textFault? t origin
  | .load path found => (s.load path found).value.2
  | .set _ _ => none

/-- The settings after a history of calls. -/
def run (s : Settings) (calls : List Call) : Settings := calls.foldl apply s

@[simp] theorem run_nil (s : Settings) : s.run [] = s := rfl

@[simp] theorem run_cons (s : Settings) (call : Call) (calls : List Call) :
    s.run (call :: calls) = (s.apply call).run calls := rfl

theorem run_append (s : Settings) (calls more : List Call) :
    s.run (calls ++ more) = (s.run calls).run more := List.foldl_append

end Settings

end AuthScript
