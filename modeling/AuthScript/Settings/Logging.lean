import AuthScript.Log.Logger
import AuthScript.Log.Selection
import AuthScript.Settings

/-!
# Logging from settings

The level, the categories and the file of a logger can be settings. They come to
calls on the logger and perhaps a fault: after a level that means nothing there are
no calls, and a file that cannot be opened is tried last. The file that the path leads
to, if it can be opened, is given.
-/

namespace AuthScript

namespace Settings

/-- The call that sets the level, if it is a setting. -/
def levelCalls (s : Settings) : Except Fault (List Log.Call) :=
  match s.find? (text "loglevel") with
  | none => .ok []
  | some value =>
    match Log.Level.ofText? value with
    | some level => .ok [.setLevel level]
    | none => .error ⟨.settingsBadValue, text "unknown log level " ++ quoted value⟩

/-- The call that sets the categories, if they are a setting. -/
def categoryCalls (s : Settings) : List Log.Call :=
  match s.values (text "logcategories") with
  | [] => []
  | values => [.setCategories (.ofText (Bytes.join (text ",") values))]

/-- The file to write, if there is one. -/
def logFile? (s : Settings) : Option Bytes := (s.find? (text "logfile")).filter (!·.isEmpty)

/-- The fault of a file that cannot be opened. -/
def fileFault? (path : Bytes) (found : Option Bytes) : Option Fault :=
  if Log.Session.canSetFile path found then none
  else some ⟨.settingsBadValue, text "cannot open log file " ++ quoted path⟩

/-- The calls on the logger that the settings come to, and what is wrong with the
settings. -/
def logging (s : Settings) (found : Option Bytes) : List Log.Call × Option Fault :=
  match s.levelCalls with
  | .error f => ([], some f)
  | .ok calls =>
    (calls ++ s.categoryCalls ++ (s.logFile?.map fun path => .setFile path found).toList,
      s.logFile?.bind (fileFault? · found))

end Settings

end AuthScript
