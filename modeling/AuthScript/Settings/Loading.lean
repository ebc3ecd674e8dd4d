import AuthScript.Settings

/-!
# Settings files

A settings file is opened, a line tells of it, and then it is read. What comes of that is
taken from outside: the text that was read, or nothing if the file could not be opened.
-/

namespace AuthScript

namespace Settings

/-- The line told of a file that has been opened and not yet read. -/
def loadingLine (path : Bytes) : Log.Line :=
  ⟨.debug, .settings, text "Config: loading configuration from " ++ quoted path⟩

/-- The settings with those of the file at a path, and what is wrong with it. The text of
the file is given if it could be opened. -/
def load (s : Settings) (path : Bytes) (found : Option Bytes) :
    Logged (Settings × Option Fault) :=
  match found with
  | none =>
    .silent (s, some ⟨.settingsNotFound, text "unable to open config file " ++ quoted path⟩)
  | some t => ⟨[loadingLine path], s.readText t, textFault? t path⟩

end Settings

end AuthScript
