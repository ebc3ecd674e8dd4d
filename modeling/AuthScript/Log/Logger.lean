import AuthScript.Files
import AuthScript.Log.Line

/-!
# Loggers

A logger passes lines on to the console and to a file. A line passes if its level
is high enough and its category is enabled; lines without a category pass the
second test always. The file is written through a buffer, which is emptied into it
when it reaches its capacity, at every line of level `warn` or above, on a flush,
and before the file is closed.

The calls on a logger are data (`Call`), so that a history is a list. A call
changes the logger and the files, and says what it puts on the console. What comes of
opening a file is part of the call.
-/

namespace AuthScript

/-- The settings and the buffer of a logger. -/
structure Logger where
  level : Log.Level := .info
  categories : Log.Category := .all
  toConsole : Bool := true
  toFile : Bool := false
  opened : Option Bytes := none
  buffer : Bytes := []

namespace Log

/-- A logger and the files it can write. -/
structure Session where
  logger : Logger := {}
  files : Files := {}

/-- A call on a logger. Setting a path takes the file that it leads to, if that can be
opened for writing; writing takes the time of the line as it appears in it. -/
inductive Call where
  | setLevel (level : Level)
  | enable (category : Category)
  | disable (category : Category)
  | setCategories (category : Category)
  | setToConsole (on : Bool)
  | setToFile (on : Bool)
  | setFile (path : Bytes) (found : Option Bytes)
  | flush
  | write (time : Bytes) (line : Line)

/-- A line as it is written. -/
def Line.format (time : Bytes) (line : Line) : Bytes :=
  text "[" ++ time ++ text "] [" ++ line.level.name ++ text "] [" ++ line.category.name ++
    text "] " ++ line.message ++ text "\n"

/-- A path as messages show it, between double quotes. -/
def quotedPath (path : Bytes) : Bytes :=
  text "\"" ++ path.flatMap (fun c => if c = 0x22 ∨ c = 0x5c then [0x5c, c] else [c]) ++ text "\""

end Log

namespace Logger

open Log

/-- The number of buffered bytes at which the buffer is emptied. -/
def capacity : Nat := 8192

/-- Whether a line of this level and category passes to some sink that is on. -/
def willLog (logger : Logger) (level : Level) (category : Category) : Bool :=
  logger.level.rank ≤ level.rank &&
    (category = .none || logger.categories.meets category) &&
      (logger.toConsole || logger.toFile)

end Logger

namespace Log

namespace Session

/-- Empties the buffer into the open file. -/
def drain (s : Session) : Session :=
  { logger := { s.logger with buffer := [] }
    files := match s.logger.opened with
      | some name => s.files.append name s.logger.buffer
      | none => s.files }

/-- Puts a formatted line into the buffer if the file sink is on and a file is open,
and empties a buffer that has reached its capacity. -/
def buffer (s : Session) (formatted : Bytes) : Session :=
  if s.logger.toFile && s.logger.opened.isSome then
    let s := { s with logger := { s.logger with buffer := s.logger.buffer ++ formatted } }
    if Logger.capacity ≤ s.logger.buffer.length then s.drain else s
  else s

/-- Closes the open file. -/
def close (s : Session) : Session :=
  let s := if s.logger.opened.isSome then s.drain else s
  { s with logger := { s.logger with opened := none, buffer := [] } }

/-- Opens the file that a path leads to and turns the file sink on; turns it off if
there is none or the path is empty. -/
def openFile (s : Session) (path : Bytes) (found : Option Bytes) : Session :=
  match path.isEmpty, found with
  | false, some name =>
    { logger := { s.logger with opened := some name, toFile := true }
      files := s.files.append name [] }
  | false, none | true, _ => { s with logger := { s.logger with toFile := false } }

/-- Whether a path is set as the log file. The empty path is: it closes the file. -/
def canSetFile (path : Bytes) (found : Option Bytes) : Bool := path.isEmpty || found.isSome

/-- The effect of a call. -/
def apply (s : Session) : Call → Session
  | .setLevel level => { s with logger := { s.logger with level } }
  | .enable c => { s with logger := { s.logger with categories := s.logger.categories.union c } }
  | .disable c => { s with logger := { s.logger with categories := s.logger.categories.without c } }
  | .setCategories c => { s with logger := { s.logger with categories := c } }
  | .setToConsole on => { s with logger := { s.logger with toConsole := on } }
  | .setToFile on => { s with logger := { s.logger with toFile := on } }
  | .setFile path found => s.close.openFile path found
  | .flush => s.drain
  | .write time line =>
    let s := s.buffer (line.format time)
    if Level.warn.rank ≤ line.level.rank then s.drain else s

/-- What a call puts on the console. -/
def console (s : Session) : Call → Bytes
  | .setFile path found =>
    if canSetFile path found then []
    else text "Logger: failed to open log file: " ++ quotedPath path ++ text "\n"
  | .write time line => if s.logger.toConsole then line.format time else []
  | _ => []

/-- The effect of a history of calls. -/
def run (s : Session) (calls : List Call) : Session := calls.foldl apply s

/-- The calls that write those lines that pass, all at one time. -/
def calls (s : Session) (time : Bytes) (lines : List Line) : List Call :=
  (lines.filter fun line => s.logger.willLog line.level line.category).map (.write time)

/-- The session after those lines that pass have been written. -/
def tell (s : Session) (time : Bytes) (lines : List Line) : Session := s.run (s.calls time lines)

@[simp] theorem run_nil (s : Session) : s.run [] = s := rfl

@[simp] theorem run_cons (s : Session) (call : Call) (calls : List Call) :
    s.run (call :: calls) = (s.apply call).run calls := rfl

theorem run_append (s : Session) (calls more : List Call) :
    s.run (calls ++ more) = (s.run calls).run more := List.foldl_append

end Session

end Log

end AuthScript
