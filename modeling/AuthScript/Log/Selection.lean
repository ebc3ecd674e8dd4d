import AuthScript.Bytes.Word
import AuthScript.Log.Line

/-!
# Selecting lines

The level and the categories of a logger can be given as text. A level is its name
or one of two other words. Categories are a list of names with commas between them;
names that mean nothing are skipped, and a list in which no name means anything
selects everything.
-/

namespace AuthScript

namespace Log

namespace Level

/-- The words for levels that are not their names. -/
def otherWords : List (String × Level) := [("warning", warn), ("none", off)]

/-- The level of a word. -/
def ofWord? (word : Bytes) : Option Level :=
  match all.find? fun level => Bytes.sameWord level.name word with
  | some level => some level
  | none => (otherWords.find? fun e => Bytes.sameWord (text e.1) word).map (·.2)

/-- The level that a text gives. -/
def ofText? (t : Bytes) : Option Level := ofWord? (Bytes.trim t)

end Level

namespace Category

/-- The subsystems of a word, none if it means nothing. -/
def ofWord (word : Bytes) : Category :=
  if Bytes.sameWord (text "all") word then all
  else ((named.find? fun e => Bytes.sameWord (text e.2) word).map (·.1)).getD none

/-- The subsystems of a list of words. -/
def ofWords (words : List Bytes) : Category :=
  words.foldl (fun c word => c.union (ofWord word)) none

/-- The subsystems that a text gives. -/
def ofText (t : Bytes) : Category :=
  let selected := ofWords ((Bytes.pieces 0x2c t).map Bytes.trim)
  if selected = none then all else selected

end Category

end Log

end AuthScript
