import AuthScript.Table

/-!
# Files

The contents of files that are written at their end. Which file a path leads to, and
whether it can be opened, is decided outside; here a file is a name.
-/

namespace AuthScript

/-- The contents of the files, by name. -/
structure Files where
  contents : Table Bytes := ∅

namespace Files

/-- The contents of a file, empty if there is none. -/
def read (files : Files) (name : Bytes) : Bytes := (files.contents.find? name).getD []

/-- The files with a text at the end of one of them, which is created if need be. -/
def append (files : Files) (name : Bytes) (more : Bytes) : Files :=
  ⟨files.contents.insert name (files.read name ++ more)⟩

@[simp] theorem read_append (files : Files) (name other more : Bytes) :
    (files.append name more).read other =
      if other = name then files.read name ++ more else files.read other := by
  by_cases h : other = name <;> simp [append, read, h]

end Files

end AuthScript
