import AuthScript.Bytes

/-!
# Positions and ranges

A position counts lines and columns from one and bytes from zero. Columns count
characters rather than bytes: a byte that continues a UTF-8 character does not
advance them. Lines and columns are words of 32 bits, and start again from zero
where these are used up. A range runs from its first position up to, but not including, its
last.
-/

namespace AuthScript

/-- A place between two bytes of a source. -/
structure Position where
  line : UInt32 := 1
  column : UInt32 := 1
  offset : Nat := 0
deriving DecidableEq

namespace Position

/-- The position after one more byte. -/
def next (p : Position) (c : UInt8) : Position :=
  if c = 0x0a then ⟨p.line + 1, 1, p.offset + 1⟩
  else if c &&& 0xc0 = 0x80 then ⟨p.line, p.column, p.offset + 1⟩
  else ⟨p.line, p.column + 1, p.offset + 1⟩

/-- The position after more bytes. -/
def after (p : Position) (b : Bytes) : Position := b.foldl next p

@[simp] theorem after_nil (p : Position) : p.after [] = p := rfl

@[simp] theorem after_cons (p : Position) (c : UInt8) (b : Bytes) :
    p.after (c :: b) = (p.next c).after b := rfl

theorem after_append (p : Position) (b c : Bytes) : p.after (b ++ c) = (p.after b).after c := by
  simp [after]

@[simp] theorem offset_next (p : Position) (c : UInt8) : (p.next c).offset = p.offset + 1 := by
  unfold next
  split
  · rfl
  · split <;> rfl

@[simp] theorem offset_after (p : Position) (b : Bytes) :
    (p.after b).offset = p.offset + b.length := by
  induction b generalizing p with
  | nil => rfl
  | cons c b ih =>
    rw [after_cons, ih, offset_next, List.length_cons]
    omega

end Position

/-- A stretch of a source. -/
structure Range where
  start : Position := {}
  stop : Position := {}
deriving DecidableEq

namespace Range

/-- The smallest range that covers two ranges, by their offsets. Where the offsets
agree the first range gives the line and the column. -/
def merge (a b : Range) : Range where
  start := if a.start.offset ≤ b.start.offset then a.start else b.start
  stop := if b.stop.offset ≤ a.stop.offset then a.stop else b.stop

/-- Lines and columns, as in `3:5-3:9`. -/
def format (r : Range) : Bytes :=
  Bytes.decimal r.start.line.toNat ++ text ":" ++ Bytes.decimal r.start.column.toNat ++
    text "-" ++ Bytes.decimal r.stop.line.toNat ++ text ":" ++ Bytes.decimal r.stop.column.toNat

@[simp] theorem merge_self (r : Range) : merge r r = r := by simp [merge]

end Range

end AuthScript
