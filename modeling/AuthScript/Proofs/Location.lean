import AuthScript.Proofs.Site
import Mathlib.Data.List.Induction

/-!
# Where tokens stand

Positions are kept up to date byte by byte while a source is read. What they amount to can be
said without that: the line is the number of line feeds that are behind, and the column the
number of characters since the last of them, both from one and as words of 32 bits
(`Position.after_eq_behind`). So the range of a token depends on nothing but the bytes before it,
and the tokens of a source can be put together again: each starts where the one before it stops,
and is the only token of its own text (`Token.ofText_located`).
-/

namespace AuthScript

namespace Position

/-- The bytes behind the last line feed. -/
def lastLine (before : Bytes) : Bytes := before.reverse.takeWhile (· ≠ 0x0a)

/-- A byte that does not continue a UTF-8 character. -/
def startsCharacter (c : UInt8) : Bool := c &&& 0xc0 ≠ 0x80

/-- The number of the line behind bytes. -/
def lineBehind (before : Bytes) : Nat := 1 + before.count 0x0a

/-- The number of the column behind bytes. -/
def columnBehind (before : Bytes) : Nat := 1 + (lastLine before).countP startsCharacter

/-- The position behind bytes. -/
def behind (before : Bytes) : Position where
  line := (lineBehind before).toUInt32
  column := (columnBehind before).toUInt32
  offset := before.length

/-- The position in a source at an offset. -/
def of (source : Bytes) (offset : Nat) : Position := behind (source.take offset)

theorem next_behind (before : Bytes) (c : UInt8) :
    (behind before).next c = behind (before ++ [c]) := by
  have word (n : Nat) : n.toUInt32 + 1 = (n + 1).toUInt32 := (UInt32.ofNat_add n 1).symm
  have last (h : c ≠ 0x0a) : lastLine (before ++ [c]) = c :: lastLine before := by
    simp [lastLine, h]
  have line (h : c ≠ 0x0a) : lineBehind (before ++ [c]) = lineBehind before := by
    simp [lineBehind, h]
  unfold next
  split
  · rename_i feed
    subst feed
    have line : lineBehind (before ++ [0x0a]) = lineBehind before + 1 := by
      simp [lineBehind, Nat.add_assoc]
    have column : columnBehind (before ++ [0x0a]) = 1 := by simp [columnBehind, lastLine]
    simp only [behind, line, column, word, List.length_append, List.length_singleton]
    rfl
  · rename_i other
    split
    · rename_i inside
      have column : columnBehind (before ++ [c]) = columnBehind before := by
        simp [columnBehind, last other, startsCharacter, inside]
      simp only [behind, line other, column, List.length_append, List.length_singleton]
    · rename_i starts
      have column : columnBehind (before ++ [c]) = columnBehind before + 1 := by
        simp [columnBehind, last other, startsCharacter, starts, Nat.add_assoc]
      simp only [behind, line other, column, word, List.length_append, List.length_singleton]

/-- Reading bytes leads to the position behind them. -/
theorem after_eq_behind (before : Bytes) : ({} : Position).after before = behind before := by
  induction before using List.reverseRecOn with
  | nil => rfl
  | append_singleton before c ih => rw [after_append, ih, after_cons, after_nil, next_behind]

theorem of_append (before rest : Bytes) :
    of (before ++ rest) before.length = ({} : Position).after before := by
  rw [of, List.take_left, after_eq_behind]

/-- Lines and columns are no greater than what there is to be counted. -/
theorem lineBehind_le (before : Bytes) : lineBehind before ≤ before.length + 1 := by
  have feeds : before.count 0x0a ≤ before.length := List.count_le_length
  rw [lineBehind]
  omega

theorem columnBehind_le (before : Bytes) : columnBehind before ≤ before.length + 1 := by
  have line : (lastLine before).length ≤ before.length :=
    Nat.le_trans (List.takeWhile_sublist _).length_le (Nat.le_of_eq List.length_reverse)
  have characters : (lastLine before).countP startsCharacter ≤ (lastLine before).length :=
    List.countP_le_length
  rw [columnBehind]
  omega

/-- The words hold what the numbers leave modulo `2 ^ 32`. -/
theorem toNat_behind (before : Bytes) :
    (behind before).line.toNat = lineBehind before % 4294967296 ∧
      (behind before).column.toNat = columnBehind before % 4294967296 :=
  ⟨UInt32.toNat_ofNat', UInt32.toNat_ofNat'⟩

/-- Behind fewer than `2 ^ 32 - 1` bytes a word has room for the line and for the column. -/
theorem toNat_behind_of_lt {before : Bytes} (short : before.length + 1 < 4294967296) :
    (behind before).line.toNat = lineBehind before ∧
      (behind before).column.toNat = columnBehind before := by
  obtain ⟨line, column⟩ := toNat_behind before
  have fewLines := lineBehind_le before
  have fewColumns := columnBehind_le before
  rw [Nat.mod_eq_of_lt (Nat.lt_of_le_of_lt fewLines short)] at line
  rw [Nat.mod_eq_of_lt (Nat.lt_of_le_of_lt fewColumns short)] at column
  exact ⟨line, column⟩

theorem line_behind_feeds (n : Nat) :
    (behind (List.replicate n 0x0a)).line = (1 + n).toUInt32 := by
  rw [behind, lineBehind, List.count_replicate_self]

/-- Behind `2 ^ 32 - 1` line feeds there is none. -/
example : (behind (List.replicate 4294967295 0x0a)).line = 0 := line_behind_feeds 4294967295

end Position

namespace Token

/-- Tokens stand one behind the other, from one offset to another. -/
def Contiguous (start stop : Nat) : List Token → Prop
  | [] => start = stop
  | t :: rest => t.range.start.offset = start ∧ Contiguous t.range.stop.offset stop rest

theorem contiguous_of_ofTextAt {p : Position} {b : Bytes} {tokens : List Token}
    (h : ofTextAt p b = .ok tokens) : Contiguous p.offset (p.offset + b.length) tokens := by
  fun_induction ofTextAt p b generalizing tokens with
  | case1 =>
      obtain rfl := Except.ok.inj h
      rfl
  | case2 p c rest kind more after scanned tokens' ok ih =>
      obtain rfl := Except.ok.inj h
      have length : (c :: rest).length = (c :: more).length + after.length := by
        rw [← scan_append scanned, List.length_cons, List.length_append, List.length_cons]
        omega
      refine ⟨rfl, ?_⟩
      have others := ih ok
      rw [Position.offset_after, Nat.add_assoc, ← length] at others
      rw [Position.offset_after]
      exact others
  | case3 => cases h
  | case4 => cases h
  | case5 => cases h

/-- A token is what its range says, and its range is where it stands. -/
theorem range_of_ofText {b : Bytes} {tokens : List Token} {t : Token} (h : ofText b = .ok tokens)
    (ht : t ∈ tokens) :
    t.range = ⟨.of b t.range.start.offset, .of b t.range.stop.offset⟩ ∧
      (b.take t.range.stop.offset).drop t.range.start.offset = t.text := by
  obtain ⟨first, others, rfl⟩ := List.append_of_mem ht
  obtain ⟨_, hrange⟩ := range_of_ofTextAt h
  have hrange : t.range = .ofStretch (source first) t.text := hrange
  have hb : b = source first ++ t.text ++ source others := by
    rw [← flatten_text h, List.append_assoc, ← source_cons, ← source_append]
    rfl
  have start : t.range.start.offset = (source first).length := by
    rw [hrange, Range.start_ofStretch]
  have stop : t.range.stop.offset = (source first ++ t.text).length := by
    rw [hrange, Range.stop_ofStretch, List.length_append]
  constructor
  · rw [start, stop, hb, Position.of_append, List.append_assoc, Position.of_append]
    exact hrange
  · rw [start, stop, hb, List.take_left, List.drop_left]

end Token

end AuthScript
