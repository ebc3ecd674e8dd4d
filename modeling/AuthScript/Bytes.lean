/-!
# Byte strings

Script sources, identifiers, payloads and stack items are all byte strings: a
source need not be valid UTF-8, and identifiers are ordered byte by byte. A byte
string is a list, so that everything below is structural recursion and the order
is the lexicographic one of lists.

The module also holds the few ways of writing a value as text that every message
shares: a literal, a quoted name, a decimal number, pieces with a separator.
-/

namespace AuthScript

/-- A finite sequence of bytes. -/
abbrev Bytes := List UInt8

/-- The bytes of a literal. -/
def text (s : String) : Bytes := s.toUTF8.data.toList

/-- A name as messages show it, between single quotes. -/
def quoted (b : Bytes) : Bytes := text "'" ++ b ++ text "'"

namespace Bytes

/-- The digits of a natural number in base ten. -/
def decimal (n : Nat) : Bytes := (Nat.toDigits 10 n).map fun c => c.toNat.toUInt8

/-- The digits of an integer in base ten, with a minus sign before a negative one. -/
def signedDecimal (z : Int) : Bytes :=
  if z < 0 then text "-" ++ decimal z.natAbs else decimal z.natAbs

/-- The pieces one after another, with `separator` between neighbours. -/
def join (separator : Bytes) : List Bytes → Bytes
  | [] => []
  | [b] => b
  | b :: c :: rest => b ++ separator ++ join separator (c :: rest)

@[simp] theorem join_singleton (separator b : Bytes) : join separator [b] = b := rfl

theorem join_cons_cons (separator b c : Bytes) (rest : List Bytes) :
    join separator (b :: c :: rest) = b ++ separator ++ join separator (c :: rest) := rfl

/-- The pieces between occurrences of `separator`. There is always one piece more
than there are separators, so the empty text has one empty piece. -/
def pieces (separator : UInt8) (b : Bytes) : List Bytes :=
  b.foldr (fun c acc =>
    if c = separator then [] :: acc
    else match acc with
      | [] => [[c]]
      | piece :: rest => (c :: piece) :: rest) [[]]

@[simp] theorem pieces_nil (separator : UInt8) : pieces separator [] = [[]] := rfl

theorem pieces_cons (separator c : UInt8) (b : Bytes) :
    pieces separator (c :: b) =
      if c = separator then [] :: pieces separator b
      else match pieces separator b with
        | [] => [[c]]
        | piece :: rest => (c :: piece) :: rest := rfl

theorem pieces_ne_nil (separator : UInt8) (b : Bytes) : pieces separator b ≠ [] := by
  cases b with
  | nil => simp
  | cons c b =>
      rw [pieces_cons]
      split
      · simp
      · split <;> simp

theorem pieces_of_plain {separator : UInt8} {b : Bytes} (plain : separator ∉ b) :
    pieces separator b = [b] := by
  induction b with
  | nil => rfl
  | cons c b ih =>
      have other : separator ≠ c := List.ne_of_not_mem_cons plain
      rw [pieces_cons, ih (List.not_mem_of_not_mem_cons plain), if_neg other.symm]

theorem pieces_append {separator : UInt8} {first : Bytes} (plain : separator ∉ first)
    (rest : Bytes) :
    pieces separator (first ++ separator :: rest) = first :: pieces separator rest := by
  induction first with
  | nil => rw [List.nil_append, pieces_cons, if_pos rfl]
  | cons c first ih =>
      have other : separator ≠ c := List.ne_of_not_mem_cons plain
      rw [List.cons_append, pieces_cons, ih (List.not_mem_of_not_mem_cons plain),
        if_neg other.symm]

/-- No piece holds the separator, and together with the separators they are the text. -/
theorem join_pieces (separator : UInt8) (b : Bytes) :
    (∀ piece ∈ pieces separator b, separator ∉ piece) ∧
      join [separator] (pieces separator b) = b := by
  induction b with
  | nil => simp
  | cons c b ih =>
      obtain ⟨plain, joined⟩ := ih
      rw [pieces_cons]
      obtain ⟨piece, rest, hpieces⟩ := List.exists_cons_of_ne_nil (pieces_ne_nil separator b)
      rw [hpieces] at plain joined ⊢
      split
      · rename_i cut
        refine ⟨List.forall_mem_cons.2 ⟨List.not_mem_nil, plain⟩, ?_⟩
        rw [join, joined, cut]
        rfl
      · rename_i other
        obtain ⟨first, others⟩ := List.forall_mem_cons.1 plain
        refine ⟨List.forall_mem_cons.2 ⟨?_, others⟩, ?_⟩
        · exact List.not_mem_cons_of_ne_of_not_mem (Ne.symm other) first
        · rw [← joined]
          cases rest <;> rfl

/-- A text has one division into pieces. -/
theorem pieces_eq_iff {separator : UInt8} {b : Bytes} {l : List Bytes} :
    pieces separator b = l ↔
      l ≠ [] ∧ (∀ piece ∈ l, separator ∉ piece) ∧ join [separator] l = b := by
  constructor
  · rintro rfl
    exact ⟨pieces_ne_nil separator b, join_pieces separator b⟩
  · rintro ⟨some, plain, rfl⟩
    induction l with
    | nil => exact absurd rfl some
    | cons piece l ih =>
        obtain ⟨first, others⟩ := List.forall_mem_cons.1 plain
        cases l with
        | nil => exact pieces_of_plain first
        | cons next rest =>
            rw [join, List.append_assoc, List.singleton_append, pieces_append first,
              ih (List.cons_ne_nil _ _) others]

/-- The `width` bytes of `n`, least significant first; what lies above them is
dropped. -/
def littleEndian : Nat → Nat → Bytes
  | 0, _ => []
  | width + 1, n => (n % 256).toUInt8 :: littleEndian width (n / 256)

@[simp] theorem littleEndian_zero (n : Nat) : littleEndian 0 n = [] := rfl

theorem littleEndian_succ (width n : Nat) :
    littleEndian (width + 1) n = (n % 256).toUInt8 :: littleEndian width (n / 256) := rfl

@[simp] theorem length_littleEndian (width n : Nat) : (littleEndian width n).length = width := by
  induction width generalizing n with
  | zero => rfl
  | succ width ih => simp [littleEndian_succ, ih]

/-- The number whose bytes these are, least significant first. -/
def ofLittleEndian (b : Bytes) : Nat := b.foldr (fun c n => c.toNat + 256 * n) 0

@[simp] theorem ofLittleEndian_nil : ofLittleEndian [] = 0 := rfl

@[simp] theorem ofLittleEndian_cons (c : UInt8) (b : Bytes) :
    ofLittleEndian (c :: b) = c.toNat + 256 * ofLittleEndian b := rfl

/-- The `width` bytes of `n`, most significant first. -/
def bigEndian (width n : Nat) : Bytes := (littleEndian width n).reverse

@[simp] theorem length_bigEndian (width n : Nat) : (bigEndian width n).length = width := by
  simp [bigEndian]

/-- The number whose bytes these are, most significant first. -/
def ofBigEndian (b : Bytes) : Nat := b.foldl (fun n c => 256 * n + c.toNat) 0

end Bytes

end AuthScript
