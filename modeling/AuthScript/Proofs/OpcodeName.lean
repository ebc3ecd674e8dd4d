import AuthScript.Machine.Opcode
import AuthScript.Proofs.Identifier
import AuthScript.Source.Lexer
import Mathlib.Data.List.Basic

/-!
# Names of opcodes

Every byte has a display name: that of its row, or a common prefix with its number. The
names are different, since the numbers are and no row has one of the prefixes
(`Opcode.name_inj`), so each name is found in the table again (`Opcode.ofName?_name`). They
are words that can stand in a script: a letter, and letters, digits and underscores behind it
(`Opcode.name_eq_cons`).
-/

namespace AuthScript

/-! ## Numbers -/

theorem Bytes.exists_digit_of_mem_toDigits {n : Nat} {d : Char} (h : d ∈ Nat.toDigits 10 n) :
    48 ≤ d.toNat ∧ d.toNat ≤ 57 := by
  have digit := Nat.isDigit_of_mem_toDigits (by decide) (by decide) h
  simpa [Char.isDigit, UInt32.le_iff_toNat_le] using digit

theorem Bytes.isDigit_of_mem_decimal {n : Nat} {c : UInt8} (h : c ∈ decimal n) :
    Decimal.isDigit c = true := by
  obtain ⟨d, hd, rfl⟩ := List.mem_map.1 h
  obtain ⟨lower, upper⟩ := exists_digit_of_mem_toDigits hd
  simp only [Decimal.isDigit, Bool.and_eq_true, decide_eq_true_eq, UInt8.le_iff_toNat_le,
    UInt8.toNat_ofNat', Nat.toUInt8_eq, UInt8.reduceToNat]
  omega

/-- The digits of a number spell it. -/
theorem Bytes.ofDigits_decimal (n : Nat) : Decimal.ofDigits (decimal n) = n := by
  have digit : ∀ d ∈ Nat.toDigits 10 n, d.toNat.toUInt8.toNat = d.toNat := by
    intro d hd
    obtain ⟨_, upper⟩ := exists_digit_of_mem_toDigits hd
    exact Nat.mod_eq_of_lt (by omega)
  calc
    Decimal.ofDigits (decimal n) = Nat.ofDigitChars 10 (Nat.toDigits 10 n) 0 := by
      rw [Decimal.ofDigits, decimal, List.foldl_map, Nat.ofDigitChars_eq_foldl]
      refine List.foldl_ext _ _ _ fun m d hd => ?_
      rw [digit d hd]
      rfl
    _ = n := Nat.ofDigitChars_ten_toDigits

/-- Different numbers have different digits. -/
theorem Bytes.decimal_inj {m n : Nat} (h : decimal m = decimal n) : m = n := by
  rw [← ofDigits_decimal m, h, ofDigits_decimal]

/-! ## Tables -/

/-- What a list says of a key, with nothing else to the contrary, is found in its table. -/
theorem Table.find?_ofList {α : Type} {l : List (Bytes × α)} {key : Bytes} {value : α}
    (mem : (key, value) ∈ l) (unique : ∀ v, (key, v) ∈ l → v = value) :
    (ofList l).find? key = some value := by
  have onto : ∀ t : Table α, (key, value) ∈ l ∨ t.find? key = some value →
      (l.foldl (fun (t : Table α) (e : Bytes × α) => t.insert e.1 e.2) t).find? key =
        some value := by
    clear mem
    induction l with
    | nil =>
        intro t h
        exact h.resolve_left List.not_mem_nil
    | cons e rest ih =>
        intro t h
        refine ih (fun v hv => unique v (List.mem_cons_of_mem _ hv)) _ ?_
        by_cases own : e.1 = key
        · have hvalue : e.2 = value := unique e.2 (own ▸ List.mem_cons_self)
          exact .inr (by simp [own, hvalue])
        · refine h.imp (fun found => ?_) fun found => ?_
          · refine (List.mem_cons.1 found).resolve_left ?_
            rintro rfl
            exact own rfl
          · rw [find?_insert, if_neg (Ne.symm own), found]
  exact onto ∅ (.inl mem)

/-- What is found in the table of a list, the list says. -/
theorem Table.mem_of_find?_ofList {α : Type} {l : List (Bytes × α)} {key : Bytes} {value : α}
    (h : (ofList l).find? key = some value) : (key, value) ∈ l := by
  have onto : ∀ t : Table α,
      (l.foldl (fun (t : Table α) (e : Bytes × α) => t.insert e.1 e.2) t).find? key = some value →
        t.find? key = some value ∨ (key, value) ∈ l := by
    clear h
    induction l with
    | nil => exact fun t h => .inl h
    | cons e rest ih =>
        intro t h
        rcases ih _ h with found | mem
        · rw [find?_insert] at found
          split at found
          · rename_i own
            obtain rfl := Option.some.inj found
            exact .inr (own ▸ List.mem_cons_self)
          · exact .inl found
        · exact .inr (List.mem_cons_of_mem _ mem)
  exact (onto ∅ h).resolve_left (by simp)

namespace Opcode

theorem row?_eq_some {op : UInt8} {row : Row} (h : row? op = some row) :
    row ∈ rows ∧ row.opcode = op :=
  ⟨List.mem_of_find?_eq_some h, by simpa using List.find?_some h⟩

/-- A name is that of a row, or has a prefix that no name of a row has. -/
theorem name_cases (op : UInt8) :
    (∃ row ∈ rows, row.opcode = op ∧ name op = text row.name) ∨
      (isDirectPush op = true ∧ name op = text "OP_PUSHBYTES_" ++ Bytes.decimal op.toNat) ∨
      isDirectPush op = false ∧ name op = text "OP_UNKNOWN" ++ Bytes.decimal op.toNat := by
  unfold name
  cases hrow : row? op with
  | some row =>
      obtain ⟨mem, opcode⟩ := row?_eq_some hrow
      exact .inl ⟨row, mem, opcode, rfl⟩
  | none =>
      refine .inr ?_
      cases isDirectPush op with
      | true => exact .inl ⟨rfl, rfl⟩
      | false => exact .inr ⟨rfl, rfl⟩

theorem rows_names_outside : rows.all (fun row =>
    !(text "OP_PUSHBYTES_").isPrefixOf (text row.name) &&
      !(text "OP_UNKNOWN").isPrefixOf (text row.name)) = true := by rfl

theorem rows_names_words : rows.all (fun row =>
    (text row.name).head? == some 0x4f && (text row.name).tail.all Token.inIdentifier) = true := by
  rfl

/-- The first row with the name of a row is that row. Names are compared by the numbers that
they are in base 256. -/
theorem rows_names_distinct : rows.all (fun row =>
    (rows.find? fun other =>
      Nat.beq (Bytes.ofBigEndian (text other.name)) (Bytes.ofBigEndian (text row.name))).map
        Row.opcode == some row.opcode) = true := by rfl

theorem opcode_of_row_name {row other : Row} (hrow : row ∈ rows) (hother : other ∈ rows)
    (same : text row.name = text other.name) : row.opcode = other.opcode := by
  have first := List.all_eq_true.1 rows_names_distinct row hrow
  have second := List.all_eq_true.1 rows_names_distinct other hother
  rw [same] at first
  have found := (eq_of_beq first).symm.trans (eq_of_beq second)
  exact Option.some.inj found

theorem row_name_ne {row : Row} (hrow : row ∈ rows) (rest : Bytes) :
    text row.name ≠ text "OP_PUSHBYTES_" ++ rest ∧ text row.name ≠ text "OP_UNKNOWN" ++ rest := by
  have outside := List.all_eq_true.1 rows_names_outside row hrow
  simp only [Bool.and_eq_true, Bool.not_eq_true', ← Bool.not_eq_true,
    List.isPrefixOf_iff_prefix] at outside
  refine ⟨fun h => outside.1 ?_, fun h => outside.2 ?_⟩
  · exact h ▸ List.prefix_append _ _
  · exact h ▸ List.prefix_append _ _

/-- Different opcodes have different names. -/
theorem name_inj {op op' : UInt8} (h : name op = name op') : op = op' := by
  have numbers : ∀ {b : Bytes}, b ++ Bytes.decimal op.toNat = b ++ Bytes.decimal op'.toNat →
      op = op' := fun same =>
    UInt8.toNat_inj.1 (Bytes.decimal_inj (List.append_cancel_left same))
  have apart : ∀ m n : Nat, text "OP_PUSHBYTES_" ++ Bytes.decimal m ≠
      text "OP_UNKNOWN" ++ Bytes.decimal n := by
    intro m n same
    have third := congrArg (fun b => b[3]?) same
    exact absurd (Option.some.inj third) (by decide)
  rcases name_cases op with ⟨row, hrow, rfl, hname⟩ | ⟨_, hname⟩ | ⟨_, hname⟩ <;>
    rcases name_cases op' with ⟨row', hrow', rfl, hname'⟩ | ⟨_, hname'⟩ | ⟨_, hname'⟩ <;>
    rw [hname, hname'] at h
  · exact opcode_of_row_name hrow hrow' h
  · exact absurd h (row_name_ne hrow _).1
  · exact absurd h (row_name_ne hrow _).2
  · exact absurd h.symm (row_name_ne hrow' _).1
  · exact numbers h
  · exact absurd h (apart _ _)
  · exact absurd h.symm (row_name_ne hrow' _).2
  · exact absurd h.symm (apart _ _)
  · exact numbers h

theorem mem_all (op : UInt8) : op ∈ all := by
  refine List.mem_map.2 ⟨op.toNat, List.mem_range.2 op.toNat_lt, ?_⟩
  simp

/-- Each opcode is found under its name. -/
theorem ofName?_name (op : UInt8) : ofName? (name op) = some op := by
  refine Table.find?_ofList (List.mem_map.2 ⟨op, mem_all op, rfl⟩) fun v hv => ?_
  obtain ⟨op', _, same⟩ := List.mem_map.1 hv
  obtain ⟨hname, rfl⟩ := Prod.mk.inj same
  exact name_inj hname

theorem ofName?_eq_some_iff {id : Bytes} {op : UInt8} : ofName? id = some op ↔ name op = id := by
  constructor
  · intro h
    obtain ⟨op', _, same⟩ := List.mem_map.1 (Table.mem_of_find?_ofList h)
    obtain ⟨hname, rfl⟩ := Prod.mk.inj same
    exact hname
  · rintro rfl
    exact ofName?_name op

/-- A name is a letter with letters, digits and underscores behind it. -/
theorem name_eq_cons (op : UInt8) :
    ∃ more, name op = 0x4f :: more ∧ ∀ c ∈ more, Token.inIdentifier c = true := by
  have number : ∀ c ∈ Bytes.decimal op.toNat, Token.inIdentifier c = true := fun c hc => by
    simp [Token.inIdentifier, Bytes.isDigit_of_mem_decimal hc]
  rcases name_cases op with ⟨row, hrow, _, hname⟩ | ⟨_, hname⟩ | ⟨_, hname⟩
  · have word := List.all_eq_true.1 rows_names_words row hrow
    simp only [Bool.and_eq_true, beq_iff_eq, List.all_eq_true] at word
    refine ⟨(text row.name).tail, ?_, word.2⟩
    rw [hname, Token.cons_tail word.1]
  · refine ⟨text "P_PUSHBYTES_" ++ Bytes.decimal op.toNat, hname, ?_⟩
    rw [List.forall_mem_append]
    exact ⟨List.all_eq_true.1 (by rfl), number⟩
  · refine ⟨text "P_UNKNOWN" ++ Bytes.decimal op.toNat, hname, ?_⟩
    rw [List.forall_mem_append]
    exact ⟨List.all_eq_true.1 (by rfl), number⟩

end Opcode

end AuthScript
