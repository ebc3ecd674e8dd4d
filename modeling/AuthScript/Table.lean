import AuthScript.Bytes

/-!
# Tables

A table assigns values to byte-string keys. Its entries are kept in strictly
increasing order of their keys, so a key has at most one value, listing a table
is deterministic, and the order of insertion leaves no trace.
-/

namespace AuthScript

/-- Entries in strictly increasing order of their keys. -/
structure Table (α : Type) where
  entries : List (Bytes × α)
  sorted : entries.Pairwise (fun a b => a.1 < b.1)

namespace Table

variable {α : Type}

instance : EmptyCollection (Table α) := ⟨⟨[], List.Pairwise.nil⟩⟩

instance : Inhabited (Table α) := ⟨∅⟩

/-- The value of the first entry with a key. -/
def lookup (key : Bytes) : List (Bytes × α) → Option α
  | [] => none
  | e :: rest => if key = e.1 then some e.2 else lookup key rest

/-- The value of a key. -/
def find? (t : Table α) (key : Bytes) : Option α := lookup key t.entries

/-- Whether a key has a value. -/
def contains (t : Table α) (key : Bytes) : Bool := (t.find? key).isSome

/-- The number of keys. -/
def size (t : Table α) : Nat := t.entries.length

/-- The keys in increasing order. -/
def keys (t : Table α) : List Bytes := t.entries.map (·.1)

/-- Whether there is no key at all. -/
def isEmpty (t : Table α) : Bool := t.entries.isEmpty

/-- Puts an entry at the place of its key, over an entry that is there. -/
def insertEntry (key : Bytes) (value : α) : List (Bytes × α) → List (Bytes × α)
  | [] => [(key, value)]
  | e :: rest =>
    if key < e.1 then (key, value) :: e :: rest
    else if key = e.1 then (key, value) :: rest
    else e :: insertEntry key value rest

theorem mem_insertEntry {key : Bytes} {value : α} {l : List (Bytes × α)} {e : Bytes × α}
    (h : e ∈ insertEntry key value l) : e = (key, value) ∨ e ∈ l := by
  induction l with
  | nil => simpa [insertEntry] using h
  | cons d rest ih =>
    rw [insertEntry] at h
    split at h
    · simpa using h
    · split at h
      · rcases List.mem_cons.1 h with h | h
        · exact .inl h
        · exact .inr (List.mem_cons_of_mem _ h)
      · rcases List.mem_cons.1 h with h | h
        · exact .inr (h ▸ List.mem_cons_self)
        · exact (ih h).imp_right (List.mem_cons_of_mem _)

theorem sorted_insertEntry (key : Bytes) (value : α) {l : List (Bytes × α)}
    (h : l.Pairwise (fun a b => a.1 < b.1)) :
    (insertEntry key value l).Pairwise (fun a b => a.1 < b.1) := by
  induction l with
  | nil => simp [insertEntry]
  | cons d rest ih =>
    obtain ⟨hd, hrest⟩ := List.pairwise_cons.1 h
    rw [insertEntry]
    split
    · rename_i lt
      refine List.pairwise_cons.2 ⟨fun e he => ?_, h⟩
      rcases List.mem_cons.1 he with rfl | he
      · exact lt
      · exact List.lt_trans lt (hd e he)
    · rename_i not_lt
      split
      · rename_i eq
        subst eq
        exact List.pairwise_cons.2 ⟨hd, hrest⟩
      · rename_i ne
        refine List.pairwise_cons.2 ⟨fun e he => ?_, ih hrest⟩
        rcases mem_insertEntry he with rfl | he
        · rcases List.le_iff_lt_or_eq.1 (List.not_lt.1 not_lt) with lt | eq
          · exact lt
          · exact absurd eq.symm ne
        · exact hd e he

/-- The table with a value for a key, in place of the one it had. -/
def insert (t : Table α) (key : Bytes) (value : α) : Table α :=
  ⟨insertEntry key value t.entries, sorted_insertEntry key value t.sorted⟩

/-- The table without a key. -/
def erase (t : Table α) (key : Bytes) : Table α :=
  ⟨t.entries.filter (fun e => e.1 ≠ key), t.sorted.filter _⟩

/-- The table with a value for a key, or without the key. -/
def assign (t : Table α) (key : Bytes) : Option α → Table α
  | some value => t.insert key value
  | none => t.erase key

/-- The table of a list of entries; of two entries for a key the later one counts. -/
def ofList (l : List (Bytes × α)) : Table α :=
  l.foldl (fun (t : Table α) (e : Bytes × α) => t.insert e.1 e.2) ∅

/-- The first table with the entries of the second laid over it. -/
def overlay (t u : Table α) : Table α :=
  u.entries.foldl (fun (t : Table α) (e : Bytes × α) => t.insert e.1 e.2) t

@[simp] theorem find?_empty (key : Bytes) : (∅ : Table α).find? key = none := rfl

theorem lookup_insertEntry (key other : Bytes) (value : α) (l : List (Bytes × α)) :
    lookup other (insertEntry key value l) =
      if other = key then some value else lookup other l := by
  induction l with
  | nil => simp [insertEntry, lookup]
  | cons d rest ih =>
    rw [insertEntry]
    split
    · simp [lookup]
    · split
      · rename_i eq
        by_cases h : other = key <;> simp [lookup, ← eq, h]
      · rename_i ne
        by_cases h : other = d.1
        · simp [lookup, h, Ne.symm ne]
        · simp [lookup, h, ih]

/-- An inserted value is found under its key and changes no other key. -/
@[simp] theorem find?_insert (t : Table α) (key other : Bytes) (value : α) :
    (t.insert key value).find? other = if other = key then some value else t.find? other :=
  lookup_insertEntry key other value t.entries

theorem lookup_filter_ne (key other : Bytes) (l : List (Bytes × α)) :
    lookup other (l.filter (fun e => e.1 ≠ key)) =
      if other = key then none else lookup other l := by
  induction l with
  | nil => simp [lookup]
  | cons d rest ih =>
    rw [List.filter_cons]
    by_cases hd : d.1 = key
    · by_cases h : other = key
      · simpa [hd, h] using ih
      · simpa [hd, h, lookup] using ih
    · by_cases h : other = key
      · simpa [hd, h, lookup, Ne.symm hd] using ih
      · simpa [hd, h, lookup] using congrArg (fun r => if other = d.1 then some d.2 else r) ih

/-- An erased key has no value and no other key changes. -/
@[simp] theorem find?_erase (t : Table α) (key other : Bytes) :
    (t.erase key).find? other = if other = key then none else t.find? other :=
  lookup_filter_ne key other t.entries

theorem lookup_isSome (key : Bytes) (l : List (Bytes × α)) :
    (lookup key l).isSome ↔ key ∈ l.map (·.1) := by
  induction l with
  | nil => simp [lookup]
  | cons d rest ih =>
    rw [lookup, List.map_cons, List.mem_cons]
    by_cases h : key = d.1
    · simp [h]
    · simpa [h] using ih

/-- The keys are those that have a value. -/
theorem contains_iff_mem_keys (t : Table α) (key : Bytes) :
    t.contains key = true ↔ key ∈ t.keys :=
  lookup_isSome key t.entries

theorem contains_iff_find? (t : Table α) (key : Bytes) :
    t.contains key = true ↔ ∃ value, t.find? key = some value :=
  Option.isSome_iff_exists

@[simp] theorem find?_assign (t : Table α) (key other : Bytes) (value : Option α) :
    (t.assign key value).find? other = if other = key then value else t.find? other := by
  cases value <;> simp [assign]

end Table

end AuthScript
