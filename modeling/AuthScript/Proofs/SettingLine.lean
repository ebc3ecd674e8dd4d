import AuthScript.Settings
import Mathlib.Data.List.TakeWhile

/-!
# Lines and arguments that are settings

`Setting.Spells` says which lines are settings without a word on how they are read: a key
alone, or a key, an equals sign and a value, with blanks around each. Reading a line finds
exactly these (`ofLine?_eq_some_iff`), and nothing in a line of blanks or a comment
(`ofLine?_eq_none_iff`). A text gives the settings of its lines up to the first one with an
empty key (`ofLines_eq`). `Setting.Passes` says in the same way which arguments are settings
(`ofArgument?_eq_some_iff`).
-/

namespace AuthScript

namespace Bytes

/-- Tab, line feed, vertical tab, form feed, carriage return and space. -/
def blanks : Bytes := [0x09, 0x0a, 0x0b, 0x0c, 0x0d, 0x20]

/-- Nothing but blanks. -/
def Blank (b : Bytes) : Prop := ∀ c ∈ b, c ∈ blanks

/-- No blank at either end. -/
structure Trimmed (b : Bytes) : Prop where
  first : ∀ c ∈ b.head?, c ∉ blanks
  last : ∀ c ∈ b.getLast?, c ∉ blanks

/-- A text is what is left of another one without the blanks at its ends. -/
def Trims (b t : Bytes) : Prop :=
  Trimmed t ∧ ∃ before after, Blank before ∧ Blank after ∧ b = before ++ t ++ after

/-- The lines of a text: what stands between its line feeds. -/
structure Lines (t : Bytes) (lines : List Bytes) : Prop where
  nonempty : lines ≠ []
  unbroken : ∀ line ∈ lines, 0x0a ∉ line
  joined : join [0x0a] lines = t

theorem lines_iff {t : Bytes} {lines : List Bytes} : Lines t lines ↔ pieces 0x0a t = lines :=
  ⟨fun h => pieces_eq_iff.2 ⟨h.nonempty, h.unbroken, h.joined⟩, fun h =>
    have ⟨nonempty, unbroken, joined⟩ := pieces_eq_iff.1 h
    ⟨nonempty, unbroken, joined⟩⟩

theorem isBlank_iff {c : UInt8} : isBlank c = true ↔ c ∈ blanks := by
  simp only [isBlank, blanks, Bool.or_eq_true, Bool.and_eq_true, decide_eq_true_eq, List.mem_cons,
    List.not_mem_nil, or_false, UInt8.le_iff_toNat_le, ← UInt8.toNat_inj]
  have numbers : (0x09 : UInt8).toNat = 9 ∧ (0x0a : UInt8).toNat = 10 ∧
      (0x0b : UInt8).toNat = 11 ∧ (0x0c : UInt8).toNat = 12 ∧ (0x0d : UInt8).toNat = 13 ∧
      (0x20 : UInt8).toNat = 32 := by decide
  omega

theorem isBlank_eq_false_iff {c : UInt8} : isBlank c = false ↔ c ∉ blanks := by
  rw [← isBlank_iff, Bool.not_eq_true]

theorem blank_nil : Blank [] := fun _ mem => absurd mem List.not_mem_nil

theorem Blank.append {b c : Bytes} (hb : Blank b) (hc : Blank c) : Blank (b ++ c) :=
  fun d mem => (List.mem_append.1 mem).elim (hb d) (hc d)

theorem blank_takeWhile (b : Bytes) : Blank (b.takeWhile isBlank) :=
  fun c mem => isBlank_iff.1 (List.all_eq_true.1 List.all_takeWhile c mem)

/-! ## Trimming -/

theorem trimRight_blank {b : Bytes} (h : Blank b) : trimRight b = [] := by
  induction b with
  | nil => rfl
  | cons c b ih =>
      obtain ⟨first, others⟩ := List.forall_mem_cons.1 h
      rw [trimRight, ih others]
      exact if_pos (isBlank_iff.2 first)

theorem trimRight_append_cons (b : Bytes) {c : UInt8} (h : isBlank c = false) (rest : Bytes) :
    trimRight (b ++ c :: rest) = b ++ c :: trimRight rest := by
  induction b with
  | nil =>
      rw [List.nil_append, List.nil_append, trimRight]
      cases trimRight rest with
      | nil => exact if_neg (by simp [h])
      | cons d kept => rfl
  | cons d b ih =>
      rw [List.cons_append, List.cons_append, trimRight, ih]
      cases b <;> rfl

/-- What is trimmed off the end are blanks. -/
theorem exists_trimRight (b : Bytes) :
    ∃ after, Blank after ∧ b = trimRight b ++ after ∧
      ∀ c ∈ (trimRight b).getLast?, isBlank c = false := by
  induction b with
  | nil => exact ⟨[], blank_nil, rfl, by simp⟩
  | cons c b ih =>
      obtain ⟨after, blank, eq, last⟩ := ih
      rw [trimRight]
      cases kept : trimRight b with
      | nil =>
          rw [kept, List.nil_append] at eq
          cases hc : isBlank c with
          | true =>
              refine ⟨c :: after, List.forall_mem_cons.2 ⟨isBlank_iff.1 hc, blank⟩, ?_, by simp⟩
              rw [eq]
              rfl
          | false =>
              refine ⟨after, blank, ?_, by simp [hc]⟩
              rw [eq]
              rfl
      | cons d rest =>
          rw [kept] at eq last
          refine ⟨after, blank, ?_, by simpa [List.getLast?_cons_cons] using last⟩
          rw [eq]
          rfl

theorem dropWhile_blank {b : Bytes} (h : Blank b) : b.dropWhile isBlank = [] :=
  List.dropWhile_eq_nil_iff.2 fun c mem => isBlank_iff.2 (h c mem)

/-- Trimming takes the blanks off both ends and nothing else. -/
theorem trim_eq_iff {b t : Bytes} : trim b = t ↔ Trims b t := by
  constructor
  · rintro rfl
    obtain ⟨after, blank, eq, last⟩ := exists_trimRight (b.dropWhile isBlank)
    refine ⟨⟨fun c first => isBlank_eq_false_iff.1 ?_,
      fun c mem => isBlank_eq_false_iff.1 (last c mem)⟩, b.takeWhile isBlank, after,
      blank_takeWhile b, blank, ?_⟩
    · have head : (b.dropWhile isBlank).head? = some c := by
        rw [eq, List.head?_append, ← trim, Option.mem_def.1 first]
        rfl
      have stops := List.head?_dropWhile_not isBlank b
      rw [head] at stops
      exact stops
    · rw [List.append_assoc, trim, ← eq, List.takeWhile_append_dropWhile]
  · rintro ⟨⟨first, last⟩, before, after, before_blank, after_blank, rfl⟩
    have passes : ∀ c ∈ before, isBlank c = true := fun c mem => isBlank_iff.2 (before_blank c mem)
    rw [trim, List.append_assoc, List.dropWhile_append_of_pos passes]
    -- trimming from the right stops at the last byte of `t`, which is no blank
    rcases List.eq_nil_or_concat t with rfl | ⟨init, c, rfl⟩
    · rw [List.nil_append, dropWhile_blank after_blank]
      rfl
    · have starts : (init ++ [c] ++ after).dropWhile isBlank = init ++ c :: after := by
        rw [List.append_assoc]
        cases init with
        | nil =>
            exact List.dropWhile_cons_of_neg (by simp [isBlank_eq_false_iff.2 (first c rfl)])
        | cons d init =>
            exact List.dropWhile_cons_of_neg (by simp [isBlank_eq_false_iff.2 (first d rfl)])
      rw [List.concat_eq_append, starts,
        trimRight_append_cons init (isBlank_eq_false_iff.2 (last c (by simp))),
        trimRight_blank after_blank]

theorem trims_trim (b : Bytes) : Trims b (trim b) := trim_eq_iff.1 rfl

/-- A text is what is left of it by trimming, between blanks. -/
theorem exists_trim (b : Bytes) :
    ∃ before after, Blank before ∧ Blank after ∧ b = before ++ trim b ++ after :=
  (trims_trim b).2

theorem trim_eq_nil_iff {b : Bytes} : trim b = [] ↔ Blank b := by
  constructor
  · intro h
    obtain ⟨before, after, before_blank, after_blank, eq⟩ := exists_trim b
    rw [eq, h, List.append_nil]
    exact before_blank.append after_blank
  · intro h
    rw [trim, dropWhile_blank h]
    rfl

/-- Blanks before and after a text are trimmed off with those that it has itself. -/
theorem trim_append_append {before after : Bytes} (hb : Blank before) (b : Bytes)
    (ha : Blank after) : trim (before ++ b ++ after) = trim b := by
  obtain ⟨inner, outer, inner_blank, outer_blank, eq⟩ := exists_trim b
  refine trim_eq_iff.2 ⟨(trims_trim b).1, before ++ inner, outer ++ after,
    hb.append inner_blank, outer_blank.append ha, ?_⟩
  calc before ++ b ++ after
      = before ++ (inner ++ trim b ++ outer) ++ after := by rw [← eq]
    _ = before ++ inner ++ trim b ++ (outer ++ after) := by simp only [List.append_assoc]

theorem mem_of_mem_trim {b : Bytes} {c : UInt8} (h : c ∈ trim b) : c ∈ b := by
  obtain ⟨before, after, -, -, eq⟩ := exists_trim b
  rw [eq]
  exact List.mem_append_left _ (List.mem_append_right _ h)

theorem trim_trim (b : Bytes) : trim (trim b) = trim b := by
  obtain ⟨before, after, before_blank, after_blank, eq⟩ := exists_trim b
  rw [← trim_append_append before_blank (trim b) after_blank, ← eq]

theorem trim_dropWhile (b : Bytes) : trim (b.dropWhile isBlank) = trim b := by
  rw [← trim_append_append (blank_takeWhile b) (b.dropWhile isBlank) blank_nil,
    List.append_nil, List.takeWhile_append_dropWhile]

theorem trim_trimRight (b : Bytes) : trim (trimRight b) = trim b := by
  obtain ⟨after, blank, eq, -⟩ := exists_trimRight b
  rw [← trim_append_append blank_nil (trimRight b) blank, List.nil_append, ← eq]

/-- A byte that is no blank divides a text into two that are trimmed on their own. -/
theorem trim_append_cons (b : Bytes) {c : UInt8} (h : isBlank c = false) (rest : Bytes) :
    trim (b ++ c :: rest) = b.dropWhile isBlank ++ c :: trimRight rest := by
  have stays : (c :: rest).dropWhile isBlank = c :: rest :=
    List.dropWhile_cons_of_neg (by simp [h])
  rw [trim, List.dropWhile_append, ← trimRight_append_cons _ h, stays]
  cases b.dropWhile isBlank <;> rfl

theorem head?_trim (b : Bytes) : (trim b).head? = (b.dropWhile isBlank).head? := by
  have stops := List.head?_dropWhile_not isBlank b
  rw [trim]
  cases h : b.dropWhile isBlank with
  | nil => rfl
  | cons c rest =>
      rw [h] at stops
      rw [← List.nil_append (c :: rest), trimRight_append_cons [] stops rest]
      rfl

end Bytes

namespace Setting

open Bytes

/-! ## Keys and values -/

/-- The texts of settings, with what they say: a key alone, or a key and a value with the first
equals sign between them. -/
inductive Parts : Bytes → Setting → Prop where
  | alone {t key} (named : Trims t key) (bare : 0x3d ∉ t) : Parts t ⟨key, text "1"⟩
  | pair {left key right value} (named : Trims left key) (valued : Trims right value)
      (bare : 0x3d ∉ left) : Parts (left ++ 0x3d :: right) ⟨key, value⟩

theorem ofText_of_not_mem {t : Bytes} (bare : 0x3d ∉ t) : ofText t = ⟨trim t, text "1"⟩ := by
  have ends : t.dropWhile (· ≠ 0x3d) = [] :=
    List.dropWhile_eq_nil_iff.2 fun c mem => decide_eq_true fun eq => bare (eq ▸ mem)
  rw [ofText, ends]

theorem ofText_append {left : Bytes} (bare : 0x3d ∉ left) (right : Bytes) :
    ofText (left ++ 0x3d :: right) = ⟨trim left, trim right⟩ := by
  have passes : ∀ c ∈ left, decide (c ≠ 0x3d) = true :=
    fun c mem => decide_eq_true fun eq => bare (eq ▸ mem)
  rw [ofText, List.dropWhile_append_of_pos passes, List.takeWhile_append_of_pos passes]
  simp

theorem ofText_eq_iff {t : Bytes} {s : Setting} : ofText t = s ↔ Parts t s := by
  constructor
  · rintro rfl
    by_cases mem : 0x3d ∈ t
    · obtain ⟨left, right, rfl, bare⟩ := List.eq_append_cons_of_mem mem
      rw [ofText_append bare]
      exact .pair (trims_trim left) (trims_trim right) bare
    · rw [ofText_of_not_mem mem]
      exact .alone (trims_trim t) mem
  · rintro (⟨named, bare⟩ | ⟨named, valued, bare⟩)
    · rw [ofText_of_not_mem bare, trim_eq_iff.2 named]
    · rw [ofText_append bare, trim_eq_iff.2 named, trim_eq_iff.2 valued]

/-- Blanks around a text do not change its setting. -/
theorem ofText_trim (t : Bytes) : ofText (trim t) = ofText t := by
  by_cases mem : 0x3d ∈ t
  · obtain ⟨left, right, rfl, bare⟩ := List.eq_append_cons_of_mem mem
    have bare' : 0x3d ∉ left.dropWhile isBlank :=
      fun mem => bare ((List.dropWhile_sublist isBlank).subset mem)
    rw [trim_append_cons left rfl, ofText_append bare', ofText_append bare, trim_dropWhile,
      trim_trimRight]
  · rw [ofText_of_not_mem fun inside => mem (mem_of_mem_trim inside), ofText_of_not_mem mem,
      trim_trim]

/-! ## One line -/

/-- The lines that are settings, with what they say: all that are not blank, and do not begin as
comments do. -/
structure Spells (line : Bytes) (s : Setting) : Prop where
  parts : Parts line s
  nonblank : ¬ Blank line
  uncommented : s.key.head? ≠ some 0x23

/-- A line is a comment exactly if its key begins like one. -/
theorem head?_key_ofText (t : Bytes) :
    (ofText t).key.head? = some 0x23 ↔ (trim t).head? = some 0x23 := by
  by_cases mem : 0x3d ∈ t
  · obtain ⟨left, right, rfl, bare⟩ := List.eq_append_cons_of_mem mem
    rw [ofText_append bare, trim_append_cons left rfl, List.head?_append, ← head?_trim]
    cases (trim left).head? <;> simp
  · rw [ofText_of_not_mem mem]

theorem ofLine?_eq (line : Bytes) : ofLine? line =
    if trim line = [] ∨ (trim line).head? = some 0x23 then none else some (ofText line) := by
  rw [ofLine?, ← ofText_trim line]
  cases trim line with
  | nil => rfl
  | cons c rest => simp

/-- A line says nothing if it is blank, or a comment. -/
theorem ofLine?_eq_none_iff {line : Bytes} :
    ofLine? line = none ↔ Blank line ∨ (trim line).head? = some 0x23 := by
  rw [ofLine?_eq, ← trim_eq_nil_iff]
  split
  · exact iff_of_true rfl ‹_›
  · exact iff_of_false (Option.some_ne_none _) ‹_›

/-- A line has a setting exactly if it spells one, and then this one. -/
theorem ofLine?_eq_some_iff {line : Bytes} {s : Setting} :
    ofLine? line = some s ↔ Spells line s := by
  rw [ofLine?_eq]
  constructor
  · intro h
    obtain ⟨⟨nonempty, uncommented⟩, rfl⟩ : (trim line ≠ [] ∧ (trim line).head? ≠ some 0x23) ∧
        ofText line = s := by simpa [not_or] using h
    exact ⟨ofText_eq_iff.1 rfl, fun blank => nonempty (trim_eq_nil_iff.2 blank),
      fun comment => uncommented ((head?_key_ofText line).1 comment)⟩
  · rintro ⟨parts, nonblank, uncommented⟩
    obtain rfl := ofText_eq_iff.2 parts
    refine if_neg (not_or.2 ⟨fun empty => nonblank (trim_eq_nil_iff.1 empty), fun comment => ?_⟩)
    exact uncommented ((head?_key_ofText line).2 comment)

/-! ## One argument -/

/-- What a program sees of an argument: what stands before its first zero byte. -/
def Seen (arg seen : Bytes) : Prop :=
  0 ∉ seen ∧ (arg = seen ∨ ∃ rest, arg = seen ++ 0 :: rest)

/-- A text behind two dashes, or behind one where no other follows it. -/
inductive Dashed : Bytes → Bytes → Prop where
  | one {body} (single : body.head? ≠ some 0x2d) : Dashed (0x2d :: body) body
  | two (body) : Dashed (0x2d :: 0x2d :: body) body

/-- The arguments that are settings, with what they say behind the dashes. -/
def Passes (arg : Bytes) (s : Setting) : Prop :=
  ∃ seen body, Seen arg seen ∧ Dashed seen body ∧ Parts body s

/-- The setting of an argument. One that is empty or has no dash in front is none. -/
def ofArgument? (arg : Bytes) : Option Setting :=
  let arg := arg.takeWhile (· ≠ 0)
  if arg.head? = some 0x2d then some (ofText (Settings.undashed arg)) else none

theorem seen_iff {arg seen : Bytes} : Seen arg seen ↔ arg.takeWhile (· ≠ 0) = seen := by
  have stays : ∀ {t : Bytes}, 0 ∉ t → ∀ c ∈ t, decide (c ≠ 0) = true :=
    fun plain c mem => decide_eq_true fun zero => plain (zero ▸ mem)
  constructor
  · rintro ⟨plain, rfl | ⟨rest, rfl⟩⟩
    · exact List.takeWhile_eq_self_iff.2 (stays plain)
    · rw [List.takeWhile_append_of_pos (stays plain), List.takeWhile_cons_of_neg (by decide),
        List.append_nil]
  · rintro rfl
    by_cases mem : 0 ∈ arg
    · obtain ⟨seen, rest, rfl, plain⟩ := List.eq_append_cons_of_mem mem
      rw [List.takeWhile_append_of_pos (stays plain), List.takeWhile_cons_of_neg (by decide),
        List.append_nil]
      exact ⟨plain, .inr ⟨rest, rfl⟩⟩
    · rw [List.takeWhile_eq_self_iff.2 (stays mem)]
      exact ⟨mem, .inl rfl⟩

theorem dashed_iff {seen body : Bytes} :
    Dashed seen body ↔ seen.head? = some 0x2d ∧ Settings.undashed seen = body := by
  constructor
  · rintro (⟨single⟩ | ⟨_⟩)
    · refine ⟨rfl, ?_⟩
      unfold Settings.undashed
      split
      · rename_i eq
        rw [(List.cons.inj eq).2] at single
        exact absurd rfl single
      · rename_i eq
        exact (List.cons.inj eq).2.symm
      · rename_i other
        exact absurd rfl (other body)
    · exact ⟨rfl, rfl⟩
  · rintro ⟨first, rfl⟩
    unfold Settings.undashed
    split
    · exact .two _
    · rename_i rest other
      refine .one fun second => ?_
      obtain ⟨more, rfl⟩ : ∃ more, rest = 0x2d :: more := List.head?_eq_some_iff.1 second
      exact other more rfl
    · rename_i other
      obtain ⟨rest, rfl⟩ := List.head?_eq_some_iff.1 first
      exact absurd rfl (other rest)

/-- An argument has a setting exactly if it passes one, and then this one. -/
theorem ofArgument?_eq_some_iff {arg : Bytes} {s : Setting} :
    ofArgument? arg = some s ↔ Passes arg s := by
  constructor
  · intro h
    rw [ofArgument?] at h
    split at h
    · rename_i first
      exact ⟨_, _, seen_iff.2 rfl, dashed_iff.2 ⟨first, rfl⟩,
        ofText_eq_iff.1 (Option.some.inj h)⟩
    · cases h
  · rintro ⟨seen, body, part, dashed, parts⟩
    obtain ⟨first, rfl⟩ := dashed_iff.1 dashed
    rw [ofArgument?, seen_iff.1 part, ofText_eq_iff.2 parts]
    exact if_pos first

/-! ## The lines of a text -/

/-- Whether a line has a setting with an empty key. -/
def keyless (line : Bytes) : Bool := (ofLine? line).any (·.key.isEmpty)

/-- The key of a line is empty if nothing but blanks stands before its equals sign. -/
theorem keyless_iff {line : Bytes} :
    keyless line = true ↔ ∃ before after, Blank before ∧ line = before ++ 0x3d :: after := by
  rw [keyless, Option.any_eq_true]
  constructor
  · rintro ⟨s, spelled, empty⟩
    have empty : s.key = [] := List.isEmpty_iff.1 empty
    obtain ⟨parts, nonblank, -⟩ := ofLine?_eq_some_iff.1 spelled
    cases parts with
    | alone named => exact absurd (trim_eq_nil_iff.1 ((trim_eq_iff.2 named).trans empty)) nonblank
    | pair named => exact ⟨_, _, trim_eq_nil_iff.1 ((trim_eq_iff.2 named).trans empty), rfl⟩
  · rintro ⟨before, after, blank, rfl⟩
    have named : Trims before [] := trim_eq_iff.1 (trim_eq_nil_iff.2 blank)
    have bare : 0x3d ∉ before := fun mem => absurd (blank _ mem) (by decide)
    have nonblank : ¬ Blank (before ++ 0x3d :: after) := fun all =>
      absurd (all 0x3d (by simp)) (by decide)
    refine ⟨⟨[], trim after⟩, ofLine?_eq_some_iff.2 ⟨?_, nonblank, by simp⟩, rfl⟩
    exact .pair named (trims_trim after) bare

/-- The settings of a text: those of its lines before the first one with an empty key. -/
def allOfText (t : Bytes) : List Setting :=
  ((Bytes.pieces 0x0a t).takeWhile (!keyless ·)).filterMap ofLine?

/-- The line after one with a key is counted one further. -/
theorem findIdx?_of_keyed {line : Bytes} (keyed : keyless line = false) (number : Nat)
    (lines : List Bytes) : ((line :: lines).findIdx? keyless).map (number + ·) =
      (lines.findIdx? keyless).map (number + 1 + ·) := by
  rw [List.findIdx?_cons, keyed, if_neg Bool.false_ne_true, Option.map_map]
  exact congrArg (Option.map · _) (funext fun i => by simp only [Function.comp_apply]; omega)

/-- Reading lines comes to the settings of those before the first one with an empty key, and the
number of that line. -/
theorem ofLines_eq (number : Nat) (lines : List Bytes) :
    ofLines number lines = ((lines.takeWhile (!keyless ·)).filterMap ofLine?,
      (lines.findIdx? keyless).map (number + ·)) := by
  induction lines generalizing number with
  | nil => rfl
  | cons line lines ih =>
      rw [ofLines]
      cases said : ofLine? line with
      | none =>
          have keyed : keyless line = false := by rw [keyless, said]; rfl
          simp [ih, findIdx?_of_keyed keyed, keyed, said]
      | some s =>
          have keyed : keyless line = s.key.isEmpty := by rw [keyless, said]; rfl
          cases empty : s.key.isEmpty with
          | true => simp [keyed, empty, List.findIdx?_cons]
          | false => simp [ih, findIdx?_of_keyed (keyed.trans empty), keyed, empty, said]

end Setting

end AuthScript
