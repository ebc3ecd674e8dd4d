import AuthScript.Source.Lexer
import Mathlib.Data.List.TakeWhile

/-!
# What tokens look like

`Lexeme` says which texts are tokens of a kind: a run of white space, a comment up to its
end, a bracket, a literal or an identifier, each by its first byte and the bytes after it.
A token ends where no further byte would belong to it (`Stops`). These two determine what
is read: a token is found at the start of a text exactly if the text is a lexeme and
something at which this stops (`scan_eq_token_iff`).

Where no token is found the reason is a byte that cannot stand there, or a comment or a
string that the text does not end (`Scan.Sound`).
-/

namespace AuthScript

/-- A text starts with no byte of a class. -/
def Bytes.StartsOutside (p : UInt8 → Bool) : Bytes → Prop
  | [] => True
  | c :: _ => p c = false

/-- Taking bytes of a class off the front leaves what starts outside the class. -/
theorem Bytes.span_eq_iff {p : UInt8 → Bool} {b first rest : Bytes} :
    b.takeWhile p = first ∧ b.dropWhile p = rest ↔
      b = first ++ rest ∧ (∀ c ∈ first, p c = true) ∧ rest.StartsOutside p := by
  constructor
  · rintro ⟨rfl, rfl⟩
    refine ⟨List.takeWhile_append_dropWhile.symm, fun c hc => ?_, ?_⟩
    · exact List.all_eq_true.1 List.all_takeWhile c hc
    · have stops := List.head?_dropWhile_not p b
      cases hrest : b.dropWhile p with
      | nil => trivial
      | cons c rest => simpa [hrest, StartsOutside] using stops
  · rintro ⟨rfl, inside, stops⟩
    rw [List.takeWhile_append_of_pos inside, List.dropWhile_append_of_pos inside]
    cases rest with
    | nil => simp
    | cons c rest =>
        have stops : p c = false := stops
        simp [stops]

namespace Token

/-- The ends of block comments. -/
def commentEnd : Bytes := [0x2a, 0x2f]

/-- A byte with which an identifier goes on, given what follows the byte. -/
def Continues (c : UInt8) (rest : Bytes) : Prop :=
  inIdentifier c = true ∨ c = 0x2e ∧ rest.head?.any inIdentifier = true

/-- Letters, underscores, digits, and dots that one of these follows. -/
def Dotted : Bytes → Prop
  | [] => True
  | c :: rest => Continues c rest ∧ Dotted rest

theorem dotted_of_inIdentifier {b : Bytes} (h : ∀ c ∈ b, inIdentifier c = true) : Dotted b := by
  induction b with
  | nil => trivial
  | cons c b ih =>
      obtain ⟨first, others⟩ := List.forall_mem_cons.1 h
      exact ⟨.inl first, ih others⟩

/-- A dot may stand before a letter, an underscore or a digit. -/
theorem dotted_append {first rest : Bytes} (h : ∀ c ∈ first, inIdentifier c = true)
    (continues : rest.head?.any inIdentifier = true) (dotted : Dotted rest) :
    Dotted (first ++ 0x2e :: rest) := by
  induction first with
  | nil => exact ⟨.inr ⟨rfl, continues⟩, dotted⟩
  | cons c first ih =>
      obtain ⟨own, others⟩ := List.forall_mem_cons.1 h
      exact ⟨.inl own, ih others⟩

/-- The texts of tokens, by their kinds: a first byte and what follows it. -/
inductive Lexeme : Kind → UInt8 → Bytes → Prop where
  | whitespace {c more} (start : isSpace c = true) (rest : ∀ d ∈ more, isSpace d = true) :
      Lexeme .whitespace c more
  | lineComment {body} (inside : 0x0a ∉ body) : Lexeme .lineComment 0x2f (0x2f :: body)
  | blockComment {body} (inside : ¬ commentEnd <:+: body) :
      Lexeme .blockComment 0x2f (0x2a :: (body ++ commentEnd))
  | pushOpen : Lexeme .pushOpen 0x3c []
  | pushClose : Lexeme .pushClose 0x3e []
  | evalOpen : Lexeme .evalOpen 0x24 [0x28]
  | evalClose : Lexeme .evalClose 0x29 []
  | utf8 {quote body} (quotes : quote = 0x27 ∨ quote = 0x22) (inside : quote ∉ body) :
      Lexeme .utf8 quote (body ++ [quote])
  | hex {digits} (rest : ∀ d ∈ digits, Hex.isDigit d = true) : Lexeme .hex 0x30 (0x78 :: digits)
  | integer {c digits} (start : Decimal.isDigit c = true ∨ c = 0x2d ∧ digits ≠ [])
      (rest : ∀ d ∈ digits, Decimal.isDigit d = true) : Lexeme .integer c digits
  | identifier {c more} (start : startsIdentifier c = true) (rest : Dotted more) :
      Lexeme .identifier c more

/-- What stands behind a token does not belong to it any more. -/
def Stops : Kind → Bytes → Prop
  | .whitespace, after => Bytes.StartsOutside isSpace after
  | .lineComment, after => Bytes.StartsOutside (· ≠ 0x0a) after
  | .hex, after | .integer, after => Bytes.StartsOutside inIdentifier after
  | .identifier, after => ∀ c rest, after = c :: rest → ¬ Continues c rest
  | _, _ => True

/-- What is found at the start of a text is a lexeme that ends there, or a reason why no
lexeme is. -/
def Scan.Sound (c : UInt8) (rest : Bytes) : Scan → Prop
  | .token kind more after => rest = more ++ after ∧ Lexeme kind c more ∧ Stops kind after
  | .stray before cause => ∃ d after, c :: rest = before ++ d :: after ∧
      cause ∈ [.unexpectedCharacter d, .badHexCharacter d, .badIntegerCharacter d]
  | .unterminated cause =>
      (cause = .unterminatedComment ∧ c = 0x2f ∧
        ∃ body, rest = 0x2a :: body ∧ ¬ commentEnd <:+: body) ∨
      (cause = .unterminatedString ∧ (c = 0x27 ∨ c = 0x22) ∧ c ∉ rest)

/-! ## Comments and identifiers -/

theorem commentEnd_infix_cons {c : UInt8} {b : Bytes} :
    commentEnd <:+: c :: b ↔ c = 0x2a ∧ b.head? = some 0x2f ∨ commentEnd <:+: b := by
  rw [List.infix_cons_iff]
  refine or_congr_left ?_
  cases b with
  | nil => simp [commentEnd]
  | cons d b => simp [commentEnd, eq_comm]

theorem closeComment_eq_none {passed b : Bytes} :
    closeComment passed b = none ↔ ¬ commentEnd <:+: b := by
  induction b generalizing passed with
  | nil => simp [closeComment, commentEnd]
  | cons c b ih =>
      rw [closeComment, commentEnd_infix_cons]
      by_cases ends : c = 0x2a ∧ b.head? = some 0x2f
      · simp [ends]
      · rw [if_neg (by simpa using ends), ih]
        simp [ends]

/-- A comment is closed by the first of its ends. -/
theorem closeComment_eq_some {passed b body after : Bytes} :
    closeComment passed b = some (body, after) ↔
      ∃ inner, body = passed.reverse ++ inner ++ commentEnd ∧
        b = inner ++ commentEnd ++ after ∧ ¬ commentEnd <:+: inner := by
  induction b generalizing passed with
  | nil => simp [closeComment, commentEnd]
  | cons c b ih =>
      rw [closeComment]
      by_cases ends : c = 0x2a ∧ b.head? = some 0x2f
      · obtain ⟨rfl, hb⟩ := ends
        rw [if_pos (by simp [hb])]
        constructor
        · intro h
          obtain ⟨rfl, rfl⟩ : passed.reverse ++ [0x2a, 0x2f] = body ∧ b.tail = after := by
            simpa using h
          refine ⟨[], by simp [commentEnd], ?_, by simp [commentEnd]⟩
          rw [List.nil_append, commentEnd, List.cons_append, List.singleton_append, cons_tail hb]
        · rintro ⟨inner, rfl, hb', inside⟩
          cases inner with
          | nil =>
              simp only [commentEnd, List.nil_append, List.cons_append, List.cons.injEq,
                true_and] at hb'
              simp [commentEnd, hb']
          | cons d inner =>
              -- the end would be met before
              exfalso
              obtain ⟨rfl, rfl⟩ := List.cons.inj hb'
              refine inside (commentEnd_infix_cons.2 (.inl ⟨rfl, ?_⟩))
              cases inner with
              | nil => simp [commentEnd] at hb
              | cons e inner => simpa using hb
      · rw [if_neg (by simpa using ends), ih]
        constructor
        · rintro ⟨inner, rfl, rfl, inside⟩
          refine ⟨c :: inner, by simp, by simp, ?_⟩
          rw [commentEnd_infix_cons]
          rintro (⟨rfl, hinner⟩ | found)
          · cases inner with
            | nil => simp at hinner
            | cons d inner => exact ends ⟨rfl, by simpa using hinner⟩
          · exact inside found
        · rintro ⟨inner, rfl, hb, inside⟩
          cases inner with
          | nil =>
              exfalso
              obtain ⟨rfl, rfl⟩ := List.cons.inj hb
              exact ends ⟨rfl, rfl⟩
          | cons d inner =>
              obtain ⟨rfl, rfl⟩ := List.cons.inj hb
              refine ⟨inner, by simp, by simp, fun found => inside ?_⟩
              exact commentEnd_infix_cons.2 (.inr found)

theorem spanIdentifier_cons (c : UInt8) (b : Bytes) [Decidable (Continues c b)] :
    spanIdentifier (c :: b) =
      if Continues c b then (c :: (spanIdentifier b).1, (spanIdentifier b).2)
      else ([], c :: b) := by
  rw [spanIdentifier]
  exact ite_congr (by simp [Continues]) (fun _ => rfl) fun _ => rfl

/-- The byte after a dot is in the same identifier. -/
theorem Continues.of_append {c : UInt8} {more after : Bytes} (h : Continues c more) :
    Continues c (more ++ after) := by
  refine h.imp_right fun ⟨hc, hmore⟩ => ⟨hc, ?_⟩
  cases more with
  | nil => simp at hmore
  | cons d more => simpa using hmore

theorem Continues.of_span {c : UInt8} {b : Bytes} (h : Continues c b) :
    Continues c (spanIdentifier b).1 := by
  refine h.imp_right fun ⟨hc, hb⟩ => ⟨hc, ?_⟩
  cases b with
  | nil => simp at hb
  | cons d b =>
      have hd : inIdentifier d = true := by simpa using hb
      rw [spanIdentifier, if_pos (by simp [hd])]
      simpa using hd

/-- The rest of an identifier is taken as far as it goes. -/
theorem spanIdentifier_eq_iff {b more after : Bytes} :
    spanIdentifier b = (more, after) ↔
      b = more ++ after ∧ Dotted more ∧ Stops .identifier after := by
  classical
  induction b generalizing more with
  | nil =>
      rw [spanIdentifier, Prod.mk.injEq]
      constructor
      · rintro ⟨rfl, rfl⟩
        exact ⟨rfl, trivial, fun c rest h => by cases h⟩
      · rintro ⟨h, _, _⟩
        obtain ⟨rfl, rfl⟩ := List.append_eq_nil_iff.1 h.symm
        exact ⟨rfl, rfl⟩
  | cons c b ih =>
      rw [spanIdentifier_cons]
      by_cases goes : Continues c b
      · rw [if_pos goes]
        constructor
        · intro h
          obtain ⟨rfl, rfl⟩ := Prod.mk.inj h
          obtain ⟨hb, dotted, stops⟩ := ih.1 rfl
          exact ⟨congrArg (c :: ·) hb, ⟨goes.of_span, dotted⟩, stops⟩
        · rintro ⟨h, dotted, stops⟩
          cases more with
          | nil => exact absurd goes (stops c b h.symm)
          | cons d more =>
              obtain ⟨rfl, hb⟩ := List.cons.inj h
              rw [ih.2 ⟨hb, dotted.2, stops⟩]
      · rw [if_neg goes]
        constructor
        · intro h
          obtain ⟨rfl, rfl⟩ := Prod.mk.inj h
          refine ⟨rfl, trivial, fun d rest hd => ?_⟩
          obtain ⟨rfl, rfl⟩ := List.cons.inj hd
          exact goes
        · rintro ⟨h, dotted, stops⟩
          cases more with
          | nil => rw [h, List.nil_append]
          | cons d more =>
              obtain ⟨rfl, rfl⟩ := List.cons.inj h
              exact absurd (Continues.of_append dotted.1) goes

/-! ## Scanning -/

theorem scanNumber_sound {kind : Kind} {cause : UInt8 → Cause} {c : UInt8}
    {more after rest : Bytes} (hrest : rest = more ++ after) (lexeme : Lexeme kind c more)
    (number : kind = .hex ∨ kind = .integer)
    (hcause : ∀ d, cause d ∈ [.unexpectedCharacter d, .badHexCharacter d, .badIntegerCharacter d]) :
    (scanNumber kind cause c more after).Sound c rest := by
  have stops : Bytes.StartsOutside inIdentifier after → Stops kind after := by
    rcases number with rfl | rfl <;> exact id
  unfold scanNumber
  cases after with
  | nil => exact ⟨hrest, lexeme, stops trivial⟩
  | cons d after =>
      by_cases runs : inIdentifier d = true
      · simp only [runs, if_true]
        exact ⟨d, after, by rw [hrest, List.cons_append], hcause d⟩
      · simp only [runs]
        exact ⟨hrest, lexeme, stops (Bool.eq_false_iff.2 runs)⟩

theorem scan_sound (c : UInt8) (rest : Bytes) : (scan c rest).Sound c rest := by
  have spanned : ∀ (p : UInt8 → Bool) (b : Bytes), b = b.takeWhile p ++ b.dropWhile p ∧
      (∀ d ∈ b.takeWhile p, p d = true) ∧ Bytes.StartsOutside p (b.dropWhile p) :=
    fun p b => Bytes.span_eq_iff.1 ⟨rfl, rfl⟩
  unfold scan
  -- one step for each way a token can start, in the order in which they are tried
  refine iteInduction (fun start => ?_) fun _ => ?_
  · obtain ⟨hrest, inside, stops⟩ := spanned isSpace rest
    exact ⟨hrest, .whitespace start inside, stops⟩
  refine iteInduction (fun start => ?_) fun _ => ?_
  · obtain ⟨rfl, hhead⟩ := start
    obtain ⟨hrest, inside, stops⟩ := spanned (· ≠ 0x0a) rest
    rw [← cons_tail hhead] at inside stops hrest ⊢
    refine ⟨hrest, ?_, stops⟩
    rw [List.takeWhile_cons_of_pos (by decide)] at inside ⊢
    refine .lineComment fun newline => ?_
    exact absurd (inside _ (List.mem_cons_of_mem _ newline)) (by decide)
  refine iteInduction (fun start => ?_) fun _ => ?_
  · obtain ⟨rfl, hhead⟩ := start
    cases hclosed : closeComment [] rest.tail with
    | none =>
        exact .inl ⟨rfl, rfl, rest.tail, (cons_tail hhead).symm, closeComment_eq_none.1 hclosed⟩
    | some found =>
        obtain ⟨inner, hbody, htail, inside⟩ := closeComment_eq_some.1 hclosed
        refine ⟨?_, ?_, trivial⟩
        · rw [hbody, ← cons_tail hhead, htail]
          rfl
        · rw [hbody]
          exact .blockComment inside
  refine iteInduction (fun start => ?_) fun _ => ?_
  · exact ⟨rfl, start ▸ .pushOpen, trivial⟩
  refine iteInduction (fun start => ?_) fun _ => ?_
  · exact ⟨rfl, start ▸ .pushClose, trivial⟩
  refine iteInduction (fun start => ?_) fun _ => ?_
  · obtain ⟨rfl, hhead⟩ := start
    exact ⟨(cons_tail hhead).symm, .evalOpen, trivial⟩
  refine iteInduction (fun start => ?_) fun _ => ?_
  · exact ⟨rfl, start ▸ .evalClose, trivial⟩
  refine iteInduction (fun start => ?_) fun _ => ?_
  · obtain ⟨hrest, inside, stops⟩ := spanned (· ≠ c) rest
    have quoted : c ∉ rest.takeWhile (· ≠ c) := fun quote => absurd (inside c quote) (by simp)
    cases hafter : rest.dropWhile (· ≠ c) with
    | nil =>
        rw [hafter, List.append_nil] at hrest
        refine .inr ⟨rfl, start, ?_⟩
        rw [hrest]
        exact quoted
    | cons quote after =>
        rw [hafter] at hrest stops
        obtain rfl : quote = c := by simpa [Bytes.StartsOutside] using stops
        refine ⟨?_, .utf8 start quoted, trivial⟩
        rw [List.append_assoc]
        exact hrest
  refine iteInduction (fun start => ?_) fun _ => ?_
  · obtain ⟨rfl, hhead⟩ := start
    obtain ⟨hrest, inside, _⟩ := spanned Hex.isDigit rest.tail
    refine scanNumber_sound ?_ (.hex inside) (.inl rfl) (by simp)
    rw [List.cons_append, ← hrest, cons_tail hhead]
  refine iteInduction (fun start => ?_) fun _ => ?_
  · obtain ⟨hrest, inside, _⟩ := spanned Decimal.isDigit rest
    refine scanNumber_sound hrest (.integer ?_ inside) (.inr rfl) (by simp)
    refine start.imp_right ?_
    rintro ⟨hc, hhead⟩
    refine ⟨hc, ?_⟩
    cases rest with
    | nil => cases hhead
    | cons d rest => simpa using hhead
  refine iteInduction (fun start => ?_) fun _ => ?_
  · obtain ⟨hrest, dotted, stops⟩ := spanIdentifier_eq_iff.1 (rfl : spanIdentifier rest = _)
    exact ⟨hrest, .identifier start dotted, stops⟩
  · exact ⟨c, rest, rfl, by simp⟩

/-! ## Reading a lexeme back -/

theorem inIdentifier_of_digit {d : UInt8} (h : Decimal.isDigit d = true) :
    inIdentifier d = true := by
  rw [inIdentifier, h, Bool.or_true]

theorem not_isDigit_of_startsIdentifier {c : UInt8} (h : startsIdentifier c = true) :
    ¬ Decimal.isDigit c = true := by
  simp only [startsIdentifier, Bool.or_eq_true, Bool.and_eq_true, decide_eq_true_eq,
    UInt8.le_iff_toNat_le, ← UInt8.toNat_inj, UInt8.reduceToNat] at h
  simp only [Decimal.isDigit, Bool.and_eq_true, decide_eq_true_eq, UInt8.le_iff_toNat_le,
    UInt8.reduceToNat]
  omega

theorem inIdentifier_of_hexDigit {d : UInt8} (h : Hex.isDigit d = true) :
    inIdentifier d = true := by
  simp only [Hex.isDigit, Hex.digit?, UInt8.le_iff_toNat_le, UInt8.reduceToNat] at h
  simp only [inIdentifier, startsIdentifier, Decimal.isDigit, Bool.or_eq_true, Bool.and_eq_true,
    decide_eq_true_eq, UInt8.le_iff_toNat_le, UInt8.reduceToNat]
  split at h
  · omega
  · split at h
    · omega
    · split at h
      · omega
      · cases h

theorem startsOutside_mono {p q : UInt8 → Bool} (h : ∀ d, p d = true → q d = true) {b : Bytes}
    (hb : Bytes.StartsOutside q b) : Bytes.StartsOutside p b := by
  cases b with
  | nil => trivial
  | cons d b =>
      have outside : q d = false := hb
      exact Bool.eq_false_iff.2 fun inside => Bool.false_ne_true (outside.symm.trans (h d inside))

theorem scanNumber_of_stops {kind : Kind} {cause : UInt8 → Cause} {c : UInt8}
    {more after : Bytes} (stops : Bytes.StartsOutside inIdentifier after) :
    scanNumber kind cause c more after = .token kind more after := by
  unfold scanNumber
  cases after with
  | nil => rfl
  | cons d after =>
      have outside : inIdentifier d = false := stops
      simp only [outside]
      rfl

theorem scan_quote {c : UInt8} {body : Bytes} (after : Bytes) (quotes : c = 0x27 ∨ c = 0x22)
    (inside : c ∉ body) : scan c (body ++ [c] ++ after) = .token .utf8 (body ++ [c]) after := by
  have within : ∀ d ∈ body, decide (d ≠ c) = true :=
    fun d hd => decide_eq_true fun same => inside (same ▸ hd)
  have ends : Bytes.StartsOutside (· ≠ c) (c :: after) := by simp [Bytes.StartsOutside]
  obtain ⟨taken, left⟩ := Bytes.span_eq_iff.2 ⟨rfl, within, ends⟩
  have plain : ¬ isSpace c = true ∧ c ≠ 0x2f ∧ c ≠ 0x3c ∧ c ≠ 0x3e ∧ c ≠ 0x24 ∧ c ≠ 0x29 := by
    rcases quotes with rfl | rfl <;> decide
  obtain ⟨space, slash, less, greater, dollar, bracket⟩ := plain
  rw [scan, if_neg space, if_neg (slash ·.1), if_neg (slash ·.1), if_neg less, if_neg greater,
    if_neg (dollar ·.1), if_neg bracket, if_pos quotes]
  rw [List.append_assoc, List.singleton_append, taken, left]

/-- The bytes with which white space, comments, brackets, evaluations and strings start. -/
def marks : Bytes := [0x20, 0x09, 0x0d, 0x0a, 0x2f, 0x3c, 0x3e, 0x24, 0x29, 0x27, 0x22]

theorem not_mem_marks {p : UInt8 → Bool} {c : UInt8} (unmarked : marks.any p = false)
    (h : p c = true) : c ∉ marks := by
  intro hc
  exact absurd (List.any_eq_true.2 ⟨c, hc, h⟩) (by simp [unmarked])

/-- With any other byte there starts a number or an identifier. -/
theorem scan_of_not_mem_marks {c : UInt8} (unmarked : c ∉ marks) (rest : Bytes) :
    scan c rest =
      if c = 0x30 ∧ rest.head? = some 0x78 then
        scanNumber .hex .badHexCharacter c (0x78 :: rest.tail.takeWhile Hex.isDigit)
          (rest.tail.dropWhile Hex.isDigit)
      else if Decimal.isDigit c ∨ (c = 0x2d ∧ rest.head?.any Decimal.isDigit) then
        scanNumber .integer .badIntegerCharacter c (rest.takeWhile Decimal.isDigit)
          (rest.dropWhile Decimal.isDigit)
      else if startsIdentifier c then
        .token .identifier (spanIdentifier rest).1 (spanIdentifier rest).2
      else .stray [] (.unexpectedCharacter c) := by
  simp only [marks, List.mem_cons, List.not_mem_nil, or_false, not_or] at unmarked
  obtain ⟨blank, tab, ret, feed, slash, less, greater, dollar, bracket, single, double⟩ := unmarked
  have space : ¬ isSpace c = true := by simp [isSpace, blank, tab, ret, feed]
  rw [scan, if_neg space, if_neg (slash ·.1), if_neg (slash ·.1), if_neg less, if_neg greater,
    if_neg (dollar ·.1), if_neg bracket, if_neg (not_or.2 ⟨single, double⟩)]

theorem scan_decimal {c : UInt8} {digits after : Bytes}
    (start : Decimal.isDigit c = true ∨ c = 0x2d ∧ digits ≠ [])
    (inside : ∀ d ∈ digits, Decimal.isDigit d = true)
    (stops : Bytes.StartsOutside inIdentifier after) :
    scan c (digits ++ after) = .token .integer digits after := by
  have ends := startsOutside_mono (fun d => inIdentifier_of_digit) stops
  obtain ⟨taken, left⟩ := Bytes.span_eq_iff.2 ⟨rfl, inside, ends⟩
  have unmarked : c ∉ marks := by
    have other : marks.any (fun d => Decimal.isDigit d || d == 0x2d) = false := by rfl
    refine not_mem_marks other ?_
    rcases start with digit | ⟨rfl, _⟩
    · simp [digit]
    · rfl
  -- the next byte is a digit or outside of identifiers, so it is not the mark of digits
  have decimal : (digits ++ after).head? ≠ some 0x78 := by
    intro mark
    cases digits with
    | nil =>
        cases after with
        | nil => cases mark
        | cons d after =>
            obtain rfl : d = 0x78 := Option.some.inj mark
            exact Bool.false_ne_true (stops.symm.trans (by decide))
    | cons d digits =>
        obtain rfl : d = 0x78 := Option.some.inj mark
        exact absurd (inside 0x78 List.mem_cons_self) (by decide)
  have starts : Decimal.isDigit c = true ∨
      c = 0x2d ∧ (digits ++ after).head?.any Decimal.isDigit = true := by
    refine start.imp_right fun ⟨minus, more⟩ => ⟨minus, ?_⟩
    cases digits with
    | nil => exact absurd rfl more
    | cons d digits => exact inside d List.mem_cons_self
  rw [scan_of_not_mem_marks unmarked, if_neg (decimal ·.2), if_pos starts, taken, left,
    scanNumber_of_stops stops]

theorem scan_name {c : UInt8} {more after : Bytes} (start : startsIdentifier c = true)
    (dotted : Dotted more) (stops : Stops .identifier after) :
    scan c (more ++ after) = .token .identifier more after := by
  have read : spanIdentifier (more ++ after) = (more, after) :=
    spanIdentifier_eq_iff.2 ⟨rfl, dotted, stops⟩
  have unmarked : c ∉ marks := not_mem_marks (p := startsIdentifier) rfl start
  have undigit : ¬ Decimal.isDigit c = true := not_isDigit_of_startsIdentifier start
  have digitless : ¬ (Decimal.isDigit c = true ∨
      c = 0x2d ∧ (more ++ after).head?.any Decimal.isDigit = true) := by
    rintro (digit | ⟨rfl, _⟩)
    · exact undigit digit
    · exact absurd start (by decide)
  have decimal : c ≠ 0x30 := by
    rintro rfl
    exact undigit rfl
  rw [scan_of_not_mem_marks unmarked, if_neg (decimal ·.1), if_neg digitless, if_pos start, read]

/-- A lexeme is read where a text starts with it and stops behind it. -/
theorem scan_of_lexeme {kind : Kind} {c : UInt8} {more after : Bytes}
    (lexeme : Lexeme kind c more) (stops : Stops kind after) :
    scan c (more ++ after) = .token kind more after := by
  cases lexeme with
  | whitespace start inside =>
      obtain ⟨taken, left⟩ := Bytes.span_eq_iff.2 ⟨rfl, inside, stops⟩
      rw [scan, if_pos start, taken, left]
  | @lineComment body inside =>
      have within : ∀ d ∈ 0x2f :: body, decide (d ≠ 0x0a) = true := by
        intro d hd
        refine decide_eq_true ?_
        rintro rfl
        rcases List.mem_cons.1 hd with slash | newline
        · exact absurd slash (by decide)
        · exact inside newline
      obtain ⟨taken, left⟩ := Bytes.span_eq_iff.2 ⟨rfl, within, stops⟩
      rw [scan, if_neg (by decide), if_pos ⟨rfl, rfl⟩, taken, left]
  | @blockComment body inside =>
      have closed :
          closeComment [] (body ++ commentEnd ++ after) = some (body ++ commentEnd, after) :=
        closeComment_eq_some.2 ⟨body, rfl, rfl, inside⟩
      rw [scan, if_neg (by decide), if_neg (by simp), if_pos ⟨rfl, rfl⟩]
      rw [List.cons_append, List.tail_cons, closed]
  | pushOpen => rfl
  | pushClose => rfl
  | evalOpen => rfl
  | evalClose => rfl
  | utf8 quotes inside => exact scan_quote after quotes inside
  | @hex digits inside =>
      have stops : Bytes.StartsOutside inIdentifier after := stops
      have ends := startsOutside_mono (fun d => inIdentifier_of_hexDigit) stops
      obtain ⟨taken, left⟩ := Bytes.span_eq_iff.2 ⟨rfl, inside, ends⟩
      have read : scan 0x30 (0x78 :: digits ++ after) =
          scanNumber .hex .badHexCharacter 0x30
            (0x78 :: (digits ++ after).takeWhile Hex.isDigit)
            ((digits ++ after).dropWhile Hex.isDigit) := rfl
      rw [read, taken, left, scanNumber_of_stops stops]
  | integer start inside => exact scan_decimal start inside stops
  | identifier start dotted => exact scan_name start dotted stops

/-- Exactly the lexemes are read at the start of a text that stop there. -/
theorem scan_eq_token_iff {kind : Kind} {c : UInt8} {rest more after : Bytes} :
    scan c rest = .token kind more after ↔
      rest = more ++ after ∧ Lexeme kind c more ∧ Stops kind after := by
  constructor
  · intro h
    have sound := scan_sound c rest
    rw [h] at sound
    exact sound
  · rintro ⟨rfl, lexeme, stops⟩
    exact scan_of_lexeme lexeme stops

end Token

end AuthScript
