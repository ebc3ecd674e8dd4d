import AuthScript.Diagnostic
import AuthScript.Number.Decimal
import AuthScript.Source.Token

/-!
# From text to tokens

A source is read one token at a time: `scan` looks at the first byte and what
follows it, and says which token starts there and where it ends. Nothing is
skipped, so the texts of the tokens are the source again (`flatten_text`), and each
token starts where the one before it stops.
-/

namespace AuthScript

namespace Token

/-- Blank, tab, carriage return or line feed. -/
def isSpace (c : UInt8) : Bool := c = 0x20 || c = 0x09 || c = 0x0d || c = 0x0a

/-- A letter or an underscore. -/
def startsIdentifier (c : UInt8) : Bool :=
  (0x41 ≤ c && c ≤ 0x5a) || (0x61 ≤ c && c ≤ 0x7a) || c = 0x5f

/-- A letter, an underscore or a digit. -/
def inIdentifier (c : UInt8) : Bool := startsIdentifier c || Decimal.isDigit c

/-- What is found at the start of a text. -/
inductive Scan where
  /-- A token: what it has after its first byte, and what follows the token. -/
  | token (kind : Kind) (more after : Bytes)
  /-- A character that cannot stand there, after some that can. -/
  | stray (before : Bytes) (cause : Cause)
  /-- A construct that the text does not end. -/
  | unterminated (cause : Cause)

/-- Splits behind the first `*/`, given what was passed already, newest first. -/
def closeComment (passed : Bytes) : Bytes → Option (Bytes × Bytes)
  | [] => none
  | c :: rest =>
    if c = 0x2a && rest.head? = some 0x2f then
      some (passed.reverse ++ [0x2a, 0x2f], rest.tail)
    else closeComment (c :: passed) rest

/-- Splits off the rest of an identifier: letters, underscores, digits, and dots that
one of these follows. -/
def spanIdentifier : Bytes → Bytes × Bytes
  | [] => ([], [])
  | c :: rest =>
    if inIdentifier c || (c = 0x2e && rest.head?.any inIdentifier) then
      (c :: (spanIdentifier rest).1, (spanIdentifier rest).2)
    else ([], c :: rest)

/-- A number with its digits and what follows them: the token, unless it runs into an
identifier. -/
def scanNumber (kind : Kind) (cause : UInt8 → Cause) (first : UInt8) (more after : Bytes) : Scan :=
  match after with
  | [] => .token kind more after
  | c :: _ => if inIdentifier c then .stray (first :: more) (cause c) else .token kind more after

/-- What starts at a byte, given what follows it. -/
def scan (c : UInt8) (rest : Bytes) : Scan :=
  if isSpace c then .token .whitespace (rest.takeWhile isSpace) (rest.dropWhile isSpace)
  else if c = 0x2f ∧ rest.head? = some 0x2f then
    .token .lineComment (rest.takeWhile (· ≠ 0x0a)) (rest.dropWhile (· ≠ 0x0a))
  else if c = 0x2f ∧ rest.head? = some 0x2a then
    match closeComment [] rest.tail with
    | some (body, after) => .token .blockComment (0x2a :: body) after
    | none => .unterminated .unterminatedComment
  else if c = 0x3c then .token .pushOpen [] rest
  else if c = 0x3e then .token .pushClose [] rest
  else if c = 0x24 ∧ rest.head? = some 0x28 then .token .evalOpen [0x28] rest.tail
  else if c = 0x29 then .token .evalClose [] rest
  else if c = 0x27 ∨ c = 0x22 then
    match rest.dropWhile (· ≠ c) with
    | [] => .unterminated .unterminatedString
    | quote :: after => .token .utf8 (rest.takeWhile (· ≠ c) ++ [quote]) after
  else if c = 0x30 ∧ rest.head? = some 0x78 then
    scanNumber .hex .badHexCharacter c (0x78 :: rest.tail.takeWhile Hex.isDigit)
      (rest.tail.dropWhile Hex.isDigit)
  else if Decimal.isDigit c ∨ (c = 0x2d ∧ rest.head?.any Decimal.isDigit) then
    scanNumber .integer .badIntegerCharacter c (rest.takeWhile Decimal.isDigit)
      (rest.dropWhile Decimal.isDigit)
  else if startsIdentifier c then
    .token .identifier (spanIdentifier rest).1 (spanIdentifier rest).2
  else .stray [] (.unexpectedCharacter c)

theorem cons_tail {c : UInt8} {b : Bytes} (h : b.head? = some c) : c :: b.tail = b := by
  cases b with
  | nil => cases h
  | cons d rest =>
    injection h with h
    rw [h, List.tail_cons]

theorem closeComment_append {passed b body after : Bytes}
    (h : closeComment passed b = some (body, after)) : body ++ after = passed.reverse ++ b := by
  induction b generalizing passed with
  | nil => simp [closeComment] at h
  | cons c rest ih =>
    rw [closeComment] at h
    split at h
    · rename_i ends
      obtain ⟨rfl, rfl⟩ : passed.reverse ++ [0x2a, 0x2f] = body ∧ rest.tail = after := by
        simpa using h
      simp only [Bool.and_eq_true, decide_eq_true_eq] at ends
      rw [List.append_assoc, ends.1, ← cons_tail ends.2]
      rfl
    · simpa using ih h

theorem spanIdentifier_append (b : Bytes) : (spanIdentifier b).1 ++ (spanIdentifier b).2 = b := by
  induction b with
  | nil => rfl
  | cons c rest ih =>
    rw [spanIdentifier]
    split <;> simp [ih]

theorem scanNumber_append {kind kind' : Kind} {cause : UInt8 → Cause} {first : UInt8}
    {more more' after after' : Bytes}
    (h : scanNumber kind cause first more after = .token kind' more' after') :
    more' ++ after' = more ++ after := by
  unfold scanNumber at h
  split at h
  · injection h with _ h1 h2
    rw [← h1, ← h2]
  · split at h
    · cases h
    · injection h with _ h1 h2
      rw [← h1, ← h2]

/-- A token and what follows it are the text. -/
theorem scan_append {c : UInt8} {rest more after : Bytes} {kind : Kind}
    (h : scan c rest = .token kind more after) : more ++ after = rest := by
  rw [scan] at h
  by_cases starts : isSpace c = true
  · rw [if_pos starts] at h
    injection h with _ h1 h2
    rw [← h1, ← h2, List.takeWhile_append_dropWhile]
  rw [if_neg starts] at h
  by_cases starts : c = 0x2f ∧ rest.head? = some 0x2f
  · rw [if_pos starts] at h
    injection h with _ h1 h2
    rw [← h1, ← h2, List.takeWhile_append_dropWhile]
  rw [if_neg starts] at h
  by_cases starts : c = 0x2f ∧ rest.head? = some 0x2a
  · rw [if_pos starts] at h
    split at h
    · rename_i body after' closed
      injection h with _ h1 h2
      rw [← h1, ← h2, List.cons_append, closeComment_append closed]
      exact cons_tail starts.2
    · cases h
  rw [if_neg starts] at h
  by_cases starts : c = 0x3c
  · rw [if_pos starts] at h
    injection h with _ h1 h2
    rw [← h1, ← h2, List.nil_append]
  rw [if_neg starts] at h
  by_cases starts : c = 0x3e
  · rw [if_pos starts] at h
    injection h with _ h1 h2
    rw [← h1, ← h2, List.nil_append]
  rw [if_neg starts] at h
  by_cases starts : c = 0x24 ∧ rest.head? = some 0x28
  · rw [if_pos starts] at h
    injection h with _ h1 h2
    rw [← h1, ← h2]
    exact cons_tail starts.2
  rw [if_neg starts] at h
  by_cases starts : c = 0x29
  · rw [if_pos starts] at h
    injection h with _ h1 h2
    rw [← h1, ← h2, List.nil_append]
  rw [if_neg starts] at h
  by_cases starts : c = 0x27 ∨ c = 0x22
  · rw [if_pos starts] at h
    split at h
    · cases h
    · rename_i quote after' closed
      injection h with _ h1 h2
      rw [← h1, ← h2, List.append_assoc, List.singleton_append, ← closed,
        List.takeWhile_append_dropWhile]
  rw [if_neg starts] at h
  by_cases starts : c = 0x30 ∧ rest.head? = some 0x78
  · rw [if_pos starts] at h
    rw [scanNumber_append h, List.cons_append, List.takeWhile_append_dropWhile]
    exact cons_tail starts.2
  rw [if_neg starts] at h
  by_cases starts : Decimal.isDigit c = true ∨ (c = 0x2d ∧ rest.head?.any Decimal.isDigit = true)
  · rw [if_pos starts] at h
    rw [scanNumber_append h, List.takeWhile_append_dropWhile]
  rw [if_neg starts] at h
  by_cases starts : startsIdentifier c = true
  · rw [if_pos starts] at h
    injection h with _ h1 h2
    rw [← h1, ← h2, spanIdentifier_append]
  · rw [if_neg starts] at h
    cases h

/-- The range of the one character at a position. -/
def characterRange (p : Position) : Bytes → Range
  | [] => ⟨p, p⟩
  | c :: _ => ⟨p, p.next c⟩

/-- The tokens of a text that starts at a position. -/
def ofTextAt (p : Position) (source : Bytes) : Except CompileError (List Token) :=
  match source with
  | [] => .ok []
  | c :: rest =>
    match _scanned : scan c rest with
    | .token kind more after =>
      match ofTextAt (p.after (c :: more)) after with
      | .ok tokens => .ok (⟨kind, c :: more, ⟨p, p.after (c :: more)⟩⟩ :: tokens)
      | .error e => .error e
    | .stray before cause =>
      .error ⟨cause, characterRange (p.after before) (source.drop before.length), [], []⟩
    | .unterminated cause => .error ⟨cause, ⟨p, p.after source⟩, [], []⟩
termination_by source.length
decreasing_by
  have := congrArg List.length (scan_append _scanned)
  simp only [List.length_append, List.length_cons] at this ⊢
  omega

/-- The tokens of a source, or the first place where no token can be read. -/
def ofText (source : Bytes) : Except CompileError (List Token) := ofTextAt {} source

/-- The texts of the tokens are the source again. -/
theorem flatten_text {p : Position} {source : Bytes} {tokens : List Token}
    (h : ofTextAt p source = .ok tokens) : (tokens.map Token.text).flatten = source := by
  fun_induction ofTextAt p source generalizing tokens with
  | case1 =>
    injection h with h
    subst h
    rfl
  | case2 p c rest kind more after scanned rest' ok ih =>
    injection h with h
    subst h
    simp [ih ok, scan_append scanned]
  | case3 => cases h
  | case4 => cases h
  | case5 => cases h

end Token

end AuthScript
