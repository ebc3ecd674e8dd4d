import AuthScript.Proofs.Lexeme

/-!
# White space and comments between tokens

Tokens can be read one after another if each is a lexeme that stops where the next one
starts (`Legible`). That is all there is to reading: the tokens of a text are legible, and
legible tokens are the tokens of their text (`legible_of_ofTextAt`, `Legible.ofTextAt`).

White space and comments stop every token but a line comment, white space only makes white
space longer, and no token reads further than one byte into the next one. So white space
and comments can be put before any token, except behind a line comment, and the tokens that
mean something stay as they are (`ofText_insert`).
-/

namespace AuthScript

namespace Token

/-- A token without its range. -/
def bare (t : Token) : Token := { t with range := {} }

/-- The text that tokens are. -/
def source (tokens : List Token) : Bytes := (tokens.map Token.text).flatten

@[simp] theorem source_nil : source [] = [] := rfl

theorem source_cons (t : Token) (tokens : List Token) :
    source (t :: tokens) = t.text ++ source tokens := rfl

theorem source_append (first others : List Token) :
    source (first ++ others) = source first ++ source others := by
  simp [source]

theorem significant_map_bare (tokens : List Token) :
    significant (tokens.map bare) = (significant tokens).map bare := by
  unfold significant
  rw [List.filter_map]
  rfl

/-- Tokens that can be read one after another, wherever they stand. -/
inductive Legible : List Token → Prop where
  | nil : Legible []
  | cons {kind c more range tokens} (lexeme : Lexeme kind c more)
      (stops : Stops kind (source tokens)) (rest : Legible tokens) :
      Legible (⟨kind, c :: more, range⟩ :: tokens)

theorem Legible.lexeme {tokens : List Token} (h : Legible tokens) {t : Token} (ht : t ∈ tokens) :
    ∃ c more, t.text = c :: more ∧ Lexeme t.kind c more := by
  induction h with
  | nil => cases ht
  | @cons kind c more range tokens lexeme _ _ ih =>
      rcases List.mem_cons.1 ht with rfl | ht
      · exact ⟨c, more, rfl, lexeme⟩
      · exact ih ht

/-- The tokens of a text are legible. -/
theorem legible_of_ofTextAt {p : Position} {b : Bytes} {tokens : List Token}
    (h : ofTextAt p b = .ok tokens) : Legible tokens := by
  fun_induction ofTextAt p b generalizing tokens with
  | case1 =>
      obtain rfl := Except.ok.inj h
      exact .nil
  | case2 p c rest kind more after scanned tokens' ok ih =>
      obtain rfl := Except.ok.inj h
      obtain ⟨_, lexeme, stops⟩ := scan_eq_token_iff.1 scanned
      have hsource : source tokens' = after := flatten_text ok
      exact .cons lexeme (hsource.symm ▸ stops) (ih ok)
  | case3 => cases h
  | case4 => cases h
  | case5 => cases h

theorem ofTextAt_of_scan {p : Position} {kind : Kind} {c : UInt8} {rest more after : Bytes}
    {tokens : List Token} (scanned : scan c rest = .token kind more after)
    (h : ofTextAt (p.after (c :: more)) after = .ok tokens) :
    ofTextAt p (c :: rest) = .ok (⟨kind, c :: more, ⟨p, p.after (c :: more)⟩⟩ :: tokens) := by
  rw [ofTextAt]
  split
  · rename_i kind' more' after' scanned'
    obtain ⟨rfl, rfl, rfl⟩ := Scan.token.inj (scanned.symm.trans scanned')
    rw [h]
  · rename_i scanned'
    cases scanned.symm.trans scanned'
  · rename_i scanned'
    cases scanned.symm.trans scanned'

/-- Legible tokens are the tokens of their text. -/
theorem Legible.ofTextAt {tokens : List Token} (h : Legible tokens) (p : Position) :
    ∃ tokens', Token.ofTextAt p (source tokens) = .ok tokens' ∧
      tokens'.map bare = tokens.map bare := by
  induction h generalizing p with
  | nil => exact ⟨[], by rw [source_nil, Token.ofTextAt], rfl⟩
  | @cons kind c more range tokens lexeme stops _ ih =>
      obtain ⟨tokens', hread, hbare⟩ := ih (p.after (c :: more))
      have scanned : scan c (more ++ source tokens) = .token kind more (source tokens) :=
        scan_eq_token_iff.2 ⟨rfl, lexeme, stops⟩
      refine ⟨⟨kind, c :: more, ⟨p, p.after (c :: more)⟩⟩ :: tokens', ?_, ?_⟩
      · rw [source_cons, List.cons_append]
        exact ofTextAt_of_scan scanned hread
      · rw [List.map_cons, List.map_cons, hbare]
        rfl

theorem Stops.nil (kind : Kind) : Stops kind [] := by
  cases kind <;> simp [Stops, Bytes.StartsOutside]

/-- A lexeme by itself is one token. -/
theorem Lexeme.ofText {kind : Kind} {c : UInt8} {more : Bytes} (h : Lexeme kind c more) :
    Token.ofText (c :: more) =
      .ok [⟨kind, c :: more, ⟨{}, ({} : Position).after (c :: more)⟩⟩] := by
  have scanned : scan c more = .token kind more [] :=
    scan_eq_token_iff.2 ⟨(List.append_nil more).symm, h, .nil kind⟩
  exact ofTextAt_of_scan scanned (by rw [Token.ofTextAt])

/-! ## What means nothing -/

/-- White space, a block comment, or a line comment with the line feed behind it. -/
inductive Inert : Bytes → Prop where
  | whitespace {spaces : Bytes} (some : spaces ≠ []) (inside : ∀ c ∈ spaces, isSpace c = true) :
      Inert spaces
  | blockComment {body : Bytes} (inside : ¬ AuthScript.text "*/" <:+: body) :
      Inert (AuthScript.text "/*" ++ body ++ AuthScript.text "*/")
  | lineComment {body : Bytes} (inside : 0x0a ∉ body) :
      Inert (AuthScript.text "//" ++ body ++ [0x0a])

theorem isSpace_cases {c : UInt8} (h : isSpace c = true) :
    c = 0x20 ∨ c = 0x09 ∨ c = 0x0d ∨ c = 0x0a := by
  simpa [isSpace, or_assoc] using h

/-- White space starts with a space, and nothing else does. -/
theorem Lexeme.isSpace_iff {kind : Kind} {c : UInt8} {more : Bytes} (h : Lexeme kind c more) :
    isSpace c = true ↔ kind = .whitespace := by
  constructor
  · intro space
    cases h with
    | whitespace => rfl
    | utf8 quotes => rcases quotes with rfl | rfl <;> exact absurd space (by decide)
    | integer start =>
        have digitless : ¬ (Decimal.isDigit c = true ∨ c = 0x2d) := by
          rcases isSpace_cases space with rfl | rfl | rfl | rfl <;> decide
        exact absurd (start.imp_right And.left) digitless
    | identifier start =>
        rcases isSpace_cases space with rfl | rfl | rfl | rfl <;> exact absurd start (by decide)
    | _ => exact absurd space (by decide)
  · rintro rfl
    cases h with
    | whitespace start _ => exact start

/-- No token starts with a dot. -/
theorem Lexeme.undotted {kind : Kind} {more : Bytes} : ¬ Lexeme kind 0x2e more := by
  intro h
  cases h with
  | whitespace start => exact absurd start (by decide)
  | utf8 quotes => exact absurd quotes (by decide)
  | integer start => exact absurd (start.imp_right And.left) (by decide)
  | identifier start => exact absurd start (by decide)

/-- Only white space and comments can go on with a byte with which they start. -/
theorem Stops.of_separator {kind : Kind} {c : UInt8} (separator : isSpace c = true ∨ c = 0x2f)
    (closed : kind ≠ .lineComment) (unspaced : kind = .whitespace → c = 0x2f) (rest : Bytes) :
    Stops kind (c :: rest) := by
  have outside : inIdentifier c = false ∧ c ≠ 0x2e := by
    rcases separator with space | rfl
    · rcases isSpace_cases space with rfl | rfl | rfl | rfl <;> decide
    · decide
  cases kind with
  | whitespace =>
      obtain rfl := unspaced rfl
      rfl
  | lineComment => exact absurd rfl closed
  | hex | integer => exact outside.1
  | identifier =>
      intro d more hd
      obtain ⟨rfl, rfl⟩ := List.cons.inj hd
      rintro (inside | ⟨dot, _⟩)
      · exact Bool.false_ne_true (outside.1.symm.trans inside)
      · exact outside.2 dot
  | _ => trivial

/-- What follows the first byte behind a token does not matter, if that byte is no dot. -/
theorem Stops.of_head {kind : Kind} {c : UInt8} {rest : Bytes} (h : Stops kind (c :: rest))
    (undotted : c ≠ 0x2e) (rest' : Bytes) : Stops kind (c :: rest') := by
  cases kind with
  | identifier =>
      intro d more hd
      obtain ⟨rfl, rfl⟩ := List.cons.inj hd
      rintro (inside | ⟨dot, _⟩)
      · exact h c rest rfl (.inl inside)
      · exact undotted dot
  | _ => exact h

/-! ## Putting text between tokens -/

/-- White space before legible tokens becomes a token, or part of the first one. -/
theorem Legible.space {tokens : List Token} (h : Legible tokens) {spaces : Bytes}
    (some : spaces ≠ []) (inside : ∀ c ∈ spaces, isSpace c = true) :
    ∃ tokens', Legible tokens' ∧ source tokens' = spaces ++ source tokens ∧
      significant tokens' = significant tokens := by
  obtain ⟨d, spaces, rfl⟩ := List.exists_cons_of_ne_nil some
  have start : isSpace d = true := inside d List.mem_cons_self
  have rest : ∀ c ∈ spaces, isSpace c = true := fun c hc => inside c (List.mem_cons_of_mem _ hc)
  cases h with
  | nil =>
      refine ⟨[⟨.whitespace, d :: spaces, {}⟩],
        .cons (.whitespace start rest) trivial .nil, rfl, rfl⟩
  | @cons kind c more range tokens lexeme stops others =>
      by_cases merges : kind = .whitespace
      · subst merges
        cases lexeme with
        | whitespace start' rest' =>
            have all : ∀ e ∈ spaces ++ c :: more, isSpace e = true := by
              intro e he
              rcases List.mem_append.1 he with he | he
              · exact rest e he
              · rcases List.mem_cons.1 he with rfl | he
                · exact start'
                · exact rest' e he
            refine ⟨⟨.whitespace, d :: (spaces ++ c :: more), {}⟩ :: tokens, ?_, ?_, rfl⟩
            · exact .cons (.whitespace start all) stops others
            · simp [source_cons]
      · have outside : Stops .whitespace (source (⟨kind, c :: more, range⟩ :: tokens)) :=
          Bool.eq_false_iff.2 fun space => merges (lexeme.isSpace_iff.1 space)
        refine ⟨⟨.whitespace, d :: spaces, {}⟩ :: ⟨kind, c :: more, range⟩ :: tokens, ?_, rfl, rfl⟩
        exact .cons (.whitespace start rest) outside (.cons lexeme stops others)

/-- So does any text that means nothing. -/
theorem Legible.inert {tokens : List Token} (h : Legible tokens) {b : Bytes} (inert : Inert b) :
    ∃ tokens', Legible tokens' ∧ source tokens' = b ++ source tokens ∧
      significant tokens' = significant tokens := by
  cases inert with
  | whitespace some inside => exact h.space some inside
  | @blockComment body inside =>
      refine ⟨⟨.blockComment, 0x2f :: 0x2a :: (body ++ commentEnd), {}⟩ :: tokens, ?_, ?_, rfl⟩
      · exact .cons (.blockComment inside) trivial h
      · rw [source_cons]
        rfl
  | @lineComment body inside =>
      obtain ⟨tokens', legible, hsource, same⟩ :=
        h.space (List.cons_ne_nil 0x0a []) fun c hc => List.mem_singleton.1 hc ▸ rfl
      refine ⟨⟨.lineComment, 0x2f :: 0x2f :: body, {}⟩ :: tokens', ?_, ?_, same⟩
      · refine .cons (.lineComment inside) ?_ legible
        rw [hsource]
        rfl
      · rw [source_cons, hsource, ← List.append_assoc]
        rfl

/-- A text that means nothing is white space or starts with a slash. -/
theorem Inert.head {b : Bytes} (h : Inert b) :
    ∃ c rest, b = c :: rest ∧ ((∀ d ∈ b, isSpace d = true) ∨ c = 0x2f) := by
  cases h with
  | whitespace some inside =>
      obtain ⟨c, rest, rfl⟩ := List.exists_cons_of_ne_nil some
      exact ⟨c, rest, rfl, .inl inside⟩
  | blockComment => exact ⟨0x2f, _, rfl, .inr rfl⟩
  | lineComment => exact ⟨0x2f, _, rfl, .inr rfl⟩

theorem significant_cons_congr {t : Token} {tokens tokens' : List Token}
    (h : significant tokens' = significant tokens) :
    significant (t :: tokens') = significant (t :: tokens) := by
  unfold significant at h ⊢
  rw [List.filter_cons, List.filter_cons, h]

/-- White space and comments can stand behind a token that is no line comment. -/
theorem Legible.inert_behind {t : Token} {tokens : List Token} (h : Legible (t :: tokens))
    (closed : t.kind ≠ .lineComment) {b : Bytes} (inert : Inert b) :
    ∃ tokens', Legible tokens' ∧ source tokens' = t.text ++ b ++ source tokens ∧
      significant tokens' = significant (t :: tokens) := by
  cases h with
  | @cons kind c more range _ lexeme stops rest =>
      obtain ⟨d, others, rfl, separator⟩ := inert.head
      by_cases merges : kind = .whitespace ∧ ∀ e ∈ d :: others, isSpace e = true
      · -- white space behind white space is one token with it
        obtain ⟨rfl, spaces⟩ := merges
        cases lexeme with
        | whitespace start inside =>
            have all : ∀ e ∈ c :: more ++ d :: others, isSpace e = true := by
              intro e he
              rcases List.mem_append.1 he with he | he
              · rcases List.mem_cons.1 he with rfl | he
                · exact start
                · exact inside e he
              · exact spaces e he
            exact rest.space (by simp) all
      · obtain ⟨tokens', legible, hsource, same⟩ := rest.inert inert
        have stops' : Stops kind (source tokens') := by
          rw [hsource]
          refine .of_separator ?_ closed (fun hk => ?_) _
          · exact separator.imp_left fun spaces => spaces d List.mem_cons_self
          · exact separator.resolve_left fun spaces => merges ⟨hk, spaces⟩
        refine ⟨⟨kind, c :: more, range⟩ :: tokens', .cons lexeme stops' legible, ?_, ?_⟩
        · rw [source_cons, hsource, List.append_assoc]
        · exact significant_cons_congr same

/-- White space and comments can stand between any legible tokens, unless behind a line
comment. -/
theorem Legible.insert {first others : List Token} (h : Legible (first ++ others))
    (closed : ∀ t, first.getLast? = some t → t.kind ≠ .lineComment) {b : Bytes} (inert : Inert b) :
    ∃ tokens', Legible tokens' ∧ source tokens' = source first ++ b ++ source others ∧
      significant tokens' = significant (first ++ others) := by
  induction first with
  | nil => exact h.inert inert
  | cons t first ih =>
      cases first with
      | nil =>
          have behind := h.inert_behind (closed t rfl) inert
          simpa [source_cons] using behind
      | cons u first =>
          cases h with
          | @cons kind c more range _ lexeme stops rest =>
              have closed' : ∀ t, (u :: first).getLast? = some t → t.kind ≠ .lineComment := by
                intro t ht
                exact closed t (by rw [List.getLast?_cons_cons]; exact ht)
              obtain ⟨tokens', legible, hsource, same⟩ := ih rest closed'
              have stops' : Stops kind (source tokens') := by
                rw [hsource]
                -- the next token starts with the same byte as before
                cases rest with
                | cons lexeme' _ _ =>
                    refine Stops.of_head stops ?_ _
                    rintro rfl
                    exact Lexeme.undotted lexeme'
              refine ⟨⟨kind, c :: more, range⟩ :: tokens', .cons lexeme stops' legible, ?_, ?_⟩
              · simp [source_cons, hsource]
              · exact significant_cons_congr same

/-- Putting white space or a comment between tokens of a source changes none of the tokens
that mean something. -/
theorem ofText_insert {b : Bytes} {first others : List Token} (h : ofText b = .ok (first ++ others))
    (closed : ∀ t, first.getLast? = some t → t.kind ≠ .lineComment) {inserted : Bytes}
    (inert : Inert inserted) :
    ∃ tokens, ofText (source first ++ inserted ++ source others) = .ok tokens ∧
      (significant tokens).map bare = (significant (first ++ others)).map bare := by
  obtain ⟨tokens', legible, hsource, same⟩ := (legible_of_ofTextAt h).insert closed inert
  obtain ⟨tokens, hread, hbare⟩ := legible.ofTextAt {}
  refine ⟨tokens, hsource ▸ hread, ?_⟩
  rw [← significant_map_bare, hbare, significant_map_bare, same]

end Token

end AuthScript
