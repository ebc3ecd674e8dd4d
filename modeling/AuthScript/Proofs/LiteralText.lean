import AuthScript.Proofs.Reading
import AuthScript.Proofs.ScriptNumber

/-!
# Literals compile to what they say

A source may be a literal and nothing else, by itself or in a push. Decimal digits with or
without a minus sign say an integer, of any size and with any number of zeros in front; its
bytes are the one shortest script number with that value. Hexadecimal digits of either case
say bytes, two digits each (`Hex.Spells`), and a string says what stands between its quotes.
By itself a literal compiles to these bytes, and in a push to the push of them
(`Compiler.Means`). Of hexadecimal literals there are two that say nothing: one without digits
is no node, and an odd number of digits has no bytes (`Compiler.Refuses`).
-/

namespace AuthScript

/-! ## Hexadecimal digits -/

namespace Hex

/-- Digits spell bytes: two for each, the high half first. -/
inductive Spells : Bytes → Bytes → Prop where
  | nil : Spells [] []
  | cons {hi lo h l digits b} : digit? hi = some h → digit? lo = some l → Spells digits b →
      Spells (hi :: lo :: digits) ((16 * h + l) :: b)

theorem digit?_lt {c v : UInt8} (h : digit? c = some v) : v.toNat < 16 := by
  have value : ∀ {k : UInt8} {n : Nat}, k.toNat = n → n ≤ c.toNat → c.toNat < n + 16 →
      (c - k).toNat < 16 := by
    rintro k _ rfl lower upper
    rw [UInt8.toNat_sub_of_le c k (UInt8.le_iff_toNat_le.2 lower)]
    omega
  unfold digit? at h
  simp only [UInt8.le_iff_toNat_le, UInt8.reduceToNat] at h
  split at h
  · obtain rfl := Option.some.inj h
    exact value (n := 48) rfl (by omega) (by omega)
  · split at h
    · obtain rfl := Option.some.inj h
      exact value (n := 87) rfl (by omega) (by omega)
    · split at h
      · obtain rfl := Option.some.inj h
        exact value (n := 55) rfl (by omega) (by omega)
      · cases h

/-- Half bytes are put together by shifting, or by counting in sixteens. -/
theorem shift_or {h l : UInt8} (hh : h.toNat < 16) (hl : l.toNat < 16) :
    h <<< 4 ||| l = 16 * h + l := by
  have sum := Nat.shiftLeft_add_eq_or_of_lt (show l.toNat < 2 ^ 4 from hl) h.toNat
  have shifted : (h <<< 4).toNat = h.toNat <<< 4 := by
    rw [UInt8.toNat_shiftLeft]
    refine Nat.mod_eq_of_lt ?_
    rw [Nat.shiftLeft_eq]
    exact Nat.mul_lt_mul_of_pos_right hh (by decide)
  refine UInt8.toNat_inj.1 ?_
  rw [UInt8.toNat_or, shifted, ← sum, Nat.shiftLeft_eq, UInt8.toNat_add, UInt8.toNat_mul]
  simp only [UInt8.reduceToNat]
  omega

theorem decodeOnto?_eq_some {read digits b : Bytes} :
    decodeOnto? read digits = some b ↔ ∃ c, Spells digits c ∧ b = read.reverse ++ c := by
  fun_induction decodeOnto? read digits with
  | case1 read =>
      constructor
      · intro h
        exact ⟨[], .nil, by rw [List.append_nil, Option.some.inj h]⟩
      · rintro ⟨c, spells, rfl⟩
        cases spells
        simp
  | case2 read d =>
      constructor
      · intro h
        cases h
      · rintro ⟨c, spells, _⟩
        cases spells
  | case3 read hi lo rest h l hlo hhi ih =>
      have byte := shift_or (digit?_lt hhi) (digit?_lt hlo)
      rw [ih, byte]
      constructor
      · rintro ⟨c, spells, rfl⟩
        exact ⟨_, .cons hhi hlo spells, by simp⟩
      · rintro ⟨c, spells, rfl⟩
        cases spells with
        | cons hhi' hlo' spells =>
            obtain rfl := Option.some.inj (hhi.symm.trans hhi')
            obtain rfl := Option.some.inj (hlo.symm.trans hlo')
            exact ⟨_, spells, by simp⟩
  | case4 read hi lo rest other =>
      constructor
      · intro h
        cases h
      · rintro ⟨c, spells, _⟩
        cases spells with
        | cons hhi hlo _ => exact absurd hlo (other _ _ hhi)

/-- Digits are read as the bytes that they spell. -/
theorem decode?_eq_some {digits b : Bytes} : decode? digits = some b ↔ Spells digits b := by
  rw [decode?, decodeOnto?_eq_some]
  simp

theorem exists_spells : ∀ {digits : Bytes}, digits.length % 2 = 0 →
    (∀ d ∈ digits, isDigit d = true) → ∃ b, Spells digits b
  | [], _, _ => ⟨[], .nil⟩
  | [_], even, _ => by cases even
  | hi :: lo :: rest, even, inside => by
      obtain ⟨hhi, hlo, others⟩ :
          isDigit hi = true ∧ isDigit lo = true ∧ ∀ d ∈ rest, isDigit d = true := by
        simpa using inside
      obtain ⟨h, hhi⟩ := Option.isSome_iff_exists.1 hhi
      obtain ⟨l, hlo⟩ := Option.isSome_iff_exists.1 hlo
      have shorter : rest.length % 2 = 0 := by
        simp only [List.length_cons] at even
        omega
      obtain ⟨b, spells⟩ := exists_spells shorter others
      exact ⟨_, .cons hhi hlo spells⟩

end Hex

/-! ## Literals as words -/

/-- The integer that decimal digits say, with a minus sign or without one. -/
def Decimal.signed (negative : Bool) (digits : Bytes) : Int :=
  if negative then -(ofDigits digits) else ofDigits digits

/-- The minus sign, where there is one. -/
def Decimal.sign (negative : Bool) : Bytes := if negative then text "-" else []

/-- A literal is read as the integer it says, unless it has more digits than a limit allows. -/
theorem Decimal.parse_spelled (limit : Option Nat) (negative : Bool) {digits : Bytes}
    (some : digits ≠ []) (inside : ∀ d ∈ digits, isDigit d = true) :
    parse limit (sign negative ++ digits) =
      if within limit digits then .ok (signed negative digits)
      else .error ⟨.parseOverflow, text "cannot convert integer literal " ++
        quoted (sign negative ++ digits)⟩ := by
  have all : digits.all isDigit = true := List.all_eq_true.2 inside
  have filled : digits.isEmpty = false := by simpa using some
  cases negative with
  | true =>
      have minus : (sign true ++ digits).head? = Option.some 45 := rfl
      have rest : (sign true ++ digits).tail = digits := rfl
      simp [parse, minus, rest, signed, filled, all]
  | false =>
      have unsigned : digits.head? ≠ Option.some 45 := by
        intro minus
        exact absurd (inside 45 (List.mem_of_head? minus)) (by decide)
      simp [parse, sign, signed, unsigned, filled, all]

theorem Decimal.within_iff {limit : Option Nat} {digits : Bytes} :
    within limit digits = true ↔ ∀ n ∈ limit, digits.length ≤ n := by
  cases limit <;> simp [within]

theorem Decimal.parse_signed {limit : Option Nat} (negative : Bool) {digits : Bytes}
    (some : digits ≠ []) (inside : ∀ d ∈ digits, isDigit d = true)
    (room : ∀ n ∈ limit, digits.length ≤ n) :
    parse limit (sign negative ++ digits) = .ok (signed negative digits) := by
  rw [parse_spelled limit negative some inside, if_pos (within_iff.2 room)]

namespace Token

theorem word_integer (negative : Bool) {digits : Bytes} (some : digits ≠ [])
    (inside : ∀ d ∈ digits, Decimal.isDigit d = true) :
    Word ⟨.integer, Decimal.sign negative ++ digits, {}⟩ := by
  refine ⟨?_, rfl⟩
  cases negative with
  | true => exact ⟨0x2d, digits, rfl, .integer (.inr ⟨rfl, some⟩) inside⟩
  | false =>
      obtain ⟨d, rest, rfl⟩ := List.exists_cons_of_ne_nil some
      obtain ⟨first, others⟩ := List.forall_mem_cons.1 inside
      exact ⟨d, rest, rfl, .integer (.inl first) others⟩

theorem word_hex {digits : Bytes} (inside : ∀ d ∈ digits, Hex.isDigit d = true) :
    Word ⟨.hex, AuthScript.text "0x" ++ digits, {}⟩ :=
  ⟨⟨0x30, 0x78 :: digits, rfl, .hex inside⟩, rfl⟩

theorem word_utf8 {quote : UInt8} {body : Bytes} (quotes : quote = 0x27 ∨ quote = 0x22)
    (inside : quote ∉ body) : Word ⟨.utf8, quote :: (body ++ [quote]), {}⟩ :=
  ⟨⟨quote, body ++ [quote], rfl, .utf8 quotes inside⟩, rfl⟩

end Token

/-! ## Sources that are literals -/

namespace Compiler

variable {c : Compiler} {id : Bytes} {data : Data}

/-- A script that is a literal and nothing else compiles to bytes, and with the literal in a
push it compiles to the push of these. -/
def Means (c : Compiler) (id : Bytes) (data : Data) (literal b : Bytes) : Prop :=
  (c.withSource id literal).generate id data = .ok b ∧
    ∀ pushed, (c.withSource id (text "<" ++ literal ++ text ">")).generate id data = .ok pushed ↔
      0 < c.options.nestingDepth ∧ Push.encode? b = some pushed

theorem find?_withSource (source : Bytes) :
    (c.withSource id source).env.scripts.find? id = some source := by
  simp [withSource]

theorem means_of_spells (c : Compiler) (id : Bytes) (data : Data) {t : Token} {node : Node}
    {b : Bytes} (word : t.Word) (spelled : t.bare.Spells c.env.digits node)
    (yields : ∀ (ctx : Context) (p : Place) own, ctx.NodeYields p node own ↔ b = own) :
    c.Means id data t.text b := by
  constructor
  · have read := treeOf?_word (c.env.bounds c.options) word spelled
    rw [generate_iff_yields (find?_withSource t.text) read, Context.yields_singleton, yields]
  · intro pushed
    have read := treeOf?_push (c.env.bounds c.options) word spelled
    by_cases room : 0 < c.options.nestingDepth
    · rw [Environment.brackets_bounds, if_pos room] at read
      rw [generate_iff_yields (find?_withSource _) read, Context.yields_singleton,
        Context.nodeYields_push]
      refine and_congr_right fun _ => ?_
      simp only [Context.yields_singleton, yields]
      simp
    · rw [Environment.brackets_bounds, if_neg room] at read
      refine iff_of_false (fun given => ?_) fun h => room h.1
      obtain ⟨nodes, program, _⟩ := Context.gives_iff.1 (generate_eq_ok.1 given)
      obtain ⟨source, find, tree⟩ := Environment.program?_eq_some.1 program
      obtain rfl := Option.some.inj ((find?_withSource _).symm.trans find)
      have unread := Option.map_eq_none_iff.1 read
      cases unread.symm.trans tree

/-- A script that is a literal and nothing else is refused in a stage for a cause, and so is one
with the literal in a push, where a bracket may be open. -/
def Refuses (c : Compiler) (id : Bytes) (data : Data) (literal : Bytes) (stage : Stage)
    (cause : Cause) : Prop :=
  ∀ source, (source = literal ∨
      0 < c.options.nestingDepth ∧ source = text "<" ++ literal ++ text ">") →
    ∃ e, (c.withSource id source).generate id data = .error e ∧ e.cause = cause ∧
      e.stage = stage

/-- A source that cannot be compiled, by itself or with what it refers to, is not compiled as
the root. -/
theorem generate_of_compileSource {source : Bytes} {e : CompileError}
    (find : c.env.scripts.find? id = some source)
    (failed : (Context.compileSource (c.context data) (c.context data).enter { script := id }
      source).result = .error (.failed e)) :
    ∃ e', c.generate id data = .error e' ∧ e'.cause = e.cause ∧ e'.stage = e.stage := by
  have cause := CompileError.cause_within e id
  refine ⟨e.within id, generate_of_failed ?_, cause, congrArg Cause.stage cause⟩
  rw [Context.compile, Context.enter_source find]
  exact Run.within_eq_failed.2 ⟨e, failed, rfl⟩

/-- A source with nodes that cannot be resolved is not compiled as the root. -/
theorem generate_of_resolveAll {source : Bytes} {nodes : List Node} {e : CompileError}
    (find : c.env.scripts.find? id = some source)
    (tree : treeOf? (c.env.bounds c.options) source = some nodes)
    (failed : (Context.resolveAll (c.context data) (c.context data).enter { script := id }
      nodes).result = .error (.failed e)) :
    ∃ e', c.generate id data = .error e' ∧ e'.cause = e.cause ∧ e'.stage = e.stage := by
  refine generate_of_compileSource find ?_
  refine Run.bind_eq_error.2 (.inr ⟨(), rfl, ?_⟩)
  refine Run.bind_eq_error.2 (.inr ⟨nodes, Context.read_eq_ok.2 tree, ?_⟩)
  exact Run.bind_eq_error.2 (.inl failed)

/-- A source with tokens that are no nodes is not compiled as the root. -/
theorem generate_of_ofTokens {source : Bytes} {tokens : List Token} {e : CompileError}
    (find : c.env.scripts.find? id = some source) (tokenized : Token.ofText source = .ok tokens)
    (refused : Node.ofTokens (c.env.bounds c.options) tokens = .error e) :
    ∃ e', c.generate id data = .error e' ∧ e'.cause = e.cause ∧ e'.stage = e.stage := by
  have read : (Context.read (c.context data) source).result = .error (.failed e) := by
    have unread : (Run.ofExcept (Node.ofTokens (c.env.bounds c.options) tokens)).result =
        .error (.failed e) := by
      rw [refused]
      rfl
    unfold Context.read
    rw [tokenized]
    refine Run.bind_eq_error.2 (.inr ⟨tokens, rfl, Run.bind_eq_error.2 (.inr ⟨(), rfl, ?_⟩)⟩)
    exact Run.bind_eq_error.2 (.inl unread)
  refine generate_of_compileSource find ?_
  exact Run.bind_eq_error.2 (.inr ⟨(), rfl, Run.bind_eq_error.2 (.inl read)⟩)

/-- Tokens of which the first is no node are none. -/
theorem foldlM_of_unread {bounds : Tree.Bounds} {t : Token} {cause : Cause}
    (unread : ∀ p range, Tree.Progress.step bounds p ⟨t.kind, t.text, range⟩ =
      .error ⟨cause, range, [], []⟩)
    {tokens others : List Token} (first : tokens.map Token.bare = t.bare :: others)
    (p : Tree.Progress) :
    ∃ range, tokens.foldlM (Tree.Progress.step bounds) p = .error ⟨cause, range, [], []⟩ := by
  obtain ⟨⟨_, _, range⟩, rest, rfl, own, _⟩ := List.map_eq_cons_iff.1 first
  obtain ⟨rfl, rfl, _⟩ := Token.mk.inj own
  refine ⟨range, ?_⟩
  rw [List.foldlM_cons, unread p range]
  rfl

/-- A word that is no node is not compiled, by itself or in a push. -/
theorem refuses_of_unread {t : Token} {cause : Cause} (word : t.Word)
    (unread : ∀ limit p range, Tree.Progress.step ⟨limit, c.env.digits⟩ p ⟨t.kind, t.text, range⟩ =
      .error ⟨cause, range, [], []⟩) : c.Refuses id data t.text cause.stage cause := by
  let bounds : Tree.Bounds := c.env.bounds c.options
  have refused : ∀ {tokens : List Token} {range : Range},
      tokens.foldlM (Tree.Progress.step bounds) {} = .error ⟨cause, range, [], []⟩ →
      Node.ofTokens bounds tokens = .error ⟨cause, range, [], []⟩ := by
    intro tokens range failed
    unfold Node.ofTokens
    rw [failed]
    rfl
  rintro source (rfl | ⟨room, rfl⟩)
  · have legible : Token.Legible [t] := .word word word.stops_nil .nil
    obtain ⟨tokens, tokenized, bare⟩ := legible.ofTextAt {}
    have text : Token.source [t] = t.text := List.append_nil _
    rw [text] at tokenized
    obtain ⟨range, failed⟩ := foldlM_of_unread (unread bounds.brackets) bare {}
    exact generate_of_ofTokens (find?_withSource _) tokenized (refused failed)
  · have legible : Token.Legible [Token.pushOpening, t, Token.pushClosing] := .pushed word .nil
    obtain ⟨tokens, tokenized, bare⟩ := legible.ofTextAt {}
    rw [Token.source_pushed] at tokenized
    obtain ⟨opening, rest, rfl, own, others⟩ := List.map_eq_cons_iff.1 bare
    have opened : ∃ q, Tree.Progress.step bounds {} opening = .ok q := by
      obtain ⟨kind, _, _⟩ := opening
      obtain ⟨rfl, _, _⟩ := Token.mk.inj own
      exact ⟨_, if_neg (Nat.not_le.2 room)⟩
    obtain ⟨q, opens⟩ := opened
    obtain ⟨range, failed⟩ := foldlM_of_unread (unread bounds.brackets) others q
    have unspelled : Node.ofTokens bounds (opening :: rest) = .error ⟨cause, range, [], []⟩ := by
      refine refused ?_
      rw [List.foldlM_cons, opens]
      exact failed
    exact generate_of_ofTokens (find?_withSource _) tokenized unspelled

/-- A hexadecimal literal without digits is no node. -/
theorem refuses_emptyHex (c : Compiler) (id : Bytes) (data : Data) :
    c.Refuses id data (text "0x") .parse (.emptyHex (text "0x")) :=
  refuses_of_unread (Token.word_hex (List.forall_mem_nil _)) fun _ _ _ => rfl

/-- An integer with more digits than the numbers may have is no node. -/
theorem refuses_overflow (c : Compiler) (id : Bytes) (data : Data) (negative : Bool)
    {digits : Bytes} (some : digits ≠ []) (inside : ∀ d ∈ digits, Decimal.isDigit d = true)
    {n : Nat} (limit : n ∈ c.env.digits) (more : n < digits.length) :
    c.Refuses id data (Decimal.sign negative ++ digits) .parse
      (.malformedInteger (text "cannot convert integer literal " ++
        quoted (Decimal.sign negative ++ digits))) := by
  have refused : ¬ Decimal.within c.env.digits digits = true := fun room =>
    Nat.not_lt.2 (Decimal.within_iff.1 room n limit) more
  refine refuses_of_unread (Token.word_integer negative some inside) fun _ _ _ => ?_
  simp only [Tree.Progress.step, Decimal.parse_spelled _ negative some inside, if_neg refused]

/-- An odd number of hexadecimal digits has no bytes. -/
theorem refuses_oddHex (c : Compiler) (id : Bytes) (data : Data) {digits : Bytes}
    (odd : digits.length % 2 = 1) (inside : ∀ d ∈ digits, Hex.isDigit d = true) :
    c.Refuses id data (text "0x" ++ digits) .encoding (.oddHex digits) := by
  have word := Token.word_hex inside
  have some : digits ≠ [] := by
    rintro rfl
    cases odd
  have spelled : Token.Spells c.env.digits ⟨.hex, text "0x" ++ digits, {}⟩ (.hex digits {}) :=
    Token.spells_hex some {}
  have unresolved : ∀ (ctx : Context) compile p range,
      (ctx.resolveAll compile p [.hex digits range]).result =
        .error (.failed ⟨.oddHex digits, range, [], []⟩) := by
    intro ctx compile p range
    have bytes : Literal.ofHex range digits = .error ⟨.oddHex digits, range, [], []⟩ := by
      rw [Literal.ofHex, if_pos (by omega)]
    rw [Context.resolveAll, Context.resolve, bytes]
    rfl
  rintro source (rfl | ⟨room, rfl⟩)
  · have read := treeOf?_word (c.env.bounds c.options) word spelled
    obtain ⟨nodes, tree, bare⟩ := Option.map_eq_some_iff.1 read
    obtain ⟨range, rfl⟩ := Node.bareAll_eq_hex bare
    exact generate_of_resolveAll (find?_withSource _) tree (unresolved _ _ _ range)
  · have read := treeOf?_push (c.env.bounds c.options) word spelled
    rw [Environment.brackets_bounds, if_pos room] at read
    obtain ⟨nodes, tree, bare⟩ := Option.map_eq_some_iff.1 read
    obtain ⟨children, range, rfl, inner⟩ := Node.bareAll_eq_push bare
    obtain ⟨own, rfl⟩ := Node.bareAll_eq_hex inner
    have failed : ∀ (ctx : Context) compile (p : Place), p.brackets < ctx.options.nestingDepth →
        (ctx.resolveAll compile p [.push [.hex digits own] range]).result =
          .error (.failed ⟨.oddHex digits, own, [], []⟩) := by
      intro ctx compile p opened
      rw [Context.resolveAll, Context.resolve, Context.openBracket_bind,
        if_neg (Nat.not_le.2 opened)]
      exact Run.bind_eq_error.2 (.inl (Run.bind_eq_error.2 (.inl (unresolved _ _ _ own))))
    exact generate_of_resolveAll (find?_withSource _) tree (failed _ _ _ room)

/-- A source that is a literal and nothing else compiles to the bytes that the literal says,
and in a push to the push of them. An integer says its one shortest script number, however it
is spelled. Hexadecimal digits that are odd in number cannot be encoded, and where there are
none the literal cannot be parsed, by itself or in a push. -/
theorem generate_literal (c : Compiler) (id : Bytes) (data : Data) :
    (∀ negative digits, digits ≠ [] → (∀ d ∈ digits, Decimal.isDigit d = true) →
      (∀ n ∈ c.env.digits, digits.length ≤ n) →
      ∃ b, ScriptNumber.value b = Decimal.signed negative digits ∧
        ScriptNumber.isMinimal b = true ∧ (Decimal.ofDigits digits = 0 → b = []) ∧
        c.Means id data (Decimal.sign negative ++ digits) b) ∧
    (∀ digits, digits ≠ [] → digits.length % 2 = 0 → (∀ d ∈ digits, Hex.isDigit d = true) →
      ∃ b, Hex.Spells digits b ∧ c.Means id data (text "0x" ++ digits) b) ∧
    (∀ quote body, quote = 0x27 ∨ quote = 0x22 → quote ∉ body →
      c.Means id data (quote :: (body ++ [quote])) body) ∧
    (∀ digits, digits.length % 2 = 1 → (∀ d ∈ digits, Hex.isDigit d = true) →
      c.Refuses id data (text "0x" ++ digits) .encoding (.oddHex digits)) ∧
    c.Refuses id data (text "0x") .parse (.emptyHex (text "0x")) := by
  refine ⟨?_, ?_, ?_, ?_, ?_⟩
  · intro negative digits some inside room
    obtain ⟨value, minimal⟩ := ScriptNumber.encode_eq_iff.1
      (rfl : ScriptNumber.encode (Decimal.signed negative digits) = _)
    refine ⟨_, value, minimal, fun zero => ?_, ?_⟩
    · have nothing : Decimal.signed negative digits = 0 := by simp [Decimal.signed, zero]
      rw [nothing, ScriptNumber.encode_zero]
    · have word := Token.word_integer negative some inside
      have spelled := Token.spells_integer (Decimal.parse_signed negative some inside room) {}
      have means := means_of_spells c id data word spelled fun _ _ _ =>
        Context.nodeYields_integer
      exact means
  · intro digits some even inside
    obtain ⟨b, spells⟩ := Hex.exists_spells even inside
    have yields : ∀ (ctx : Context) (p : Place) own,
        ctx.NodeYields p (.hex digits {}) own ↔ b = own := by
      intro ctx p own
      rw [Context.nodeYields_hex, Hex.decode?_eq_some.2 spells]
      simp [even]
    have means := means_of_spells c id data (Token.word_hex inside)
      (Token.spells_hex some {}) yields
    exact ⟨b, spells, means⟩
  · intro quote body quotes inside
    have means := means_of_spells c id data
      (Token.word_utf8 quotes inside) (Token.spells_utf8 quote body {}) fun _ _ _ =>
        Context.nodeYields_utf8
    exact means
  · intro digits odd inside
    exact refuses_oddHex c id data odd inside
  · exact refuses_emptyHex c id data

/-- Zeros in front of an integer that needs a byte for its sign, as many digits as there may be,
a number with an opcode of its own in a push, both cases of digits, a quote inside a string, and
digits without a pair. -/
theorem generate_literal_samples :
    let c : Compiler := { env := { digits := some 5 } }
    let id := text "main"
    (c.withSource id (text "-00128")).generate id {} = .ok [0x80, 0x80] ∧
      (c.withSource id (text "<016>")).generate id {} = .ok [0x60] ∧
      (c.withSource id (text "0x00fF")).generate id {} = .ok [0x00, 0xff] ∧
      (c.withSource id (text "<'\"'>")).generate id {} = .ok [0x01, 0x22] ∧
      (∃ e, (c.withSource id (text "<0x123>")).generate id {} = .error e ∧
        e.cause = .oddHex (text "123") ∧ e.stage = .encoding) ∧
      ∃ e, (c.withSource id (text "0x")).generate id {} = .error e ∧
        e.cause = .emptyHex (text "0x") ∧ e.stage = .parse := by
  intro c id
  obtain ⟨integers, digits, strings, odd, empty⟩ := generate_literal c id {}
  have shortest : ∀ {b b' : Bytes} {z : Int}, ScriptNumber.value b = z →
      ScriptNumber.isMinimal b = true → ScriptNumber.value b' = z →
        ScriptNumber.isMinimal b' = true → b = b' := fun value minimal value' minimal' =>
    (ScriptNumber.encode_eq_iff.2 ⟨value, minimal⟩).symm.trans
      (ScriptNumber.encode_eq_iff.2 ⟨value', minimal'⟩)
  have room : ∀ digits : Bytes, digits.length ≤ 5 → ∀ n ∈ c.env.digits, digits.length ≤ n := by
    rintro digits short n ⟨⟩
    exact short
  obtain ⟨b, value, minimal, _, below, _⟩ :=
    integers true (text "00128") (by decide) (List.all_eq_true.1 rfl) (room _ (by decide))
  obtain rfl : b = [0x80, 0x80] := shortest value minimal rfl rfl
  obtain ⟨b, value, minimal, _, _, small⟩ :=
    integers false (text "016") (by decide) (List.all_eq_true.1 rfl) (room _ (by decide))
  obtain rfl : b = [0x10] := shortest value minimal rfl rfl
  obtain ⟨b, spells, pair, _⟩ :=
    digits (text "00fF") (by decide) rfl (List.all_eq_true.1 rfl)
  obtain rfl : b = [0x00, 0xff] := Option.some.inj (Hex.decode?_eq_some.2 spells).symm
  have quoted := (strings 0x27 [0x22] (.inl rfl) (by decide)).2 [0x01, 0x22]
  exact ⟨below, (small _).2 ⟨by decide, rfl⟩, pair, quoted.2 ⟨by decide, rfl⟩,
    odd (text "123") rfl (List.all_eq_true.1 rfl) _ (.inr ⟨by decide, rfl⟩), empty _ (.inl rfl)⟩

end Compiler

end AuthScript
