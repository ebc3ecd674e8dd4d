import AuthScript.Proofs.LiteralText
import AuthScript.Proofs.Location
import AuthScript.Proofs.OpcodeName

/-!
# What the parser reads

The tokens that mean something are read as a tree exactly if their brackets are matched by kind,
with no more of them around each other than the bounds allow (`Token.Matched`), no hexadecimal
literal is without digits, and no integer has too many (`Token.Fits`). The tree then spells the
tokens: a leaf stands for one token, and a bracket for its two tokens around those of its children
(`Node.Spelled`).

That a tree spells what has been read so far is an invariant of the parser, for every open
bracket and what is before it (`Tree.Read`). That matched tokens are read is shown along the
matching. The tokens of a source stand one behind the other, so the ranges of nodes that spell
them are nested as the nodes are (`Node.Nested`).
-/

namespace AuthScript

namespace Decimal

/-- A literal is read as the same integer under every limit that allows its digits. -/
theorem parse_eq_ok {limit : Option Nat} {literal : Bytes} {value : Int} :
    parse limit literal = .ok value ↔
      parse none literal = .ok value ∧ ∀ n ∈ limit, literal.countP isDigit ≤ n := by
  unfold parse
  simp only
  generalize hdigits : (if literal.head? = some 45 then literal.tail else literal) = digits
  by_cases empty : digits.isEmpty = true
  · simp [empty]
  by_cases all : digits.all isDigit = true
  · -- all bytes are digits but the sign
    have count : literal.countP isDigit = digits.length := by
      rw [← List.countP_eq_length.2 (List.all_eq_true.1 all), ← hdigits]
      split
      · rename_i minus
        obtain ⟨rest, rfl⟩ := List.head?_eq_some_iff.1 minus
        rfl
      · rfl
    have free : within none digits = true := rfl
    simp only [empty, all, free, ← within_iff, count]
    by_cases room : within limit digits = true <;> simp [room]
  · simp [empty, all]

theorem parse_signedDecimal (z : Int) : parse none (Bytes.signedDecimal z) = .ok z := by
  have inside : ∀ d ∈ Bytes.decimal z.natAbs, isDigit d = true := fun _ =>
    Bytes.isDigit_of_mem_decimal
  have some : Bytes.decimal z.natAbs ≠ [] := by simp [Bytes.decimal]
  have room : ∀ n ∈ (none : Option Nat), (Bytes.decimal z.natAbs).length ≤ n := by simp
  have read := parse_signed (decide (z < 0)) some inside room
  rw [signed, Bytes.ofDigits_decimal] at read
  unfold Bytes.signedDecimal
  by_cases negative : z < 0
  · rw [if_pos negative]
    simp only [negative, decide_true, sign, if_true] at read
    rw [read]
    exact congrArg Except.ok (by omega)
  · rw [if_neg negative]
    simp only [negative, decide_false, sign] at read
    refine Eq.trans read ?_
    exact congrArg Except.ok (by simp; omega)

end Decimal

/-! ## Matched brackets -/

namespace Token

/-- Brackets are matched by kind, with at most so many around each other. -/
inductive Matched : Nat → List Token → Prop where
  | nil {n : Nat} : Matched n []
  | plain {n : Nat} {t : Token} {tokens : List Token} (opens : ¬ t.kind.Opens)
      (closes : ¬ t.kind.Closes) (rest : Matched n tokens) : Matched n (t :: tokens)
  | bracket {n : Nat} {opening closing : Token} {inner tokens : List Token}
      (pair : Tree.isPair opening.kind closing.kind = true) (inside : Matched n inner)
      (rest : Matched (n + 1) tokens) : Matched (n + 1) (opening :: (inner ++ closing :: tokens))

/-- An integer has no more digits than a limit allows, if there is one. -/
def Fits (limit : Option Nat) (t : Token) : Prop :=
  t.kind = .integer → ∀ n ∈ limit, t.text.countP Decimal.isDigit ≤ n

/-- The node that a token stands for by itself. -/
inductive StandsFor (t : Token) : Node → Prop where
  | integer {value : Int} (kind : t.kind = .integer)
      (parsed : Decimal.parse none t.text = .ok value) : StandsFor t (.integer value t.range)
  | hex {digits : Bytes} (kind : t.kind = .hex) (text : t.text = AuthScript.text "0x" ++ digits)
      (some : digits ≠ []) : StandsFor t (.hex digits t.range)
  | utf8 {quote : UInt8} {contents : Bytes} (kind : t.kind = .utf8)
      (text : t.text = quote :: (contents ++ [quote])) (quotes : quote = 0x27 ∨ quote = 0x22)
      (inside : quote ∉ contents) : StandsFor t (.utf8 contents t.range)
  | identifier (kind : t.kind = .identifier) : StandsFor t (.identifier t.text t.range)

/-- Tokens are the same but for the way an integer is written, and for the quotes of a string. -/
inductive Same (t u : Token) : Prop where
  | exact (kind : t.kind = u.kind) (text : t.text = u.text) : Same t u
  | integer {value : Int} (kind : t.kind = .integer ∧ u.kind = .integer)
      (parsed : Decimal.parse none t.text = .ok value ∧ Decimal.parse none u.text = .ok value) :
      Same t u
  | utf8 {quote quote' : UInt8} {contents : Bytes} (kind : t.kind = .utf8 ∧ u.kind = .utf8)
      (text : t.text = quote :: (contents ++ [quote]) ∧
        u.text = quote' :: (contents ++ [quote'])) : Same t u

variable {t : Token} {node : Node}

theorem StandsFor.range (h : t.StandsFor node) : node.range = t.range := by
  cases h <;> rfl

theorem StandsFor.children (h : t.StandsFor node) : node.children = [] := by
  cases h <;> rfl

theorem StandsFor.plain (h : t.StandsFor node) :
    ¬ t.kind.Opens ∧ ¬ t.kind.Closes ∧ (t.kind = .hex → 2 < t.text.length) := by
  cases h with
  | hex kind text some =>
      have length : 0 < _ := List.length_pos_iff.2 some
      refine ⟨by simp [Kind.Opens, kind], by simp [Kind.Closes, kind], fun _ => ?_⟩
      rw [text, List.length_append]
      exact Nat.lt_add_of_pos_right length
  | _ kind => simp [Kind.Opens, Kind.Closes, kind]

/-- A token that fits is read as the node that it stands for. -/
theorem StandsFor.spells {limit : Option Nat} (h : t.StandsFor node) (fits : t.Fits limit) :
    t.Spells limit node := by
  obtain ⟨kind, content, range⟩ := t
  cases h with
  | integer kind parsed =>
      obtain rfl := kind
      exact spells_integer (Decimal.parse_eq_ok.2 ⟨parsed, fits rfl⟩) range
  | hex kind text some =>
      obtain rfl := kind
      obtain rfl := text
      exact spells_hex some range
  | utf8 kind text =>
      obtain rfl := kind
      obtain rfl := text
      exact spells_utf8 _ _ range
  | identifier kind =>
      obtain rfl := kind
      exact spells_identifier content range

/-- A word that is no bracket stands for a node, if there are digits behind the mark of digits. -/
theorem Word.standsFor (h : t.Word) (opens : ¬ t.kind.Opens) (closes : ¬ t.kind.Closes)
    (digits : t.kind = .hex → 2 < t.text.length) : ∃ node, t.StandsFor node := by
  obtain ⟨kind, content, range⟩ := t
  obtain ⟨⟨c, more, rfl, lexeme⟩, significant⟩ := h
  cases lexeme with
  | integer start inside =>
      rcases start with digit | ⟨rfl, some⟩
      · have all : ∀ d ∈ c :: more, Decimal.isDigit d = true :=
          List.forall_mem_cons.2 ⟨digit, inside⟩
        exact ⟨_, .integer rfl (Decimal.parse_signed false (List.cons_ne_nil _ _) all (by simp))⟩
      · exact ⟨_, .integer rfl (Decimal.parse_signed true some inside (by simp))⟩
  | @hex digits' inside =>
      have some : digits' ≠ [] := by
        rintro rfl
        exact Nat.lt_irrefl 2 (digits rfl)
      exact ⟨_, .hex rfl rfl some⟩
  | utf8 quotes inside => exact ⟨_, .utf8 rfl rfl quotes inside⟩
  | identifier start dotted => exact ⟨_, .identifier rfl⟩
  | pushOpen | evalOpen => exact absurd (by simp [Kind.Opens]) opens
  | pushClose | evalClose => exact absurd (by simp [Kind.Closes]) closes
  | whitespace | lineComment | blockComment => cases significant

/-- The text of a bracket is known from its kind. -/
theorem Word.same_mark (h : t.Word) {mark : Token}
    (bracket : mark ∈ [pushOpening, pushClosing, evalOpening, evalClosing])
    (kind : t.kind = mark.kind) : Same mark t := by
  obtain ⟨own, content, range⟩ := t
  obtain ⟨⟨c, more, rfl, lexeme⟩, _⟩ := h
  simp only [List.mem_cons, List.not_mem_nil, or_false] at bracket
  rcases bracket with rfl | rfl | rfl | rfl <;> obtain rfl := kind <;> cases lexeme <;>
    exact .exact rfl rfl

/-- Tokens with matched brackets are read as nodes. -/
theorem Matched.reads {limit : Option Nat} {n : Nat} {tokens : List Token} (h : Matched n tokens)
    (words : ∀ t ∈ tokens, t.Word) (digits : ∀ t ∈ tokens, t.kind = .hex → 2 < t.text.length)
    (fits : ∀ t ∈ tokens, t.Fits limit) : ∃ nodes, Reads limit n tokens nodes := by
  induction h with
  | nil => exact ⟨[], Reads.mono (reads_of_spells .nil) (Nat.zero_le _)⟩
  | @plain n t tokens opens closes _ ih =>
      obtain ⟨word, words⟩ := List.forall_mem_cons.1 words
      obtain ⟨first, digits⟩ := List.forall_mem_cons.1 digits
      obtain ⟨fit, fits⟩ := List.forall_mem_cons.1 fits
      obtain ⟨node, stands⟩ := word.standsFor opens closes first
      obtain ⟨nodes, rest⟩ := ih words digits fits
      exact ⟨[node] ++ nodes, ((stands.spells fit).reads.append rest).mono (by omega)⟩
  | @bracket n opening closing inner tokens pair _ _ inside others =>
      simp only [List.forall_mem_cons, List.forall_mem_append] at words digits fits
      obtain ⟨_, innerWords, _, laterWords⟩ := words
      obtain ⟨_, innerDigits, _, laterDigits⟩ := digits
      obtain ⟨_, innerFits, _, laterFits⟩ := fits
      obtain ⟨children, hchildren⟩ := inside innerWords innerDigits innerFits
      obtain ⟨nodes, hnodes⟩ := others laterWords laterDigits laterFits
      have whole := ((hchildren.bracket pair).append hnodes).mono (Nat.le_of_eq (Nat.max_self _))
      rw [List.cons_append, List.append_assoc, List.singleton_append] at whole
      exact ⟨_, whole⟩

/-! ## Where tokens of a source stand -/

/-- Tokens that are not empty and stand one behind the other. -/
structure Ascending (tokens : List Token) : Prop where
  some : ∀ t ∈ tokens, t.range.start.offset < t.range.stop.offset
  ordered : tokens.Pairwise fun t u => t.range.stop.offset ≤ u.range.start.offset

theorem Ascending.sublist {tokens tokens' : List Token} (h : Ascending tokens)
    (sub : tokens'.Sublist tokens) : Ascending tokens' :=
  ⟨fun t ht => h.some t (sub.mem ht), h.ordered.sublist sub⟩

theorem Contiguous.ordered {start stop : Nat} {tokens : List Token}
    (h : Contiguous start stop tokens)
    (some : ∀ t ∈ tokens, t.range.start.offset < t.range.stop.offset) :
    (∀ t ∈ tokens, start ≤ t.range.start.offset) ∧
      tokens.Pairwise fun t u => t.range.stop.offset ≤ u.range.start.offset := by
  induction tokens generalizing start with
  | nil => simp
  | cons t tokens ih =>
      obtain ⟨rfl, rest⟩ := h
      obtain ⟨first, others⟩ := List.forall_mem_cons.1 some
      obtain ⟨behind, ordered⟩ := ih rest others
      refine ⟨List.forall_mem_cons.2 ⟨Nat.le_refl _, fun u hu => ?_⟩, .cons behind ordered⟩
      exact Nat.le_trans (Nat.le_of_lt first) (behind u hu)

theorem ascending_of_ofText {b : Bytes} {tokens : List Token} (h : ofText b = .ok tokens) :
    Ascending tokens := by
  have some : ∀ t ∈ tokens, t.range.start.offset < t.range.stop.offset :=
    fun t ht => (within_range h ht).offsets.1
  exact ⟨some, ((contiguous_of_ofTextAt h).ordered some).2⟩

/-- The range of a pair of brackets runs from the start of the one to the end of the other. -/
theorem Ascending.merge {opening closing : Token} {first inner rest : List Token}
    (h : Ascending (first ++ opening :: (inner ++ closing :: rest))) :
    Range.merge opening.range closing.range = ⟨opening.range.start, closing.range.stop⟩ := by
  have later : [opening, closing].Sublist (first ++ opening :: (inner ++ closing :: rest)) := by
    refine List.sublist_append_of_sublist_right (.cons_cons opening ?_)
    exact List.sublist_append_of_sublist_right (.cons_cons closing (List.nil_sublist rest))
  have pair := h.sublist later
  have order : opening.range.stop.offset ≤ closing.range.start.offset := by
    simpa using pair.ordered
  have some := List.forall_mem_cons.1 pair.some
  have some' := List.forall_mem_cons.1 some.2
  rw [Range.merge, if_pos (by omega), if_neg (by omega)]

end Token

/-! ## Trees -/

namespace Tree

theorem range_bracket (opening : Token) (children : List Node) (range : Range) :
    (bracket opening children range).range = range := by
  unfold bracket
  split <;> rfl

theorem children_bracket (opening : Token) (children : List Node) (range : Range) :
    (bracket opening children range).children = children := by
  unfold bracket
  split <;> rfl

/-- Brackets of a pair open and close. -/
theorem kinds_of_isPair {opening closing : Token.Kind} (pair : isPair opening closing = true) :
    opening = .pushOpen ∧ closing = .pushClose ∨ opening = .evalOpen ∧ closing = .evalClose := by
  unfold isPair at pair
  split at pair <;> simp_all

end Tree

namespace Node

/-- The tokens of nodes, with at most so many brackets around each other: a token for each
leaf, and for a push or an evaluation its brackets around the tokens of its children. -/
inductive Spelled : Nat → List Token → List Node → Prop where
  | nil {n : Nat} : Spelled n [] []
  | token {n : Nat} {t : Token} {node : Node} {tokens : List Token} {nodes : List Node}
      (stands : t.StandsFor node) (rest : Spelled n tokens nodes) :
      Spelled n (t :: tokens) (node :: nodes)
  | bracket {n : Nat} {opening closing : Token} {inner tokens : List Token}
      {children nodes : List Node} (pair : Tree.isPair opening.kind closing.kind = true)
      (inside : Spelled n inner children) (rest : Spelled (n + 1) tokens nodes) :
      Spelled (n + 1) (opening :: (inner ++ closing :: tokens))
        (Tree.bracket opening children ⟨opening.range.start, closing.range.stop⟩ :: nodes)

/-- Nodes stand one behind the other between two offsets, and so do the children of each
between its own ends. -/
inductive Nested : Nat → Nat → List Node → Prop where
  | nil {start stop : Nat} : Nested start stop []
  | cons {start stop : Nat} {node : Node} {nodes : List Node}
      (behind : start ≤ node.range.start.offset)
      (some : node.range.start.offset < node.range.stop.offset)
      (before : node.range.stop.offset ≤ stop)
      (inside : Nested (node.range.start.offset + 1) (node.range.stop.offset - 1) node.children)
      (rest : Nested node.range.stop.offset stop nodes) : Nested start stop (node :: nodes)

mutual

/-- The tokens of a node, with the quotes that fit and without ranges for the brackets. -/
def tokens : Node → List Token
  | integer value range => [⟨.integer, Bytes.signedDecimal value, range⟩]
  | hex digits range => [⟨.hex, text "0x" ++ digits, range⟩]
  | utf8 contents range =>
    let quote := if contents.contains 0x27 then 0x22 else 0x27
    [⟨.utf8, quote :: (contents ++ [quote]), range⟩]
  | identifier name range => [⟨.identifier, name, range⟩]
  | push children _ => Token.pushOpening :: (tokensAll children ++ [Token.pushClosing])
  | evaluation children _ => Token.evalOpening :: (tokensAll children ++ [Token.evalClosing])

/-- The tokens of nodes, one behind the other. -/
def tokensAll : List Node → List Token
  | [] => []
  | node :: rest => tokens node ++ tokensAll rest

end

namespace Spelled

variable {n : Nat} {tokens tokens' : List Token} {nodes nodes' : List Node}

theorem append (h : Spelled n tokens nodes) (h' : Spelled n tokens' nodes') :
    Spelled n (tokens ++ tokens') (nodes ++ nodes') := by
  induction h with
  | nil => exact h'
  | token stands _ ih => exact .token stands (ih h')
  | bracket pair inside _ _ ih =>
      rw [List.cons_append, List.append_assoc, List.cons_append]
      exact .bracket pair inside (ih h')

/-- What is spelled is matched. -/
theorem matched (h : Spelled n tokens nodes) :
    Token.Matched n tokens ∧ ∀ t ∈ tokens, t.kind = .hex → 2 < t.text.length := by
  induction h with
  | nil => exact ⟨.nil, by simp⟩
  | token stands _ ih =>
      obtain ⟨opens, closes, digits⟩ := stands.plain
      exact ⟨.plain opens closes ih.1, List.forall_mem_cons.2 ⟨digits, ih.2⟩⟩
  | bracket pair _ _ inside others =>
      refine ⟨.bracket pair inside.1 others.1, ?_⟩
      simp only [List.forall_mem_cons, List.forall_mem_append]
      refine ⟨?_, inside.2, ?_, others.2⟩ <;> intro hex <;>
        rcases Tree.kinds_of_isPair pair with ⟨ho, hc⟩ | ⟨ho, hc⟩ <;> simp_all

/-- The ranges of nodes are nested as the nodes are. -/
theorem nested {start stop : Nat} (h : Spelled n tokens nodes) (ascending : Token.Ascending tokens)
    (inside : ∀ t ∈ tokens, start ≤ t.range.start.offset ∧ t.range.stop.offset ≤ stop) :
    Nested start stop nodes := by
  induction h generalizing start stop with
  | nil => exact .nil
  | token stands _ ih =>
      obtain ⟨⟨lower, upper⟩, later⟩ := List.forall_mem_cons.1 inside
      obtain ⟨behind, _⟩ := List.pairwise_cons.1 ascending.ordered
      have some := (List.forall_mem_cons.1 ascending.some).1
      have leaf := stands.range
      refine .cons (leaf ▸ lower) (leaf ▸ some) (leaf ▸ upper) (stands.children ▸ .nil) ?_
      rw [leaf]
      exact ih (ascending.sublist (List.sublist_cons_self _ _)) fun u hu =>
        ⟨behind u hu, (later u hu).2⟩
  | @bracket n opening closing inner tokens children nodes _ _ _ ihInner ihRest =>
      obtain ⟨behindOpening, ordered⟩ := List.pairwise_cons.1 ascending.ordered
      obtain ⟨_, later, across⟩ := List.pairwise_append.1 ordered
      obtain ⟨behindClosing, _⟩ := List.pairwise_cons.1 later
      have some := ascending.some
      simp only [List.forall_mem_cons, List.forall_mem_append] at inside some behindOpening
      obtain ⟨lower, insideInner, upper, insideRest⟩ := inside
      obtain ⟨someOpening, _, someClosing, _⟩ := some
      obtain ⟨openingInner, openingClosing, _⟩ := behindOpening
      have innerAscending : Token.Ascending inner :=
        ascending.sublist (.cons _ (List.sublist_append_left _ _))
      have behind : tokens.Sublist (inner ++ closing :: tokens) :=
        List.sublist_append_of_sublist_right (List.sublist_cons_self _ _)
      have restAscending : Token.Ascending tokens := ascending.sublist (.cons _ behind)
      refine .cons ?_ ?_ ?_ ?_ ?_ <;> rw [Tree.range_bracket]
      · exact lower.1
      · exact Nat.lt_trans (Nat.lt_of_lt_of_le someOpening openingClosing) someClosing
      · exact upper.2
      · rw [Tree.children_bracket]
        refine ihInner innerAscending fun u hu => ⟨?_, ?_⟩
        · exact Nat.le_trans someOpening (openingInner u hu)
        · have before := across u hu closing List.mem_cons_self
          exact Nat.le_trans before (Nat.le_sub_one_of_lt someClosing)
      · exact ihRest restAscending fun u hu => ⟨behindClosing u hu, (insideRest u hu).2⟩

/-- Nodes come back to the tokens that they are. -/
theorem same (h : Spelled n tokens nodes) (words : ∀ t ∈ tokens, t.Word) :
    List.Forall₂ Token.Same (tokensAll nodes) tokens := by
  induction h with
  | nil => exact .nil
  | @token n t node tokens nodes stands _ ih =>
      have others := ih (List.forall_mem_cons.1 words).2
      rw [tokensAll]
      cases stands with
      | integer kind parsed =>
          exact .cons (.integer ⟨rfl, kind⟩ ⟨Decimal.parse_signedDecimal _, parsed⟩) others
      | hex kind text => exact .cons (.exact kind.symm text.symm) others
      | utf8 kind text => exact .cons (.utf8 ⟨rfl, kind⟩ ⟨rfl, text⟩) others
      | identifier kind => exact .cons (.exact kind.symm rfl) others
  | @bracket n opening closing inner tokens children nodes pair _ _ inside others =>
      simp only [List.forall_mem_cons, List.forall_mem_append] at words
      obtain ⟨openingWord, innerWords, closingWord, restWords⟩ := words
      have whole : ∀ first last : Token, Token.Same first opening → Token.Same last closing →
          List.Forall₂ Token.Same (first :: (tokensAll children ++ [last]) ++ tokensAll nodes)
            (opening :: (inner ++ closing :: tokens)) := by
        intro first last hfirst hlast
        rw [List.cons_append, List.append_assoc, List.singleton_append]
        exact .cons hfirst (List.rel_append (inside innerWords) (.cons hlast (others restWords)))
      rw [tokensAll]
      unfold Tree.bracket
      rcases Tree.kinds_of_isPair pair with ⟨ho, hc⟩ | ⟨ho, hc⟩ <;> rw [ho, Node.tokens]
      · exact whole _ _ (openingWord.same_mark (by simp) ho) (closingWord.same_mark (by simp) hc)
      · exact whole _ _ (openingWord.same_mark (by simp) ho) (closingWord.same_mark (by simp) hc)

end Spelled

end Node

/-! ## The parser -/

namespace Tree

/-- What has been read spells the tokens that have been seen: the nodes before each open bracket
those before it, and the nodes since then those behind it, where so many more brackets can be
opened. -/
inductive Read : Nat → List Frame → List Node → List Token → Prop where
  | base {n : Nat} {nodes : List Node} {seen : List Token}
      (spelled : Node.Spelled n seen nodes.reverse) : Read n [] nodes seen
  | frame {n : Nat} {opening : Token} {before nodes : List Node} {outer : List Frame}
      {seen inner : List Token} (outside : Read (n + 1) outer before seen)
      (spelled : Node.Spelled n inner nodes.reverse) :
      Read n (⟨opening, before⟩ :: outer) nodes (seen ++ opening :: inner)

theorem Read.extend {n : Nat} {frames : List Frame} {nodes more : List Node}
    {seen tokens : List Token} (h : Read n frames nodes seen)
    (spelled : Node.Spelled n tokens more) :
    Read n frames (more.reverse ++ nodes) (seen ++ tokens) := by
  have reversed : (more.reverse ++ nodes).reverse = nodes.reverse ++ more := by simp
  cases h with
  | base before => exact .base (reversed ▸ before.append spelled)
  | frame outside before =>
      rw [List.append_assoc, List.cons_append]
      exact .frame outside (reversed ▸ before.append spelled)

namespace Progress

variable {bounds : Bounds} {n : Nat} {p q : Progress} {t : Token} {seen : List Token}

/-- A token that has been read fits. -/
theorem step_fits (h : p.step bounds t = .ok q) : t.Fits bounds.digits := by
  intro kind
  unfold step at h
  simp only [kind] at h
  cases parsed : Decimal.parse bounds.digits t.text with
  | error fault => simp [parsed] at h
  | ok value => exact (Decimal.parse_eq_ok.1 parsed).2

theorem foldlM_fits {tokens : List Token} (h : tokens.foldlM (step bounds) p = .ok q) :
    ∀ t ∈ tokens, t.Fits bounds.digits := by
  induction tokens generalizing p with
  | nil => simp
  | cons t tokens ih =>
      obtain ⟨r, hr, hrest⟩ := except_bind_eq_ok.1 h
      exact List.forall_mem_cons.2 ⟨step_fits hr, ih hrest⟩

/-- A word that is no bracket is read as the node that it stands for. -/
theorem step_standsFor (word : t.Word) (opens : ¬ t.kind.Opens) (closes : ¬ t.kind.Closes)
    (h : p.step bounds t = .ok q) : ∃ node, t.StandsFor node ∧ q = p.add node := by
  have fits : t.Fits bounds.digits := step_fits h
  have digits : t.kind = .hex → 2 < t.text.length := by
    intro hex
    unfold step at h
    simp only [hex] at h
    split at h
    · cases h
    · rename_i some
      have length := List.length_pos_iff.2 (mt List.isEmpty_iff.2 some)
      rw [List.length_drop] at length
      omega
  obtain ⟨node, stands⟩ := word.standsFor opens closes digits
  exact ⟨node, stands, Except.ok.inj (h.symm.trans (stands.spells fits bounds.brackets p))⟩

/-- A token more is spelled by what has been read then. -/
theorem step_read (word : t.Word) (ascending : Token.Ascending (seen ++ [t]))
    (h : Read n p.frames p.nodes seen) (room : n + p.frames.length = bounds.brackets)
    (hq : p.step bounds t = .ok q) :
    ∃ m, Read m q.frames q.nodes (seen ++ [t]) ∧ m + q.frames.length = bounds.brackets := by
  by_cases opens : t.kind.Opens
  · have descends : p.descend bounds.brackets t = .ok q := by
      rcases opens with hk | hk <;> simpa only [step, hk] using hq
    obtain ⟨below, rfl⟩ := descend_eq_ok.1 descends
    obtain ⟨m, rfl⟩ : ∃ m, n = m + 1 := ⟨n - 1, by omega⟩
    refine ⟨m, .frame h .nil, ?_⟩
    rw [List.length_cons]
    omega
  by_cases closes : t.kind.Closes
  · have ascends : p.ascend t = .ok q := by
      rcases closes with hk | hk <;> simpa only [step, hk] using hq
    obtain ⟨frames, nodes⟩ := p
    cases h with
    | base => cases ascends
    | @frame _ opening before _ outer seen inner outside spelled =>
        unfold ascend at ascends
        simp only at ascends
        split at ascends
        · rename_i pair
          obtain rfl := Except.ok.inj ascends
          have split : seen ++ opening :: inner ++ [t] = seen ++ opening :: (inner ++ t :: []) :=
            by simp
          rw [split] at ascending ⊢
          rw [ascending.merge]
          have room : n + 1 + outer.length = bounds.brackets :=
            (Nat.succ_add_eq_add_succ n outer.length).trans room
          exact ⟨n + 1, outside.extend (.bracket pair spelled .nil), room⟩
        · cases ascends
  · obtain ⟨node, stands, rfl⟩ := step_standsFor word opens closes hq
    exact ⟨n, h.extend (.token stands .nil), room⟩

/-- All tokens are spelled by what has been read in the end. -/
theorem foldlM_read {tokens : List Token} (words : ∀ t ∈ tokens, t.Word)
    (ascending : Token.Ascending (seen ++ tokens)) (h : Read n p.frames p.nodes seen)
    (room : n + p.frames.length = bounds.brackets)
    (hq : tokens.foldlM (step bounds) p = .ok q) :
    ∃ m, Read m q.frames q.nodes (seen ++ tokens) ∧ m + q.frames.length = bounds.brackets := by
  induction tokens generalizing n p seen with
  | nil =>
      obtain rfl : p = q := Except.ok.inj hq
      rw [List.append_nil]
      exact ⟨n, h, room⟩
  | cons t tokens ih =>
      obtain ⟨word, words⟩ := List.forall_mem_cons.1 words
      obtain ⟨r, hr, hrest⟩ := except_bind_eq_ok.1 hq
      have split : seen ++ t :: tokens = seen ++ [t] ++ tokens := by simp
      rw [split] at ascending ⊢
      obtain ⟨m, read, left⟩ :=
        step_read word (ascending.sublist (List.sublist_append_left _ _)) h room hr
      exact ih words ascending read left hrest

end Progress

end Tree

namespace Node

variable {bounds : Tree.Bounds} {nodes : List Node} {tokens : List Token}

theorem ofTokens_significant (bounds : Tree.Bounds) (tokens : List Token) :
    ofTokens bounds (Token.significant tokens) = ofTokens bounds tokens := by
  unfold ofTokens
  rw [Tree.Progress.foldlM_significant]

/-- Words that stand one behind the other are read as nodes that spell them. -/
theorem spelled_of_ofTokens (words : ∀ t ∈ tokens, t.Word) (ascending : Token.Ascending tokens)
    (h : ofTokens bounds tokens = .ok nodes) : Spelled bounds.brackets tokens nodes := by
  obtain ⟨p, hp, hfinish⟩ := except_bind_eq_ok.1 h
  obtain ⟨closed, rfl⟩ := Tree.Progress.finish_eq_ok.1 hfinish
  have start :
      Tree.Read bounds.brackets ({} : Tree.Progress).frames ({} : Tree.Progress).nodes [] :=
    .base .nil
  have ascending : Token.Ascending ([] ++ tokens) := ascending
  obtain ⟨m, read, room⟩ :=
    Tree.Progress.foldlM_read words ascending start (Nat.add_zero bounds.brackets) hp
  rw [closed] at read room
  obtain rfl : m = bounds.brackets := room
  cases read with
  | base spelled => exact spelled

end Node

namespace Token

/-- The tokens of a source that mean something are words. -/
theorem word_of_ofText {source : Bytes} {tokens : List Token} (h : ofText source = .ok tokens) :
    ∀ t ∈ significant tokens, t.Word := by
  intro t ht
  obtain ⟨mem, significant⟩ := List.mem_filter.1 ht
  exact ⟨(legible_of_ofTextAt h).lexeme mem, by simpa using significant⟩

end Token

namespace Node

/-- Exactly the matched tokens are read, and nothing of them is lost but the digits of integers
and the quotes of strings. The ranges of the nodes are those of their tokens, from the opening to
the closing one for a bracket, and they are nested as the nodes are. -/
theorem ofTokens_reads_matched {source : Bytes} {tokens : List Token}
    (h : Token.ofText source = .ok tokens) (bounds : Tree.Bounds) :
    ((∃ nodes, ofTokens bounds tokens = .ok nodes) ↔
      Token.Matched bounds.brackets (Token.significant tokens) ∧
        (∀ t ∈ tokens, t.kind = .hex → 2 < t.text.length) ∧
        ∀ t ∈ tokens, t.Fits bounds.digits) ∧
    ∀ nodes, ofTokens bounds tokens = .ok nodes →
      Spelled bounds.brackets (Token.significant tokens) nodes ∧
      List.Forall₂ Token.Same (tokensAll nodes) (Token.significant tokens) ∧
      Nested 0 source.length nodes := by
  have words := Token.word_of_ofText h
  have ascending : Token.Ascending (Token.significant tokens) :=
    (Token.ascending_of_ofText h).sublist List.filter_sublist
  have spelled : ∀ nodes, ofTokens bounds tokens = .ok nodes →
      Spelled bounds.brackets (Token.significant tokens) nodes := fun nodes hnodes =>
    spelled_of_ofTokens words ascending ((ofTokens_significant bounds tokens).trans hnodes)
  have within : ∀ t ∈ Token.significant tokens,
      0 ≤ t.range.start.offset ∧ t.range.stop.offset ≤ source.length := fun t ht =>
    ⟨Nat.zero_le _, (Token.within_range h (List.mem_of_mem_filter ht)).offsets.2⟩
  refine ⟨⟨?_, ?_⟩, fun nodes hnodes => ?_⟩
  · rintro ⟨nodes, hnodes⟩
    obtain ⟨matched, digits⟩ := (spelled nodes hnodes).matched
    obtain ⟨p, hp, _⟩ := except_bind_eq_ok.1 hnodes
    refine ⟨matched, fun t ht hex => digits t (List.mem_filter.2 ⟨ht, ?_⟩) hex,
      Tree.Progress.foldlM_fits hp⟩
    simp [hex, Token.Kind.isTrivia]
  · rintro ⟨matched, digits, fits⟩
    obtain ⟨nodes, reads⟩ := matched.reads words
      (fun t ht => digits t (List.mem_of_mem_filter ht))
      fun t ht => fits t (List.mem_of_mem_filter ht)
    rw [← ofTokens_significant]
    exact ⟨nodes, ofTokens_of_reads reads (Nat.le_refl bounds.brackets)⟩
  · have own := spelled nodes hnodes
    exact ⟨own, own.same words, own.nested ascending within⟩

/-- A push of a string and of the value of an evaluation, with a comment: two brackets around
each other are enough, and one is not. -/
theorem ofTokens_reads_matched_of_push :
    let source := text "<'a' $(0x51)> // b"
    ∃ tokens nodes, Token.ofText source = .ok tokens ∧ ofTokens ⟨2, none⟩ tokens = .ok nodes ∧
      Spelled 2 (Token.significant tokens) nodes ∧ Nested 0 source.length nodes ∧
      Token.Matched 2 (Token.significant tokens) ∧
      ¬ Token.Matched 1 (Token.significant tokens) := by
  intro source
  let tokens : List Token := [
    ⟨.pushOpen, text "<", ⟨⟨1, 1, 0⟩, ⟨1, 2, 1⟩⟩⟩,
    ⟨.utf8, text "'a'", ⟨⟨1, 2, 1⟩, ⟨1, 5, 4⟩⟩⟩,
    ⟨.whitespace, text " ", ⟨⟨1, 5, 4⟩, ⟨1, 6, 5⟩⟩⟩,
    ⟨.evalOpen, text "$(", ⟨⟨1, 6, 5⟩, ⟨1, 8, 7⟩⟩⟩,
    ⟨.hex, text "0x51", ⟨⟨1, 8, 7⟩, ⟨1, 12, 11⟩⟩⟩,
    ⟨.evalClose, text ")", ⟨⟨1, 12, 11⟩, ⟨1, 13, 12⟩⟩⟩,
    ⟨.pushClose, text ">", ⟨⟨1, 13, 12⟩, ⟨1, 14, 13⟩⟩⟩,
    ⟨.whitespace, text " ", ⟨⟨1, 14, 13⟩, ⟨1, 15, 14⟩⟩⟩,
    ⟨.lineComment, text "// b", ⟨⟨1, 15, 14⟩, ⟨1, 19, 18⟩⟩⟩]
  let nodes : List Node := [
    .push [.utf8 (text "a") ⟨⟨1, 2, 1⟩, ⟨1, 5, 4⟩⟩,
      .evaluation [.hex (text "51") ⟨⟨1, 8, 7⟩, ⟨1, 12, 11⟩⟩] ⟨⟨1, 6, 5⟩, ⟨1, 13, 12⟩⟩]
      ⟨⟨1, 1, 0⟩, ⟨1, 14, 13⟩⟩]
  have read : Token.ofText source = .ok tokens := by
    with_unfolding_all rfl
  have tree : ofTokens ⟨2, none⟩ tokens = .ok nodes := by
    with_unfolding_all rfl
  have deep : ofTokens ⟨1, none⟩ tokens =
      .error ⟨.nestingTooDeep 1, ⟨⟨1, 6, 5⟩, ⟨1, 8, 7⟩⟩, [], []⟩ := by
    with_unfolding_all rfl
  obtain ⟨accepts, faithful⟩ := ofTokens_reads_matched read ⟨2, none⟩
  obtain ⟨matched, digits⟩ := accepts.1 ⟨nodes, tree⟩
  obtain ⟨spelled, _, nested⟩ := faithful nodes tree
  refine ⟨tokens, nodes, read, tree, spelled, nested, matched, fun shallow => ?_⟩
  obtain ⟨other, hother⟩ := (ofTokens_reads_matched read ⟨1, none⟩).1.2 ⟨shallow, digits⟩
  cases deep.symm.trans hother

/-- Two strings that differ in their quotes have one tree, so the texts of tokens cannot be had
from a tree, even if there is no integer among them. -/
theorem quotes_forgotten :
    ¬ ∃ flatten : List Node → List (Token.Kind × Bytes), ∀ source tokens bounds nodes,
      Token.ofText source = .ok tokens → (∀ t ∈ tokens, t.kind ≠ .integer) →
      ofTokens bounds tokens = .ok nodes →
      flatten nodes = (Token.significant tokens).map fun t => (t.kind, t.text) := by
  rintro ⟨flatten, flattens⟩
  let nodes : List Node := [.utf8 (text "a") ⟨⟨1, 1, 0⟩, ⟨1, 4, 3⟩⟩]
  let tokens (quoted : Bytes) : List Token := [⟨.utf8, quoted, ⟨⟨1, 1, 0⟩, ⟨1, 4, 3⟩⟩⟩]
  have single := flattens (text "'a'") (tokens (text "'a'")) ⟨0, none⟩ nodes
    (by with_unfolding_all rfl) (by simp [tokens]) (by with_unfolding_all rfl)
  have double := flattens (text "\"a\"") (tokens (text "\"a\"")) ⟨0, none⟩ nodes
    (by with_unfolding_all rfl) (by simp [tokens]) (by with_unfolding_all rfl)
  have same : [(Token.Kind.utf8, text "'a'")] = [(Token.Kind.utf8, text "\"a\"")] :=
    single.symm.trans double
  exact absurd same (by decide)

end Node

end AuthScript
