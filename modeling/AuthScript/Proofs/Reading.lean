import AuthScript.Proofs.Layout
import Mathlib.Data.List.Forall2

/-!
# Reading texts that are put together

A text that is written token by token is read as its tokens if these are legible one behind
another. Brackets aside, each token that means something then stands for one node
(`Token.Spells`), so a text of words with blanks between them is read word by word
(`Compiler.treeOf?_join`). Only the positions depend on where the words stand, and these have
no part in what the text compiles to (`Compiler.generate_iff_yields`).
-/

namespace AuthScript

namespace Token

/-- Legible tokens spell, up to ranges, what those of them spell that mean something. -/
theorem Legible.treeOf? {tokens : List Token} (legible : Legible tokens) (bounds : Tree.Bounds) :
    (Compiler.treeOf? bounds (source tokens)).map Node.bareAll =
      (Node.ofTokens bounds ((significant tokens).map bare)).toOption := by
  obtain ⟨tokens', hread, hbare⟩ := legible.ofTextAt {}
  have read : Compiler.treeOf? bounds (source tokens) =
      (Node.ofTokens bounds tokens').toOption := by
    unfold Compiler.treeOf? ofText
    rw [hread]
    rfl
  rw [read, Node.ofTokens_bare, ← significant_map_bare, hbare, significant_map_bare]

/-- A token that is read as a node, wherever it stands. -/
def Spells (digits : Option Nat) (t : Token) (node : Node) : Prop :=
  ∀ limit p, Tree.Progress.step ⟨limit, digits⟩ p t = .ok (p.add node)

variable {digits : Option Nat}

theorem spells_identifier (name : Bytes) (range : Range) :
    Spells digits ⟨.identifier, name, range⟩ (.identifier name range) := fun _ _ => rfl

theorem spells_integer {literal : Bytes} {value : Int}
    (h : Decimal.parse digits literal = .ok value) (range : Range) :
    Spells digits ⟨.integer, literal, range⟩ (.integer value range) := by
  intro limit p
  simp only [Tree.Progress.step, h]

theorem spells_hex {spelling : Bytes} (some : spelling ≠ []) (range : Range) :
    Spells digits ⟨.hex, AuthScript.text "0x" ++ spelling, range⟩ (.hex spelling range) := by
  intro limit p
  have left : spelling.isEmpty = false := by simpa using some
  have behind : (AuthScript.text "0x" ++ spelling).drop 2 = spelling := rfl
  simp [Tree.Progress.step, behind, left]

theorem spells_utf8 (quote : UInt8) (body : Bytes) (range : Range) :
    Spells digits ⟨.utf8, quote :: (body ++ [quote]), range⟩ (.utf8 body range) := by
  intro limit p
  simp [Tree.Progress.step]

end Token

/-! ## Brackets -/

namespace Token

/-- The brackets around a push. -/
def pushOpening : Token := ⟨.pushOpen, AuthScript.text "<", {}⟩

def pushClosing : Token := ⟨.pushClose, AuthScript.text ">", {}⟩

/-- The brackets around an evaluation. -/
def evalOpening : Token := ⟨.evalOpen, AuthScript.text "$(", {}⟩

def evalClosing : Token := ⟨.evalClose, AuthScript.text ")", {}⟩

/-- Tokens that are read as nodes wherever so many more brackets can be opened. -/
def Reads (digits : Option Nat) (depth : Nat) (tokens : List Token) (nodes : List Node) : Prop :=
  ∀ limit (p : Tree.Progress), p.frames.length + depth ≤ limit →
    tokens.foldlM (Tree.Progress.step ⟨limit, digits⟩) p =
      .ok { p with nodes := nodes.reverse ++ p.nodes }

variable {digits : Option Nat}

/-- Without brackets each token is a node. -/
theorem reads_of_spells {tokens : List Token} {nodes : List Node}
    (h : List.Forall₂ (Spells digits) tokens nodes) : Reads digits 0 tokens nodes := by
  intro limit p room
  induction h generalizing p with
  | nil => rfl
  | @cons t node tokens nodes first _ ih =>
      rw [List.foldlM_cons, first limit p]
      refine (ih (p.add node) room).trans ?_
      simp [Tree.Progress.add]

theorem Spells.reads {t : Token} {node : Node} (h : t.Spells digits node) :
    Reads digits 0 [t] [node] :=
  reads_of_spells (.cons h .nil)

theorem Reads.mono {m n : Nat} {tokens : List Token} {nodes : List Node}
    (h : Reads digits m tokens nodes) (more : m ≤ n) : Reads digits n tokens nodes :=
  fun limit p room => h limit p (Nat.le_trans (Nat.add_le_add_left more _) room)

theorem Reads.append {m n : Nat} {first others : List Token} {nodes nodes' : List Node}
    (h : Reads digits m first nodes) (h' : Reads digits n others nodes') :
    Reads digits (max m n) (first ++ others) (nodes ++ nodes') := by
  intro limit p room
  rw [List.foldlM_append, h limit p (by omega)]
  refine (h' limit { p with nodes := nodes.reverse ++ p.nodes } ?_).trans ?_
  · show p.frames.length + n ≤ limit
    omega
  · simp

/-- A pair of brackets makes one node of the nodes inside. -/
theorem Reads.bracket {depth : Nat} {tokens : List Token} {children : List Node}
    (h : Reads digits depth tokens children) {opening closing : Token}
    (pair : Tree.isPair opening.kind closing.kind = true) :
    Reads digits (depth + 1) (opening :: (tokens ++ [closing]))
      [Tree.bracket opening children (Range.merge opening.range closing.range)] := by
  intro limit p room
  have kinds : (opening.kind = .pushOpen ∨ opening.kind = .evalOpen) ∧
      (closing.kind = .pushClose ∨ closing.kind = .evalClose) := by
    unfold Tree.isPair at pair
    split at pair <;> simp_all
  have opened : Tree.Progress.step ⟨limit, digits⟩ p opening =
      .ok ⟨⟨opening, p.nodes⟩ :: p.frames, []⟩ := by
    have descends : Tree.Progress.step ⟨limit, digits⟩ p opening = p.descend limit opening := by
      rcases kinds.1 with hk | hk <;> simp only [Tree.Progress.step, hk]
    exact descends.trans (if_neg (by omega))
  have inner := h limit ⟨⟨opening, p.nodes⟩ :: p.frames, []⟩
    (by simp only [List.length_cons]; omega)
  have closed : Tree.Progress.step ⟨limit, digits⟩
      ⟨⟨opening, p.nodes⟩ :: p.frames, children.reverse⟩ closing =
      .ok ⟨p.frames, Tree.bracket opening children
        (Range.merge opening.range closing.range) :: p.nodes⟩ := by
    rcases kinds.2 with hk | hk <;>
      simp [Tree.Progress.step, Tree.Progress.ascend, hk, hk ▸ pair]
  rw [List.append_nil] at inner
  simp only [List.foldlM_cons, opened, List.foldlM_append, List.foldlM_nil, inner, closed, bind,
    Except.bind]
  rfl

/-- A word between angle brackets is read as a push. -/
theorem Spells.reads_push {t : Token} {node : Node} (h : t.Spells digits node) :
    Reads digits 1 [pushOpening, t, pushClosing] [.push [node] {}] := by
  have pair : Tree.isPair pushOpening.kind pushClosing.kind = true := rfl
  exact h.reads.bracket pair

end Token

theorem Node.ofTokens_of_reads {bounds : Tree.Bounds} {depth : Nat} {tokens : List Token}
    {nodes : List Node} (h : Token.Reads bounds.digits depth tokens nodes)
    (room : depth ≤ bounds.brackets) : ofTokens bounds tokens = .ok nodes := by
  unfold ofTokens
  rw [h bounds.brackets {} (by simpa using room)]
  simp [bind, Except.bind, Tree.Progress.finish]

/-! ## Words with blanks between them -/

namespace Token

/-- The blank between two words. -/
def blank : Token := ⟨.whitespace, AuthScript.text " ", {}⟩

/-- A token that means something. -/
structure Word (t : Token) : Prop where
  lexeme : ∃ c more, t.text = c :: more ∧ Lexeme t.kind c more
  significant : t.kind.isTrivia = false

theorem Word.stops_nil {t : Token} (h : t.Word) : Stops t.kind [] := by
  have significant := h.significant
  cases hk : t.kind with
  | identifier =>
      intro c rest hc
      cases hc
  | lineComment =>
      rw [hk] at significant
      cases significant
  | _ => trivial

/-- A word stops at a byte that can be in no identifier. -/
theorem Word.stops_cons {t : Token} (h : t.Word) {c : UInt8} (outside : inIdentifier c = false)
    (undotted : c ≠ 0x2e) (rest : Bytes) : Stops t.kind (c :: rest) := by
  have significant := h.significant
  cases hk : t.kind with
  | identifier =>
      intro d more hd
      obtain ⟨rfl, rfl⟩ := List.cons.inj hd
      rintro (inside | ⟨dot, _⟩)
      · exact Bool.false_ne_true (outside.symm.trans inside)
      · exact undotted dot
  | hex | integer => exact outside
  | whitespace | lineComment =>
      rw [hk] at significant
      cases significant
  | _ => trivial

/-- No word starts with white space. -/
theorem Word.blank_stops {t : Token} (h : t.Word) (rest : Bytes) :
    Stops .whitespace (t.text ++ rest) := by
  obtain ⟨c, more, htext, lexeme⟩ := h.lexeme
  rw [htext]
  refine Bool.eq_false_iff.2 fun space => ?_
  have significant := h.significant
  rw [lexeme.isSpace_iff.1 space] at significant
  cases significant

theorem Legible.word {t : Token} (h : t.Word) {tokens : List Token}
    (stops : Stops t.kind (source tokens)) (rest : Legible tokens) : Legible (t :: tokens) := by
  obtain ⟨kind, content, range⟩ := t
  obtain ⟨c, more, rfl, lexeme⟩ := h.lexeme
  exact .cons lexeme stops rest

theorem Word.significant_cons {t : Token} (h : t.Word) (tokens : List Token) :
    Token.significant (t :: tokens) = t :: Token.significant tokens :=
  List.filter_cons_of_pos (by simp [h.significant])

/-- A word can be read between angle brackets. -/
theorem Legible.pushed {t : Token} (h : t.Word) {tokens : List Token} (rest : Legible tokens) :
    Legible (pushOpening :: t :: pushClosing :: tokens) := by
  refine .cons .pushOpen trivial (.word h ?_ (.cons .pushClose trivial rest))
  exact h.stops_cons rfl (by decide) _

theorem source_pushed (t : Token) :
    source [pushOpening, t, pushClosing] =
      AuthScript.text "<" ++ t.text ++ AuthScript.text ">" := by
  rw [List.append_assoc]
  rfl

theorem significant_pushed {t : Token} (h : t.Word) (tokens : List Token) :
    significant (pushOpening :: t :: pushClosing :: tokens) =
      pushOpening :: t :: pushClosing :: significant tokens := by
  have opening : significant (pushOpening :: t :: pushClosing :: tokens) =
      pushOpening :: significant (t :: pushClosing :: tokens) := List.filter_cons_of_pos rfl
  have closing : significant (pushClosing :: tokens) = pushClosing :: significant tokens :=
    List.filter_cons_of_pos rfl
  rw [opening, h.significant_cons, closing]

/-- Words can be read with blanks between them. -/
theorem legible_intersperse {words : List Token} (h : ∀ t ∈ words, t.Word) :
    Legible (words.intersperse blank) := by
  induction words with
  | nil => exact .nil
  | cons t rest ih =>
      obtain ⟨first, others⟩ := List.forall_mem_cons.1 h
      cases rest with
      | nil => exact .word first first.stops_nil .nil
      | cons u rest =>
          rw [List.intersperse_cons_cons]
          refine .word first (first.stops_cons rfl (by decide) _)
            (.cons (.whitespace rfl (by simp)) ?_ (ih others))
          have next : u.Word := others u List.mem_cons_self
          cases rest with
          | nil => exact next.blank_stops _
          | cons v rest =>
              rw [List.intersperse_cons_cons]
              exact next.blank_stops _

theorem source_intersperse (words : List Token) :
    source (words.intersperse blank) =
      Bytes.join (AuthScript.text " ") (words.map Token.text) := by
  induction words with
  | nil => rfl
  | cons t rest ih =>
      cases rest with
      | nil => simp [source]
      | cons u rest =>
          have joined : Bytes.join (AuthScript.text " ") ((t :: u :: rest).map Token.text) =
              t.text ++ blank.text ++
                Bytes.join (AuthScript.text " ") ((u :: rest).map Token.text) :=
            rfl
          rw [List.intersperse_cons_cons, source_cons, source_cons, ih, joined, List.append_assoc]

theorem significant_intersperse {words : List Token} (h : ∀ t ∈ words, t.Word) :
    significant (words.intersperse blank) = words := by
  induction words with
  | nil => rfl
  | cons t rest ih =>
      obtain ⟨first, others⟩ := List.forall_mem_cons.1 h
      cases rest with
      | nil => exact first.significant_cons []
      | cons u rest =>
          rw [List.intersperse_cons_cons, first.significant_cons]
          exact congrArg (t :: ·) (ih others)

end Token

namespace Compiler

/-- Words with blanks between them are read as their nodes. -/
theorem treeOf?_join (bounds : Tree.Bounds) {words : List Token} {nodes : List Node}
    (h : ∀ t ∈ words, t.Word)
    (spelled : List.Forall₂ (Token.Spells bounds.digits) (words.map Token.bare) nodes) :
    (treeOf? bounds (Bytes.join (text " ") (words.map Token.text))).map Node.bareAll =
      some nodes := by
  rw [← Token.source_intersperse, (Token.legible_intersperse h).treeOf?,
    Token.significant_intersperse h,
    Node.ofTokens_of_reads (Token.reads_of_spells spelled) (Nat.zero_le _)]
  rfl

/-- A word by itself is read as its node. -/
theorem treeOf?_word (bounds : Tree.Bounds) {t : Token} {node : Node} (word : t.Word)
    (spelled : t.bare.Spells bounds.digits node) :
    (treeOf? bounds t.text).map Node.bareAll = some [node] :=
  treeOf?_join bounds (List.forall_mem_singleton.2 word) (.cons spelled .nil)

/-- A word between angle brackets is read as a push of its node. -/
theorem treeOf?_push (bounds : Tree.Bounds) {t : Token} {node : Node} (word : t.Word)
    (spelled : t.bare.Spells bounds.digits node) :
    (treeOf? bounds (text "<" ++ t.text ++ text ">")).map Node.bareAll =
      if 0 < bounds.brackets then some [.push [node] {}] else none := by
  have legible : Token.Legible [Token.pushOpening, t, Token.pushClosing] := .pushed word .nil
  rw [← Token.source_pushed, legible.treeOf?, Token.significant_pushed word]
  by_cases room : 0 < bounds.brackets
  · have read : Node.ofTokens bounds
        [Token.pushOpening, t.bare, Token.pushClosing] = .ok [.push [node] {}] :=
      Node.ofTokens_of_reads spelled.reads_push room
    rw [if_pos room]
    exact congrArg Except.toOption read
  · have closed : Tree.Progress.step bounds {} Token.pushOpening =
        .error ⟨.nestingTooDeep bounds.brackets, {}, [], []⟩ := if_pos (Nat.not_lt.1 room)
    rw [if_neg room]
    unfold Node.ofTokens
    rw [List.map_cons, List.foldlM_cons]
    have bare : Token.pushOpening.bare = Token.pushOpening := rfl
    rw [bare, closed]
    rfl

/-- A script compiles to what it is read as, wherever that stands. -/
theorem generate_iff_yields {c : Compiler} {id source b : Bytes} {data : Data} {nodes : List Node}
    (find : c.env.scripts.find? id = some source)
    (read : (treeOf? (c.env.bounds c.options) source).map Node.bareAll = some nodes) :
    c.generate id data = .ok b ↔ (c.context data).Yields { script := id } nodes b := by
  obtain ⟨own, hown, rfl⟩ := Option.map_eq_some_iff.1 read
  have program : c.env.program? c.options id = some own :=
    Environment.program?_eq_some.2 ⟨source, find, hown⟩
  have gives : (c.context data).Gives { script := id } b ↔
      (c.context data).Yields { script := id } own b := Context.gives_iff_yields program
  rw [generate_eq_ok, gives, Context.yields_bareAll]

end Compiler

end AuthScript
