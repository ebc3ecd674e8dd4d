import AuthScript.Proofs.Depth
import AuthScript.Proofs.Inert

/-!
# Where a source is at fault

A range points at a stretch of a source if it runs from what is before the stretch to its
end (`Range.Within`). So do the ranges of the tokens of a source and of the nodes that are
made of these, at any depth. A source that has no tokens is at fault at a character or at a
comment or a string without an end, and one that has no tree is at fault at a token.
-/

namespace AuthScript

/-- The range of a stretch of a source, given what is before it. -/
def Range.ofStretch (before inside : Bytes) : Range :=
  ⟨({} : Position).after before, ({} : Position).after (before ++ inside)⟩

theorem Range.start_ofStretch (before inside : Bytes) :
    (ofStretch before inside).start.offset = before.length := by
  simp [ofStretch, Position.offset_after]

theorem Range.stop_ofStretch (before inside : Bytes) :
    (ofStretch before inside).stop.offset = before.length + inside.length := by
  simp [ofStretch, Position.offset_after]

/-- A range points at a stretch of a source that is not empty. -/
def Range.Within (r : Range) (source : Bytes) : Prop :=
  ∃ before inside after, inside ≠ [] ∧ source = before ++ inside ++ after ∧
    r = .ofStretch before inside

/-- Such a range is not empty and does not leave the source. -/
theorem Range.Within.offsets {r : Range} {source : Bytes} (h : r.Within source) :
    r.start.offset < r.stop.offset ∧ r.stop.offset ≤ source.length := by
  obtain ⟨before, inside, after, some, rfl, rfl⟩ := h
  have length : 0 < inside.length := List.length_pos_iff.2 some
  rw [start_ofStretch, stop_ofStretch, List.length_append, List.length_append]
  omega

/-- The range that is given where there is none points nowhere. -/
theorem Range.not_within (source : Bytes) : ¬ ({} : Range).Within source :=
  fun h => absurd h.offsets.1 (Nat.lt_irrefl 0)

/-- If there is no value, that is an error as it is raised, in no script yet, with a cause
and a range that go together. -/
def FailsAt {α : Type} (S : Cause → Range → Prop) (x : Except CompileError α) : Prop :=
  ∀ e, x = .error e → ∃ cause range, e = ⟨cause, range, [], []⟩ ∧ S cause range

namespace FailsAt

variable {α β : Type} {S T : Cause → Range → Prop}

theorem ok (a : α) : FailsAt S (.ok a) := by
  intro e h
  cases h

theorem error {cause : Cause} {range : Range} (h : S cause range) :
    FailsAt S (.error ⟨cause, range, [], []⟩ : Except CompileError α) := by
  intro e he
  cases he
  exact ⟨cause, range, rfl, h⟩

theorem bind {x : Except CompileError α} {f : α → Except CompileError β} (hx : FailsAt S x)
    (hf : ∀ a, x = .ok a → FailsAt S (f a)) : FailsAt S (x >>= f) := by
  cases x with
  | error e =>
      intro e' he'
      obtain rfl : e = e' := Except.error.inj he'
      exact hx e rfl
  | ok a => exact hf a rfl

theorem mono {x : Except CompileError α} (h : FailsAt S x)
    (sub : ∀ cause range, S cause range → T cause range) : FailsAt T x := by
  intro e he
  obtain ⟨cause, range, rfl, hS⟩ := h e he
  exact ⟨cause, range, rfl, sub cause range hS⟩

end FailsAt

namespace Token

/-! ## Tokens -/

/-- A source is at fault at a character that cannot stand where it stands, or at a comment
or a string that it does not end. -/
inductive Unread (source : Bytes) : Cause → Range → Prop where
  | character {before : Bytes} {c : UInt8} {after : Bytes} {cause : Cause}
      (at_ : source = before ++ c :: after)
      (named : cause ∈ [.unexpectedCharacter c, .badHexCharacter c, .badIntegerCharacter c]) :
      Unread source cause (.ofStretch before [c])
  | comment {before body : Bytes} (at_ : source = before ++ AuthScript.text "/*" ++ body)
      (endless : ¬ AuthScript.text "*/" <:+: body) :
      Unread source .unterminatedComment (.ofStretch before (AuthScript.text "/*" ++ body))
  | string {before : Bytes} {quote : UInt8} {body : Bytes} (at_ : source = before ++ quote :: body)
      (quotes : quote = 0x27 ∨ quote = 0x22) (endless : quote ∉ body) :
      Unread source .unterminatedString (.ofStretch before (quote :: body))

theorem Unread.within {source : Bytes} {cause : Cause} {range : Range}
    (h : Unread source cause range) : range.Within source := by
  cases h with
  | @character before c after _ at_ =>
      exact ⟨before, [c], after, List.cons_ne_nil _ _, by simp [at_], rfl⟩
  | @comment before body at_ =>
      exact ⟨before, AuthScript.text "/*" ++ body, [], List.cons_ne_nil _ _, by simp [at_], rfl⟩
  | @string before quote body at_ =>
      exact ⟨before, _, [], List.cons_ne_nil _ _, by simp [at_], rfl⟩

theorem ofTextAt_failsAt (before b : Bytes) :
    FailsAt (Unread (before ++ b)) (ofTextAt (({} : Position).after before) b) := by
  generalize hp : ({} : Position).after before = p
  fun_induction ofTextAt p b generalizing before with
  | case1 => exact .ok []
  | case2 => exact .ok _
  | case3 p c rest kind more after scanned e failed ih =>
      subst hp
      have later := ih (before ++ c :: more) (Position.after_append {} before (c :: more))
      obtain ⟨hrest, _⟩ := scan_eq_token_iff.1 scanned
      intro e' he
      obtain rfl := Except.error.inj he
      obtain ⟨cause, range, rfl, unread⟩ := later e failed
      refine ⟨cause, range, rfl, ?_⟩
      simpa [hrest] using unread
  | case4 p c rest passed cause scanned =>
      subst hp
      have sound := scan_sound c rest
      rw [scanned] at sound
      obtain ⟨d, after, hpassed, named⟩ := sound
      refine .error ?_
      have range : characterRange ((({} : Position).after before).after passed)
          ((c :: rest).drop passed.length) = .ofStretch (before ++ passed) [d] := by
        rw [hpassed, List.drop_left, Range.ofStretch, Position.after_append _ (before ++ passed),
          Position.after_append _ before]
        rfl
      rw [range]
      exact .character (by rw [hpassed, List.append_assoc]) named
  | case5 p c rest cause scanned =>
      subst hp
      have sound := scan_sound c rest
      rw [scanned] at sound
      refine .error ?_
      rw [← Position.after_append]
      rcases sound with ⟨rfl, rfl, body, rfl, endless⟩ | ⟨rfl, quotes, endless⟩
      · exact .comment (List.append_assoc before (AuthScript.text "/*") body).symm endless
      · exact .string rfl quotes endless

/-- A source without tokens is at fault where the lexer says. -/
theorem ofText_failsAt (source : Bytes) : FailsAt (Unread source) (ofText source) :=
  ofTextAt_failsAt [] source

/-- A token stands where the tokens before it end. -/
theorem range_of_ofTextAt {p : Position} {b : Bytes} {first others : List Token} {t : Token}
    (h : ofTextAt p b = .ok (first ++ t :: others)) :
    t.text ≠ [] ∧ t.range = ⟨p.after (source first), p.after (source first ++ t.text)⟩ := by
  generalize htokens : first ++ t :: others = tokens at h
  fun_induction ofTextAt p b generalizing first tokens with
  | case1 =>
      obtain rfl := Except.ok.inj h
      exact absurd htokens (by simp)
  | case2 p c rest kind more after scanned tokens' ok ih =>
      obtain rfl := Except.ok.inj h
      cases first with
      | nil =>
          obtain ⟨rfl, rfl⟩ := List.cons.inj htokens
          exact ⟨List.cons_ne_nil _ _, rfl⟩
      | cons u first =>
          obtain ⟨rfl, htokens'⟩ := List.cons.inj htokens
          obtain ⟨some, hrange⟩ := ih tokens' htokens' ok
          refine ⟨some, ?_⟩
          have behind : ∀ b, (p.after (c :: more)).after b = p.after (c :: more ++ b) :=
            fun b => (Position.after_append p (c :: more) b).symm
          rw [hrange, behind, behind, source_cons, List.append_assoc]
  | case3 => cases h
  | case4 => cases h
  | case5 => cases h

theorem within_range {b : Bytes} {tokens : List Token} {t : Token} (h : ofText b = .ok tokens)
    (ht : t ∈ tokens) : t.range.Within b := by
  obtain ⟨first, others, rfl⟩ := List.append_of_mem ht
  obtain ⟨some, hrange⟩ := range_of_ofTextAt h
  have hb : source (first ++ t :: others) = b := flatten_text h
  refine ⟨source first, t.text, source others, some, ?_, hrange⟩
  rw [← hb, source_append, source_cons, List.append_assoc]

/-- The range from one token of a source to a later one. -/
theorem within_merge {b : Bytes} {first inner others : List Token} {t u : Token}
    (h : ofText b = .ok (first ++ t :: (inner ++ u :: others))) :
    (Range.merge t.range u.range).Within b := by
  obtain ⟨some, ht⟩ := range_of_ofTextAt h
  have ht : t.range = .ofStretch (source first) t.text := ht
  have split : first ++ t :: (inner ++ u :: others) = first ++ t :: inner ++ u :: others := by simp
  rw [split] at h
  obtain ⟨some', hu⟩ := range_of_ofTextAt h
  have hu : u.range = .ofStretch (source (first ++ t :: inner)) u.text := hu
  have hb : source (first ++ t :: inner ++ u :: others) = b := flatten_text h
  refine ⟨source first, t.text ++ source inner ++ u.text, source others, by simp [some], ?_, ?_⟩
  · rw [← hb]
    simp [source_append, source_cons]
  · have length : 0 < u.text.length := List.length_pos_iff.2 some'
    have before : (source (first ++ t :: inner)).length =
        (source first).length + t.text.length + (source inner).length := by
      simp [source_append, source_cons, Nat.add_assoc]
    have starts : t.range.start.offset ≤ u.range.start.offset := by
      rw [ht, hu, Range.start_ofStretch, Range.start_ofStretch]
      omega
    have stops : ¬ u.range.stop.offset ≤ t.range.stop.offset := by
      rw [ht, hu, Range.stop_ofStretch, Range.stop_ofStretch]
      omega
    rw [Range.merge, if_pos starts, if_neg stops, ht, hu]
    simp only [Range.ofStretch, source_append, source_cons, List.append_assoc]

/-- The kinds of tokens that open a bracket. -/
def Kind.Opens (kind : Kind) : Prop := kind = .pushOpen ∨ kind = .evalOpen

/-- The kinds of tokens that close a bracket. -/
def Kind.Closes (kind : Kind) : Prop := kind = .pushClose ∨ kind = .evalClose

/-- A token at which the tokens of a source spell no tree within bounds, and why. -/
inductive Blamed (bounds : Tree.Bounds) (tokens : List Token) (t : Token) : Cause → Prop where
  | crossed {opening : Token} (closes : t.kind.Closes) (earlier : opening ∈ tokens)
      (other : Tree.isPair opening.kind t.kind = false) :
      Blamed bounds tokens t (.crossedBracket t.text opening.text opening.range)
  | unmatched (bracket : t.kind.Opens ∨ t.kind.Closes) :
      Blamed bounds tokens t (.unmatchedBracket t.text)
  | tooDeep (opens : t.kind.Opens) : Blamed bounds tokens t (.nestingTooDeep bounds.brackets)
  | malformed {fault : Fault} (integer : t.kind = .integer)
      (parsed : Decimal.parse bounds.digits t.text = .error fault) :
      Blamed bounds tokens t (.malformedInteger fault.message)
  | emptyHex (hex : t.kind = .hex) (empty : t.text.drop 2 = []) :
      Blamed bounds tokens t (.emptyHex t.text)

theorem Blamed.mono {bounds : Tree.Bounds} {tokens tokens' : List Token} {t : Token}
    {cause : Cause} (h : Blamed bounds tokens t cause) (sub : tokens ⊆ tokens') :
    Blamed bounds tokens' t cause := by
  cases h with
  | crossed closes earlier other => exact .crossed closes (sub earlier) other
  | unmatched bracket => exact .unmatched bracket
  | tooDeep opens => exact .tooDeep opens
  | malformed integer parsed => exact .malformed integer parsed
  | emptyHex hex empty => exact .emptyHex hex empty

end Token

/-! ## Nodes -/

namespace Node

mutual

/-- A node and the nodes in it. -/
def parts : Node → List Node
  | push children r => push children r :: partsAll children
  | evaluation children r => evaluation children r :: partsAll children
  | node => [node]

/-- Nodes and the nodes in them, at any depth. -/
def partsAll : List Node → List Node
  | [] => []
  | node :: rest => parts node ++ partsAll rest

end

theorem partsAll_rest (node : Node) (rest : List Node) :
    partsAll rest ⊆ partsAll (node :: rest) :=
  fun _ h => List.mem_append_right _ h

theorem partsAll_head (node : Node) (rest : List Node) :
    partsAll [node] ⊆ partsAll (node :: rest) := by
  simp [partsAll]

theorem mem_parts_self (node : Node) : node ∈ parts node := by
  cases node <;> simp [parts]

theorem partsAll_first (node : Node) (rest : List Node) : node ∈ partsAll (node :: rest) :=
  List.mem_append_left _ (mem_parts_self node)

theorem partsAll_push (children : List Node) (range : Range) (rest : List Node) :
    partsAll children ⊆ partsAll (push children range :: rest) :=
  fun _ h => List.mem_append_left _ (by rw [parts]; exact List.mem_cons_of_mem _ h)

theorem partsAll_evaluation (children : List Node) (range : Range) (rest : List Node) :
    partsAll children ⊆ partsAll (evaluation children range :: rest) :=
  fun _ h => List.mem_append_left _ (by rw [parts]; exact List.mem_cons_of_mem _ h)

theorem mem_partsAll {part : Node} {nodes : List Node} :
    part ∈ partsAll nodes ↔ ∃ node ∈ nodes, part ∈ parts node := by
  induction nodes with
  | nil => simp [partsAll]
  | cons node rest ih => simp [partsAll, ih]

/-- The identifiers among the parts of nodes are the identifiers in these. -/
theorem mem_namesAll_iff {nodes : List Node} {name : Bytes} :
    name ∈ namesAll nodes ↔ ∃ range, identifier name range ∈ partsAll nodes := by
  induction nodes using nodesInduction with
  | nil => simp [namesAll, partsAll]
  | literal node rest hnode ih =>
      rw [namesAll_literal hnode, ih]
      cases hnode <;> simp [partsAll, parts]
  | identifier id range rest ih => simp [namesAll, names, partsAll, parts, ih, exists_or]
  | push children range rest inside ih =>
      simp [namesAll, names, partsAll, parts, inside, ih, exists_or]
  | evaluation children range rest inside ih =>
      simp [namesAll, names, partsAll, parts, inside, ih, exists_or]

/-- A node is made from tokens: from one, or from the brackets that it runs between. -/
def MadeFrom (tokens : List Token) : Node → Prop
  | integer _ r | hex _ r | utf8 _ r => ∃ t ∈ tokens, r = t.range
  | identifier name r => ∃ t ∈ tokens, t.kind = .identifier ∧ name = t.text ∧ r = t.range
  | push _ r | evaluation _ r => ∃ first t inner u others,
      tokens = first ++ t :: (inner ++ u :: others) ∧ r = Range.merge t.range u.range

theorem MadeFrom.within {b : Bytes} {tokens : List Token} {node : Node}
    (h : node.MadeFrom tokens) (tokenized : Token.ofText b = .ok tokens) :
    node.range.Within b := by
  cases node with
  | integer | hex | utf8 =>
      obtain ⟨t, ht, rfl⟩ := h
      exact Token.within_range tokenized ht
  | identifier =>
      obtain ⟨t, ht, _, _, rfl⟩ := h
      exact Token.within_range tokenized ht
  | push | evaluation =>
      obtain ⟨first, t, inner, u, others, rfl, rfl⟩ := h
      exact Token.within_merge tokenized

theorem MadeFrom.append {tokens : List Token} {node : Node} (h : node.MadeFrom tokens)
    (more : List Token) : node.MadeFrom (tokens ++ more) := by
  cases node with
  | integer | hex | utf8 =>
      obtain ⟨t, ht, hr⟩ := h
      exact ⟨t, List.mem_append_left _ ht, hr⟩
  | identifier =>
      obtain ⟨t, ht, hr⟩ := h
      exact ⟨t, List.mem_append_left _ ht, hr⟩
  | push | evaluation =>
      obtain ⟨first, t, inner, u, others, rfl, hr⟩ := h
      exact ⟨first, t, inner, u, others ++ more, by simp, hr⟩

/-- Tokens that spell no tree are at fault at one of them. -/
def Unspelled (bounds : Tree.Bounds) (tokens : List Token) (cause : Cause) (range : Range) :
    Prop :=
  ∃ t ∈ tokens, t.Blamed bounds tokens cause ∧ range = t.range

end Node

namespace Tree.Progress

/-- What has been read is made from the tokens that have been seen. -/
structure MadeFrom (seen : List Token) (p : Progress) : Prop where
  nodes : ∀ part ∈ Node.partsAll p.nodes, part.MadeFrom seen
  opening : ∀ frame ∈ p.frames, frame.opening ∈ seen ∧ frame.opening.kind.Opens
  before : ∀ frame ∈ p.frames, ∀ part ∈ Node.partsAll frame.before, part.MadeFrom seen

namespace MadeFrom

variable {seen : List Token} {p q : Progress} {t : Token}

theorem append (h : p.MadeFrom seen) (more : List Token) : p.MadeFrom (seen ++ more) :=
  ⟨fun part hpart => (h.nodes part hpart).append more,
    fun frame hframe => (h.opening frame hframe).imp_left (List.mem_append_left _),
    fun frame hframe part hpart => (h.before frame hframe part hpart).append more⟩

theorem add (h : p.MadeFrom seen) {node : Node} (made : ∀ part ∈ node.parts, part.MadeFrom seen) :
    (p.add node).MadeFrom seen := by
  refine ⟨fun part hpart => ?_, h.opening, h.before⟩
  rcases List.mem_append.1 hpart with hpart | hpart
  · exact made part hpart
  · exact h.nodes part hpart

end MadeFrom

theorem madeFrom_bracket {seen : List Token} {opening t : Token} {children : List Node}
    (earlier : opening ∈ seen) (inside : ∀ part ∈ Node.partsAll children, part.MadeFrom seen) :
    ∀ part ∈ (bracket opening children (Range.merge opening.range t.range)).parts,
      part.MadeFrom (seen ++ [t]) := by
  obtain ⟨first, inner, rfl⟩ := List.append_of_mem earlier
  have split : first ++ opening :: inner ++ [t] = first ++ opening :: (inner ++ t :: []) := by simp
  have inside' : ∀ part ∈ Node.partsAll children,
      part.MadeFrom (first ++ opening :: inner ++ [t]) :=
    fun part hpart => (inside part hpart).append [t]
  unfold bracket
  split <;> rw [Node.parts] <;> intro part hpart <;>
    rcases List.mem_cons.1 hpart with rfl | hpart
  · exact ⟨first, opening, inner, t, [], split, rfl⟩
  · exact inside' part hpart
  · exact ⟨first, opening, inner, t, [], split, rfl⟩
  · exact inside' part hpart

theorem ascend_madeFrom {seen : List Token} {p q : Progress} {t : Token} (h : p.MadeFrom seen)
    (hq : p.ascend t = .ok q) : q.MadeFrom (seen ++ [t]) := by
  obtain ⟨frames, nodes⟩ := p
  cases frames with
  | nil => cases hq
  | cons frame outer =>
      unfold ascend at hq
      simp only at hq
      split at hq
      · obtain rfl := Except.ok.inj hq
        have later := h.append [t]
        refine ⟨fun part hpart => ?_, ?_, ?_⟩
        · rcases List.mem_append.1 hpart with hpart | hpart
          · refine madeFrom_bracket (h.opening frame List.mem_cons_self).1 ?_ part hpart
            intro part hpart
            refine h.nodes part ?_
            rw [Node.mem_partsAll] at hpart ⊢
            simpa using hpart
          · exact later.before frame List.mem_cons_self part hpart
        · exact fun f hf => later.opening f (List.mem_cons_of_mem _ hf)
        · exact fun f hf => later.before f (List.mem_cons_of_mem _ hf)
      · cases hq

/-- A token more makes no nodes but from itself and the tokens that have been seen. -/
theorem step_madeFrom {bounds : Bounds} {seen : List Token} {p q : Progress} {t : Token}
    (h : p.MadeFrom seen) (hq : p.step bounds t = .ok q) : q.MadeFrom (seen ++ [t]) := by
  have later := h.append [t]
  have last : t ∈ seen ++ [t] := by simp
  unfold step at hq
  cases hk : t.kind with
  | identifier =>
      simp only [hk] at hq
      obtain rfl := Except.ok.inj hq
      refine later.add fun part hpart => ?_
      obtain rfl : part = _ := by simpa [Node.parts] using hpart
      exact ⟨t, last, hk, rfl, rfl⟩
  | integer =>
      simp only [hk] at hq
      cases hv : Decimal.parse bounds.digits t.text with
      | error fault => simp [hv] at hq
      | ok value =>
          simp only [hv] at hq
          obtain rfl := Except.ok.inj hq
          refine later.add fun part hpart => ?_
          obtain rfl : part = _ := by simpa [Node.parts] using hpart
          exact ⟨t, last, rfl⟩
  | hex =>
      simp only [hk] at hq
      split at hq
      · cases hq
      · obtain rfl := Except.ok.inj hq
        refine later.add fun part hpart => ?_
        obtain rfl : part = _ := by simpa [Node.parts] using hpart
        exact ⟨t, last, rfl⟩
  | utf8 =>
      simp only [hk] at hq
      obtain rfl := Except.ok.inj hq
      refine later.add fun part hpart => ?_
      obtain rfl : part = _ := by simpa [Node.parts] using hpart
      exact ⟨t, last, rfl⟩
  | pushOpen | evalOpen =>
      have opens : t.kind.Opens := by simp [Token.Kind.Opens, hk]
      simp only [hk] at hq
      obtain ⟨_, rfl⟩ := descend_eq_ok.1 hq
      refine ⟨by simp [Node.partsAll], ?_, ?_⟩
      · exact List.forall_mem_cons.2 ⟨⟨last, opens⟩, later.opening⟩
      · exact List.forall_mem_cons.2 ⟨later.nodes, later.before⟩
  | pushClose | evalClose =>
      simp only [hk] at hq
      exact ascend_madeFrom h hq
  | lineComment | blockComment | whitespace =>
      simp only [hk] at hq
      obtain rfl := Except.ok.inj hq
      exact later

theorem ascend_failsAt {bounds : Bounds} {seen : List Token} {p : Progress} {t : Token}
    (h : p.MadeFrom seen) (closes : t.kind.Closes) :
    FailsAt (Node.Unspelled bounds (seen ++ [t])) (p.ascend t) := by
  have last : t ∈ seen ++ [t] := by simp
  obtain ⟨frames, nodes⟩ := p
  cases frames with
  | nil => exact .error ⟨t, last, .unmatched (.inr closes), rfl⟩
  | cons frame outer =>
      have earlier : frame.opening ∈ seen ++ [t] :=
        List.mem_append_left _ (h.opening frame List.mem_cons_self).1
      unfold ascend
      simp only
      split
      · exact .ok _
      · rename_i other
        exact .error ⟨t, last, .crossed closes earlier (by simpa using other), rfl⟩

theorem step_failsAt {bounds : Bounds} {seen : List Token} {p : Progress} {t : Token}
    (h : p.MadeFrom seen) : FailsAt (Node.Unspelled bounds (seen ++ [t])) (p.step bounds t) := by
  have last : t ∈ seen ++ [t] := by simp
  have descends : t.kind.Opens →
      FailsAt (Node.Unspelled bounds (seen ++ [t])) (p.descend bounds.brackets t) := by
    intro opens
    unfold descend
    split
    · exact .error ⟨t, last, .tooDeep opens, rfl⟩
    · exact .ok _
  unfold step
  cases hk : t.kind with
  | integer =>
      simp only
      split
      · exact .ok _
      · rename_i fault parsed
        exact .error ⟨t, last, .malformed hk parsed, rfl⟩
  | hex =>
      simp only
      split
      · rename_i empty
        exact .error ⟨t, last, .emptyHex hk (List.isEmpty_iff.1 empty), rfl⟩
      · exact .ok _
  | pushOpen => exact descends (.inl hk)
  | evalOpen => exact descends (.inr hk)
  | pushClose => exact ascend_failsAt h (.inl hk)
  | evalClose => exact ascend_failsAt h (.inr hk)
  | _ => exact .ok _

/-- The tokens that are read one after another make the nodes, or one of them is at fault. -/
theorem foldlM_madeFrom {bounds : Bounds} {seen tokens : List Token} {p : Progress}
    (h : p.MadeFrom seen) :
    FailsAt (Node.Unspelled bounds (seen ++ tokens)) (tokens.foldlM (step bounds) p) ∧
      ∀ q, tokens.foldlM (step bounds) p = .ok q → q.MadeFrom (seen ++ tokens) := by
  induction tokens generalizing p seen with
  | nil =>
      rw [List.append_nil]
      refine ⟨.ok p, fun q hq => ?_⟩
      obtain rfl : p = q := Except.ok.inj hq
      exact h
  | cons t tokens ih =>
      have split : seen ++ t :: tokens = seen ++ [t] ++ tokens := by simp
      rw [split, List.foldlM_cons]
      constructor
      · refine .bind ((step_failsAt h).mono ?_) fun q hq => (ih (step_madeFrom h hq)).1
        rintro cause range ⟨u, hu, blamed, hrange⟩
        have sub : seen ++ [t] ⊆ seen ++ [t] ++ tokens := List.subset_append_left _ _
        exact ⟨u, sub hu, blamed.mono sub, hrange⟩
      · intro q hq
        obtain ⟨r, hr, hrest⟩ := except_bind_eq_ok.1 hq
        exact (ih (step_madeFrom h hr)).2 q hrest

end Tree.Progress

namespace Node

theorem foldlM_madeFrom_start (bounds : Tree.Bounds) (tokens : List Token) :
    FailsAt (Unspelled bounds tokens) (tokens.foldlM (Tree.Progress.step bounds) {}) ∧
      ∀ q, tokens.foldlM (Tree.Progress.step bounds) {} = .ok q → q.MadeFrom tokens := by
  have start : (({} : Tree.Progress).MadeFrom []) := ⟨by simp [partsAll], by simp, by simp⟩
  exact Tree.Progress.foldlM_madeFrom start

/-- Nodes are made from the tokens that spell them, at any depth. -/
theorem madeFrom_of_ofTokens {bounds : Tree.Bounds} {tokens : List Token} {nodes : List Node}
    (h : ofTokens bounds tokens = .ok nodes) : ∀ part ∈ partsAll nodes, part.MadeFrom tokens := by
  obtain ⟨p, hp, hfinish⟩ := except_bind_eq_ok.1 h
  obtain ⟨_, rfl⟩ := Tree.Progress.finish_eq_ok.1 hfinish
  intro part hpart
  refine ((foldlM_madeFrom_start bounds tokens).2 p hp).nodes part ?_
  rw [mem_partsAll] at hpart ⊢
  simpa using hpart

/-- Tokens without a tree are at fault where the parser says. -/
theorem ofTokens_failsAt (bounds : Tree.Bounds) (tokens : List Token) :
    FailsAt (Unspelled bounds tokens) (ofTokens bounds tokens) := by
  refine .bind (foldlM_madeFrom_start bounds tokens).1 fun p hp => ?_
  have made := (foldlM_madeFrom_start bounds tokens).2 p hp
  unfold Tree.Progress.finish
  split
  · exact .ok _
  · rename_i frame outer hframes
    obtain ⟨earlier, opens⟩ := made.opening frame (by simp [hframes])
    exact .error ⟨frame.opening, earlier, .unmatched (.inl opens), rfl⟩

end Node

end AuthScript
