import AuthScript.Proofs.Expansion
import AuthScript.Proofs.Inert
import AuthScript.Proofs.Outcome
import AuthScript.Proofs.Preimage

/-!
# White space and comments mean nothing

The parser passes over white space and comments and looks at no ranges, so what it reads
is up to ranges a function of the kinds and texts of the other tokens (`Node.ofTokens_bare`).
White space and comments that are put between the tokens of a source leave these as they
are, and ranges have no part in what a script compiles to. So they change neither the
bytecode of any script nor the stage in which it fails (`generate_insert`).
-/

namespace AuthScript

/-! ## Parsing without ranges -/

theorem except_toOption_bind {ε α β : Type} (x : Except ε α) (f : α → Except ε β) :
    (x >>= f).toOption = x.toOption.bind fun a => (f a).toOption := by
  cases x <;> rfl

namespace Node

theorem bareAll_eq_map (nodes : List Node) : bareAll nodes = nodes.map bare := by
  induction nodes with
  | nil => rfl
  | cons node rest ih => rw [bareAll, List.map_cons, ih]

end Node

namespace Tree

/-- An open bracket and the nodes before it without ranges. -/
def Frame.bare (frame : Frame) : Frame := ⟨frame.opening.bare, Node.bareAll frame.before⟩

theorem bare_bracket (opening : Token) (children : List Node) (range : Range) :
    (bracket opening children range).bare = bracket opening.bare (Node.bareAll children) {} := by
  have kind : opening.bare.kind = opening.kind := rfl
  unfold bracket
  rw [kind]
  split <;> rw [Node.bare]

namespace Progress

/-- What has been read without ranges. -/
def bare (p : Progress) : Progress := ⟨p.frames.map Frame.bare, Node.bareAll p.nodes⟩

theorem bare_add (p : Progress) (node : Node) : (p.add node).bare = p.bare.add node.bare := by
  rw [bare, add, Node.bareAll]
  rfl

theorem descend_bare (limit : Nat) (p : Progress) (t : Token) :
    (p.bare.descend limit t.bare).toOption = (p.descend limit t).toOption.map bare := by
  have length : p.bare.frames.length = p.frames.length := List.length_map _
  unfold descend
  rw [length]
  split
  · rfl
  · simp [Except.toOption, bare, Frame.bare, Node.bareAll]

theorem ascend_bare (p : Progress) (t : Token) :
    (p.bare.ascend t.bare).toOption = (p.ascend t).toOption.map bare := by
  obtain ⟨frames, nodes⟩ := p
  cases frames with
  | nil => rfl
  | cons frame outer =>
      have kinds : frame.bare.opening.kind = frame.opening.kind ∧ t.bare.kind = t.kind :=
        ⟨rfl, rfl⟩
      simp only [ascend, bare, List.map_cons, kinds]
      split
      · have whole : Range.merge frame.opening.bare.range t.bare.range = {} := Range.merge_self {}
        simp [Except.toOption, bare, Frame.bare, Node.bareAll, bare_bracket, Node.bareAll_eq_map,
          whole]
      · rfl

/-- A token is read without its range as with it. -/
theorem step_bare (bounds : Bounds) (p : Progress) (t : Token) :
    (p.bare.step bounds t.bare).toOption = (p.step bounds t).toOption.map bare := by
  have kind : t.bare.kind = t.kind := rfl
  have text : t.bare.text = t.text := rfl
  unfold step
  rw [kind, text]
  cases t.kind with
  | identifier | utf8 => simp only [Except.toOption, Option.map_some, bare_add, Node.bare]; rfl
  | integer =>
      cases Decimal.parse bounds.digits t.text with
      | error fault => rfl
      | ok value => simp only [Except.toOption, Option.map_some, bare_add, Node.bare]; rfl
  | hex =>
      simp only
      split
      · rfl
      · simp only [Except.toOption, Option.map_some, bare_add, Node.bare]; rfl
  | pushOpen | evalOpen => exact descend_bare bounds.brackets p t
  | pushClose | evalClose => exact ascend_bare p t
  | lineComment | blockComment | whitespace => rfl

theorem foldlM_bare (bounds : Bounds) (p : Progress) (tokens : List Token) :
    ((tokens.map Token.bare).foldlM (step bounds) p.bare).toOption =
      (tokens.foldlM (step bounds) p).toOption.map bare := by
  induction tokens generalizing p with
  | nil => rfl
  | cons t tokens ih =>
      have first := step_bare bounds p t
      rw [List.map_cons, List.foldlM_cons, List.foldlM_cons, except_toOption_bind,
        except_toOption_bind, first]
      cases p.step bounds t with
      | error e => rfl
      | ok q => exact ih q

/-- Tokens that mean nothing are passed over. -/
theorem foldlM_significant (bounds : Bounds) (p : Progress) (tokens : List Token) :
    (Token.significant tokens).foldlM (step bounds) p = tokens.foldlM (step bounds) p := by
  induction tokens generalizing p with
  | nil => rfl
  | cons t tokens ih =>
      unfold Token.significant at ih ⊢
      rw [List.filter_cons, List.foldlM_cons]
      by_cases inert : t.kind.isTrivia = true
      · have passed : p.step bounds t = .ok p := by
          unfold step
          cases hk : t.kind <;> rw [hk] at inert <;> first | rfl | cases inert
        rw [if_neg (by simpa using inert), passed]
        exact ih p
      · rw [if_pos (by simpa using inert), List.foldlM_cons]
        exact congrArg _ (funext ih)

theorem finish_bare (p : Progress) :
    p.bare.finish.toOption = p.finish.toOption.map Node.bareAll := by
  obtain ⟨frames, nodes⟩ := p
  cases frames with
  | nil => simp [finish, bare, Except.toOption, Node.bareAll_eq_map]
  | cons frame outer => rfl

end Progress

end Tree

/-- What tokens spell is, up to ranges, a function of those that mean something. -/
theorem Node.ofTokens_bare (bounds : Tree.Bounds) (tokens : List Token) :
    (ofTokens bounds tokens).toOption.map bareAll =
      (ofTokens bounds ((Token.significant tokens).map Token.bare)).toOption := by
  have start : (({} : Tree.Progress).bare) = {} := rfl
  have reads := Tree.Progress.foldlM_bare bounds {} (Token.significant tokens)
  rw [Tree.Progress.foldlM_significant, start] at reads
  unfold ofTokens
  rw [except_toOption_bind, except_toOption_bind, reads]
  cases tokens.foldlM (Tree.Progress.step bounds) {} with
  | error e => rfl
  | ok p => exact (Tree.Progress.finish_bare p).symm

/-! ## Sources -/

/-- Sources with the same tokens, but for those that mean nothing, are read alike. -/
theorem Context.read_outcome {ctx : Context} {b b' : Bytes} {tokens tokens' : List Token}
    (h : Token.ofText b = .ok tokens) (h' : Token.ofText b' = .ok tokens')
    (same : (Token.significant tokens').map Token.bare =
      (Token.significant tokens).map Token.bare) :
    (read ctx b).outcome Node.bareAll = (read ctx b').outcome Node.bareAll := by
  let bounds : Tree.Bounds := ctx.env.bounds ctx.options
  have spelled : (Node.ofTokens bounds tokens).toOption.map Node.bareAll =
      (Node.ofTokens bounds tokens').toOption.map Node.bareAll := by
    rw [Node.ofTokens_bare, Node.ofTokens_bare, same]
  have ends : (Run.ofExcept (Node.ofTokens bounds tokens)).outcome Node.bareAll =
      (Run.ofExcept (Node.ofTokens bounds tokens')).outcome Node.bareAll := by
    rw [Run.outcome_ofExcept, Run.outcome_ofExcept]
    exact (Node.ofTokens_failsIn _ tokens).mapError_congr (Node.ofTokens_failsIn _ tokens') spelled
  have told : ∀ message message' : Bytes,
      (Run.tell .trace .lexer message).outcome id = (Run.tell .trace .lexer message').outcome id :=
    fun _ _ => rfl
  unfold read
  rw [h, h', Run.ofExcept, Run.ofExcept, Run.done_bind, Run.done_bind]
  refine Run.outcome_bind (told _ _) fun _ _ _ => ?_
  refine Run.outcome_bind ends fun nodes nodes' hnodes => ?_
  exact congrArg Except.ok hnodes

namespace Compiler

variable {c : Compiler} {s source inserted : Bytes} {first others : List Token}

/-- The outcome of a compilation is what is left of its result if only the stage of an
error is looked at. -/
theorem mapError_generate (c : Compiler) (root : Bytes) (data : Data) :
    (c.generate root data).mapError CompileError.stage =
      ((c.context data).compile root).outcome Compiled.bytecode := by
  have run : c.generate root data =
      (((c.context data).compile root).result.map Compiled.bytecode).mapError (errorOf root) := rfl
  rw [run, Run.outcome]
  rcases ((c.context data).compile root).result with (e | what) | compiled <;> rfl

/-- White space or a comment that is put between tokens of a script, unless behind a line
comment, leaves the tokens as they are that mean something. It changes neither the bytecode
of any script nor the stage in which it fails. -/
theorem generate_insert (known : c.env.scripts.find? s = some source)
    (tokenized : Token.ofText source = .ok (first ++ others))
    (closed : ∀ t, first.getLast? = some t → t.kind ≠ .lineComment)
    (inert : Token.Inert inserted) :
    let source' := Token.source first ++ inserted ++ Token.source others
    (∃ tokens, Token.ofText source' = .ok tokens ∧
      (Token.significant tokens).map (fun t => (t.kind, t.text)) =
        (Token.significant (first ++ others)).map fun t => (t.kind, t.text)) ∧
    ∀ root data,
      ((c.withSource s source').generate root data).mapError CompileError.stage =
        (c.generate root data).mapError CompileError.stage := by
  intro source'
  obtain ⟨tokens, htokens, same⟩ := Token.ofText_insert tokenized closed inert
  refine ⟨⟨tokens, htokens, ?_⟩, fun root data => ?_⟩
  · have words := congrArg (List.map fun t => (t.kind, t.text)) same
    rwa [List.map_map, List.map_map] at words
  · rw [mapError_generate, mapError_generate]
    have contains : c.env.scripts.contains s = true :=
      (Table.contains_iff_find? _ _).2 ⟨source, known⟩
    have keeps : (c.context data).Keeps (c.env.scripts.insert s source') :=
      .insert rfl contains source'
    refine (Context.enter_outcome keeps ?_ { script := root }).symm
    intro id b hb
    by_cases changed : id = s
    · subst changed
      obtain rfl := Option.some.inj (known.symm.trans hb)
      exact ⟨source', by simp, Context.read_outcome tokenized htokens same⟩
    · refine ⟨b, ?_, rfl⟩
      rw [Table.find?_insert, if_neg changed]
      exact hb

theorem generate_insert_in_lock :
    let c : Compiler := { env := lockedByOwner }
    c.env.scripts.find? (text "lock") = some (text "OP_1 <data>") ∧
      Token.Inert (text "// no signature\n") ∧
      ((c.withSource (text "lock") (text "OP_1 // no signature\n<data>")).generate (text "unlock")
          dataOfOwner).mapError CompileError.stage =
        (c.generate (text "unlock") dataOfOwner).mapError CompileError.stage := by
  intro c
  have known : c.env.scripts.find? (text "lock") = some (text "OP_1 <data>") := rfl
  have inside : (0x0a : UInt8) ∉ text " no signature" := by decide
  have inert : Token.Inert (text "// no signature\n") := .lineComment inside
  let first : List Token := [
    ⟨.identifier, text "OP_1", ⟨⟨1, 1, 0⟩, ⟨1, 5, 4⟩⟩⟩,
    ⟨.whitespace, text " ", ⟨⟨1, 5, 4⟩, ⟨1, 6, 5⟩⟩⟩]
  let others : List Token := [
    ⟨.pushOpen, text "<", ⟨⟨1, 6, 5⟩, ⟨1, 7, 6⟩⟩⟩,
    ⟨.identifier, text "data", ⟨⟨1, 7, 6⟩, ⟨1, 11, 10⟩⟩⟩,
    ⟨.pushClose, text ">", ⟨⟨1, 11, 10⟩, ⟨1, 12, 11⟩⟩⟩]
  have tokenized : Token.ofText (text "OP_1 <data>") = .ok (first ++ others) := by
    refine Token.ofTextAt_of_scan rfl ?_
    refine Token.ofTextAt_of_scan rfl ?_
    refine Token.ofTextAt_of_scan rfl ?_
    refine Token.ofTextAt_of_scan rfl ?_
    refine Token.ofTextAt_of_scan rfl ?_
    rw [Token.ofTextAt]
  have closed : ∀ t, first.getLast? = some t → t.kind ≠ .lineComment := by
    intro t ht
    obtain rfl := Option.some.inj ht
    decide
  obtain ⟨_, same⟩ := generate_insert known tokenized closed inert
  exact ⟨known, inert, same (text "unlock") dataOfOwner⟩

end Compiler

end AuthScript
