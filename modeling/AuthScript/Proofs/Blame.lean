import AuthScript.Proofs.Part
import AuthScript.Proofs.Push
import AuthScript.Proofs.Site

/-!
# What is to blame for an error

An error that is raised in a script has a cause and a range. `Blames` says which causes can
be found at which nodes, and `Faulty` which causes and ranges go together in a script: the
range is that of a node to blame (`BlamesIn`), or the cause is that the locking script that
an identifier covers is missing. In that case alone the range says nothing.

A push that is too long is found when the bytecode is generated, behind the resolution of
all nodes, so `generateAll_overlong` follows the resolved nodes back to the nodes they were.
-/

namespace AuthScript

namespace Node

/-- A push or an evaluation. -/
inductive IsBracket : Node → Prop where
  | push (children : List Node) (range : Range) : IsBracket (.push children range)
  | evaluation (children : List Node) (range : Range) : IsBracket (.evaluation children range)

end Node

namespace Context

/-- Why an identifier in a script does not come to bytes, where the scripts that it refers
to are not at fault. -/
inductive Unresolved (ctx : Context) (p : Place) (name : Bytes) : Cause → Prop where
  | meaningless {cause : Cause} (meaning : Meaning.ofName ctx.env name = .error cause) :
      Unresolved ctx p name cause
  | unserved {access : Access} (meaning : Meaning.ofName ctx.env name = .ok (.variable_ access))
      (unserved : access.capability? = none) : Unresolved ctx p name (access.failure name)
  | unlocksNothing {access : Access}
      (meaning : Meaning.ofName ctx.env name = .ok (.variable_ access))
      (needs : access.needsCovered ctx.data name = true)
      (unlocks : ctx.env.unlocks.find? p.script = none) :
      Unresolved ctx p name (.unlocksNothing name p.script)
  | signsUnknown {access : Access} {target : Bytes}
      (meaning : Meaning.ofName ctx.env name = .ok (.variable_ access))
      (signs : access.signedScript? = some target)
      (missing : ctx.env.scripts.contains target = false) :
      Unresolved ctx p name (.signsUnknownScript name target)
  | refused {q : Place} {access : Access} {cap : Capability} {covered signed : Option Bytes}
      {fault : Fault} (meaning : Meaning.ofName ctx.env name = .ok (.variable_ access))
      (serves : access.capability? = some cap) (inside : q.chain = p.chain)
      (covers : ctx.Covers q name access covered) (signs : ctx.Signs q access signed)
      (answer : (ctx.invoker.operation ctx.env.operations cap
        (access.request name p.script covered signed) ctx.data).value = .error (.refused fault)) :
      Unresolved ctx p name (.refused fault)
  | cycle {t : Bytes} (leads : ctx.LeadsTo p.script name t) (again : t ∈ p.chain) :
      Unresolved ctx p name (.referenceCycle p.chain t)
  | tooDeep {t : Bytes} (leads : ctx.LeadsTo p.script name t)
      (deep : ctx.options.referenceDepth < p.chain.length) :
      Unresolved ctx p name (.referenceTooDeep ctx.options.referenceDepth t)

/-- A node in a script is to blame for a cause. -/
inductive Blames (ctx : Context) (p : Place) : Node → Cause → Prop where
  | oddHex {digits : Bytes} (odd : digits.length % 2 ≠ 0) (range : Range) :
      Blames ctx p (.hex digits range) (.oddHex digits)
  | invalidHex {digits : Bytes} (invalid : Hex.decode? digits = none) (range : Range) :
      Blames ctx p (.hex digits range) (.invalidHex digits)
  | identifier {name : Bytes} {cause : Cause} (unresolved : ctx.Unresolved p name cause)
      (range : Range) : Blames ctx p (.identifier name range) cause
  | pushTooLong {q : Place} {children : List Node} {contents : Bytes} (inside : q.chain = p.chain)
      (yields : ctx.Yields q children contents) (long : Push.maxLength < contents.length)
      (range : Range) : Blames ctx p (.push children range) (.pushTooLong contents.length)
  | bracketsTooDeep {node : Node} (bracket : node.IsBracket) :
      Blames ctx p node (.bracketsTooDeep ctx.options.nestingDepth)
  | evaluationTooDeep (children : List Node) (range : Range) :
      Blames ctx p (.evaluation children range) (.evaluationTooDeep ctx.options.evaluationDepth)
  | evaluation {q : Place} {children : List Node} {range : Range} {program : Bytes}
      {failure : EvaluationFailure} (inside : q.chain = p.chain)
      (yields : ctx.Yields q children program)
      (fails : (evaluate ctx.invoker ctx.env program range).value =
        .error ⟨.evaluation range failure, range, [], []⟩) :
      Blames ctx p (.evaluation children range) (.evaluation range failure)

/-- One of the nodes, at any depth, is to blame for a cause, and the range is its range. -/
def BlamesIn (ctx : Context) (p : Place) (nodes : List Node) (cause : Cause) (range : Range) :
    Prop :=
  ∃ node ∈ Node.partsAll nodes, ctx.Blames p node cause ∧ range = node.range

/-- One of the nodes, at any depth, is a push whose contents are too long. -/
inductive Overlong (ctx : Context) (p : Place) (nodes : List Node) : Cause → Range → Prop where
  | push {q : Place} {children : List Node} {range : Range} {contents : Bytes}
      (part : .push children range ∈ Node.partsAll nodes) (inside : q.chain = p.chain)
      (yields : ctx.Yields q children contents) (long : Push.maxLength < contents.length) :
      Overlong ctx p nodes (.pushTooLong contents.length) range

variable {ctx : Context} {p q : Place}

theorem Overlong.mono {nodes others : List Node} {cause : Cause} {range : Range}
    (h : ctx.Overlong q nodes cause range) (same : q.chain = p.chain)
    (sub : Node.partsAll nodes ⊆ Node.partsAll others) : ctx.Overlong p others cause range := by
  obtain ⟨part, inside, yields, long⟩ := h
  exact .push (sub part) (inside.trans same) yields long

theorem Overlong.blames {nodes : List Node} {cause : Cause} {range : Range}
    (h : ctx.Overlong p nodes cause range) : ctx.BlamesIn p nodes cause range := by
  obtain ⟨part, inside, yields, long⟩ := h
  exact ⟨_, part, .pushTooLong inside yields long _, rfl⟩

/-! ## Generating bytecode -/

theorem generate_push_overlong {children : List Node} {range : Range} {resolved : List Resolved}
    (h : (resolveAll ctx ctx.enter p.inBracket children).result = .ok resolved)
    (inside : FailsAt (ctx.Overlong p.inBracket children) (Resolved.generateAll resolved)) :
    FailsAt (ctx.Overlong p [.push children range]) (Resolved.push resolved range).generate := by
  have same : p.inBracket.chain = p.chain := rfl
  rw [Resolved.generate]
  cases hcontents : Resolved.generateAll resolved with
  | error e =>
      rw [hcontents] at inside
      exact inside.mono fun _ _ long => long.mono same (Node.partsAll_push children range [])
  | ok contents =>
      simp only [Push.encodeAt]
      cases hpush : Push.encode? contents with
      | some b => exact .ok b
      | none =>
          have long : Push.maxLength < contents.length := by
            refine Nat.not_le.1 fun fits => ?_
            cases hpush.symm.trans (Push.encode?_eq_some.2 ⟨fits, rfl⟩)
          exact .error (.push (Node.partsAll_first _ _) same ⟨resolved, h, hcontents⟩ long)

theorem resolveAll_cons_eq_ok {compile : Place → Run Compiled} {node : Node} {rest : List Node}
    {resolved : List Resolved} :
    (resolveAll ctx compile p (node :: rest)).result = .ok resolved ↔
      ∃ r rs, (resolve ctx compile p node).result = .ok r ∧
        (resolveAll ctx compile p rest).result = .ok rs ∧ r :: rs = resolved := by
  rw [resolveAll]
  simp only [Run.bind_eq_ok, Run.pure_eq, Except.ok.injEq]
  constructor
  · rintro ⟨r, hr, rs, hrs, rfl⟩
    exact ⟨r, rs, hr, hrs, rfl⟩
  · rintro ⟨r, rs, hr, hrs, rfl⟩
    exact ⟨r, hr, rs, hrs, rfl⟩

/-- Only the bytes of pushes are generated from other bytes. -/
theorem generate_eq_ok_of_resolve {node : Node} {r : Resolved}
    (unpushed : ∀ children range, node ≠ .push children range)
    (h : (resolve ctx ctx.enter p node).result = .ok r) : ∃ b, r.generate = .ok b := by
  cases node with
  | integer value range | utf8 value range =>
      rw [resolve] at h
      obtain rfl := Except.ok.inj h
      exact ⟨_, by rw [Resolved.generate]⟩
  | hex digits range =>
      rw [resolve] at h
      obtain ⟨b, _, hr⟩ := Run.bind_eq_ok.1 h
      obtain rfl := Except.ok.inj hr
      exact ⟨b, by rw [Resolved.generate]⟩
  | identifier name range =>
      rw [resolve, resolveIdentifier_eq_ok] at h
      cases hm : Meaning.ofName ctx.env name with
      | error cause => simp [hm] at h
      | ok meaning =>
          cases meaning with
          | opcode op =>
              simp only [hm] at h
              exact ⟨[op], by rw [← h, Resolved.generate]⟩
          | script | variable_ =>
              simp only [hm] at h
              obtain ⟨b, _, rfl⟩ := h
              exact ⟨b, by rw [Resolved.generate]⟩
  | push children range => exact absurd rfl (unpushed children range)
  | evaluation children range =>
      rw [resolve] at h
      obtain ⟨q, _, h⟩ := Run.bind_eq_ok.1 h
      obtain ⟨q', _, h⟩ := Run.bind_eq_ok.1 h
      obtain ⟨resolved, _, h⟩ := Run.bind_eq_ok.1 h
      obtain ⟨_, b, _, _, rfl⟩ := finishEvaluation_eq_ok.1 h
      exact ⟨b, by rw [Resolved.generate]⟩

theorem generateAll_cons_overlong {node : Node} {rest : List Node} {r : Resolved}
    {rs : List Resolved} (first : FailsAt (ctx.Overlong p [node]) r.generate)
    (others : FailsAt (ctx.Overlong p rest) (Resolved.generateAll rs)) :
    FailsAt (ctx.Overlong p (node :: rest)) (Resolved.generateAll (r :: rs)) := by
  have head : Node.partsAll [node] ⊆ Node.partsAll (node :: rest) := Node.partsAll_head node rest
  rw [Resolved.generateAll]
  cases hown : r.generate with
  | error e =>
      rw [hown] at first
      exact first.mono fun _ _ long => long.mono rfl head
  | ok own =>
      cases hother : Resolved.generateAll rs with
      | error e =>
          rw [hother] at others
          exact others.mono fun _ _ long => long.mono rfl (Node.partsAll_rest node rest)
      | ok other => exact .ok _

/-- Where the bytecode of resolved nodes cannot be generated, a push is too long among the nodes
that they were. -/
theorem generateAll_overlong {nodes : List Node} {resolved : List Resolved}
    (h : (resolveAll ctx ctx.enter p nodes).result = .ok resolved) :
    FailsAt (ctx.Overlong p nodes) (Resolved.generateAll resolved) := by
  have given : ∀ {p : Place} {node : Node} {r : Resolved},
      (∀ children range, node ≠ .push children range) →
      (resolve ctx ctx.enter p node).result = .ok r →
      FailsAt (ctx.Overlong p [node]) r.generate := by
    intro p node r unpushed hr
    obtain ⟨b, hb⟩ := generate_eq_ok_of_resolve unpushed hr
    rw [hb]
    exact .ok b
  induction nodes using Node.nodesInduction generalizing p resolved with
  | nil =>
      rw [resolveAll] at h
      obtain rfl := Except.ok.inj h
      rw [Resolved.generateAll_nil]
      exact .ok []
  | literal node rest hnode ih =>
      obtain ⟨r, rs, hr, hrs, rfl⟩ := resolveAll_cons_eq_ok.1 h
      exact generateAll_cons_overlong (given (by cases hnode <;> simp) hr) (ih hrs)
  | identifier name range rest ih =>
      obtain ⟨r, rs, hr, hrs, rfl⟩ := resolveAll_cons_eq_ok.1 h
      exact generateAll_cons_overlong (given (by simp) hr) (ih hrs)
  | push children range rest inside ih =>
      obtain ⟨r, rs, hr, hrs, rfl⟩ := resolveAll_cons_eq_ok.1 h
      refine generateAll_cons_overlong ?_ (ih hrs)
      rw [resolve, openBracket_bind] at hr
      split at hr
      · cases hr
      · obtain ⟨inner, hinner, hr⟩ := Run.bind_eq_ok.1 hr
        obtain ⟨_, _, hr⟩ := Run.bind_eq_ok.1 hr
        obtain rfl := Except.ok.inj hr
        exact generate_push_overlong hinner (inside hinner)
  | evaluation children range rest inside ih =>
      obtain ⟨r, rs, hr, hrs, rfl⟩ := resolveAll_cons_eq_ok.1 h
      exact generateAll_cons_overlong (given (by simp) hr) (ih hrs)

/-! ## Scripts -/

/-- A cause and a range in a script that go together: a node is to blame, or an identifier
covers a locking script that is missing. -/
inductive Faulty (ctx : Context) (p : Place) (nodes : List Node) : Cause → Range → Prop where
  | blamed {cause : Cause} {range : Range} (blames : ctx.BlamesIn p nodes cause range) :
      Faulty ctx p nodes cause range
  | missing {name t : Bytes} {access : Access} (named : name ∈ Node.namesAll nodes)
      (meaning : Meaning.ofName ctx.env name = .ok (.variable_ access))
      (needs : access.needsCovered ctx.data name = true)
      (unlocks : ctx.env.unlocks.find? p.script = some t)
      (missing : ctx.env.scripts.contains t = false) :
      Faulty ctx p nodes (.unknownScript t) {}

/-- The same for a source: it cannot be read, or the cause and the range go together in its
nodes. -/
inductive FaultyAt (ctx : Context) (p : Place) (source : Bytes) : Cause → Range → Prop where
  | unread {cause : Cause} {range : Range} (unread : Token.Unread source cause range) :
      FaultyAt ctx p source cause range
  | unspelled {tokens : List Token} {cause : Cause} {range : Range}
      (tokenized : Token.ofText source = .ok tokens)
      (unspelled : Node.Unspelled (ctx.env.bounds ctx.options) tokens cause range) :
      FaultyAt ctx p source cause range
  | resolved {nodes : List Node} {cause : Cause} {range : Range}
      (read : Compiler.treeOf? (ctx.env.bounds ctx.options) source = some nodes)
      (faulty : ctx.Faulty p nodes cause range) : FaultyAt ctx p source cause range

/-- A node that is to blame points into the source. -/
theorem BlamesIn.within {source : Bytes} {nodes : List Node} {cause : Cause} {range : Range}
    (h : ctx.BlamesIn p nodes cause range)
    (read : Compiler.treeOf? (ctx.env.bounds ctx.options) source = some nodes) :
    range.Within source := by
  obtain ⟨node, hnode, _, rfl⟩ := h
  obtain ⟨tokens, tokenized, hnodes⟩ := treeOf?_eq_some.1 read
  exact (Node.madeFrom_of_ofTokens hnodes node hnode).within tokenized

/-- A fault points into the source, but for a locking script that is missing. -/
theorem FaultyAt.within {source : Bytes} {cause : Cause} {range : Range}
    (h : ctx.FaultyAt p source cause range) :
    range.Within source ∨ ∃ t, cause = .unknownScript t ∧ range = {} ∧
      ctx.env.unlocks.find? p.script = some t ∧ ctx.env.scripts.contains t = false := by
  cases h with
  | unread unread => exact .inl unread.within
  | unspelled tokenized unspelled =>
      obtain ⟨t, ht, _, rfl⟩ := unspelled
      exact .inl (Token.within_range tokenized ht)
  | resolved read faulty =>
      cases faulty with
      | blamed blames => exact .inl (blames.within read)
      | missing _ _ _ unlocks missing => exact .inr ⟨_, rfl, rfl, unlocks, missing⟩

end Context

end AuthScript
