import AuthScript.Compiler
import AuthScript.Proofs.Recursion
import Mathlib.Logic.Basic

/-!
# What nodes come to

A compilation that succeeds is known by the bytes of its parts. `Yields ctx p nodes b`
says that `nodes`, resolved at the place `p`, come to the bytes `b`; `Gives ctx p b`
that the script at `p` compiles to `b`; `Refers ctx p id b` that `id` can be referred
to from `p`, with the bytes `b`; and `Denotes ctx p name b` that the identifier `name`
stands for `b`.

All four are defined by the runs that compute them, and each has one lemma that takes
it apart: one for every kind of node, one for a script, one for a reference and one
for an identifier. Neither log lines nor ranges nor the record of a debug run occur in
them, so what is proved from these lemmas holds of all kinds of compilations.
-/

namespace AuthScript

/-- The nodes of a script, if it can be read. -/
def Environment.program? (env : Environment) (options : Options) (id : Bytes) :
    Option (List Node) :=
  (env.scripts.find? id).bind (Compiler.treeOf? (env.bounds options))

theorem Environment.program?_eq_some {env : Environment} {options : Options} {id : Bytes}
    {nodes : List Node} :
    env.program? options id = some nodes ↔
      ∃ source, env.scripts.find? id = some source ∧
        Compiler.treeOf? (env.bounds options) source = some nodes :=
  Option.bind_eq_some_iff

namespace Context

/-- Nodes at a place come to bytes. -/
def Yields (ctx : Context) (p : Place) (nodes : List Node) (b : Bytes) : Prop :=
  ∃ resolved, (resolveAll ctx ctx.enter p nodes).result = .ok resolved ∧
    Resolved.generateAll resolved = .ok b

/-- One node at a place comes to bytes. -/
def NodeYields (ctx : Context) (p : Place) (node : Node) (b : Bytes) : Prop :=
  ∃ resolved, (resolve ctx ctx.enter p node).result = .ok resolved ∧ resolved.generate = .ok b

/-- The script at a place compiles to bytes. -/
def Gives (ctx : Context) (p : Place) (b : Bytes) : Prop :=
  ∃ compiled, (ctx.enter p).result = .ok compiled ∧ compiled.bytecode = b

/-- A script can be referred to from a place, and compiles to bytes there. -/
def Refers (ctx : Context) (p : Place) (id b : Bytes) : Prop :=
  id ∉ p.chain ∧ p.chain.length ≤ ctx.options.referenceDepth ∧ ctx.Gives (p.enter id) b

/-- A program leaves bytes on top of the stack of the machine of a context. -/
def Evaluates (ctx : Context) (program b : Bytes) : Prop :=
  ∃ machine, ctx.invoker.machine ctx.env = some machine ∧
    (machine program).value.failure = none ∧ (machine program).value.stack.head? = some b

/-- The bytecode of the locking script that an access needs. -/
def Covers (ctx : Context) (p : Place) (name : Bytes) (access : Access)
    (covered : Option Bytes) : Prop :=
  if access.needsCovered ctx.data name then
    ∃ locking b, ctx.env.unlocks.find? p.script = some locking ∧ ctx.Refers p locking b ∧
      some b = covered
  else none = covered

/-- The bytecode of the script that an access signs as data. -/
def Signs (ctx : Context) (p : Place) (access : Access) (signed : Option Bytes) : Prop :=
  match access.signedScript? with
  | none => none = signed
  | some target => ctx.env.scripts.contains target = true ∧
      ∃ b, ctx.Refers p target b ∧ some b = signed

/-- An access stands for bytes. -/
def Accesses (ctx : Context) (p : Place) (name : Bytes) (access : Access) (b : Bytes) : Prop :=
  ∃ cap covered signed, access.capability? = some cap ∧ ctx.Covers p name access covered ∧
    ctx.Signs p access signed ∧
    (ctx.invoker.operation ctx.env.operations cap
      (access.request name p.script covered signed) ctx.data).value = .ok b

/-- An identifier stands for bytes. -/
def Denotes (ctx : Context) (p : Place) (name b : Bytes) : Prop :=
  match Meaning.ofName ctx.env name with
  | .error _ => False
  | .ok (.opcode op) => b = [op]
  | .ok .script => ctx.Refers p name b
  | .ok (.variable_ access) => ctx.Accesses p name access b

variable {ctx : Context} {p : Place}

/-! ## The parts of a run that only observe it -/

@[simp] theorem result_record (kind : Resolved.Kind) (label : Bytes) (range : Range) (b : Bytes) :
    (ctx.record p kind label range b).result = .ok () := by
  unfold record
  split <;> rfl

theorem generate_eq_ok {nodes : List Resolved} {b : Bytes} :
    (generate nodes).result = .ok b ↔ Resolved.generateAll nodes = .ok b := by
  unfold generate tellGenerated
  simp [Run.bind_eq_ok, Run.ofExcept_eq_ok]

/-- A push is recorded in every run in which it has bytes. -/
theorem recordPush_eq_ok {node : Resolved} {range : Range} {b : Bytes}
    (h : node.generate = .ok b) : (recordPush ctx p node range).result = .ok () := by
  unfold recordPush
  split
  · have hb : (generate [node]).result = .ok b := by
      rw [generate_eq_ok, Resolved.generateAll_singleton]
      exact h
    exact Run.bind_eq_ok.2 ⟨b, hb, result_record _ _ _ _⟩
  · rfl

theorem finishEvaluation_eq_ok {children : List Resolved} {range : Range} {r : Resolved} :
    (finishEvaluation ctx p children range).result = .ok r ↔
      ∃ body b, Resolved.generateAll children = .ok body ∧ ctx.Evaluates body b ∧
        .evaluation children b range = r := by
  unfold finishEvaluation Evaluates
  simp [Run.bind_eq_ok, generate_eq_ok, Run.ofExcept_eq_ok, evaluate_eq_ok]

/-! ## References, accesses and identifiers -/

theorem refer_eq_ok {id : Bytes} {range : Range} {b : Bytes} :
    (refer ctx ctx.enter p id range).result = .ok b ↔ ctx.Refers p id b := by
  unfold refer Refers Gives
  by_cases cycle : id ∈ p.chain
  · simp [cycle]
  · by_cases deep : ctx.options.referenceDepth < p.chain.length
    · simp [cycle, deep, Nat.not_le.2 deep]
    · have hdepth : p.chain.length ≤ ctx.options.referenceDepth := Nat.not_lt.1 deep
      simp [cycle, deep, hdepth, Run.bind_eq_ok]

theorem coveredBytecode_eq_ok {name : Bytes} {range : Range} {access : Access}
    {covered : Option Bytes} :
    (coveredBytecode ctx ctx.enter p name range access).result = .ok covered ↔
      ctx.Covers p name access covered := by
  unfold coveredBytecode Covers
  split
  · cases ctx.env.unlocks.find? p.script with
    | none => simp
    | some locking => simp [Run.bind_eq_ok, refer_eq_ok]
  · simp

theorem signedBytecode_eq_ok {name : Bytes} {range : Range} {access : Access}
    {signed : Option Bytes} :
    (signedBytecode ctx ctx.enter p name range access).result = .ok signed ↔
      ctx.Signs p access signed := by
  unfold signedBytecode Signs
  cases access.signedScript? with
  | none => simp
  | some target =>
      by_cases known : ctx.env.scripts.contains target = true
      · simp [known, Run.bind_eq_ok, refer_eq_ok]
      · simp [known]

theorem invoke_eq_ok {cap : Capability} {req : Request} {range : Range} {b : Bytes} :
    (ctx.invoke cap req range).result = .ok b ↔
      (ctx.invoker.operation ctx.env.operations cap req ctx.data).value = .ok b := by
  unfold invoke
  rw [Run.bind_eq_ok]
  cases h : (ctx.invoker.operation ctx.env.operations cap req ctx.data).value with
  | ok a => simp [h]
  | error refusal => cases refusal <;> simp [h]

theorem accessBytes_eq_ok {name : Bytes} {range : Range} {access : Access} {b : Bytes} :
    (accessBytes ctx ctx.enter p name range access).result = .ok b ↔
      ctx.Accesses p name access b := by
  unfold accessBytes Accesses
  cases access.capability? with
  | none => simp
  | some cap =>
      simp only [Run.bind_eq_ok, coveredBytecode_eq_ok, signedBytecode_eq_ok, invoke_eq_ok]
      constructor
      · rintro ⟨covered, hc, signed, hs, hb⟩
        exact ⟨cap, covered, signed, rfl, hc, hs, hb⟩
      · rintro ⟨_, covered, signed, hcap, hc, hs, hb⟩
        obtain rfl := Option.some.inj hcap
        exact ⟨covered, hc, signed, hs, hb⟩

/-- The node of an identifier, by the meaning of the identifier. -/
theorem resolveIdentifier_eq_ok {name : Bytes} {range : Range} {r : Resolved} :
    (resolveIdentifier ctx ctx.enter p name range).result = .ok r ↔
      match Meaning.ofName ctx.env name with
      | .error _ => False
      | .ok (.opcode op) => .opcode name op range = r
      | .ok .script => ∃ b, ctx.Refers p name b ∧ .bytecode name b range = r
      | .ok (.variable_ access) =>
        ∃ b, ctx.Accesses p name access b ∧ .bytecode name b range = r := by
  unfold resolveIdentifier
  cases Meaning.ofName ctx.env name with
  | error cause => simp
  | ok meaning =>
      cases meaning with
      | opcode op => simp [Run.bind_eq_ok]
      | script => simp [Run.bind_eq_ok, refer_eq_ok]
      | variable_ access => simp [Run.bind_eq_ok, accessBytes_eq_ok]

/-! ## Nodes -/

theorem NodeYields.unique {node : Node} {b b' : Bytes} (h : ctx.NodeYields p node b)
    (h' : ctx.NodeYields p node b') : b = b' := by
  obtain ⟨resolved, hresolved, hb⟩ := h
  obtain ⟨resolved', hresolved', hb'⟩ := h'
  obtain rfl := Except.ok.inj (hresolved.symm.trans hresolved')
  exact Except.ok.inj (hb.symm.trans hb')

theorem nodeYields_integer {value : Int} {range : Range} {b : Bytes} :
    ctx.NodeYields p (.integer value range) b ↔ Literal.ofInteger value = b := by
  simp [NodeYields, resolve, Resolved.generate]

theorem nodeYields_hex {digits : Bytes} {range : Range} {b : Bytes} :
    ctx.NodeYields p (.hex digits range) b ↔
      digits.length % 2 = 0 ∧ Hex.decode? digits = some b := by
  simp [NodeYields, resolve, Run.bind_eq_ok, Run.ofExcept_eq_ok, Literal.ofHex_eq_ok,
    Resolved.generate]

theorem nodeYields_utf8 {contents : Bytes} {range : Range} {b : Bytes} :
    ctx.NodeYields p (.utf8 contents range) b ↔ Literal.ofString contents = b := by
  simp [NodeYields, resolve, Resolved.generate]

/-- A literal comes to the same bytes in every context. -/
theorem nodeYields_literal {ctx' : Context} {q : Place} {node : Node} {b : Bytes}
    (hnode : node.IsLiteral) (h : ctx.NodeYields p node b) : ctx'.NodeYields q node b := by
  cases hnode with
  | integer value range => exact nodeYields_integer.2 (nodeYields_integer.1 h)
  | hex digits range => exact nodeYields_hex.2 (nodeYields_hex.1 h)
  | utf8 contents range => exact nodeYields_utf8.2 (nodeYields_utf8.1 h)

theorem nodeYields_identifier {name : Bytes} {range : Range} {b : Bytes} :
    ctx.NodeYields p (.identifier name range) b ↔ ctx.Denotes p name b := by
  unfold NodeYields Denotes
  simp only [resolve, resolveIdentifier_eq_ok]
  cases Meaning.ofName ctx.env name with
  | error cause => simp
  | ok meaning =>
      cases meaning with
      | opcode op => simp [Resolved.generate, eq_comm]
      | script => simp [Resolved.generate]
      | variable_ access => simp [Resolved.generate]

theorem nodeYields_push {children : List Node} {range : Range} {b : Bytes} :
    ctx.NodeYields p (.push children range) b ↔
      p.brackets < ctx.options.nestingDepth ∧
        ∃ contents, ctx.Yields p.inBracket children contents ∧
          Push.encode? contents = some b := by
  unfold NodeYields Yields
  simp only [resolve, openBracket_bind]
  by_cases deep : ctx.options.nestingDepth ≤ p.brackets
  · simp [deep, Nat.not_lt.2 deep]
  · simp only [if_neg deep, Nat.not_le.1 deep, true_and, Run.bind_eq_ok, Run.pure_eq,
      Except.ok.injEq]
    constructor
    · rintro ⟨_, ⟨resolved, hresolved, _, _, rfl⟩, hb⟩
      obtain ⟨contents, hcontents, hpush⟩ := Resolved.generate_push_eq_ok.1 hb
      exact ⟨contents, ⟨resolved, hresolved, hcontents⟩, hpush⟩
    · rintro ⟨contents, ⟨resolved, hresolved, hcontents⟩, hpush⟩
      have hb : (Resolved.push resolved range).generate = .ok b :=
        Resolved.generate_push_eq_ok.2 ⟨contents, hcontents, hpush⟩
      exact ⟨_, ⟨resolved, hresolved, (), recordPush_eq_ok hb, rfl⟩, hb⟩

theorem nodeYields_evaluation {children : List Node} {range : Range} {b : Bytes} :
    ctx.NodeYields p (.evaluation children range) b ↔
      p.brackets < ctx.options.nestingDepth ∧ p.evaluations < ctx.options.evaluationDepth ∧
        ∃ body, ctx.Yields p.inBracket.inEvaluation children body ∧ ctx.Evaluates body b := by
  unfold NodeYields Yields
  simp only [resolve, openBracket_bind, openEvaluation_bind]
  by_cases deep : ctx.options.nestingDepth ≤ p.brackets
  · simp [deep, Nat.not_lt.2 deep]
  · by_cases many : ctx.options.evaluationDepth ≤ p.inBracket.evaluations
    · have full : ¬ p.evaluations < ctx.options.evaluationDepth := Nat.not_lt.2 many
      simp [deep, many, full]
    · have room : p.evaluations < ctx.options.evaluationDepth := Nat.not_le.1 many
      simp only [if_neg deep, if_neg many, Nat.not_le.1 deep, room, true_and, Run.bind_eq_ok,
        finishEvaluation_eq_ok]
      constructor
      · rintro ⟨_, ⟨resolved, hresolved, body, own, hbody, hown, rfl⟩, hb⟩
        rw [Resolved.generate] at hb
        obtain rfl := Except.ok.inj hb
        exact ⟨body, ⟨resolved, hresolved, hbody⟩, hown⟩
      · rintro ⟨body, ⟨resolved, hresolved, hbody⟩, hown⟩
        have hb : (Resolved.evaluation resolved b range).generate = .ok b := by
          rw [Resolved.generate]
        exact ⟨_, ⟨resolved, hresolved, body, b, hbody, hown, rfl⟩, hb⟩

@[simp] theorem yields_nil {b : Bytes} : ctx.Yields p [] b ↔ b = [] := by
  simp [Yields, resolveAll, eq_comm]

theorem yields_cons {node : Node} {rest : List Node} {b : Bytes} :
    ctx.Yields p (node :: rest) b ↔
      ∃ own other, ctx.NodeYields p node own ∧ ctx.Yields p rest other ∧ own ++ other = b := by
  unfold Yields NodeYields
  rw [resolveAll]
  simp only [Run.bind_eq_ok, Run.pure_eq, Except.ok.injEq]
  constructor
  · rintro ⟨_, ⟨first, hfirst, others, hothers, rfl⟩, hb⟩
    obtain ⟨own, other, hown, hother, rfl⟩ := Resolved.generateAll_cons_eq_ok.1 hb
    exact ⟨own, other, ⟨first, hfirst, hown⟩, ⟨others, hothers, hother⟩, rfl⟩
  · rintro ⟨own, other, ⟨first, hfirst, hown⟩, ⟨others, hothers, hother⟩, rfl⟩
    exact ⟨_, ⟨first, hfirst, others, hothers, rfl⟩,
      Resolved.generateAll_cons_eq_ok.2 ⟨own, other, hown, hother, rfl⟩⟩

/-- Nodes come to the bytes of the first ones and then those of the others. -/
theorem yields_append {first others : List Node} {b : Bytes} :
    ctx.Yields p (first ++ others) b ↔
      ∃ own other, ctx.Yields p first own ∧ ctx.Yields p others other ∧ own ++ other = b := by
  induction first generalizing b with
  | nil => simp
  | cons node first ih =>
      simp only [List.cons_append, yields_cons, ih]
      constructor
      · rintro ⟨x, _, hx, ⟨y, z, hy, hz, rfl⟩, rfl⟩
        exact ⟨x ++ y, z, ⟨x, y, hx, hy, rfl⟩, hz, List.append_assoc x y z⟩
      · rintro ⟨_, z, ⟨x, y, hx, hy, rfl⟩, hz, rfl⟩
        exact ⟨x, y ++ z, hx, ⟨y, z, hy, hz, rfl⟩, (List.append_assoc x y z).symm⟩

@[simp] theorem yields_singleton {node : Node} {b : Bytes} :
    ctx.Yields p [node] b ↔ ctx.NodeYields p node b := by
  simp [yields_cons]

/-- Where nodes stand does not matter for what they come to. -/
theorem yields_bareAll {nodes : List Node} {b : Bytes} :
    ctx.Yields p (Node.bareAll nodes) b ↔ ctx.Yields p nodes b := by
  induction nodes using Node.nodesInduction generalizing p b with
  | nil => rw [Node.bareAll]
  | literal node rest hnode ih =>
      have hown : ∀ own, ctx.NodeYields p node.bare own ↔ ctx.NodeYields p node own := by
        intro own
        cases hnode with
        | integer value range => simp only [Node.bare, nodeYields_integer]
        | hex digits range => simp only [Node.bare, nodeYields_hex]
        | utf8 contents range => simp only [Node.bare, nodeYields_utf8]
      simp only [Node.bareAll, yields_cons, hown, ih]
  | identifier name range rest ih =>
      simp only [Node.bareAll, Node.bare, yields_cons, nodeYields_identifier, ih]
  | push children range rest inside ih =>
      simp only [Node.bareAll, Node.bare, yields_cons, nodeYields_push, inside, ih]
  | evaluation children range rest inside ih =>
      simp only [Node.bareAll, Node.bare, yields_cons, nodeYields_evaluation, inside, ih]

/-! ## Scripts -/

theorem treeOf?_eq_some {bounds : Tree.Bounds} {source : Bytes} {nodes : List Node} :
    Compiler.treeOf? bounds source = some nodes ↔
      ∃ tokens, Token.ofText source = .ok tokens ∧ Node.ofTokens bounds tokens = .ok nodes := by
  unfold Compiler.treeOf?
  cases Token.ofText source with
  | error e => simp [Except.bind, Except.toOption]
  | ok tokens => cases h : Node.ofTokens bounds tokens <;>
      simp [Except.bind, Except.toOption, h]

theorem read_eq_ok {source : Bytes} {nodes : List Node} :
    (read ctx source).result = .ok nodes ↔
      Compiler.treeOf? (ctx.env.bounds ctx.options) source = some nodes := by
  rw [treeOf?_eq_some]
  unfold read
  simp [Run.bind_eq_ok, Run.ofExcept_eq_ok]

/-- Reading a source keeps its tree, if it has one. -/
theorem tree?_read (source : Bytes) :
    Event.tree? (read ctx source).events =
      Compiler.treeOf? (ctx.env.bounds ctx.options) source := by
  unfold read Compiler.treeOf?
  cases Token.ofText source with
  | error e => rfl
  | ok tokens =>
      cases h : Node.ofTokens (ctx.env.bounds ctx.options) tokens with
      | error e => simp [Run.ofExcept, Run.tell, Run.done, Run.bind_ok, Run.bind_error, h,
          Except.bind, Except.toOption, Event.tree?]
      | ok nodes => simp [Run.ofExcept, Run.tell, Run.done, Run.tree, Run.bind_ok, h, Except.bind,
          Except.toOption, Event.tree?]

/-- The tree that a run keeps is that of the script it starts with. -/
theorem tree?_enter (p : Place) :
    Event.tree? (ctx.enter p).events = ctx.env.program? ctx.options p.script := by
  rw [enter_eq, compileWith]
  unfold Environment.program?
  cases ctx.env.scripts.find? p.script with
  | none => rfl
  | some source =>
      have kept : Event.tree? (read ctx source).events =
          Compiler.treeOf? (ctx.env.bounds ctx.options) source := tree?_read source
      have entered : ∀ events, Event.tree? (.entry p :: events) = Event.tree? events := fun _ => rfl
      rw [Run.events_within, compileSource, Run.entry, Run.bind_ok, List.singleton_append, entered,
        Option.bind_some, ← kept]
      cases hread : read ctx source with
      | mk events result =>
        rw [hread] at kept
        cases result with
        | error halt => rfl
        | ok nodes =>
            have tree : Compiler.treeOf? (ctx.env.bounds ctx.options) source = some nodes :=
              read_eq_ok.1 (congrArg Run.result hread)
            rw [Run.bind_ok, Event.tree?_append, kept, tree, Option.some_or]

/-- A script compiles to what its nodes come to. -/
theorem gives_iff {b : Bytes} :
    ctx.Gives p b ↔
      ∃ nodes, ctx.env.program? ctx.options p.script = some nodes ∧ ctx.Yields p nodes b := by
  unfold Gives Yields Environment.program?
  rw [enter_eq, compileWith]
  cases ctx.env.scripts.find? p.script with
  | none => simp
  | some source =>
      simp only [Option.bind_some, Run.within_eq_ok, compileSource, Run.bind_eq_ok, read_eq_ok,
        generate_eq_ok, Run.pure_eq, Except.ok.injEq]
      constructor
      · rintro ⟨_, ⟨_, _, nodes, hnodes, resolved, hresolved, own, hown, rfl⟩, rfl⟩
        exact ⟨nodes, hnodes, resolved, hresolved, hown⟩
      · rintro ⟨nodes, hnodes, resolved, hresolved, hb⟩
        exact ⟨_, ⟨(), rfl, nodes, hnodes, resolved, hresolved, b, hb, rfl⟩, rfl⟩

/-- A script that can be read gives what its nodes come to. -/
theorem gives_iff_yields {nodes : List Node}
    (program : ctx.env.program? ctx.options p.script = some nodes) {b : Bytes} :
    ctx.Gives p b ↔ ctx.Yields p nodes b := by
  rw [gives_iff]
  constructor
  · rintro ⟨read, hread, yields⟩
    obtain rfl := Option.some.inj (program.symm.trans hread)
    exact yields
  · intro yields
    exact ⟨nodes, program, yields⟩

end Context

/-- The context of a compilation that only generates bytecode, by calling operations. -/
def Compiler.context (c : Compiler) (data : Data) : Context :=
  ⟨c.env, data, c.options, .sync, false⟩

section

variable {c : Compiler} {id : Bytes} {data : Data}

theorem Compiler.generate_of_given {compiled : Compiled}
    (h : ((c.context data).compile id).result = .ok compiled) :
    c.generate id data = .ok compiled.bytecode := by
  unfold context at h
  simp only [generate, compile, h]
  rfl

/-- A compilation whose run halts ends with an error. -/
theorem Compiler.generate_of_halt {halt : Halt}
    (h : ((c.context data).compile id).result = .error halt) :
    c.generate id data = .error (errorOf id halt) := by
  unfold context at h
  simp only [generate, compile, h]
  rfl

theorem Compiler.generate_of_failed {e : CompileError}
    (h : ((c.context data).compile id).result = .error (.failed e)) :
    c.generate id data = .error e :=
  generate_of_halt h

/-- Bytecode is generated for a script exactly when the script gives it. -/
theorem Compiler.generate_eq_ok {b : Bytes} :
    c.generate id data = .ok b ↔ (c.context data).Gives { script := id } b := by
  have gives : (c.context data).Gives { script := id } b ↔
      ∃ compiled, ((c.context data).compile id).result = .ok compiled ∧ compiled.bytecode = b :=
    Iff.rfl
  cases h : ((c.context data).compile id).result with
  | error halt => simp [gives, generate_of_halt h, h]
  | ok compiled => simp [gives, generate_of_given h, h]

/-- A compilation ends with an error exactly when its run halts. -/
theorem Compiler.generate_eq_error {e : CompileError} :
    c.generate id data = .error e ↔
      ∃ halt, ((c.context data).compile id).result = .error halt ∧ errorOf id halt = e := by
  cases h : ((c.context data).compile id).result with
  | error halt => simp [generate_of_halt h]
  | ok compiled => simp [generate_of_given h]

end

end AuthScript
