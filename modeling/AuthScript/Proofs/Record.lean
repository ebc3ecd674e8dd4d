import AuthScript.Proofs.Reference
import Mathlib.Data.List.Forall2

/-!
# The record of a debug compilation

A debug compilation keeps the tree of its root, what the tree was resolved to, and a list of
steps to which every script that was compiled on the way has added its own. If it succeeds,
these agree: the resolved tree has the shape and the ranges of the syntax tree
(`ResolvesTo`), its bytecode is the result, and the steps of the root are its nodes but the
literals, each after those inside it, with the bytes that the node generates by itself
(`Step.Describes`).

A script that is in progress is never entered again, so between the steps of a script there
are none but those of scripts that it refers to. The invariant therefore counts the steps of
all scripts in progress (`Run.recorded`): the compilation of a script adds its own nodes to
these, and a reference nothing.
-/

namespace AuthScript

namespace Resolved

/-- The label of a node in the record. -/
def mark : Resolved → Bytes
  | opcode name _ _ | bytecode name _ _ => name
  | push .. => text "<...>"
  | evaluation .. => text "$(...)"
  | literal .. => []

mutual

/-- A node that is no literal, after the nodes inside it. -/
def postorder : Resolved → List Resolved
  | literal .. => []
  | opcode name op range => [.opcode name op range]
  | bytecode name b range => [.bytecode name b range]
  | push children range => postorderAll children ++ [.push children range]
  | evaluation children result range =>
    postorderAll children ++ [.evaluation children result range]

/-- The nodes that are no literals, at any depth, each after those inside it. -/
def postorderAll : List Resolved → List Resolved
  | [] => []
  | node :: rest => postorder node ++ postorderAll rest

end

end Resolved

/-- A step of the record is about a node in a script. -/
structure Step.Describes (script : Bytes) (node : Resolved) (step : Step) : Prop where
  kind : step.kind = node.kind
  label : step.label = node.mark
  script : step.script = script
  range : step.range = node.range
  bytes : node.generate = .ok step.bytes

/-! ## Steps of scripts in progress -/

namespace Event

@[simp] theorem steps_nil : steps [] = [] := rfl

@[simp] theorem steps_step (s : Step) (events : List Event) :
    steps (.step s :: events) = s :: steps events := rfl

@[simp] theorem steps_line (l : Log.Line) (events : List Event) :
    steps (.line l :: events) = steps events := rfl

@[simp] theorem steps_entry (p : Place) (events : List Event) :
    steps (.entry p :: events) = steps events := rfl

@[simp] theorem steps_map_line (lines : List Log.Line) : steps (lines.map .line) = [] := by
  induction lines with
  | nil => rfl
  | cons l lines ih => exact ih

end Event

namespace Run

variable {α β : Type} {scripts : List Bytes}

/-- The steps of certain scripts that a run records, in order. -/
def recorded (r : Run α) (scripts : List Bytes) : List Step :=
  (Event.steps r.events).filter fun s => scripts.contains s.script

theorem recorded_bind {r : Run α} {f : α → Run β} {a : α} (h : r.result = .ok a) :
    (r >>= f).recorded scripts = r.recorded scripts ++ (f a).recorded scripts := by
  obtain ⟨events, result⟩ := r
  obtain rfl : result = .ok a := h
  rw [bind_ok]
  simp only [recorded, Event.steps_append, List.filter_append]

theorem recorded_within (r : Run α) (id : Bytes) :
    (r.within id).recorded scripts = r.recorded scripts := by
  rw [recorded, events_within, recorded]

/-- A run that succeeds records nothing of certain scripts. -/
def Tacit (r : Run α) (scripts : List Bytes) : Prop :=
  ∀ a, r.result = .ok a → r.recorded scripts = []

theorem Tacit.of_steps {r : Run α} (h : Event.steps r.events = []) : r.Tacit scripts := by
  intro _ _
  rw [recorded, h, List.filter_nil]

theorem Tacit.bind {r : Run α} {f : α → Run β} (hr : r.Tacit scripts)
    (hf : ∀ a, r.result = .ok a → (f a).Tacit scripts) : (r >>= f).Tacit scripts := by
  intro b hb
  obtain ⟨a, ha, hfa⟩ := bind_eq_ok.1 hb
  rw [recorded_bind ha, hr a ha, hf a ha b hfa, List.append_nil]

theorem Tacit.done (a : α) : (Run.done a).Tacit scripts := .of_steps rfl

theorem Tacit.fail (cause : Cause) (range : Range) :
    (Run.fail cause range : Run α).Tacit scripts := .of_steps rfl

theorem Tacit.tell (level : Log.Level) (category : Log.Category) (message : Bytes) :
    (Run.tell level category message).Tacit scripts := .of_steps rfl

theorem Tacit.tree (nodes : List Node) : (Run.tree nodes).Tacit scripts := .of_steps rfl

theorem Tacit.ofLogged (l : Logged α) : (Run.ofLogged l).Tacit scripts :=
  .of_steps (Event.steps_map_line l.lines)

theorem Tacit.ofExcept (e : Except CompileError α) : (Run.ofExcept e).Tacit scripts := by
  cases e <;> exact .of_steps rfl

end Run

theorem Step.script_of_describes {script : Bytes} {nodes : List Resolved} {steps : List Step}
    (h : List.Forall₂ (Step.Describes script) nodes steps) : ∀ s ∈ steps, s.script = script := by
  induction h with
  | nil => simp
  | cons first _ ih => exact List.forall_mem_cons.2 ⟨first.script, ih⟩

/-- A run that records only another script's nodes is tacit. -/
theorem Run.recorded_eq_nil {α : Type} {r : Run α} {scripts : List Bytes} {script : Bytes}
    {nodes : List Resolved}
    (h : List.Forall₂ (Step.Describes script) nodes (r.recorded (scripts ++ [script])))
    (fresh : script ∉ scripts) : r.recorded scripts = [] := by
  refine List.filter_eq_nil_iff.2 fun s hs hscript => fresh ?_
  have known : s.script ∈ scripts := by simpa using hscript
  have same := Step.script_of_describes h s (List.mem_filter.2 ⟨hs, by simp [known]⟩)
  exact same ▸ known

namespace Context

variable {ctx : Context} {p : Place} {scripts : List Bytes}

theorem generate_tacit (nodes : List Resolved) : (generate nodes).Tacit scripts := by
  unfold generate tellGenerated
  refine .bind (.ofExcept _) fun b _ => ?_
  exact .bind (.tell _ _ _) fun _ _ => .done b

theorem read_tacit (source : Bytes) : (read ctx source).Tacit scripts := by
  unfold read
  refine .bind (.ofExcept _) fun tokens _ => ?_
  refine .bind (.tell _ _ _) fun _ _ => ?_
  refine .bind (.ofExcept _) fun nodes _ => ?_
  exact .bind (.tell _ _ _) fun _ _ => .bind (.tree nodes) fun _ _ => .done nodes

theorem invoke_tacit (cap : Capability) (req : Request) (range : Range) :
    (ctx.invoke cap req range).Tacit scripts := by
  unfold invoke
  refine .bind (.ofLogged _) fun answer _ => ?_
  rcases answer with (fault | what) | b
  · exact .fail _ _
  · exact .of_steps rfl
  · exact .done b

/-- In a debug run a node is recorded as one of its script. -/
theorem recorded_record (debug : ctx.debug = true) (kind : Resolved.Kind) (label : Bytes)
    (range : Range) (b : Bytes) :
    (ctx.record p kind label range b).recorded p.chain = [⟨kind, label, p.script, range, b⟩] := by
  have own : p.script ∈ p.chain := by simp [Place.chain]
  rw [record, if_pos debug]
  simp [Run.recorded, Run.step, own]

/-! ## References -/

/-- The scripts that can be entered from a place record nothing of those in progress. -/
def Discreet (ctx : Context) (p : Place) : Prop :=
  ∀ q : Place, q.chain = p.chain → ∀ id ∉ p.chain, (ctx.enter (q.enter id)).Tacit p.chain

theorem refer_tacit (h : ctx.Discreet p) (id : Bytes) (range : Range) :
    (refer ctx ctx.enter p id range).Tacit p.chain := by
  unfold refer
  split
  · exact .fail _ _
  · rename_i fresh
    split
    · exact .fail _ _
    · refine .bind (.tell _ _ _) fun _ _ => ?_
      exact .bind (h p rfl id (by simpa using fresh)) fun compiled _ => .done _

theorem accessBytes_tacit (h : ctx.Discreet p) (name : Bytes) (range : Range) (access : Access) :
    (accessBytes ctx ctx.enter p name range access).Tacit p.chain := by
  unfold accessBytes
  cases access.capability? with
  | none => exact .fail _ _
  | some cap =>
      refine .bind ?_ fun covered _ => .bind ?_ fun signed _ => invoke_tacit _ _ _
      · unfold coveredBytecode
        split
        · split
          · exact .fail _ _
          · exact .bind (refer_tacit h _ range) fun b _ => .done _
        · exact .done none
      · unfold signedBytecode
        split
        · exact .done none
        · split
          · exact .bind (refer_tacit h _ range) fun b _ => .done _
          · exact .fail _ _

/-! ## What nodes are resolved to -/

/-- Nodes are resolved to nodes of the same shape, at the same ranges. A literal has its
bytes, an identifier is an opcode if that is what it means, and an evaluation has the item
that the bytecode of its contents leaves on top. -/
inductive ResolvesTo (ctx : Context) : List Node → List Resolved → Prop
  | nil : ResolvesTo ctx [] []
  | integer {value range rest others} : ResolvesTo ctx rest others →
    ResolvesTo ctx (.integer value range :: rest)
      (.literal (Literal.ofInteger value) range :: others)
  | hex {digits range b rest others} : Literal.ofHex range digits = .ok b →
    ResolvesTo ctx rest others →
    ResolvesTo ctx (.hex digits range :: rest) (.literal b range :: others)
  | utf8 {contents range rest others} : ResolvesTo ctx rest others →
    ResolvesTo ctx (.utf8 contents range :: rest)
      (.literal (Literal.ofString contents) range :: others)
  | opcode {name op range rest others} : Meaning.ofName ctx.env name = .ok (.opcode op) →
    ResolvesTo ctx rest others →
    ResolvesTo ctx (.identifier name range :: rest) (.opcode name op range :: others)
  | bytecode {name b range rest others} :
    (∀ op, Meaning.ofName ctx.env name ≠ .ok (.opcode op)) → ResolvesTo ctx rest others →
    ResolvesTo ctx (.identifier name range :: rest) (.bytecode name b range :: others)
  | push {children inner range rest others} : ResolvesTo ctx children inner →
    ResolvesTo ctx rest others →
    ResolvesTo ctx (.push children range :: rest) (.push inner range :: others)
  | evaluation {children inner range body b rest others} : ResolvesTo ctx children inner →
    Resolved.generateAll inner = .ok body → ctx.Evaluates body b → ResolvesTo ctx rest others →
    ResolvesTo ctx (.evaluation children range :: rest) (.evaluation inner b range :: others)

/-- Data and scripts are recorded with their bytes. -/
theorem recorded_bytecode (debug : ctx.debug = true) {r : Run Bytes} (tacit : r.Tacit p.chain)
    {name : Bytes} {range : Range} {node : Resolved}
    (h : (do
      let b ← r
      ctx.record p .bytecode name range b
      return .bytecode name b range : Run Resolved).result = .ok node) :
    ∃ b, .bytecode name b range = node ∧
      (do
        let b ← r
        ctx.record p .bytecode name range b
        return .bytecode name b range : Run Resolved).recorded p.chain =
          [⟨.bytecode, name, p.script, range, b⟩] := by
  obtain ⟨b, hb, h⟩ := Run.bind_eq_ok.1 h
  obtain ⟨_, hrecord, h⟩ := Run.bind_eq_ok.1 h
  refine ⟨b, Except.ok.inj h, ?_⟩
  rw [Run.recorded_bind hb, tacit b hb, Run.recorded_bind hrecord, recorded_record debug]
  rfl

/-- An identifier is recorded once, with its bytes. -/
theorem resolveIdentifier_recorded (debug : ctx.debug = true) (h : ctx.Discreet p) {name : Bytes}
    {range : Range} {node : Resolved}
    (hnode : (resolveIdentifier ctx ctx.enter p name range).result = .ok node) :
    (∀ {rest others}, ctx.ResolvesTo rest others →
      ctx.ResolvesTo (.identifier name range :: rest) (node :: others)) ∧
    List.Forall₂ (Step.Describes p.script) node.postorder
      ((resolveIdentifier ctx ctx.enter p name range).recorded p.chain) := by
  have bytecode : ∀ b, List.Forall₂ (Step.Describes p.script)
      (Resolved.bytecode name b range).postorder
      [⟨.bytecode, name, p.script, range, b⟩] := by
    intro b
    rw [Resolved.postorder]
    exact .cons ⟨rfl, rfl, rfl, rfl, by rw [Resolved.generate]⟩ .nil
  unfold resolveIdentifier at hnode ⊢
  cases hm : Meaning.ofName ctx.env name with
  | error cause => simp [hm] at hnode
  | ok meaning =>
      simp only [hm] at hnode ⊢
      cases meaning with
      | opcode op =>
          obtain ⟨_, hrecord, hnode⟩ := Run.bind_eq_ok.1 hnode
          obtain rfl := Except.ok.inj hnode
          refine ⟨.opcode hm, ?_⟩
          rw [Run.recorded_bind hrecord, recorded_record debug, Resolved.postorder]
          exact .cons ⟨rfl, rfl, rfl, rfl, by rw [Resolved.generate]⟩ .nil
      | script =>
          obtain ⟨b, rfl, hsteps⟩ := recorded_bytecode debug (refer_tacit h name range) hnode
          rw [hsteps]
          exact ⟨.bytecode (by simp [hm]), bytecode b⟩
      | variable_ access =>
          have tacit := accessBytes_tacit h name range access
          obtain ⟨b, rfl, hsteps⟩ := recorded_bytecode debug tacit hnode
          rw [hsteps]
          exact ⟨.bytecode (by simp [hm]), bytecode b⟩

/-- A push is recorded after its contents. -/
theorem recorded_recordPush (debug : ctx.debug = true) {node : Resolved} {range : Range}
    (h : (recordPush ctx p node range).result = .ok ()) :
    ∃ b, node.generate = .ok b ∧ (recordPush ctx p node range).recorded p.chain =
      [⟨.push, text "<...>", p.script, range, b⟩] := by
  unfold recordPush at h ⊢
  rw [if_pos debug] at h ⊢
  obtain ⟨b, hb, _⟩ := Run.bind_eq_ok.1 h
  refine ⟨b, ?_, ?_⟩
  · rw [← Resolved.generateAll_singleton]
    exact generate_eq_ok.1 hb
  · rw [Run.recorded_bind hb, generate_tacit [node] b hb, recorded_record debug]
    rfl

/-- An evaluation is recorded after its contents, with the item that these leave on top. -/
theorem recorded_finishEvaluation (debug : ctx.debug = true) {children : List Resolved}
    {range : Range} {node : Resolved}
    (h : (finishEvaluation ctx p children range).result = .ok node) :
    ∃ body b, Resolved.generateAll children = .ok body ∧ ctx.Evaluates body b ∧
      .evaluation children b range = node ∧
      (finishEvaluation ctx p children range).recorded p.chain =
        [⟨.evaluation, text "$(...)", p.script, range, b⟩] := by
  obtain ⟨body, b, hbody, evaluates, rfl⟩ := finishEvaluation_eq_ok.1 h
  refine ⟨body, b, hbody, evaluates, rfl, ?_⟩
  unfold finishEvaluation at h ⊢
  obtain ⟨own, hown, h⟩ := Run.bind_eq_ok.1 h
  obtain ⟨value, hvalue, h⟩ := Run.bind_eq_ok.1 h
  obtain ⟨result, hresult, h⟩ := Run.bind_eq_ok.1 h
  obtain ⟨_, hrecord, h⟩ := Run.bind_eq_ok.1 h
  obtain ⟨_, rfl, _⟩ := Resolved.evaluation.inj (Except.ok.inj h)
  rw [Run.recorded_bind hown, generate_tacit children own hown, Run.recorded_bind hvalue,
    Run.Tacit.ofLogged _ value hvalue, Run.recorded_bind hresult,
    Run.Tacit.ofExcept value _ hresult, Run.recorded_bind hrecord, recorded_record debug]
  rfl

/-- What a first node adds comes before what the others add. -/
theorem resolveAll_cons_recorded {node : Node} {rest : List Node} {resolved : List Resolved}
    (h : (resolveAll ctx ctx.enter p (node :: rest)).result = .ok resolved) :
    ∃ first others, (resolve ctx ctx.enter p node).result = .ok first ∧
      (resolveAll ctx ctx.enter p rest).result = .ok others ∧ first :: others = resolved ∧
      (resolveAll ctx ctx.enter p (node :: rest)).recorded p.chain =
        (resolve ctx ctx.enter p node).recorded p.chain ++
          (resolveAll ctx ctx.enter p rest).recorded p.chain := by
  rw [resolveAll] at h ⊢
  obtain ⟨first, hfirst, h⟩ := Run.bind_eq_ok.1 h
  obtain ⟨others, hothers, h⟩ := Run.bind_eq_ok.1 h
  refine ⟨first, others, hfirst, hothers, Except.ok.inj h, ?_⟩
  rw [Run.recorded_bind hfirst, Run.recorded_bind hothers]
  exact congrArg _ (List.append_nil _)

theorem resolveAll_recorded (debug : ctx.debug = true) (h : ctx.Discreet p) {nodes : List Node}
    {resolved : List Resolved}
    (hnodes : (resolveAll ctx ctx.enter p nodes).result = .ok resolved) :
    ctx.ResolvesTo nodes resolved ∧
      List.Forall₂ (Step.Describes p.script) (Resolved.postorderAll resolved)
        ((resolveAll ctx ctx.enter p nodes).recorded p.chain) := by
  induction nodes using Node.nodesInduction generalizing p resolved with
  | nil =>
      rw [resolveAll] at hnodes ⊢
      obtain rfl := Except.ok.inj hnodes
      exact ⟨.nil, .nil⟩
  | literal node rest hnode ih =>
      obtain ⟨first, others, hfirst, hothers, rfl, hsteps⟩ := resolveAll_cons_recorded hnodes
      obtain ⟨shape, steps⟩ := ih h hothers
      rw [hsteps, Resolved.postorderAll]
      cases hnode with
      | integer value range =>
          rw [resolve] at hfirst ⊢
          obtain rfl := Except.ok.inj hfirst
          exact ⟨.integer shape, steps⟩
      | hex digits range =>
          rw [resolve] at hfirst ⊢
          obtain ⟨b, hb, hfirst⟩ := Run.bind_eq_ok.1 hfirst
          obtain rfl := Except.ok.inj hfirst
          refine ⟨.hex (Run.ofExcept_eq_ok.1 hb) shape, ?_⟩
          rw [Run.recorded_bind hb, Run.Tacit.ofExcept _ b hb]
          exact steps
      | utf8 contents range =>
          rw [resolve] at hfirst ⊢
          obtain rfl := Except.ok.inj hfirst
          exact ⟨.utf8 shape, steps⟩
  | identifier name range rest ih =>
      obtain ⟨first, others, hfirst, hothers, rfl, hsteps⟩ := resolveAll_cons_recorded hnodes
      obtain ⟨shape, steps⟩ := ih h hothers
      rw [resolve] at hfirst hsteps
      obtain ⟨own, hown⟩ := resolveIdentifier_recorded debug h hfirst
      rw [hsteps, Resolved.postorderAll]
      exact ⟨own shape, List.rel_append hown steps⟩
  | push children range rest inside ih =>
      obtain ⟨first, others, hfirst, hothers, rfl, hsteps⟩ := resolveAll_cons_recorded hnodes
      obtain ⟨shape, steps⟩ := ih h hothers
      rw [resolve, openBracket_bind] at hfirst hsteps
      split at hfirst
      · simp at hfirst
      · rename_i room
        obtain ⟨inner, hinner, hfirst⟩ := Run.bind_eq_ok.1 hfirst
        obtain ⟨_, hpush, hfirst⟩ := Run.bind_eq_ok.1 hfirst
        obtain rfl := Except.ok.inj hfirst
        obtain ⟨innerShape, innerSteps⟩ := inside (p := p.inBracket) h hinner
        obtain ⟨b, hb, pushStep⟩ := recorded_recordPush debug hpush
        rw [if_neg room, Run.recorded_bind hinner, Run.recorded_bind hpush, pushStep] at hsteps
        rw [hsteps, Resolved.postorderAll, Resolved.postorder]
        refine ⟨.push innerShape shape, List.rel_append (List.rel_append innerSteps ?_) steps⟩
        exact .cons ⟨rfl, rfl, rfl, rfl, hb⟩ .nil
  | evaluation children range rest inside ih =>
      obtain ⟨first, others, hfirst, hothers, rfl, hsteps⟩ := resolveAll_cons_recorded hnodes
      obtain ⟨shape, steps⟩ := ih h hothers
      rw [resolve, openBracket_bind] at hfirst hsteps
      split at hfirst
      · simp at hfirst
      · rename_i room
        rw [openEvaluation_bind] at hfirst hsteps
        split at hfirst
        · simp at hfirst
        · rename_i few
          obtain ⟨inner, hinner, hfirst⟩ := Run.bind_eq_ok.1 hfirst
          obtain ⟨innerShape, innerSteps⟩ := inside (p := p.inBracket.inEvaluation) h hinner
          obtain ⟨body, b, hbody, evaluates, rfl, step⟩ := recorded_finishEvaluation debug hfirst
          rw [if_neg room, if_neg few, Run.recorded_bind hinner, step] at hsteps
          rw [hsteps, Resolved.postorderAll, Resolved.postorder]
          refine ⟨.evaluation innerShape hbody evaluates shape,
            List.rel_append (List.rel_append innerSteps ?_) steps⟩
          exact .cons ⟨rfl, rfl, rfl, rfl, by rw [Resolved.generate]⟩ .nil

/-! ## Scripts -/

/-- The compilation of a script records its nodes, and nothing of the scripts above it. -/
theorem enter_recorded (debug : ctx.debug = true) (p : Place) {compiled : Compiled}
    (h : (ctx.enter p).result = .ok compiled) :
    ∃ nodes, ctx.env.program? ctx.options p.script = some nodes ∧
      ctx.ResolvesTo nodes compiled.resolved ∧
      Resolved.generateAll compiled.resolved = .ok compiled.bytecode ∧
      List.Forall₂ (Step.Describes p.script) (Resolved.postorderAll compiled.resolved)
        ((ctx.enter p).recorded p.chain) := by
  induction p using placeInduction ctx generalizing compiled with
  | missing p hp =>
      rw [enter_missing hp] at h
      cases h
  | known p hp ih =>
      have discreet : ctx.Discreet p := by
        intro q hq id fresh entered hentered
        obtain ⟨nodes, _, _, _, steps⟩ := ih q hq id fresh hentered
        rw [Place.chain_enter, hq] at steps
        exact Run.recorded_eq_nil steps fresh
      obtain ⟨source, hsource⟩ := (Table.contains_iff_find? _ _).1 hp
      rw [enter_source hsource] at h ⊢
      rw [Run.recorded_within]
      replace h := Run.within_eq_ok.1 h
      unfold compileSource at h ⊢
      obtain ⟨_, hentry, h⟩ := Run.bind_eq_ok.1 h
      obtain ⟨nodes, hnodes, h⟩ := Run.bind_eq_ok.1 h
      obtain ⟨resolved, hresolved, h⟩ := Run.bind_eq_ok.1 h
      obtain ⟨b, hb, h⟩ := Run.bind_eq_ok.1 h
      obtain rfl := Except.ok.inj h
      obtain ⟨shape, steps⟩ := resolveAll_recorded debug discreet hresolved
      refine ⟨nodes, Environment.program?_eq_some.2 ⟨source, hsource, read_eq_ok.1 hnodes⟩, shape,
        generate_eq_ok.1 hb, ?_⟩
      have entry : (Run.entry p).recorded p.chain = [] := rfl
      rw [Run.recorded_bind hentry, entry, Run.recorded_bind hnodes, read_tacit source nodes hnodes,
        Run.recorded_bind hresolved, Run.recorded_bind hb, generate_tacit resolved b hb]
      simpa [Run.recorded] using steps

end Context

/-- A debug compilation that succeeds keeps forms that agree. The tree is that of the source;
it was resolved node by node to nodes whose bytecode is the result; and the steps of the root
are, in order, the resolved nodes but the literals, each after those inside it, with the
bytes that it generates by itself. -/
theorem Compiler.debug_artifact_consistent {c : Compiler} {invoker : Invoker} {root : Bytes}
    {data : Data} {b : Bytes} (h : (c.compile invoker true root data).value.result = .ok b) :
    let artifact := (c.compile invoker true root data).value
    let ctx : Context := ⟨c.env, data, c.options, invoker, true⟩
    ∃ nodes resolved, c.env.scripts.find? root = some artifact.source ∧
      treeOf? (c.env.bounds c.options) artifact.source = some nodes ∧ artifact.tree = some nodes ∧
      artifact.resolved = some resolved ∧ ctx.ResolvesTo nodes resolved ∧
      Resolved.generateAll resolved = .ok b ∧
      List.Forall₂ (Step.Describes root) (Resolved.postorderAll resolved)
        (artifact.steps.filter fun s => s.script == root) := by
  intro artifact ctx
  have run : artifact.result =
      ((ctx.compile root).result.map Compiled.bytecode).mapError (errorOf root) := rfl
  cases hrun : (ctx.compile root).result with
  | error halt =>
      rw [hrun] at run
      cases run.symm.trans h
  | ok compiled =>
      rw [hrun] at run
      obtain rfl : compiled.bytecode = b := Except.ok.inj (run.symm.trans h)
      have debug : ctx.debug = true := rfl
      obtain ⟨nodes, program, shape, generates, steps⟩ :=
        Context.enter_recorded debug { script := root } hrun
      obtain ⟨source, hsource, tree⟩ := Environment.program?_eq_some.1 program
      have hsource : c.env.scripts.find? root = some source := hsource
      have found : artifact.source = source := by
        simp only [artifact, compile, hsource, Option.getD_some]
      refine ⟨nodes, compiled.resolved, found ▸ hsource, found ▸ tree, ?_, ?_, shape, generates, ?_⟩
      · exact (Context.tree?_enter { script := root }).trans program
      · have resolved : artifact.resolved =
            ((ctx.compile root).result.map Compiled.resolved).toOption := rfl
        rw [resolved, hrun]
        rfl
      · have own : artifact.steps.filter (fun s => s.script == root) =
            (ctx.enter { script := root }).recorded [root] := by
          refine List.filter_congr fun s _ => ?_
          simp [beq_eq_decide]
        rw [own]
        exact steps

/-- A script that is referred to twice, in a push and behind an evaluation, has its steps
among those of the root. -/
theorem Compiler.debug_artifact_consistent_of_references :
    let c : Compiler :=
      { env := { lockedByOwner with scripts := .ofList [
          (text "data", text "OP_1 $(<'x'>)"),
          (text "lock", text "<data> $(<'y'> OP_1) data")] } }
    let artifact := (c.compile .sync true (text "lock") {}).value
    let ctx : Context := ⟨c.env, {}, c.options, .sync, true⟩
    artifact.result = .ok [0x02, 0x51, 0x78, 0x01, 0x51, 0x78] ∧
    ∃ nodes resolved, c.env.scripts.find? (text "lock") = some artifact.source ∧
      treeOf? (c.env.bounds c.options) artifact.source = some nodes ∧ artifact.tree = some nodes ∧
      artifact.resolved = some resolved ∧ ctx.ResolvesTo nodes resolved ∧
      Resolved.generateAll resolved = .ok [0x02, 0x51, 0x78, 0x01, 0x51, 0x78] ∧
      List.Forall₂ (Step.Describes (text "lock")) (Resolved.postorderAll resolved)
        (artifact.steps.filter fun s => s.script == text "lock") := by
  intro c artifact ctx
  have result : artifact.result = .ok [0x02, 0x51, 0x78, 0x01, 0x51, 0x78] := by
    with_unfolding_all rfl
  exact ⟨result, debug_artifact_consistent result⟩

end AuthScript
