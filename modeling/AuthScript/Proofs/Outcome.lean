import AuthScript.Proofs.Reference
import AuthScript.Proofs.Stage

/-!
# What does not depend on ranges

Of a run that ends there remains the value, as far as one looks at it, or the stage in
which the run failed (`Run.outcome`). Ranges are carried along by trees and by errors, but
nothing looks at them: nodes without their ranges are resolved to the same outcome
(`resolveAll_bareAll`). So if the sources of scripts are replaced by others that are read
alike, every script still has the same outcome (`enter_outcome`).

A `Run.Link` does not do for this: it relates runs with the same values, and here the
values differ in their ranges.
-/

namespace AuthScript

/-- The stage in which a run without a value failed. -/
def Halt.stage : Halt → Stage
  | .failed e => e.stage
  | .thrown _ => .resolve

/-- What fails in the same stage and has values that look alike. -/
theorem FailsIn.mapError_congr {α γ : Type} {look : α → γ} {stage : Stage}
    {x x' : Except CompileError α} (hx : FailsIn stage x) (hx' : FailsIn stage x')
    (h : x.toOption.map look = x'.toOption.map look) :
    (x.map look).mapError CompileError.stage = (x'.map look).mapError CompileError.stage := by
  cases x with
  | error e =>
      cases x' with
      | error e' => exact congrArg Except.error ((hx e rfl).trans (hx' e' rfl).symm)
      | ok a' => cases h
  | ok a =>
      cases x' with
      | error e' => cases h
      | ok a' => exact congrArg Except.ok (Option.some.inj h)

namespace Run

variable {α β γ : Type}

/-- How a run ended, as far as `look` looks at the value. -/
def outcome (look : α → γ) (r : Run α) : Except Stage γ :=
  (r.result.map look).mapError Halt.stage

theorem outcome_ok {look : α → γ} {r : Run α} {a : α} (h : r.result = .ok a) :
    r.outcome look = .ok (look a) := by
  rw [outcome, h]
  rfl

theorem outcome_error {look : α → γ} {r : Run α} {halt : Halt} (h : r.result = .error halt) :
    r.outcome look = .error halt.stage := by
  rw [outcome, h]
  rfl

/-- Runs that end alike with parts that end alike. -/
theorem outcome_bind {look : α → γ} {δ : Type} {look' : β → δ} {r r' : Run α} {f f' : α → Run β}
    (hr : r.outcome look = r'.outcome look)
    (hf : ∀ a a', look a = look a' → (f a).outcome look' = (f' a').outcome look') :
    (r >>= f).outcome look' = (r' >>= f').outcome look' := by
  cases h : r.result with
  | error halt =>
      cases h' : r'.result with
      | error halt' =>
          rw [outcome_error h, outcome_error h'] at hr
          have hb : (r >>= f).result = .error halt := bind_eq_error.2 (.inl h)
          have hb' : (r' >>= f').result = .error halt' := bind_eq_error.2 (.inl h')
          rw [outcome_error hb, outcome_error hb', Except.error.inj hr]
      | ok a' =>
          rw [outcome_error h, outcome_ok h'] at hr
          cases hr
  | ok a =>
      cases h' : r'.result with
      | error halt' =>
          rw [outcome_ok h, outcome_error h'] at hr
          cases hr
      | ok a' =>
          rw [outcome_ok h, outcome_ok h'] at hr
          have hb : (r >>= f).result = (f a).result := by rw [result_bind, h]; rfl
          have hb' : (r' >>= f').result = (f' a').result := by rw [result_bind, h']; rfl
          have rest := hf a a' (Except.ok.inj hr)
          unfold outcome at rest ⊢
          rw [hb, hb']
          exact rest

theorem outcome_bind_same {look : β → γ} (r : Run α) {f f' : α → Run β}
    (hf : ∀ a, (f a).outcome look = (f' a).outcome look) :
    (r >>= f).outcome look = (r >>= f').outcome look := by
  refine outcome_bind (rfl : r.outcome id = r.outcome id) ?_
  rintro a _ rfl
  exact hf a

theorem outcome_within (look : α → γ) (r : Run α) (id : Bytes) :
    (r.within id).outcome look = r.outcome look := by
  obtain ⟨events, result⟩ := r
  rcases result with (e | what) | a
  · exact congrArg Except.error (congrArg Cause.stage (CompileError.cause_within e id))
  · rfl
  · rfl

theorem outcome_ofExcept (look : α → γ) (x : Except CompileError α) :
    (ofExcept x).outcome look = (x.map look).mapError CompileError.stage := by
  cases x <;> rfl

end Run

namespace Resolved

/-- The bytes of a node, if it has any. -/
def bytes? (r : Resolved) : Option Bytes := r.generate.toOption

/-- The bytes of nodes, if they have any. -/
def bytesAll? (nodes : List Resolved) : Option Bytes := (generateAll nodes).toOption

theorem bytesAll?_cons (r : Resolved) (rest : List Resolved) :
    bytesAll? (r :: rest) = r.bytes?.bind fun own => (bytesAll? rest).map (own ++ ·) := by
  unfold bytesAll? bytes?
  rw [generateAll]
  cases r.generate with
  | error e => rfl
  | ok own => cases generateAll rest <;> rfl

theorem bytes?_push (children : List Resolved) (range : Range) :
    (push children range).bytes? = (bytesAll? children).bind Push.encode? := by
  unfold bytesAll? bytes?
  rw [generate]
  cases generateAll children with
  | error e => rfl
  | ok contents =>
      simp only [Push.encodeAt]
      cases h : Push.encode? contents <;> simp [Except.toOption, h]

end Resolved

namespace Context

variable {ctx : Context} {scripts : Table Bytes} {compile compile' : Place → Run Compiled}
  {p : Place}

/-! ## Parts of a run -/

theorem generate_outcome {nodes nodes' : List Resolved}
    (h : Resolved.bytesAll? nodes = Resolved.bytesAll? nodes') :
    (generate nodes).outcome id = (generate nodes').outcome id := by
  unfold generate
  have ends : (Run.ofExcept (Resolved.generateAll nodes)).outcome id =
      (Run.ofExcept (Resolved.generateAll nodes')).outcome id := by
    rw [Run.outcome_ofExcept, Run.outcome_ofExcept]
    exact (Resolved.generateAll_failsIn nodes).mapError_congr (Resolved.generateAll_failsIn nodes')
      (congrArg (Option.map id) h)
  refine Run.outcome_bind ends ?_
  rintro b _ rfl
  rfl

theorem record_outcome (kind : Resolved.Kind) (label : Bytes) (range range' : Range)
    (b : Bytes) :
    (ctx.record p kind label range b).outcome id =
      ((ctx.withScripts scripts ctx.debug).record p kind label range' b).outcome id := by
  rw [Run.outcome_ok (result_record _ _ _ _), Run.outcome_ok (result_record _ _ _ _)]

theorem recordPush_outcome {node node' : Resolved} (h : node.bytes? = node'.bytes?)
    (range range' : Range) :
    (recordPush ctx p node range).outcome id =
      (recordPush (ctx.withScripts scripts ctx.debug) p node' range').outcome id := by
  have hgenerate : (generate [node]).outcome id = (generate [node']).outcome id :=
    generate_outcome (by rw [Resolved.bytesAll?_cons, Resolved.bytesAll?_cons, h])
  unfold recordPush
  have same : (ctx.withScripts scripts ctx.debug).debug = ctx.debug := rfl
  rw [same]
  split
  · refine Run.outcome_bind hgenerate ?_
    rintro b _ rfl
    exact record_outcome _ _ _ _ _
  · rfl

theorem evaluate_outcome (invoker : Invoker) {env env' : Environment}
    (machine : invoker.machine env' = invoker.machine env) (program : Bytes)
    (range range' : Range) :
    ((evaluate invoker env program range).value).mapError CompileError.stage =
      ((evaluate invoker env' program range').value).mapError CompileError.stage := by
  have given : ∀ b, (evaluate invoker env program range).value = .ok b ↔
      (evaluate invoker env' program range').value = .ok b := by
    intro b
    rw [evaluate_eq_ok, evaluate_eq_ok, machine]
  have fails := evaluate_failsIn invoker env program range
  have fails' := evaluate_failsIn invoker env' program range'
  cases h : (evaluate invoker env program range).value with
  | ok b => rw [(given b).1 h]
  | error e =>
      cases h' : (evaluate invoker env' program range').value with
      | ok b => cases h.symm.trans ((given b).2 h')
      | error e' => exact congrArg Except.error ((fails e h).trans (fails' e' h').symm)

theorem finishEvaluation_outcome (keeps : ctx.Keeps scripts) {children children' : List Resolved}
    (h : Resolved.bytesAll? children = Resolved.bytesAll? children') (range range' : Range) :
    (finishEvaluation ctx p children range).outcome Resolved.bytes? =
      (finishEvaluation (ctx.withScripts scripts ctx.debug) p children' range').outcome
        Resolved.bytes? := by
  unfold finishEvaluation
  refine Run.outcome_bind (generate_outcome h) ?_
  rintro body _ rfl
  have ends := congrArg (Except.ok : _ → Except Stage (Except Stage Bytes))
    (evaluate_outcome ctx.invoker keeps.machine body range range')
  refine Run.outcome_bind ends ?_
  intro value value' hvalue
  have given : (Run.ofExcept value).outcome id = (Run.ofExcept value').outcome id := by
    rw [Run.outcome_ofExcept, Run.outcome_ofExcept]
    cases value <;> cases value' <;> exact hvalue
  refine Run.outcome_bind given ?_
  rintro result _ rfl
  refine Run.outcome_bind (record_outcome _ _ _ _ _) ?_
  rintro _ _ _
  rw [Run.pure_eq, Run.pure_eq, Run.outcome_ok rfl, Run.outcome_ok rfl]
  simp only [Resolved.bytes?, Resolved.generate, id]

/-! ## References and identifiers -/

theorem invoke_outcome (cap : Capability) (req : Request) (range range' : Range) :
    (ctx.invoke cap req range).outcome id =
      ((ctx.withScripts scripts ctx.debug).invoke cap req range').outcome id := by
  unfold invoke
  refine Run.outcome_bind_same _ fun answer => ?_
  rcases answer with (fault | what) | b <;> rfl

section

variable (h : ∀ id ∉ p.chain, (compile (p.enter id)).outcome Compiled.bytecode =
  (compile' (p.enter id)).outcome Compiled.bytecode)

include h

theorem refer_outcome (target : Bytes) (range range' : Range) :
    (refer ctx compile p target range).outcome id =
      (refer (ctx.withScripts scripts ctx.debug) compile' p target range').outcome id := by
  unfold refer
  rw [options_withScripts]
  split
  · rfl
  · rename_i fresh
    split
    · rfl
    · refine Run.outcome_bind_same _ fun _ => ?_
      refine Run.outcome_bind (h target (by simpa using fresh)) ?_
      intro compiled compiled' hbytes
      exact congrArg Except.ok hbytes

theorem coveredBytecode_outcome (name : Bytes) (access : Access) (range range' : Range) :
    (coveredBytecode ctx compile p name range access).outcome id =
      (coveredBytecode (ctx.withScripts scripts ctx.debug) compile' p name range' access).outcome
        id := by
  have same : (ctx.withScripts scripts ctx.debug).data = ctx.data ∧
      (ctx.withScripts scripts ctx.debug).env.unlocks = ctx.env.unlocks := ⟨rfl, rfl⟩
  unfold coveredBytecode
  rw [same.1, same.2]
  split
  · cases ctx.env.unlocks.find? p.script with
    | none => rfl
    | some locking =>
        refine Run.outcome_bind (refer_outcome h locking range range') ?_
        rintro b _ rfl
        rfl
  · rfl

theorem signedBytecode_outcome (keeps : ctx.Keeps scripts) (name : Bytes) (access : Access)
    (range range' : Range) :
    (signedBytecode ctx compile p name range access).outcome id =
      (signedBytecode (ctx.withScripts scripts ctx.debug) compile' p name range' access).outcome
        id := by
  have known : ∀ target, (ctx.withScripts scripts ctx.debug).env.scripts.contains target =
      ctx.env.scripts.contains target := keeps.contains
  unfold signedBytecode
  cases access.signedScript? with
  | none => rfl
  | some target =>
      simp only [known]
      split
      · refine Run.outcome_bind (refer_outcome h target range range') ?_
        rintro b _ rfl
        rfl
      · rfl

theorem accessBytes_outcome (keeps : ctx.Keeps scripts) (name : Bytes) (access : Access)
    (range range' : Range) :
    (accessBytes ctx compile p name range access).outcome id =
      (accessBytes (ctx.withScripts scripts ctx.debug) compile' p name range' access).outcome
        id := by
  unfold accessBytes
  cases access.capability? with
  | none => rfl
  | some cap =>
      refine Run.outcome_bind (coveredBytecode_outcome h name access range range') ?_
      rintro covered _ rfl
      refine Run.outcome_bind (signedBytecode_outcome h keeps name access range range') ?_
      rintro signed _ rfl
      exact invoke_outcome cap _ range range'

theorem resolveIdentifier_outcome (keeps : ctx.Keeps scripts) (name : Bytes)
    (range range' : Range) :
    (resolveIdentifier ctx compile p name range).outcome Resolved.bytes? =
      (resolveIdentifier (ctx.withScripts scripts ctx.debug) compile' p name range').outcome
        Resolved.bytes? := by
  unfold resolveIdentifier
  rw [keeps.ofName]
  cases Meaning.ofName ctx.env name with
  | error cause => rfl
  | ok meaning =>
      cases meaning with
      | opcode op =>
          refine Run.outcome_bind (record_outcome _ _ range range' _) fun _ _ _ => ?_
          rw [Run.pure_eq, Run.pure_eq, Run.outcome_ok rfl, Run.outcome_ok rfl]
          simp only [Resolved.bytes?, Resolved.generate]
      | script =>
          refine Run.outcome_bind (refer_outcome h name range range') ?_
          rintro b _ rfl
          refine Run.outcome_bind (record_outcome _ _ range range' _) fun _ _ _ => ?_
          rw [Run.pure_eq, Run.pure_eq, Run.outcome_ok rfl, Run.outcome_ok rfl]
          simp only [Resolved.bytes?, Resolved.generate, id]
      | variable_ access =>
          refine Run.outcome_bind (accessBytes_outcome h keeps name access range range') ?_
          rintro b _ rfl
          refine Run.outcome_bind (record_outcome _ _ range range' _) fun _ _ _ => ?_
          rw [Run.pure_eq, Run.pure_eq, Run.outcome_ok rfl, Run.outcome_ok rfl]
          simp only [Resolved.bytes?, Resolved.generate, id]

end

/-! ## Nodes and scripts -/

theorem literal_outcome {node : Node} (hnode : node.IsLiteral) :
    (resolve ctx compile p node).outcome Resolved.bytes? =
      (resolve (ctx.withScripts scripts ctx.debug) compile' p node.bare).outcome
        Resolved.bytes? := by
  cases hnode with
  | integer value range =>
      rw [Node.bare, resolve, resolve, Run.outcome_ok rfl, Run.outcome_ok rfl]
      simp only [Resolved.bytes?, Resolved.generate]
  | utf8 contents range =>
      rw [Node.bare, resolve, resolve, Run.outcome_ok rfl, Run.outcome_ok rfl]
      simp only [Resolved.bytes?, Resolved.generate]
  | hex digits range =>
      have same : (Literal.ofHex range digits).toOption = (Literal.ofHex {} digits).toOption := by
        unfold Literal.ofHex
        split
        · rfl
        · split <;> rfl
      have ends : (Run.ofExcept (Literal.ofHex range digits)).outcome id =
          (Run.ofExcept (Literal.ofHex {} digits)).outcome id := by
        rw [Run.outcome_ofExcept, Run.outcome_ofExcept]
        exact (Literal.ofHex_failsIn range digits).mapError_congr (Literal.ofHex_failsIn {} digits)
          (congrArg (Option.map id) same)
      rw [Node.bare, resolve, resolve]
      refine Run.outcome_bind ends ?_
      rintro b _ rfl
      rw [Run.pure_eq, Run.pure_eq, Run.outcome_ok rfl, Run.outcome_ok rfl]
      simp only [Resolved.bytes?, Resolved.generate, id]

/-- Nodes are resolved to the same outcome without their ranges, and with other sources of
the scripts that they refer to if these have the same outcomes. -/
theorem resolveAll_bareAll (keeps : ctx.Keeps scripts)
    (h : ∀ q : Place, q.chain = p.chain → ∀ id ∉ p.chain,
      (compile (q.enter id)).outcome Compiled.bytecode =
        (compile' (q.enter id)).outcome Compiled.bytecode) (nodes : List Node) :
    (resolveAll ctx compile p nodes).outcome Resolved.bytesAll? =
      (resolveAll (ctx.withScripts scripts ctx.debug) compile' p (Node.bareAll nodes)).outcome
        Resolved.bytesAll? := by
  have options : (ctx.withScripts scripts ctx.debug).options = ctx.options := rfl
  have cons : ∀ {p : Place} {node node' : Node} {rest rest' : List Node},
      (resolve ctx compile p node).outcome Resolved.bytes? =
        (resolve (ctx.withScripts scripts ctx.debug) compile' p node').outcome Resolved.bytes? →
      (resolveAll ctx compile p rest).outcome Resolved.bytesAll? =
        (resolveAll (ctx.withScripts scripts ctx.debug) compile' p rest').outcome
          Resolved.bytesAll? →
      (resolveAll ctx compile p (node :: rest)).outcome Resolved.bytesAll? =
        (resolveAll (ctx.withScripts scripts ctx.debug) compile' p (node' :: rest')).outcome
          Resolved.bytesAll? := by
    intro p node node' rest rest' first others
    rw [resolveAll, resolveAll]
    refine Run.outcome_bind first fun r r' hr => ?_
    refine Run.outcome_bind others fun rs rs' hrs => ?_
    rw [Run.pure_eq, Run.pure_eq, Run.outcome_ok rfl, Run.outcome_ok rfl,
      Resolved.bytesAll?_cons, Resolved.bytesAll?_cons, hr, hrs]
  induction nodes using Node.nodesInduction generalizing p with
  | nil => rw [Node.bareAll, resolveAll, resolveAll]
  | literal node rest hnode ih =>
      rw [Node.bareAll]
      exact cons (literal_outcome hnode) (ih h)
  | identifier name range rest ih =>
      rw [Node.bareAll, Node.bare]
      refine cons ?_ (ih h)
      rw [resolve, resolve]
      exact resolveIdentifier_outcome (h p rfl) keeps name range {}
  | push children range rest inside ih =>
      rw [Node.bareAll, Node.bare]
      refine cons ?_ (ih h)
      rw [resolve, resolve, openBracket_bind, openBracket_bind, options]
      split
      · rfl
      · refine Run.outcome_bind (inside h) fun rs rs' hrs => ?_
        have same : (Resolved.push rs range).bytes? = (Resolved.push rs' {}).bytes? := by
          rw [Resolved.bytes?_push, Resolved.bytes?_push, hrs]
        refine Run.outcome_bind (recordPush_outcome same range {}) fun _ _ _ => ?_
        exact congrArg Except.ok same
  | evaluation children range rest inside ih =>
      rw [Node.bareAll, Node.bare]
      refine cons ?_ (ih h)
      rw [resolve, resolve, openBracket_bind, openBracket_bind, options]
      split
      · rfl
      · rw [openEvaluation_bind, openEvaluation_bind, options]
        split
        · rfl
        · refine Run.outcome_bind (inside h) fun rs rs' hrs => ?_
          exact finishEvaluation_outcome keeps hrs range {}

/-- Scripts have the same outcomes at every place if their sources are replaced by others
that are read alike. -/
theorem enter_outcome (keeps : ctx.Keeps scripts)
    (alike : ∀ id source, ctx.env.scripts.find? id = some source →
      ∃ source', scripts.find? id = some source' ∧
        (read ctx source).outcome Node.bareAll = (read ctx source').outcome Node.bareAll)
    (p : Place) :
    (ctx.enter p).outcome Compiled.bytecode =
      ((ctx.withScripts scripts ctx.debug).enter p).outcome Compiled.bytecode := by
  induction p using placeInduction ctx with
  | missing p hp =>
      have hp' : (ctx.withScripts scripts ctx.debug).env.scripts.contains p.script = false :=
        (keeps.contains p.script).trans hp
      rw [enter_missing hp, enter_missing hp']
  | known p hp ih =>
      obtain ⟨source, hsource⟩ := (Table.contains_iff_find? _ _).1 hp
      obtain ⟨source', hsource', hread⟩ := alike p.script source hsource
      have found : (ctx.withScripts scripts ctx.debug).env.scripts.find? p.script = some source' :=
        hsource'
      rw [enter_source hsource, enter_source found, Run.outcome_within, Run.outcome_within]
      unfold compileSource
      refine Run.outcome_bind_same _ fun _ => ?_
      refine Run.outcome_bind hread fun nodes nodes' hnodes => ?_
      have ends : (resolveAll ctx ctx.enter p nodes).outcome Resolved.bytesAll? =
          (resolveAll (ctx.withScripts scripts ctx.debug)
            (ctx.withScripts scripts ctx.debug).enter p nodes').outcome Resolved.bytesAll? := by
        -- both have the outcome of the nodes without ranges
        rw [resolveAll_bareAll keeps ih nodes, hnodes]
        exact (resolveAll_bareAll (Keeps.same (ctx.withScripts scripts ctx.debug))
          (fun _ _ _ _ => rfl) nodes').symm
      refine Run.outcome_bind ends fun resolved resolved' hresolved => ?_
      refine Run.outcome_bind (generate_outcome hresolved) ?_
      rintro b _ rfl
      rfl

end Context

end AuthScript
