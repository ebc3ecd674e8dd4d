import AuthScript.Proofs.Identifier
import AuthScript.Proofs.Part
import AuthScript.Proofs.Stage

/-!
# Runs confined to some places

Which scripts a run enters, and whether it reports a cycle of references, is decided
where identifiers are resolved. `Run.Confined` says both of a run; it is kept by
sequencing and holds of every part of a run that resolves no identifier, for such a part
is silent. So it holds of the resolution of nodes if it holds of the references that
their identifiers lead to (`resolveAll_confined`), and the same goes for every link that
silent runs have to themselves (`resolveAll_self`).
-/

namespace AuthScript

/-- A run enters only certain places, and reports a cycle only for a reason. -/
structure Run.Confined {α : Type} (E : Place → Prop) (X : Prop) (r : Run α) : Prop where
  entries : ∀ q, .entry q ∈ r.events → E q
  cycles : ∀ e chain id, r.result = .error (.failed e) → e.cause = .referenceCycle chain id → X

namespace Run.Confined

variable {α β : Type} {E : Place → Prop} {X : Prop}

theorem of_silent {r : Run α} (silent : ∀ q, .entry q ∉ r.events)
    (other : ∀ e chain id, r.result = .error (.failed e) → e.cause ≠ .referenceCycle chain id) :
    r.Confined E X :=
  ⟨fun q hq => absurd hq (silent q), fun e chain id h hc => absurd hc (other e chain id h)⟩

theorem mono {E' : Place → Prop} {X' : Prop} {r : Run α} (h : r.Confined E X)
    (hE : ∀ q, E q → E' q) (hX : X → X') : r.Confined E' X' :=
  ⟨fun q hq => hE q (h.entries q hq), fun e chain id he hc => hX (h.cycles e chain id he hc)⟩

theorem done (a : α) : (Run.done a).Confined E X := by
  refine of_silent ?_ ?_
  · intro q hq
    cases hq
  · intro e chain id h
    cases h

theorem bind {r : Run α} {f : α → Run β} (hr : r.Confined E X)
    (hf : ∀ a, r.result = .ok a → (f a).Confined E X) : (r >>= f).Confined E X := by
  constructor
  · intro q hq
    rcases mem_events_bind.1 hq with hq | ⟨a, ha, hq⟩
    · exact hr.entries q hq
    · exact (hf a ha).entries q hq
  · intro e chain id h hcause
    rcases bind_eq_error.1 h with h | ⟨a, ha, h⟩
    · exact hr.cycles e chain id h hcause
    · exact (hf a ha).cycles e chain id h hcause

theorem within {r : Run α} (hr : r.Confined E X) (id : Bytes) : (r.within id).Confined E X := by
  constructor
  · intro q hq
    rw [events_within] at hq
    exact hr.entries q hq
  · intro e chain t h hcause
    obtain ⟨own, hown, rfl⟩ := within_eq_failed.1 h
    rw [CompileError.cause_within] at hcause
    exact hr.cycles own chain t hown hcause

theorem fail {cause : Cause} {range : Range}
    (h : ∀ chain id, cause = .referenceCycle chain id → X) :
    (Run.fail cause range : Run α).Confined E X := by
  constructor
  · intro q hq
    cases hq
  · intro e chain id he hcause
    cases he
    exact h chain id hcause

theorem entry {q : Place} (h : E q) : (Run.entry q).Confined E X := by
  constructor
  · intro q' hq
    obtain rfl : q' = q := by simpa [Run.entry] using hq
    exact h
  · intro e chain id he
    cases he

/-- A failure of another stage reports no cycle. -/
theorem ofExcept {x : Except CompileError α} {stage : Stage} (hx : FailsIn stage x)
    (other : stage ≠ .resolve) : (Run.ofExcept x).Confined E X := by
  cases x with
  | ok a => exact done a
  | error e =>
      refine of_silent ?_ ?_
      · intro q hq
        cases hq
      · intro e' chain id he hcause
        cases he
        have hstage : e.cause.stage = stage := hx e rfl
        rw [hcause] at hstage
        exact other hstage.symm

theorem ofLogged (l : Logged α) : (Run.ofLogged l).Confined E X := by
  refine of_silent ?_ ?_
  · intro q hq
    simp [Run.ofLogged] at hq
  · intro e chain id h
    cases h

theorem tell (level : Log.Level) (category : Log.Category) (message : Bytes) :
    (Run.tell level category message).Confined E X := by
  refine of_silent ?_ ?_
  · intro q hq
    simp [Run.tell] at hq
  · intro e chain id h
    cases h

theorem tree (nodes : List Node) : (Run.tree nodes).Confined E X := by
  refine of_silent ?_ ?_
  · intro q hq
    simp [Run.tree] at hq
  · intro e chain id h
    cases h

/-- The link of a run that is confined to itself. -/
def link (E : Place → Prop) (X : Prop) : Run.Link := .having (Run.Confined E X) done bind

end Run.Confined

/-- A run that enters no script and reports no cycle. -/
def Run.Silent {α : Type} (r : Run α) : Prop := r.Confined (fun _ => False) False

/-- A link holds between every silent run and itself. -/
def Run.Link.KeepsSilent (L : Run.Link) : Prop := ∀ {α : Type} (r : Run α), r.Silent → L.Rel r r

/-- A link holds between every refusal and itself: a failure to resolve that is no cycle. -/
def Run.Link.KeepsRefusals (L : Run.Link) : Prop :=
  ∀ {α : Type} (cause : Cause) (range : Range), cause.stage = .resolve →
    (∀ chain id, cause ≠ .referenceCycle chain id) →
    L.Rel (.fail cause range : Run α) (.fail cause range)

theorem Run.Link.KeepsSilent.refusals {L : Run.Link} (silent : L.KeepsSilent) :
    L.KeepsRefusals :=
  fun _ _ _ other => silent _ (.fail fun chain id hcause => absurd hcause (other chain id))

/-- No more evaluations and brackets are open at a place than there may be. -/
structure Place.Fits (p : Place) (options : Options) : Prop where
  evaluations : p.evaluations ≤ options.evaluationDepth
  brackets : p.brackets ≤ options.nestingDepth

theorem Place.Fits.inBracket {p : Place} {options : Options} (h : p.Fits options)
    (room : ¬ options.nestingDepth ≤ p.brackets) : p.inBracket.Fits options :=
  ⟨h.evaluations, Nat.not_le.1 room⟩

theorem Place.Fits.inEvaluation {p : Place} {options : Options} (h : p.Fits options)
    (room : ¬ options.evaluationDepth ≤ p.evaluations) : p.inEvaluation.Fits options :=
  ⟨Nat.not_le.1 room, h.brackets⟩

namespace Context

/-- The context with other limits. -/
def withOptions (ctx : Context) (options : Options) : Context := { ctx with options }

variable {ctx : Context}

@[simp] theorem env_withOptions (options : Options) : (ctx.withOptions options).env = ctx.env := rfl

@[simp] theorem options_withOptions (options : Options) :
    (ctx.withOptions options).options = options := rfl

/-! ## The parts of a run -/

variable {compile : Place → Run Compiled} {p : Place} {E : Place → Prop} {X : Prop}

theorem record_confined (kind : Resolved.Kind) (label : Bytes) (range : Range) (b : Bytes) :
    (ctx.record p kind label range b).Confined E X := by
  unfold record
  split
  · refine .of_silent ?_ ?_
    · intro q hq
      simp [Run.step] at hq
    · intro e chain id h
      cases h
  · exact .done ()

theorem literal_confined {node : Node} (h : node.IsLiteral) :
    (resolve ctx compile p node).Confined E X := by
  cases h with
  | integer value range =>
      rw [resolve]
      exact .done _
  | hex digits range =>
      rw [resolve]
      exact .bind (.ofExcept (Literal.ofHex_failsIn range digits) (by decide)) fun _ _ => .done _
  | utf8 contents range =>
      rw [resolve]
      exact .done _

theorem generate_confined (nodes : List Resolved) : (generate nodes).Confined E X := by
  unfold generate tellGenerated
  refine .bind (.ofExcept (Resolved.generateAll_failsIn nodes) (by decide)) fun b _ => ?_
  exact .bind (.tell _ _ _) fun _ _ => .done b

theorem recordPush_confined (node : Resolved) (range : Range) :
    (recordPush ctx p node range).Confined E X := by
  unfold recordPush
  split
  · exact .bind (generate_confined [node]) fun b _ => record_confined _ _ _ _
  · exact .done ()

theorem finishEvaluation_confined (children : List Resolved) (range : Range) :
    (finishEvaluation ctx p children range).Confined E X := by
  unfold finishEvaluation
  refine .bind (generate_confined children) fun body _ => ?_
  refine .bind (.ofLogged _) fun value hvalue => ?_
  have hvalue : (evaluate ctx.invoker ctx.env body range).value = value := Except.ok.inj hvalue
  have hfails : FailsIn .evaluation value := hvalue ▸ evaluate_failsIn _ _ _ _
  refine .bind (.ofExcept hfails (by decide)) fun result _ => ?_
  exact .bind (record_confined _ _ _ _) fun _ _ => .done _

theorem invoke_confined (cap : Capability) (req : Request) (range : Range) :
    (ctx.invoke cap req range).Confined E X := by
  unfold invoke
  refine .bind (.ofLogged _) fun answer _ => ?_
  rcases answer with (fault | what) | b
  · exact .fail (by simp)
  · refine .of_silent ?_ ?_
    · intro q hq
      cases hq
    · intro e chain id h
      cases h
  · exact .done b

theorem read_confined (source : Bytes) : (read ctx source).Confined E X := by
  unfold read
  refine .bind (.ofExcept (Token.ofText_failsIn source) (by decide)) fun tokens _ => ?_
  refine .bind (.tell _ _ _) fun _ _ => ?_
  refine .bind (.ofExcept (Node.ofTokens_failsIn _ tokens) (by decide)) fun nodes _ => ?_
  exact .bind (.tell _ _ _) fun _ _ => .bind (.tree nodes) fun _ _ => .done nodes

/-- A reference to a script in progress is a cycle; any other one enters the script. -/
theorem refer_confined {t : Bytes} {range : Range} (again : t ∈ p.chain → X)
    (fresh : t ∉ p.chain → (compile (p.enter t)).Confined E X) :
    (refer ctx compile p t range).Confined E X := by
  unfold refer
  by_cases hmem : t ∈ p.chain
  · rw [if_pos (by simpa using hmem)]
    exact .fail fun _ _ _ => again hmem
  · rw [if_neg (by simpa using hmem)]
    split
    · exact .fail (by simp)
    · refine .bind (.tell _ _ _) fun _ _ => ?_
      exact .bind (fresh hmem) fun _ _ => .done _

/-! ## Linked identifiers -/

variable {L : Run.Link} {ctx' : Context} {options : Options} {compile' : Place → Run Compiled}
  {p' : Place}

/-- Two contexts agree on an identifier that stands in a script: on its meaning, and on
the scripts that it leads to. -/
structure AgreeOn (ctx ctx' : Context) (script name : Bytes) : Prop where
  meaning : Meaning.ofName ctx'.env name = Meaning.ofName ctx.env name
  needs : ∀ access : Access,
    access.needsCovered ctx'.data name = access.needsCovered ctx.data name
  unlocks : ctx'.env.unlocks.find? script = ctx.env.unlocks.find? script
  known : ∀ (access : Access) (t : Bytes), Meaning.ofName ctx.env name = .ok (.variable_ access) →
    access.signedScript? = some t → ctx'.env.scripts.contains t = ctx.env.scripts.contains t

/-- Linked references and operations make linked accesses. -/
theorem accessBytes_linked (refusals : L.KeepsRefusals) (script : p'.script = p.script)
    {name : Bytes} {range : Range} {access : Access}
    (hm : Meaning.ofName ctx.env name = .ok (.variable_ access))
    (agree : ctx.AgreeOn ctx' p.script name)
    (invoke : ∀ cap covered signed, access.capability? = some cap →
      L.Rel (ctx.invoke cap (access.request name p.script covered signed) range)
        (ctx'.invoke cap (access.request name p.script covered signed) range))
    (hcovered : ∀ t, access.needsCovered ctx.data name = true →
      ctx.env.unlocks.find? p.script = some t →
      L.Rel (refer ctx compile p t range) (refer ctx' compile' p' t range))
    (hsigned : ∀ t, access.signedScript? = some t →
      L.Rel (refer ctx compile p t range) (refer ctx' compile' p' t range)) :
    L.Rel (accessBytes ctx compile p name range access)
      (accessBytes ctx' compile' p' name range access) := by
  have covers : L.Rel (coveredBytecode ctx compile p name range access)
      (coveredBytecode ctx' compile' p' name range access) := by
    unfold coveredBytecode
    rw [agree.needs access, script, agree.unlocks]
    by_cases needs : access.needsCovered ctx.data name = true
    · rw [if_pos needs, if_pos needs]
      cases hlocking : ctx.env.unlocks.find? p.script with
      | none => exact refusals _ _ rfl (by simp)
      | some locking => exact L.bind (hcovered locking needs hlocking) fun b _ _ => L.done _
    · rw [if_neg needs, if_neg needs]
      exact L.done none
  have signs : L.Rel (signedBytecode ctx compile p name range access)
      (signedBytecode ctx' compile' p' name range access) := by
    unfold signedBytecode
    cases htarget : access.signedScript? with
    | none => exact L.done none
    | some target =>
        simp only [agree.known access target hm htarget]
        by_cases known : ctx.env.scripts.contains target = true
        · rw [if_pos known, if_pos known]
          exact L.bind (hsigned target htarget) fun b _ _ => L.done _
        · rw [if_neg known, if_neg known]
          exact refusals _ _ rfl (by simp)
  unfold accessBytes
  rw [script]
  cases hcap : access.capability? with
  | none =>
      have hstage : (access.failure name).stage = .resolve ∧
          ∀ chain id, access.failure name ≠ .referenceCycle chain id := by
        unfold Access.failure
        split <;> exact ⟨rfl, by simp⟩
      exact refusals _ _ hstage.1 hstage.2
  | some cap =>
      refine L.bind covers fun covered _ _ => ?_
      exact L.bind signs fun signed _ _ => invoke cap covered signed hcap

/-- Where two contexts agree on an identifier, and the references are linked to which it
leads, its resolutions are linked, at any places in the same script. -/
theorem resolveIdentifier_linked_of_agree (refusals : L.KeepsRefusals)
    (script : p'.script = p.script) {name : Bytes} {range : Range}
    (agree : ctx.AgreeOn ctx' p.script name)
    (record : ∀ kind b,
      L.Rel (ctx.record p kind name range b) (ctx'.record p' kind name range b))
    (invoke : ∀ access cap covered signed, Meaning.ofName ctx.env name = .ok (.variable_ access) →
      access.capability? = some cap →
      L.Rel (ctx.invoke cap (access.request name p.script covered signed) range)
        (ctx'.invoke cap (access.request name p.script covered signed) range))
    (hr : ∀ t, ctx.LeadsTo p.script name t →
      L.Rel (refer ctx compile p t range) (refer ctx' compile' p' t range)) :
    L.Rel (resolveIdentifier ctx compile p name range)
      (resolveIdentifier ctx' compile' p' name range) := by
  unfold LeadsTo at hr
  unfold resolveIdentifier
  rw [agree.meaning]
  cases hm : Meaning.ofName ctx.env name with
  | error cause =>
      refine refusals _ _ (Meaning.stage_ofName hm) ?_
      rintro chain id rfl
      exact absurd hm (Meaning.ofName_ne_referenceCycle chain id)
  | ok meaning =>
      simp only [hm] at hr
      cases meaning with
      | opcode op => exact L.bind (record _ _) fun _ _ _ => L.done _
      | script =>
          refine L.bind (hr name rfl) fun b _ _ => ?_
          exact L.bind (record _ _) fun _ _ _ => L.done _
      | variable_ access =>
          refine L.bind (accessBytes_linked refusals script hm agree ?_ ?_ ?_) fun b _ _ => ?_
          · exact fun cap covered signed => invoke access cap covered signed hm
          · exact fun t needs hlocking => hr t (.inr ⟨needs, hlocking⟩)
          · exact fun t htarget => hr t (.inl htarget)
          · exact L.bind (record _ _) fun _ _ _ => L.done _

/-- Limits have no part in what an identifier leads to. -/
theorem resolveIdentifier_linked (silent : L.KeepsSilent) {name : Bytes} {range : Range}
    (hr : ∀ t, ctx.LeadsTo p.script name t →
      L.Rel (refer ctx compile p t range) (refer (ctx.withOptions options) compile' p t range)) :
    L.Rel (resolveIdentifier ctx compile p name range)
      (resolveIdentifier (ctx.withOptions options) compile' p name range) := by
  have agree : ctx.AgreeOn (ctx.withOptions options) p.script name :=
    ⟨rfl, fun _ => rfl, rfl, fun _ _ _ _ => rfl⟩
  refine resolveIdentifier_linked_of_agree silent.refusals rfl agree ?_ ?_ hr
  · intro kind b
    exact silent _ (record_confined _ _ _ _)
  · intro access cap covered signed _ _
    exact silent _ (invoke_confined _ _ _)

/-- Nodes are linked to themselves, where the references are that their identifiers lead
to. The places of these references stay within the limits. -/
theorem resolveAll_self (silent : L.KeepsSilent) {nodes : List Node}
    (hr : ∀ q : Place, q.chain = p.chain → (p.Fits ctx.options → q.Fits ctx.options) →
      ∀ name ∈ Node.namesAll nodes, ∀ t range, ctx.LeadsTo q.script name t →
        L.Rel (refer ctx compile q t range) (refer ctx compile q t range)) :
    L.Rel (resolveAll ctx compile p nodes) (resolveAll ctx compile p nodes) := by
  have parts : Linked L
      (fun q q' => q = q' ∧ q.chain = p.chain ∧ (p.Fits ctx.options → q.Fits ctx.options))
      (· ∈ Node.namesAll nodes) ctx ctx compile compile := by
    refine ⟨?_, ?_, ?_, ?_, ?_, ?_⟩
    · rintro q _ node ⟨rfl, _⟩ hnode
      exact silent _ (literal_confined hnode)
    · rintro q _ name range ⟨rfl, hq, fits⟩ hname
      have linked : L.Rel (resolveIdentifier ctx compile q name range)
          (resolveIdentifier (ctx.withOptions ctx.options) compile q name range) :=
        resolveIdentifier_linked silent fun t => hr q hq fits name hname t range
      exact linked
    · rintro β q _ range f f' ⟨rfl, hq, fits⟩ hf
      rw [openBracket_bind, openBracket_bind]
      split
      · exact silent _ (.fail (by simp))
      · rename_i room
        exact hf ⟨rfl, hq, fun hp => (fits hp).inBracket room⟩
    · rintro β q _ range f f' ⟨rfl, hq, fits⟩ hf
      rw [openEvaluation_bind, openEvaluation_bind]
      split
      · exact silent _ (.fail (by simp))
      · rename_i room
        exact hf ⟨rfl, hq, fun hp => (fits hp).inEvaluation room⟩
    · rintro q _ node range ⟨rfl, _⟩
      exact silent _ (recordPush_confined node range)
    · rintro q _ children range ⟨rfl, _⟩
      exact silent _ (finishEvaluation_confined children range)
  exact resolveAll_linked parts ⟨rfl, rfl, fun h => h⟩ fun _ h => h

/-- Nodes are confined by what their identifiers lead to. -/
theorem resolveAll_confined {nodes : List Node}
    (hr : ∀ q : Place, q.chain = p.chain → ∀ name ∈ Node.namesAll nodes, ∀ t range,
      ctx.LeadsTo q.script name t → (refer ctx compile q t range).Confined E X) :
    (resolveAll ctx compile p nodes).Confined E X := by
  have silent : (Run.Confined.link E X).KeepsSilent := fun r hr =>
    ⟨rfl, hr.mono (fun _ => False.elim) False.elim⟩
  exact (resolveAll_self silent fun q hq _ name hname t range leads =>
    ⟨rfl, hr q hq name hname t range leads⟩).2

end Context

end AuthScript
