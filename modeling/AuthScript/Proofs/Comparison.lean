import AuthScript.Proofs.Confined

/-!
# Comparing two contexts

Two contexts may compile the same scripts with other operations, with other data or with
more definitions. What can be said of two such runs is a comparison: a link that every
run has to itself and that is kept where a script is left. If the parts compare in which
the contexts differ, then so do the compilations of every script (`Compared.enter`).

The parts are how identifiers are resolved, and what happens at the end of a push or of
an evaluation. A comparison may speak of the scripts that the first run enters; then only
the identifiers in these have to compare.
-/

namespace AuthScript

/-- A link that every run has to itself, and that is kept where a script is left. -/
structure Run.Comparison extends Run.Link where
  refl : ∀ {α : Type} (r : Run α), Rel r r
  within : ∀ {α : Type} {r r' : Run α}, Rel r r' → ∀ id, Rel (r.within id) (r'.within id)

theorem Run.Comparison.keepsRefusals (C : Run.Comparison) : C.toLink.KeepsRefusals :=
  fun _ _ _ _ => C.refl _

/-- What the first run gives, the second one gives as well, unless it fails and there is an
excuse for its cause. -/
def Run.keeps (excuse : Cause → Prop) : Run.Comparison where
  Rel r r' := ∀ a, r.result = .ok a →
    r'.result = .ok a ∨ ∃ e, r'.result = .error (.failed e) ∧ excuse e.cause
  done _ := fun _ h => .inl h
  refl _ := fun _ h => .inl h
  bind := by
    intro α β r r' f f' hr hf b hb
    obtain ⟨a, ha, hfa⟩ := Run.bind_eq_ok.1 hb
    rcases hr a ha with ha' | ⟨e, he, excused⟩
    · rcases hf a ha ha' b hfa with hb' | ⟨e, he, excused⟩
      · exact .inl (Run.bind_eq_ok.2 ⟨a, ha', hb'⟩)
      · exact .inr ⟨e, Run.bind_eq_error.2 (.inr ⟨a, ha', he⟩), excused⟩
    · exact .inr ⟨e, Run.bind_eq_error.2 (.inl he), excused⟩
  within := by
    intro α r r' hr id a ha
    rcases hr a (Run.within_eq_ok.1 ha) with ha' | ⟨e, he, excused⟩
    · exact .inl (Run.within_eq_ok.2 ha')
    · refine .inr ⟨e.within id, Run.within_eq_failed.2 ⟨e, he, rfl⟩, ?_⟩
      rw [CompileError.cause_within]
      exact excused

namespace Context

/-- The parts compare in which two contexts may differ, for the identifiers of scripts
with a property; every script is the same in both contexts, and so are the limits. -/
structure Compared (C : Run.Comparison) (S : Bytes → Prop) (ctx ctx' : Context) : Prop where
  options : ctx'.options = ctx.options
  digits : ctx'.env.digits = ctx.env.digits
  source : ∀ {id source}, ctx.env.scripts.find? id = some source →
    ctx'.env.scripts.find? id = some source
  missing : ∀ {p : Place}, ctx.env.scripts.contains p.script = false →
    C.Rel (ctx.enter p) (ctx'.enter p)
  entry : ∀ {α : Type} {p : Place} {r r' : Run α}, (S p.script → C.Rel r r') →
    C.Rel (Run.entry p >>= fun _ => r) (Run.entry p >>= fun _ => r')
  identifier : ∀ {p : Place} {nodes name range}, S p.script →
    ctx.env.program? ctx.options p.script = some nodes → name ∈ Node.namesAll nodes →
    (∀ t, C.Rel (refer ctx ctx.enter p t range) (refer ctx' ctx'.enter p t range)) →
    C.Rel (resolveIdentifier ctx ctx.enter p name range)
      (resolveIdentifier ctx' ctx'.enter p name range)
  recordPush : ∀ p node range, C.Rel (recordPush ctx p node range) (recordPush ctx' p node range)
  finish : ∀ p children range,
    C.Rel (finishEvaluation ctx p children range) (finishEvaluation ctx' p children range)

variable {C : Run.Comparison} {S : Bytes → Prop} {ctx ctx' : Context} {p : Place}

/-- References compare if the scripts do to which they lead. -/
theorem refer_compared {compile compile' : Place → Run Compiled}
    (options : ctx'.options = ctx.options) {t : Bytes} {range : Range}
    (h : t ∉ p.chain → C.Rel (compile (p.enter t)) (compile' (p.enter t))) :
    C.Rel (refer ctx compile p t range) (refer ctx' compile' p t range) := by
  unfold refer
  rw [options]
  by_cases again : t ∈ p.chain
  · have found : p.chain.contains t = true := by simpa using again
    rw [if_pos found, if_pos found]
    exact C.refl _
  · have fresh : ¬ p.chain.contains t = true := by simpa using again
    rw [if_neg fresh, if_neg fresh]
    split
    · exact C.refl _
    · refine C.bind (C.refl _) fun _ _ _ => ?_
      exact C.bind (h again) fun compiled _ _ => C.done _

/-- Nodes are resolved comparably under the same limits, if their identifiers are. -/
theorem resolveAll_compared {compile compile' : Place → Run Compiled}
    (options : ctx'.options = ctx.options) {nodes : List Node}
    (identifier : ∀ q : Place, q.chain = p.chain → ∀ name ∈ Node.namesAll nodes, ∀ range,
      C.Rel (resolveIdentifier ctx compile q name range)
        (resolveIdentifier ctx' compile' q name range))
    (recordPush : ∀ q node range,
      C.Rel (recordPush ctx q node range) (recordPush ctx' q node range))
    (finish : ∀ q children range,
      C.Rel (finishEvaluation ctx q children range) (finishEvaluation ctx' q children range)) :
    C.Rel (resolveAll ctx compile p nodes) (resolveAll ctx' compile' p nodes) := by
  have parts : Linked C.toLink (fun q q' => q = q' ∧ q.chain = p.chain)
      (· ∈ Node.namesAll nodes) ctx ctx' compile compile' := by
    refine ⟨?_, ?_, ?_, ?_, ?_, ?_⟩
    · rintro q _ node ⟨rfl, _⟩ hnode
      cases hnode <;> rw [resolve, resolve] <;> exact C.refl _
    · rintro q _ name range ⟨rfl, hq⟩ hname
      exact identifier q hq name hname range
    · rintro β q _ range f f' ⟨rfl, hq⟩ hf
      rw [openBracket_bind, openBracket_bind, options]
      split
      · exact C.refl _
      · exact hf ⟨rfl, hq⟩
    · rintro β q _ range f f' ⟨rfl, hq⟩ hf
      rw [openEvaluation_bind, openEvaluation_bind, options]
      split
      · exact C.refl _
      · exact hf ⟨rfl, hq⟩
    · rintro q _ node range ⟨rfl, _⟩
      exact recordPush q node range
    · rintro q _ children range ⟨rfl, _⟩
      exact finish q children range
  exact resolveAll_linked parts ⟨rfl, rfl⟩ fun _ hname => hname

namespace Compared

theorem resolveAll (h : Compared C S ctx ctx') {nodes : List Node} (hS : S p.script)
    (program : ctx.env.program? ctx.options p.script = some nodes)
    (hr : ∀ q : Place, q.chain = p.chain → ∀ t range,
      C.Rel (refer ctx ctx.enter q t range) (refer ctx' ctx'.enter q t range)) :
    C.Rel (resolveAll ctx ctx.enter p nodes) (resolveAll ctx' ctx'.enter p nodes) := by
  refine resolveAll_compared h.options ?_ h.recordPush h.finish
  intro q hq name hname range
  have hscript : q.script = p.script := Place.script_eq_of_chain_eq hq
  have hprogram : ctx.env.program? ctx.options q.script = some nodes := hscript.symm ▸ program
  exact h.identifier (hscript.symm ▸ hS) hprogram hname fun t => hr q hq t range

theorem compileSource (h : Compared C S ctx ctx') {source : Bytes}
    (hsource : ctx.env.scripts.find? p.script = some source)
    (hr : ∀ q : Place, q.chain = p.chain → ∀ t range,
      C.Rel (refer ctx ctx.enter q t range) (refer ctx' ctx'.enter q t range)) :
    C.Rel (compileSource ctx ctx.enter p source) (compileSource ctx' ctx'.enter p source) := by
  have hread : read ctx' source = read ctx source := by
    simp only [read, Environment.bounds, h.options, h.digits]
  unfold Context.compileSource
  refine h.entry fun hS => ?_
  rw [hread]
  refine C.bind (C.refl _) fun nodes hnodes _ => ?_
  have program : ctx.env.program? ctx.options p.script = some nodes :=
    Environment.program?_eq_some.2 ⟨source, hsource, read_eq_ok.1 hnodes⟩
  exact C.bind (h.resolveAll hS program hr) fun _ _ _ => C.refl _

/-- Contexts whose parts compare compile every script at every place comparably. -/
theorem enter (h : Compared C S ctx ctx') (p : Place) : C.Rel (ctx.enter p) (ctx'.enter p) := by
  induction p using placeInduction ctx with
  | missing p hp => exact h.missing hp
  | known p hp ih =>
      obtain ⟨source, hsource⟩ := (Table.contains_iff_find? _ _).1 hp
      rw [enter_source hsource, enter_source (h.source hsource)]
      refine C.within (h.compileSource hsource ?_) p.script
      intro q hq t range
      exact refer_compared h.options fun fresh => ih q hq t (hq ▸ fresh)

end Compared

end Context

end AuthScript
