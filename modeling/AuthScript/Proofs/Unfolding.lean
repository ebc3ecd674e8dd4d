import AuthScript.Proofs.Confined
import AuthScript.Proofs.Depth
import AuthScript.Proofs.Recursion
import AuthScript.Proofs.Reference

/-!
# Evaluations along references

A compilation comes to the nodes of its root, to the contents of brackets, and through
identifiers to the nodes of other scripts. `Unfolds` says to which nodes it can come, and at
which places: it is read off the sources, with the evaluations around an identifier still open
in the script that the identifier leads to.

The limit on evaluations is compared with what is open at a place. So it is met only at an
evaluation that stands inside of so many others, those around the references included
(`enter_counted`), and a run that succeeds has come to no such evaluation (`Unfolds.part`). One
script need not have so many evaluations inside of each other. The scripts on the path have,
all together (`Unfolds.evaluations_le`).
-/

namespace AuthScript

/-- If a run reports that there are too many evaluations, then there are, where it started or
in a script that it entered. -/
def Run.Counted {α : Type} (E : Place → Nat → Range → Prop) (own : Nat → Range → Prop)
    (r : Run α) : Prop :=
  ∀ e n, r.result = .error (.failed e) → e.cause = .evaluationTooDeep n →
    own n e.range ∨ ∃ q, .entry q ∈ r.events ∧ E q n e.range

namespace Run.Counted

variable {α β : Type} {E : Place → Nat → Range → Prop} {own : Nat → Range → Prop}

theorem of_other {r : Run α}
    (h : ∀ e, r.result = .error (.failed e) → ∀ n, e.cause ≠ .evaluationTooDeep n) :
    r.Counted E own :=
  fun e n he hcause => absurd hcause (h e he n)

theorem done (a : α) : (Run.done a).Counted E own := of_other (by simp)

theorem tell (level : Log.Level) (category : Log.Category) (message : Bytes) :
    (Run.tell level category message).Counted E own := of_other (by simp)

theorem tree (nodes : List Node) : (Run.tree nodes).Counted E own := of_other (by simp)

theorem ofLogged (l : Logged α) : (Run.ofLogged l).Counted E own := of_other (by simp)

theorem ofExcept {x : Except CompileError α}
    (h : ∀ e, x = .error e → ∀ n, e.cause ≠ .evaluationTooDeep n) :
    (Run.ofExcept x).Counted E own := by
  cases x with
  | ok a => exact done a
  | error e =>
      refine of_other fun e' he' => ?_
      cases he'
      exact h e rfl

/-- Other stages do not count evaluations. -/
theorem ofExcept_stage {x : Except CompileError α} {stage : Stage} (hx : FailsIn stage x)
    (other : stage ≠ .evaluation) : (Run.ofExcept x).Counted E own := by
  refine ofExcept fun e he n hcause => other ?_
  rw [← hx e he, CompileError.stage, hcause, Cause.stage]

theorem fail {cause : Cause} {range : Range}
    (h : ∀ n, cause = .evaluationTooDeep n → own n range) :
    (Run.fail cause range : Run α).Counted E own := by
  intro e n he hcause
  cases he
  exact .inl (h n hcause)

theorem bind {r : Run α} {f : α → Run β} (hr : r.Counted E own)
    (hf : ∀ a, r.result = .ok a → (f a).Counted E own) : (r >>= f).Counted E own := by
  intro e n he hcause
  rcases bind_eq_error.1 he with he | ⟨a, ha, he⟩
  · refine (hr e n he hcause).imp_right ?_
    rintro ⟨q, hq, there⟩
    exact ⟨q, mem_events_bind.2 (.inl hq), there⟩
  · refine (hf a ha e n he hcause).imp_right ?_
    rintro ⟨q, hq, there⟩
    exact ⟨q, mem_events_bind.2 (.inr ⟨a, ha, hq⟩), there⟩

theorem within {r : Run α} (hr : r.Counted E own) (id : Bytes) :
    (r.within id).Counted E own := by
  intro e n he hcause
  obtain ⟨raised, hraised, rfl⟩ := within_eq_failed.1 he
  rw [CompileError.cause_within] at hcause
  rw [CompileError.range_within, events_within]
  exact hr raised n hraised hcause

theorem mono {own' : Nat → Range → Prop} {r : Run α} (hr : r.Counted E own)
    (sub : ∀ n range, own n range → own' n range) : r.Counted E own' :=
  fun e n he hcause => (hr e n he hcause).imp_left (sub n e.range)

/-- What is counted in a script is counted at the place where it was entered. -/
theorem of_entry {q : Place} {r : Run α} (hr : r.Counted E (E q)) :
    (Run.entry q >>= fun _ => r).Counted E own := by
  intro e n he hcause
  rcases bind_eq_error.1 he with he | ⟨_, _, he⟩
  · cases he
  · rcases hr e n he hcause with here | ⟨q', hq', there⟩
    · exact .inr ⟨q, mem_events_bind.2 (.inl (List.mem_singleton_self _)), here⟩
    · exact .inr ⟨q', mem_events_bind.2 (.inr ⟨(), rfl, hq'⟩), there⟩

/-- The link of a run that is counted to itself. -/
def link (E : Place → Nat → Range → Prop) (own : Nat → Range → Prop) : Run.Link :=
  .having (Run.Counted E own) done bind

theorem link_keepsRefusals : (link E own).KeepsRefusals := by
  intro α cause range stage _
  refine ⟨rfl, fail fun n hcause => ?_⟩
  rw [hcause, Cause.stage] at stage
  cases stage

end Run.Counted

namespace Context

/-- The nodes that a compilation of a script can come to, and where. -/
inductive Unfolds (ctx : Context) (root : Bytes) : Place → List Node → Prop where
  | root {nodes : List Node} (program : ctx.env.program? ctx.options root = some nodes) :
      Unfolds ctx root { script := root } nodes
  | rest {p : Place} {node : Node} {rest : List Node} (h : Unfolds ctx root p (node :: rest)) :
      Unfolds ctx root p rest
  | push {p : Place} {children : List Node} {range : Range} {rest : List Node}
      (h : Unfolds ctx root p (.push children range :: rest)) :
      Unfolds ctx root p.inBracket children
  | evaluation {p : Place} {children : List Node} {range : Range} {rest : List Node}
      (h : Unfolds ctx root p (.evaluation children range :: rest)) :
      Unfolds ctx root p.inBracket.inEvaluation children
  | refer {p : Place} {name : Bytes} {range : Range} {rest : List Node} {t : Bytes}
      {nodes : List Node} (h : Unfolds ctx root p (.identifier name range :: rest))
      (leads : ctx.LeadsTo p.script name t)
      (program : ctx.env.program? ctx.options t = some nodes) : Unfolds ctx root (p.enter t) nodes

/-- No script is referred to from inside an evaluation. -/
def RefersOutside (ctx : Context) (root : Bytes) : Prop :=
  ∀ p name range rest t, ctx.Unfolds root p (.identifier name range :: rest) →
    ctx.LeadsTo p.script name t → p.evaluations = 0

/-- How many evaluations are around each other in the source of a script. -/
def evaluationsIn (ctx : Context) (s : Bytes) : Nat :=
  Node.evaluationsAll ((ctx.env.program? ctx.options s).getD [])

/-- How many evaluations that are in the sources of scripts, all together. -/
def evaluationsAlong (ctx : Context) : List Bytes → Nat
  | [] => 0
  | s :: path => ctx.evaluationsIn s + evaluationsAlong ctx path

/-- There are too many evaluations at an evaluation in the script at a place. -/
def Overruns (ctx : Context) (root : Bytes) (q : Place) (n : Nat) (range : Range) : Prop :=
  n = ctx.options.evaluationDepth ∧ ∃ p children rest, p.chain = q.chain ∧
    ctx.Unfolds root p (.evaluation children range :: rest) ∧ n ≤ p.evaluations

variable {ctx : Context} {root : Bytes} {p : Place} {nodes : List Node}

theorem evaluationsAlong_concat (path : List Bytes) (s : Bytes) :
    ctx.evaluationsAlong (path ++ [s]) = ctx.evaluationsAlong path + ctx.evaluationsIn s := by
  induction path with
  | nil => simp [evaluationsAlong]
  | cons t path ih => rw [List.cons_append, evaluationsAlong, evaluationsAlong, ih, Nat.add_assoc]

theorem evaluationsIn_eq {s : Bytes} (program : ctx.env.program? ctx.options s = some nodes) :
    ctx.evaluationsIn s = Node.evaluationsAll nodes := by
  rw [evaluationsIn, program, Option.getD_some]

/-- A number that is enough for each script where it is entered is enough for all that stands
in it. -/
theorem Unfolds.le_of_entered (most : List Bytes → Nat)
    (start : ctx.evaluationsIn root ≤ most [root])
    (enters : ∀ p name range rest t, ctx.Unfolds root p (.identifier name range :: rest) →
      ctx.LeadsTo p.script name t → p.evaluations ≤ most p.chain →
      p.evaluations + ctx.evaluationsIn t ≤ most (p.chain ++ [t]))
    (h : ctx.Unfolds root p nodes) :
    p.evaluations + Node.evaluationsAll nodes ≤ most p.chain := by
  induction h with
  | root program =>
      rw [← evaluationsIn_eq program]
      simpa [Place.chain] using start
  | rest _ ih =>
      rw [Node.evaluationsAll_cons] at ih
      omega
  | push _ ih =>
      rw [Node.evaluationsAll_cons, Node.evaluations] at ih
      rw [Place.chain_inBracket]
      simp only [Place.inBracket]
      omega
  | evaluation _ ih =>
      rw [Node.evaluationsAll_cons, Node.evaluations] at ih
      rw [Place.chain_inEvaluation, Place.chain_inBracket]
      simp only [Place.inBracket, Place.inEvaluation]
      omega
  | refer h leads program ih =>
      rw [Place.chain_enter, ← evaluationsIn_eq program]
      exact enters _ _ _ _ _ h leads (by omega)

/-- The evaluations that are open are those of the scripts on the path. -/
theorem Unfolds.evaluations_le (h : ctx.Unfolds root p nodes) :
    p.evaluations + Node.evaluationsAll nodes ≤ ctx.evaluationsAlong p.chain := by
  refine h.le_of_entered ctx.evaluationsAlong (by simp [evaluationsAlong]) ?_
  intro p name range rest t _ _ around
  rw [evaluationsAlong_concat]
  exact Nat.add_le_add_right around _

/-- They are those of the last script alone, if references stand outside of evaluations. -/
theorem Unfolds.evaluations_le_own (outside : ctx.RefersOutside root)
    (h : ctx.Unfolds root p nodes) :
    p.evaluations + Node.evaluationsAll nodes ≤ ctx.evaluationsIn p.script := by
  have last : ∀ path s, ((path ++ [s] : List Bytes).getLast?.getD []) = s := by simp
  have enters : ∀ p name range rest t, ctx.Unfolds root p (.identifier name range :: rest) →
      ctx.LeadsTo p.script name t → p.evaluations + ctx.evaluationsIn t ≤ ctx.evaluationsIn t := by
    intro p name range rest t hp leads
    rw [outside p name range rest t hp leads, Nat.zero_add]
  have own := h.le_of_entered (fun path => ctx.evaluationsIn (path.getLast?.getD [])) (by simp) ?_
  · rwa [Place.chain, last] at own
  · intro p name range rest t hp leads _
    rw [last]
    exact enters p name range rest t hp leads

/-! ## Runs that report too many evaluations -/

section

variable {compile : Place → Run Compiled} {E : Place → Nat → Range → Prop}
  {own : Nat → Range → Prop}

theorem record_counted (kind : Resolved.Kind) (label : Bytes) (range : Range) (b : Bytes) :
    (ctx.record p kind label range b).Counted E own := by
  unfold record
  split
  · exact .of_other (by simp [Run.step])
  · exact .done ()

theorem literal_counted {node : Node} (h : node.IsLiteral) :
    (resolve ctx compile p node).Counted E own := by
  cases h with
  | integer value range =>
      rw [resolve]
      exact .done _
  | hex digits range =>
      rw [resolve]
      have fails := Literal.ofHex_failsIn range digits
      exact .bind (.ofExcept_stage fails (by decide)) fun _ _ => .done _
  | utf8 contents range =>
      rw [resolve]
      exact .done _

theorem generate_counted (resolved : List Resolved) : (generate resolved).Counted E own := by
  unfold generate tellGenerated
  refine .bind (.ofExcept_stage (Resolved.generateAll_failsIn resolved) (by decide)) fun b _ => ?_
  exact .bind (.tell _ _ _) fun _ _ => .done b

theorem recordPush_counted (node : Resolved) (range : Range) :
    (recordPush ctx p node range).Counted E own := by
  unfold recordPush
  split
  · exact .bind (generate_counted [node]) fun b _ => record_counted _ _ _ _
  · exact .done ()

/-- A program that fails says so by a cause of its own. -/
theorem finishEvaluation_counted (children : List Resolved) (range : Range) :
    (finishEvaluation ctx p children range).Counted E own := by
  unfold finishEvaluation
  refine .bind (generate_counted children) fun body _ => ?_
  refine .bind (.ofLogged _) fun value hvalue => ?_
  have hvalue : (evaluate ctx.invoker ctx.env body range).value = value := Except.ok.inj hvalue
  refine .bind (.ofExcept fun e he n => ?_) fun result _ => ?_
  · obtain ⟨failure, rfl⟩ := evaluate_eq_error (hvalue.trans he)
    exact Cause.noConfusion
  · exact .bind (record_counted _ _ _ _) fun _ _ => .done _

theorem invoke_counted (cap : Capability) (req : Request) (range : Range) :
    (ctx.invoke cap req range).Counted E own := by
  unfold invoke
  refine .bind (.ofLogged _) fun answer _ => ?_
  rcases answer with (fault | what) | b
  · exact .fail (by simp)
  · exact .of_other (by simp)
  · exact .done b

theorem read_counted (source : Bytes) : (read ctx source).Counted E own := by
  unfold read
  refine .bind (.ofExcept_stage (Token.ofText_failsIn source) (by decide)) fun tokens _ => ?_
  refine .bind (.tell _ _ _) fun _ _ => ?_
  refine .bind (.ofExcept_stage (Node.ofTokens_failsIn _ tokens) (by decide)) fun nodes _ => ?_
  exact .bind (.tell _ _ _) fun _ _ => .bind (.tree nodes) fun _ _ => .done nodes

theorem refer_counted {t : Bytes} {range : Range}
    (fresh : t ∉ p.chain → (compile (p.enter t)).Counted E own) :
    (refer ctx compile p t range).Counted E own := by
  unfold refer
  by_cases again : t ∈ p.chain
  · rw [if_pos (by simpa using again)]
    exact .fail (by simp)
  · rw [if_neg (by simpa using again)]
    split
    · exact .fail (by simp)
    · refine .bind (.tell _ _ _) fun _ _ => ?_
      exact .bind (fresh again) fun _ _ => .done _

theorem resolveIdentifier_counted {name : Bytes} {range : Range}
    (refers : ∀ t, ctx.LeadsTo p.script name t →
      (refer ctx compile p t range).Counted E own) :
    (resolveIdentifier ctx compile p name range).Counted E own := by
  have agree : ctx.AgreeOn ctx p.script name := ⟨rfl, fun _ => rfl, rfl, fun _ _ _ _ => rfl⟩
  have linked : (Run.Counted.link E own).Rel (resolveIdentifier ctx compile p name range)
      (resolveIdentifier ctx compile p name range) := by
    refine resolveIdentifier_linked_of_agree Run.Counted.link_keepsRefusals rfl agree ?_ ?_ ?_
    · exact fun kind b => ⟨rfl, record_counted _ _ _ _⟩
    · exact fun access cap covered signed _ _ => ⟨rfl, invoke_counted _ _ _⟩
    · exact fun t leads => ⟨rfl, refers t leads⟩
  exact linked.2

end

theorem resolveAll_cons_counted {compile : Place → Run Compiled}
    {E : Place → Nat → Range → Prop} {own : Nat → Range → Prop} {node : Node} {rest : List Node}
    (first : (resolve ctx compile p node).Counted E own)
    (others : (resolveAll ctx compile p rest).Counted E own) :
    (resolveAll ctx compile p (node :: rest)).Counted E own := by
  rw [resolveAll]
  exact .bind first fun _ _ => .bind others fun _ _ => .done _

/-- Where nodes are resolved, the limit is met at an evaluation among them, or in a script to
which their identifiers lead. -/
theorem resolveAll_counted {compile : Place → Run Compiled} {start : Place}
    (refers : ∀ q name range rest t, q.chain = start.chain →
      ctx.Unfolds root q (.identifier name range :: rest) → ctx.LeadsTo q.script name t →
      (refer ctx compile q t range).Counted (ctx.Overruns root) (ctx.Overruns root start))
    (same : p.chain = start.chain) (h : ctx.Unfolds root p nodes) :
    (resolveAll ctx compile p nodes).Counted (ctx.Overruns root) (ctx.Overruns root start) := by
  induction nodes using Node.nodesInduction generalizing p with
  | nil =>
      rw [resolveAll]
      exact .done []
  | literal node rest hnode ih =>
      exact resolveAll_cons_counted (literal_counted hnode) (ih same h.rest)
  | identifier name range rest ih =>
      refine resolveAll_cons_counted ?_ (ih same h.rest)
      rw [resolve]
      exact resolveIdentifier_counted fun t leads => refers p name range rest t same h leads
  | push children range rest inside ih =>
      refine resolveAll_cons_counted ?_ (ih same h.rest)
      rw [resolve, openBracket_bind]
      split
      · exact .fail (by simp)
      · refine .bind (inside same h.push) fun resolved _ => ?_
        exact .bind (recordPush_counted _ range) fun _ _ => .done _
  | evaluation children range rest inside ih =>
      refine resolveAll_cons_counted ?_ (ih same h.rest)
      rw [resolve, openBracket_bind, openEvaluation_bind]
      split
      · exact .fail (by simp)
      · split
        · rename_i full
          refine .fail fun n hn => ?_
          obtain rfl := Cause.evaluationTooDeep.inj hn
          exact ⟨rfl, p, children, rest, same, h, full⟩
        · refine .bind (inside same h.evaluation) fun resolved _ => ?_
          exact finishEvaluation_counted resolved range

/-- A script that is compiled meets the limit only where there are too many evaluations in a
script that is entered. -/
theorem enter_counted
    (h : ∀ nodes, ctx.env.program? ctx.options p.script = some nodes → ctx.Unfolds root p nodes) :
    (ctx.enter p).Counted (ctx.Overruns root) fun _ _ => False := by
  induction p using placeInduction ctx with
  | missing p hp =>
      rw [enter_missing hp]
      exact .fail (by simp)
  | known p hp ih =>
      obtain ⟨source, hsource⟩ := (Table.contains_iff_find? _ _).1 hp
      rw [enter_source hsource]
      refine .within ?_ p.script
      unfold compileSource
      refine .of_entry (.bind (read_counted source) fun nodes hnodes => ?_)
      have program : ctx.env.program? ctx.options p.script = some nodes :=
        Environment.program?_eq_some.2 ⟨source, hsource, read_eq_ok.1 hnodes⟩
      refine .bind (resolveAll_counted ?_ rfl (h nodes program)) fun resolved _ => ?_
      · intro q name range rest t hq hnodes leads
        refine refer_counted fun fresh => ?_
        have entered := ih q hq t (hq ▸ fresh) fun _ program => hnodes.refer leads program
        exact entered.mono fun _ _ => False.elim
      · exact .bind (generate_counted resolved) fun b _ => .done _

/-! ## Runs that succeed -/

/-- A compilation that succeeds has resolved all the nodes that it can come to. -/
theorem Unfolds.part (given : ∃ compiled, (ctx.compile root).result = .ok compiled)
    (h : ctx.Unfolds root p nodes) :
    (resolveAll ctx ctx.enter p nodes).Part (ctx.compile root) := by
  have entered : ∀ {q : Place} {nodes : List Node},
      (ctx.enter q).Part (ctx.compile root) →
      ctx.env.program? ctx.options q.script = some nodes →
      (resolveAll ctx ctx.enter q nodes).Part (ctx.compile root) := by
    intro q nodes hq program
    obtain ⟨_, read, hread, resolved⟩ := part_compile hq.given
    obtain rfl : nodes = read := Option.some.inj (program.symm.trans hread)
    exact resolved.trans hq
  induction h with
  | root program => exact entered (.refl given) program
  | rest _ ih => exact (part_cons ih.given).2.trans ih
  | push _ ih =>
      have first := (part_cons ih.given).1.trans ih
      exact (part_push first.given).trans first
  | evaluation _ ih =>
      have first := (part_cons ih.given).1.trans ih
      exact (part_evaluation first.given).trans first
  | refer _ leads program ih =>
      have first := (part_cons ih.given).1.trans ih
      rw [resolve] at first
      have reference := (part_resolveIdentifier first.given leads).trans first
      exact entered ((part_refer reference.given).2.trans reference) program

theorem room_of_resolve {compile : Place → Run Compiled} {children : List Node} {range : Range}
    (h : ∃ r, (resolve ctx compile p (.evaluation children range)).result = .ok r) :
    p.evaluations < ctx.options.evaluationDepth := by
  rw [resolve, openBracket_bind, openEvaluation_bind] at h
  split at h
  · simp at h
  · split at h
    · simp at h
    · rename_i room
      exact Nat.not_le.1 room

end Context

namespace Compiler

/-- A script whose own evaluations are within the limit and stand around a reference, to a
script of which the same holds. -/
def evaluatedTwice (limit : Nat) : Compiler where
  env := { lockedByOwner with
    scripts := .ofList [(text "inner", text "$(OP_1)"), (text "outer", text "$(<inner>)")] }
  options := { evaluationDepth := limit }

/-- The limit on evaluations counts those around the references of a path. If it is met, then
by an evaluation in a script that was entered, and the scripts on the path to that have more
evaluations than the limit all together. The script has so many by itself if no reference
stands inside of an evaluation. If the compilation succeeds, there is room for each evaluation
that it can come to. -/
theorem generate_evaluationTooDeep (c : Compiler) (root : Bytes) (data : Data) :
    let ctx := c.context data
    let limit := c.options.evaluationDepth
    (∀ e n, c.generate root data = .error e → e.cause = .evaluationTooDeep n →
      n = limit ∧ ∃ q p children rest, .entry q ∈ (ctx.compile root).events ∧ p.chain = q.chain ∧
        ctx.Unfolds root p (.evaluation children e.range :: rest) ∧ limit ≤ p.evaluations ∧
        limit < ctx.evaluationsAlong q.chain ∧
        (ctx.RefersOutside root → limit < ctx.evaluationsIn q.script)) ∧
    ∀ b, c.generate root data = .ok b → ∀ p children range rest,
      ctx.Unfolds root p (.evaluation children range :: rest) → p.evaluations < limit := by
  intro ctx limit
  constructor
  · intro e n h hcause
    obtain ⟨raised | what, failed, he⟩ := generate_eq_error.1 h
    case thrown =>
      rw [← he] at hcause
      cases hcause
    obtain rfl : e = raised := he.symm
    have start : ∀ nodes, ctx.env.program? ctx.options root = some nodes →
        ctx.Unfolds root { script := root } nodes := fun _ => .root
    have counted : (ctx.compile root).Counted (ctx.Overruns root) fun _ _ => False :=
      Context.enter_counted start
    rcases counted e n failed hcause with none | ⟨q, entered, overruns⟩
    · exact none.elim
    obtain ⟨rfl, p, children, rest, same, unfolds, full⟩ := overruns
    have full : limit ≤ p.evaluations := full
    have own : limit + 1 ≤ p.evaluations +
        Node.evaluationsAll (.evaluation children e.range :: rest) := by
      rw [Node.evaluationsAll_cons, Node.evaluations]
      omega
    refine ⟨rfl, q, p, children, rest, entered, same, unfolds, full, ?_, fun outside => ?_⟩
    · rw [← same]
      exact Nat.le_trans own unfolds.evaluations_le
    · rw [← Place.script_eq_of_chain_eq same]
      exact Nat.le_trans own (unfolds.evaluations_le_own outside)
  · intro b h p children range rest unfolds
    obtain ⟨compiled, hcompiled, _⟩ := generate_eq_ok.1 h
    have resolved := unfolds.part ⟨compiled, hcompiled⟩
    exact Context.room_of_resolve (Context.part_cons resolved.given).1.given

/-- The limit is met in the inner script, where one evaluation is open around the reference;
with room for two it is not. -/
theorem generate_evaluationTooDeep_of_inner :
    let ctx := (evaluatedTwice 1).context {}
    (∃ e, (evaluatedTwice 1).generate (text "outer") {} = .error e ∧
      e.cause = .evaluationTooDeep 1 ∧ e.script = text "inner" ∧
      ∃ q, .entry q ∈ (ctx.compile (text "outer")).events ∧ 1 < ctx.evaluationsAlong q.chain) ∧
    (evaluatedTwice 2).generate (text "outer") {} = .ok [0x01] := by
  intro ctx
  have failed : (evaluatedTwice 1).generate (text "outer") {} = .error
      ⟨.evaluationTooDeep 1, ⟨⟨1, 1, 0⟩, ⟨1, 8, 7⟩⟩, text "inner", [text "outer"]⟩ := by
    with_unfolding_all rfl
  obtain ⟨_, q, _, _, _, entered, _, _, _, along, _⟩ :=
    (generate_evaluationTooDeep (evaluatedTwice 1) (text "outer") {}).1 _ 1 failed rfl
  refine ⟨⟨_, failed, rfl, rfl, q, entered, along⟩, ?_⟩
  with_unfolding_all rfl

/-- Each script by itself is within the limit that a compilation of both meets. -/
theorem evaluationTooDeep_within_limit :
    (∀ s, ((evaluatedTwice 1).context {}).evaluationsIn s ≤ 1) ∧
      (evaluatedTwice 1).generate (text "inner") {} = .ok [0x01] ∧
      ∃ e, (evaluatedTwice 1).generate (text "outer") {} = .error e ∧
        e.cause = .evaluationTooDeep (evaluatedTwice 1).options.evaluationDepth := by
  refine ⟨fun s => ?_, ?_, ?_⟩
  · let bounds : Tree.Bounds := (evaluatedTwice 1).env.bounds (evaluatedTwice 1).options
    have find : (evaluatedTwice 1).env.scripts.find? s =
        if s = text "inner" then some (text "$(OP_1)")
        else if s = text "outer" then some (text "$(<inner>)") else none := by
      with_unfolding_all rfl
    have program : ((evaluatedTwice 1).context {}).evaluationsIn s = Node.evaluationsAll
        ((((evaluatedTwice 1).env.scripts.find? s).bind
          (treeOf? bounds)).getD []) := rfl
    rw [program, find]
    split
    · exact Nat.le_of_eq (by with_unfolding_all rfl)
    · split
      · exact Nat.le_of_eq (by with_unfolding_all rfl)
      · exact Nat.zero_le 1
  · with_unfolding_all rfl
  · exact ⟨⟨.evaluationTooDeep 1, ⟨⟨1, 1, 0⟩, ⟨1, 8, 7⟩⟩, text "inner", [text "outer"]⟩, by
      with_unfolding_all rfl, rfl⟩

end Compiler

end AuthScript
