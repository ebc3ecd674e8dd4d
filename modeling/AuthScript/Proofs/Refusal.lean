import AuthScript.Proofs.Confined
import AuthScript.Proofs.Recursion

/-!
# Refusals

At an identifier of a variable a compilation asks an operation for bytes. `Context.Asks` says
which requests are made at a place: the scripts that the access needs have been compiled from
there. A compilation that ends with the refusal of an operation made a request that was refused
like this (`enter_refuses`), for no other part of a run makes refusals.
-/

namespace AuthScript

/-- Every refusal of an operation that a run ends with is one of these. -/
def Run.Refuses {α : Type} (Q : Fault → Prop) (r : Run α) : Prop :=
  ∀ e fault, r.result = .error (.failed e) → e.cause = .refused fault → Q fault

namespace Run.Refuses

variable {α β : Type} {Q : Fault → Prop}

theorem of_ok {r : Run α} {a : α} (h : r.result = .ok a) : r.Refuses Q := by
  intro e fault he
  cases h.symm.trans he

theorem done (a : α) : (Run.done a).Refuses Q := of_ok rfl

theorem fail {cause : Cause} {range : Range} (h : ∀ fault, cause = .refused fault → Q fault) :
    (Run.fail cause range : Run α).Refuses Q := by
  intro e fault he hcause
  cases he
  exact h fault hcause

/-- Operations are asked by no other stage. -/
theorem ofExcept {x : Except CompileError α} {stage : Stage} (hx : FailsIn stage x)
    (other : stage ≠ .resolve) : (Run.ofExcept x).Refuses Q := by
  cases x with
  | ok a => exact done a
  | error e =>
      intro e' fault he hcause
      cases he
      have hstage : e.cause.stage = stage := hx e rfl
      rw [hcause] at hstage
      exact absurd hstage.symm other

theorem bind {r : Run α} {f : α → Run β} (hr : r.Refuses Q)
    (hf : ∀ a, r.result = .ok a → (f a).Refuses Q) : (r >>= f).Refuses Q := by
  intro e fault he hcause
  rcases bind_eq_error.1 he with he | ⟨a, ha, he⟩
  · exact hr e fault he hcause
  · exact hf a ha e fault he hcause

theorem within {r : Run α} (hr : r.Refuses Q) (id : Bytes) : (r.within id).Refuses Q := by
  intro e fault he hcause
  obtain ⟨raised, hraised, rfl⟩ := within_eq_failed.1 he
  rw [CompileError.cause_within] at hcause
  exact hr raised fault hraised hcause

/-- The link of a run to itself, if all its refusals are among these. -/
def link (Q : Fault → Prop) : Run.Link := .having (Run.Refuses Q) done bind

end Run.Refuses

namespace Context

/-- What a compilation asks an operation for, at an identifier of a variable. -/
inductive Asks (ctx : Context) (p : Place) (name : Bytes) : Capability → Request → Prop where
  | access {access : Access} {cap : Capability} {covered signed : Option Bytes}
      (meaning : Meaning.ofName ctx.env name = .ok (.variable_ access))
      (serves : access.capability? = some cap) (covers : ctx.Covers p name access covered)
      (signs : ctx.Signs p access signed) :
      Asks ctx p name cap (access.request name p.script covered signed)

/-- The answer of the operation for a capability. -/
def answer (ctx : Context) (cap : Capability) (req : Request) : Except Refusal Bytes :=
  (ctx.invoker.operation ctx.env.operations cap req ctx.data).value

/-- A request of a compilation is refused. -/
def Refused (ctx : Context) (fault : Fault) : Prop :=
  ∃ p name cap req, ctx.Asks p name cap req ∧ ctx.answer cap req = .error (.refused fault)

variable {ctx : Context} {compile : Place → Run Compiled} {p : Place} {Q : Fault → Prop}

/-! ## The parts of a run -/

theorem record_refuses (kind : Resolved.Kind) (label : Bytes) (range : Range) (b : Bytes) :
    (ctx.record p kind label range b).Refuses Q :=
  .of_ok (result_record kind label range b)

theorem literal_refuses {node : Node} (h : node.IsLiteral) :
    (resolve ctx compile p node).Refuses Q := by
  cases h with
  | integer value range | utf8 contents range =>
      rw [resolve]
      exact .done _
  | hex digits range =>
      rw [resolve]
      exact .bind (.ofExcept (Literal.ofHex_failsIn range digits) (by decide)) fun _ _ => .done _

theorem generate_refuses (nodes : List Resolved) : (generate nodes).Refuses Q := by
  unfold generate tellGenerated
  refine .bind (.ofExcept (Resolved.generateAll_failsIn nodes) (by decide)) fun b _ => ?_
  exact .bind (.of_ok (Run.result_tell _ _ _)) fun _ _ => .done b

theorem recordPush_refuses (node : Resolved) (range : Range) :
    (recordPush ctx p node range).Refuses Q := by
  unfold recordPush
  split
  · exact .bind (generate_refuses [node]) fun b _ => record_refuses _ _ _ _
  · exact .done ()

theorem finishEvaluation_refuses (children : List Resolved) (range : Range) :
    (finishEvaluation ctx p children range).Refuses Q := by
  unfold finishEvaluation
  refine .bind (generate_refuses children) fun body _ => ?_
  refine .bind (.of_ok (Run.result_ofLogged _)) fun value hvalue => ?_
  have hvalue : (evaluate ctx.invoker ctx.env body range).value = value := Except.ok.inj hvalue
  have hfails : FailsIn .evaluation value := hvalue ▸ evaluate_failsIn _ _ _ _
  refine .bind (.ofExcept hfails (by decide)) fun result _ => ?_
  exact .bind (record_refuses _ _ _ _) fun _ _ => .done _

theorem read_refuses (source : Bytes) : (read ctx source).Refuses Q := by
  unfold read
  refine .bind (.ofExcept (Token.ofText_failsIn source) (by decide)) fun tokens _ => ?_
  refine .bind (.of_ok (Run.result_tell _ _ _)) fun _ _ => ?_
  refine .bind (.ofExcept (Node.ofTokens_failsIn _ tokens) (by decide)) fun nodes _ => ?_
  refine .bind (.of_ok (Run.result_tell _ _ _)) fun _ _ => ?_
  exact .bind (.of_ok (Run.result_tree nodes)) fun _ _ => .done nodes

/-- An operation that is run makes no refusal but its answer. -/
theorem invoke_refuses {cap : Capability} {req : Request} {range : Range}
    (h : ∀ fault, ctx.answer cap req = .error (.refused fault) → Q fault) :
    (ctx.invoke cap req range).Refuses Q := by
  unfold invoke
  refine .bind (.of_ok (Run.result_ofLogged _)) fun answer hanswer => ?_
  have own : ctx.answer cap req = answer := Except.ok.inj hanswer
  rcases answer with (fault | what) | b
  · refine .fail fun fault' hfault => ?_
    obtain rfl : fault = fault' := Cause.refused.inj hfault
    exact h fault own
  · intro e fault he
    cases he
  · exact .done b

/-! ## References and identifiers -/

section

variable (entered : ∀ q : Place, q.chain = p.chain → ∀ id ∉ p.chain,
  (ctx.enter (q.enter id)).Refuses ctx.Refused)

include entered

theorem refer_refuses {q : Place} (inside : q.chain = p.chain) (id : Bytes) (range : Range) :
    (refer ctx ctx.enter q id range).Refuses ctx.Refused := by
  unfold refer
  by_cases again : id ∈ q.chain
  · rw [if_pos (by simpa using again)]
    exact .fail (by simp)
  · rw [if_neg (by simpa using again)]
    split
    · exact .fail (by simp)
    · refine .bind (.of_ok (Run.result_tell _ _ _)) fun _ _ => ?_
      exact .bind (entered q inside id (inside ▸ again)) fun _ _ => .done _

theorem coveredBytecode_refuses {q : Place} (inside : q.chain = p.chain) (name : Bytes)
    (range : Range) (access : Access) :
    (coveredBytecode ctx ctx.enter q name range access).Refuses ctx.Refused := by
  unfold coveredBytecode
  split
  · split
    · exact .fail (by simp)
    · exact .bind (refer_refuses entered inside _ range) fun _ _ => .done _
  · exact .done none

theorem signedBytecode_refuses {q : Place} (inside : q.chain = p.chain) (name : Bytes)
    (range : Range) (access : Access) :
    (signedBytecode ctx ctx.enter q name range access).Refuses ctx.Refused := by
  unfold signedBytecode
  split
  · exact .done none
  · split
    · exact .bind (refer_refuses entered inside _ range) fun _ _ => .done _
    · exact .fail (by simp)

/-- When an operation is asked, the scripts that the access needs have been compiled. -/
theorem accessBytes_refuses {q : Place} (inside : q.chain = p.chain) {name : Bytes}
    {range : Range} {access : Access}
    (meaning : Meaning.ofName ctx.env name = .ok (.variable_ access)) :
    (accessBytes ctx ctx.enter q name range access).Refuses ctx.Refused := by
  unfold accessBytes
  cases serves : access.capability? with
  | none =>
      refine .fail fun fault hfault => ?_
      unfold Access.failure at hfault
      split at hfault <;> cases hfault
  | some cap =>
      refine .bind (coveredBytecode_refuses entered inside name range access) fun covered hcov => ?_
      refine .bind (signedBytecode_refuses entered inside name range access) fun signed hsig => ?_
      refine invoke_refuses fun fault refused => ?_
      exact ⟨q, name, cap, _, .access meaning serves (coveredBytecode_eq_ok.1 hcov)
        (signedBytecode_eq_ok.1 hsig), refused⟩

theorem resolveIdentifier_refuses {q : Place} (inside : q.chain = p.chain) (name : Bytes)
    (range : Range) : (resolveIdentifier ctx ctx.enter q name range).Refuses ctx.Refused := by
  unfold resolveIdentifier
  split
  · rename_i cause meaning
    refine .fail fun fault hfault => ?_
    subst hfault
    exact absurd meaning (Meaning.ofName_ne_refused fault)
  · exact .bind (record_refuses _ _ _ _) fun _ _ => .done _
  · refine .bind (refer_refuses entered inside name range) fun b _ => ?_
    exact .bind (record_refuses _ _ _ _) fun _ _ => .done _
  · rename_i access meaning
    refine .bind (accessBytes_refuses entered inside meaning) fun b _ => ?_
    exact .bind (record_refuses _ _ _ _) fun _ _ => .done _

/-! ## Nodes and scripts -/

theorem resolveAll_refuses (nodes : List Node) :
    (resolveAll ctx ctx.enter p nodes).Refuses ctx.Refused := by
  have parts : Linked (Run.Refuses.link ctx.Refused) (fun q q' => q = q' ∧ q.chain = p.chain)
      (fun _ => True) ctx ctx ctx.enter ctx.enter := by
    refine ⟨?_, ?_, ?_, ?_, ?_, ?_⟩
    · rintro q _ node ⟨rfl, _⟩ hnode
      exact ⟨rfl, literal_refuses hnode⟩
    · rintro q _ name range ⟨rfl, inside⟩ _
      exact ⟨rfl, resolveIdentifier_refuses entered inside name range⟩
    · rintro β q _ range f f' ⟨rfl, inside⟩ hf
      rw [openBracket_bind, openBracket_bind]
      split
      · exact ⟨rfl, .fail (by simp)⟩
      · exact hf ⟨rfl, inside⟩
    · rintro β q _ range f f' ⟨rfl, inside⟩ hf
      rw [openEvaluation_bind, openEvaluation_bind]
      split
      · exact ⟨rfl, .fail (by simp)⟩
      · exact hf ⟨rfl, inside⟩
    · rintro q _ node range ⟨rfl, _⟩
      exact ⟨rfl, recordPush_refuses node range⟩
    · rintro q _ children range ⟨rfl, _⟩
      exact ⟨rfl, finishEvaluation_refuses children range⟩
  exact (resolveAll_linked parts ⟨rfl, rfl⟩ fun _ _ => trivial).2

end

/-- A compilation that ends with a refusal asked for something and was refused. -/
theorem enter_refuses (ctx : Context) (p : Place) : (ctx.enter p).Refuses ctx.Refused := by
  induction p using placeInduction ctx with
  | missing p unknown =>
      rw [enter_missing unknown]
      exact .fail (by simp)
  | known p known entered =>
      obtain ⟨source, hsource⟩ := (Table.contains_iff_find? _ _).1 known
      rw [enter_source hsource]
      refine .within ?_ p.script
      unfold compileSource
      refine .bind (.of_ok rfl) fun _ _ => ?_
      refine .bind (read_refuses source) fun nodes _ => ?_
      refine .bind (resolveAll_refuses entered nodes) fun resolved _ => ?_
      exact .bind (generate_refuses resolved) fun _ _ => .done _

end Context

end AuthScript
