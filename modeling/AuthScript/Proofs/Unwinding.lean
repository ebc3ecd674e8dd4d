import AuthScript.Proofs.Blame
import AuthScript.Proofs.Cycles
import AuthScript.Proofs.Thresholds

/-!
# How an error leaves the scripts in progress

An error is raised without a script. The script in which it is raised writes its own id
into it, and each script above puts its id before the chain. The first of these is told
from the others by the id being empty still. So the error of a run has the chain of the
scripts in progress, as long as no script but the root can have an empty id (`Named`).

The scripts in progress where a run halts are read off the run: they are those that it
entered and that it did not leave with a value (`unfinished`). What is between two of them
is an `Unwinds`, which says of a part of a run either that the error is its own and has a
cause and a range that go together, or that it came out of a script that the part entered
(`Unwound`). It is kept by sequencing, and each script adds itself (`enter_unwinds`).
-/

namespace AuthScript

namespace Context

/-- The places at which a run entered a script that it did not leave with a value, in
order: the scripts in progress where the run halts. -/
def unfinished (ctx : Context) (events : List Event) : List Place :=
  (Event.entries events).filter fun q => (ctx.enter q).result.toOption.isNone

/-- No script that can be entered from another one has an empty id. -/
def Named (ctx : Context) : Prop :=
  ∀ s t, ctx.Mentions s t → ctx.env.scripts.contains t = true → t ≠ []

/-- Some operation breaks off. -/
def Breaks (ctx : Context) : Prop :=
  ∃ cap req what,
    (ctx.invoker.operation ctx.env.operations cap req ctx.data).value = .error (.thrown what)

/-- An error has come out of the script at a place, after it was raised in the last one of
the scripts in progress. -/
structure Unwound (ctx : Context) (p : Place) (places : List Place) (e : CompileError)
    (q : Place) : Prop where
  last : places.getLast? = some q
  names : places.map Place.script = e.chain ++ [e.script]
  chain : q.chain = p.above ++ e.chain ++ [e.script]
  depth : p.chain.length ≤ ctx.options.referenceDepth + 1 →
    q.chain.length ≤ ctx.options.referenceDepth + 1
  named : p.script ≠ [] → e.script ≠ []
  faulty : ∃ source, ctx.env.scripts.find? q.script = some source ∧
    ctx.FaultyAt q source e.cause e.range

theorem unfinished_append (ctx : Context) (events events' : List Event) :
    ctx.unfinished (events ++ events') = ctx.unfinished events ++ ctx.unfinished events' := by
  simp [unfinished, Event.entries]

theorem unfinished_of_silent {ctx : Context} {events : List Event}
    (silent : ∀ q, .entry q ∉ events) : ctx.unfinished events = [] := by
  refine List.filter_eq_nil_iff.2 fun q hq => ?_
  exact absurd (Event.mem_entries.1 hq) (silent q)

/-- A part of a run of a script ends with a value or with an error, which is raised in the
script or comes out of a script that it refers to. -/
structure Unwinds {α : Type} (ctx : Context) (p : Place) (S : Cause → Range → Prop) (r : Run α) :
    Prop where
  given : ∀ a, r.result = .ok a → ctx.unfinished r.events = []
  failed : ∀ e, r.result = .error (.failed e) →
    (ctx.unfinished r.events = [] ∧ ∃ cause range, e = ⟨cause, range, [], []⟩ ∧ S cause range) ∨
      ∃ (q : Place) (t : Bytes) (last : Place), q.chain = p.chain ∧ t ≠ [] ∧
        (q.enter t).chain.length ≤ ctx.options.referenceDepth + 1 ∧
        ctx.Unwound (q.enter t) (ctx.unfinished r.events) e last
  thrown : ∀ what, r.result = .error (.thrown what) → ctx.Breaks

namespace Unwinds

variable {α β : Type} {ctx : Context} {p : Place} {S T : Cause → Range → Prop}

/-- A part that enters no script. -/
theorem of_silent {r : Run α} (silent : ∀ q, .entry q ∉ r.events)
    (failed : ∀ e, r.result = .error (.failed e) →
      ∃ cause range, e = ⟨cause, range, [], []⟩ ∧ S cause range)
    (thrown : ∀ what, r.result = .error (.thrown what) → ctx.Breaks) : ctx.Unwinds p S r where
  given _ _ := unfinished_of_silent silent
  failed e he := .inl ⟨unfinished_of_silent silent, failed e he⟩
  thrown := thrown

theorem done (a : α) : ctx.Unwinds p S (Run.done a) :=
  of_silent (by simp [Run.done]) (by simp) (by simp)

theorem bind {r : Run α} {f : α → Run β} (hr : ctx.Unwinds p S r)
    (hf : ∀ a, r.result = .ok a → ctx.Unwinds p S (f a)) : ctx.Unwinds p S (r >>= f) := by
  obtain ⟨events, result⟩ := r
  cases result with
  | error halt =>
      rw [Run.bind_error]
      refine ⟨fun b hb => (by cases hb), fun e he => ?_, fun what hwhat => ?_⟩
      · exact hr.failed e (congrArg Except.error (Except.error.inj he))
      · exact hr.thrown what (congrArg Except.error (Except.error.inj hwhat))
  | ok a =>
      have later := hf a rfl
      have nothing : ctx.unfinished events = [] := hr.given a rfl
      have same : ctx.unfinished (events ++ (f a).events) = ctx.unfinished (f a).events := by
        rw [unfinished_append, nothing, List.nil_append]
      rw [Run.bind_ok]
      refine ⟨fun b hb => same.trans (later.given b hb), fun e he => ?_, later.thrown⟩
      rw [same]
      exact later.failed e he

theorem mono {r : Run α} (h : ctx.Unwinds p S r)
    (sub : ∀ cause range, S cause range → T cause range) :
    ctx.Unwinds p T r := by
  refine ⟨h.given, fun e he => (h.failed e he).imp_left ?_, h.thrown⟩
  rintro ⟨nothing, cause, range, he, hS⟩
  exact ⟨nothing, cause, range, he, sub cause range hS⟩

theorem fail {cause : Cause} {range : Range} (h : S cause range) :
    ctx.Unwinds p S (Run.fail cause range : Run α) := by
  refine of_silent (by simp [Run.fail]) (fun e he => ?_) (by simp)
  cases he
  exact ⟨cause, range, rfl, h⟩

theorem ofExcept {x : Except CompileError α} (h : FailsAt S x) :
    ctx.Unwinds p S (Run.ofExcept x) := by
  cases x with
  | ok a => exact done a
  | error e =>
      refine of_silent (by simp [Run.ofExcept]) (fun e' he => ?_) (by simp [Run.ofExcept])
      cases he
      exact h e rfl

theorem ofLogged (l : Logged α) : ctx.Unwinds p S (Run.ofLogged l) :=
  of_silent (by simp [Run.ofLogged]) (by simp) (by simp)

theorem tell (level : Log.Level) (category : Log.Category) (message : Bytes) :
    ctx.Unwinds p S (Run.tell level category message) :=
  of_silent (by simp [Run.tell]) (by simp) (by simp)

theorem tree (nodes : List Node) : ctx.Unwinds p S (Run.tree nodes) :=
  of_silent (by simp [Run.tree]) (by simp) (by simp)

end Unwinds

variable {ctx : Context} {p q : Place} {nodes : List Node}

/-! ## The parts of a run -/

theorem record_unwinds {S : Cause → Range → Prop} (kind : Resolved.Kind) (label : Bytes)
    (range : Range) (b : Bytes) : ctx.Unwinds p S (ctx.record q kind label range b) := by
  unfold record
  split
  · exact .of_silent (by simp [Run.step]) (by simp [Run.step]) (by simp [Run.step])
  · exact .done ()

theorem generate_unwinds {S : Cause → Range → Prop} {resolved : List Resolved}
    (h : FailsAt S (Resolved.generateAll resolved)) : ctx.Unwinds p S (generate resolved) := by
  unfold generate tellGenerated
  exact .bind (.ofExcept h) fun b _ => .bind (.tell _ _ _) fun _ _ => .done b

theorem recordPush_unwinds {S : Cause → Range → Prop} {r : Resolved} (range : Range)
    (h : FailsAt S r.generate) : ctx.Unwinds p S (recordPush ctx q r range) := by
  have single : FailsAt S (Resolved.generateAll [r]) := by
    rw [Resolved.generateAll_singleton]
    exact h
  unfold recordPush
  split
  · exact .bind (generate_unwinds single) fun b _ => record_unwinds _ _ _ _
  · exact .done ()

/-- What goes wrong at the end of an evaluation goes wrong in its nodes or in itself. -/
theorem finishEvaluation_unwinds {S : Cause → Range → Prop} {children : List Resolved}
    {range : Range} (generates : FailsAt S (Resolved.generateAll children))
    (evaluates : ∀ program failure, Resolved.generateAll children = .ok program →
      (evaluate ctx.invoker ctx.env program range).value =
        .error ⟨.evaluation range failure, range, [], []⟩ → S (.evaluation range failure) range) :
    ctx.Unwinds p S (finishEvaluation ctx q children range) := by
  unfold finishEvaluation
  refine .bind (generate_unwinds generates) fun program hprogram => ?_
  refine .bind (.ofLogged _) fun value hvalue => ?_
  have fails : FailsAt S value := by
    intro e he
    have hfails : (evaluate ctx.invoker ctx.env program range).value = .error e :=
      (Except.ok.inj hvalue).trans he
    obtain ⟨failure, rfl⟩ := evaluate_eq_error hfails
    exact ⟨_, _, rfl, evaluates program failure (generate_eq_ok.1 hprogram) hfails⟩
  refine .bind (.ofExcept fails) fun result _ => ?_
  exact .bind (record_unwinds _ _ _ _) fun _ _ => .done _

theorem invoke_unwinds {S : Cause → Range → Prop} {cap : Capability} {req : Request} {range : Range}
    (refuses : ∀ fault, (ctx.invoker.operation ctx.env.operations cap req ctx.data).value =
      .error (.refused fault) → S (.refused fault) range) :
    ctx.Unwinds p S (ctx.invoke cap req range) := by
  unfold invoke
  refine .bind (.ofLogged _) fun answer hanswer => ?_
  have hanswer : (ctx.invoker.operation ctx.env.operations cap req ctx.data).value = answer :=
    Except.ok.inj hanswer
  rcases answer with (fault | what) | b
  · exact .fail (refuses fault hanswer)
  · exact .of_silent (by simp) (by simp) fun _ _ => ⟨cap, req, what, hanswer⟩
  · exact .done b

/-! ## References -/

/-- The script at a place ends with a value, and so do those that it enters, or an error comes
out of it. -/
structure UnwindsAt (ctx : Context) (p : Place) : Prop where
  given : ∀ a, (ctx.enter p).result = .ok a → ctx.unfinished (ctx.enter p).events = []
  failed : ∀ e, (ctx.enter p).result = .error (.failed e) →
    ∃ last, ctx.Unwound p (ctx.unfinished (ctx.enter p).events) e last
  thrown : ∀ what, (ctx.enter p).result = .error (.thrown what) → ctx.Breaks

/-- So do the scripts that can be entered from a script. -/
def UnwindsBelow (ctx : Context) (p : Place) : Prop :=
  ∀ q : Place, q.chain = p.chain → ∀ t ∉ p.chain, ctx.env.scripts.contains t = true →
    ctx.UnwindsAt (q.enter t)

/-- A reference goes wrong at the identifier that it is for, in the script that it leads to,
or because there is no such script. -/
theorem refer_unwinds {S : Cause → Range → Prop} {t : Bytes} {range : Range}
    (same : q.chain = p.chain) (below : ctx.UnwindsBelow p)
    (named : ctx.env.scripts.contains t = true → t ≠ [])
    (cycle : t ∈ p.chain → S (.referenceCycle p.chain t) range)
    (deep : ctx.options.referenceDepth < p.chain.length →
      S (.referenceTooDeep ctx.options.referenceDepth t) range)
    (missing : ctx.env.scripts.contains t = false → S (.unknownScript t) {}) :
    ctx.Unwinds p S (refer ctx ctx.enter q t range) := by
  unfold refer
  rw [same]
  by_cases again : t ∈ p.chain
  · rw [if_pos (by simpa using again)]
    exact .fail (cycle again)
  rw [if_neg (by simpa using again)]
  by_cases full : ctx.options.referenceDepth < p.chain.length
  · rw [if_pos full]
    exact .fail (deep full)
  rw [if_neg full]
  refine .bind (.tell _ _ _) fun _ _ => .bind ?_ fun _ _ => .done _
  cases known : ctx.env.scripts.contains t with
  | false =>
      have hmissing : ctx.env.scripts.contains (q.enter t).script = false := known
      rw [enter_missing hmissing]
      exact .fail (missing known)
  | true =>
      have entered := below q same t again known
      refine ⟨entered.given, fun e he => .inr ?_, entered.thrown⟩
      obtain ⟨last, unwound⟩ := entered.failed e he
      refine ⟨q, t, last, same, named known, ?_, unwound⟩
      rw [Place.chain_enter, same, List.length_append]
      exact Nat.succ_le_succ (Nat.not_lt.1 full)

/-! ## Identifiers -/

section

variable {name : Bytes} {range : Range} {access : Access}
  (part : .identifier name range ∈ Node.partsAll nodes) (same : q.chain = p.chain)
  (below : ctx.UnwindsBelow p)
  (named : ∀ t, ctx.LeadsTo p.script name t → ctx.env.scripts.contains t = true → t ≠ [])

include part

theorem Unresolved.faulty {cause : Cause} (h : ctx.Unresolved p name cause) :
    ctx.Faulty p nodes cause range :=
  .blamed ⟨_, part, .identifier h range, rfl⟩

include same below named

theorem refer_unwinds_of_leadsTo {t : Bytes} (leads : ctx.LeadsTo p.script name t)
    (missing : ctx.env.scripts.contains t = false → ctx.Faulty p nodes (.unknownScript t) {}) :
    ctx.Unwinds p (ctx.Faulty p nodes) (refer ctx ctx.enter q t range) :=
  refer_unwinds same below (named t leads)
    (fun again => Unresolved.faulty part (.cycle leads again))
    (fun deep => Unresolved.faulty part (.tooDeep leads deep)) missing

theorem coveredBytecode_unwinds (hm : Meaning.ofName ctx.env name = .ok (.variable_ access)) :
    ctx.Unwinds p (ctx.Faulty p nodes) (coveredBytecode ctx ctx.enter q name range access) := by
  have script : q.script = p.script := Place.script_eq_of_chain_eq same
  unfold coveredBytecode
  rw [script]
  split
  · rename_i needs
    split
    · rename_i unlocks
      exact .fail (Unresolved.faulty part (.unlocksNothing hm needs unlocks))
    · rename_i locking unlocks
      have leads : ctx.LeadsTo p.script name locking := by
        unfold LeadsTo
        simp only [hm]
        exact .inr ⟨needs, unlocks⟩
      refine .bind ?_ fun _ _ => .done _
      refine refer_unwinds_of_leadsTo part same below named leads fun missing => ?_
      exact .missing (Node.mem_namesAll_iff.2 ⟨range, part⟩) hm needs unlocks missing
  · exact .done none

theorem signedBytecode_unwinds (hm : Meaning.ofName ctx.env name = .ok (.variable_ access)) :
    ctx.Unwinds p (ctx.Faulty p nodes) (signedBytecode ctx ctx.enter q name range access) := by
  unfold signedBytecode
  cases signs : access.signedScript? with
  | none => exact .done none
  | some target =>
      by_cases known : ctx.env.scripts.contains target = true
      · have leads : ctx.LeadsTo p.script name target := by
          unfold LeadsTo
          simp only [hm]
          exact .inl signs
        simp only [if_pos known]
        refine .bind ?_ fun _ _ => .done _
        refine refer_unwinds_of_leadsTo part same below named leads fun missing => ?_
        exact absurd (known.symm.trans missing) (by decide)
      · simp only [if_neg known]
        refine .fail (Unresolved.faulty part (.signsUnknown hm signs ?_))
        simpa using known

theorem accessBytes_unwinds (hm : Meaning.ofName ctx.env name = .ok (.variable_ access)) :
    ctx.Unwinds p (ctx.Faulty p nodes) (accessBytes ctx ctx.enter q name range access) := by
  unfold accessBytes
  rw [Place.script_eq_of_chain_eq same]
  cases hcap : access.capability? with
  | none => exact .fail (Unresolved.faulty part (.unserved hm hcap))
  | some cap =>
      refine .bind (coveredBytecode_unwinds part same below named hm) fun covered hcovered => ?_
      refine .bind (signedBytecode_unwinds part same below named hm) fun signed hsigned => ?_
      have covers : ctx.Covers q name access covered := coveredBytecode_eq_ok.1 hcovered
      have signs : ctx.Signs q access signed := signedBytecode_eq_ok.1 hsigned
      exact invoke_unwinds fun fault answer =>
        Unresolved.faulty part (.refused hm hcap same covers signs answer)

theorem resolveIdentifier_unwinds :
    ctx.Unwinds p (ctx.Faulty p nodes) (resolveIdentifier ctx ctx.enter q name range) := by
  unfold resolveIdentifier
  cases hm : Meaning.ofName ctx.env name with
  | error cause => exact .fail (Unresolved.faulty part (.meaningless hm))
  | ok meaning =>
      cases meaning with
      | opcode op => exact .bind (record_unwinds _ _ _ _) fun _ _ => .done _
      | script =>
          have leads : ctx.LeadsTo p.script name name := by
            unfold LeadsTo
            simp only [hm]
          have known : ctx.env.scripts.contains name = true := Meaning.ofName_script hm
          refine .bind (refer_unwinds_of_leadsTo part same below named leads ?_) fun b _ => ?_
          · exact fun missing => absurd (known.symm.trans missing) (by decide)
          · exact .bind (record_unwinds _ _ _ _) fun _ _ => .done _
      | variable_ access =>
          refine .bind (accessBytes_unwinds part same below named hm) fun b _ => ?_
          exact .bind (record_unwinds _ _ _ _) fun _ _ => .done _

end

/-! ## Nodes and scripts -/

theorem ofHex_failsAt {digits : Bytes} {range : Range}
    (part : .hex digits range ∈ Node.partsAll nodes) :
    FailsAt (ctx.Faulty p nodes) (Literal.ofHex range digits) := by
  unfold Literal.ofHex
  split
  · rename_i odd
    exact .error (.blamed ⟨_, part, .oddHex odd range, rfl⟩)
  · split
    · exact .ok _
    · rename_i invalid
      exact .error (.blamed ⟨_, part, .invalidHex invalid range, rfl⟩)

theorem resolveAll_cons_unwinds {S : Cause → Range → Prop} {node : Node} {rest : List Node}
    (first : ctx.Unwinds p S (resolve ctx ctx.enter q node))
    (others : ctx.Unwinds p S (resolveAll ctx ctx.enter q rest)) :
    ctx.Unwinds p S (resolveAll ctx ctx.enter q (node :: rest)) := by
  rw [resolveAll]
  exact .bind first fun r _ => .bind others fun rs _ => .done _

/-- What goes wrong where nodes are resolved goes wrong in one of them, in a script that they
refer to, or because such a script is missing. -/
theorem resolveAll_unwinds {all : List Node} (sub : Node.partsAll nodes ⊆ Node.partsAll all)
    (same : q.chain = p.chain) (below : ctx.UnwindsBelow p)
    (named : ∀ name ∈ Node.namesAll all, ∀ t, ctx.LeadsTo p.script name t →
      ctx.env.scripts.contains t = true → t ≠ []) :
    ctx.Unwinds p (ctx.Faulty p all) (resolveAll ctx ctx.enter q nodes) := by
  have faulty : ∀ {q : Place} {nodes : List Node} {cause : Cause} {range : Range},
      q.chain = p.chain → Node.partsAll nodes ⊆ Node.partsAll all →
      ctx.Overlong q nodes cause range → ctx.Faulty p all cause range :=
    fun same sub long => .blamed (long.mono same sub).blames
  induction nodes using Node.nodesInduction generalizing q with
  | nil =>
      rw [resolveAll]
      exact .done []
  | literal node rest hnode ih =>
      have first := sub (Node.partsAll_first node rest)
      refine resolveAll_cons_unwinds ?_ (ih (fun _ h => sub (Node.partsAll_rest node rest h)) same)
      cases hnode with
      | integer | utf8 =>
          rw [resolve]
          exact .done _
      | hex digits range =>
          rw [resolve]
          exact .bind (.ofExcept (ofHex_failsAt first)) fun b _ => .done _
  | identifier name range rest ih =>
      have first := sub (Node.partsAll_first (.identifier name range) rest)
      refine resolveAll_cons_unwinds ?_ (ih (fun _ h => sub (Node.partsAll_rest _ rest h)) same)
      rw [resolve]
      exact resolveIdentifier_unwinds first same below
        (named name (Node.mem_namesAll_iff.2 ⟨range, first⟩))
  | push children range rest inside ih =>
      have first := sub (Node.partsAll_first (.push children range) rest)
      refine resolveAll_cons_unwinds ?_ (ih (fun _ h => sub (Node.partsAll_rest _ rest h)) same)
      rw [resolve, openBracket_bind]
      split
      · exact .fail (.blamed ⟨_, first, .bracketsTooDeep (.push children range), rfl⟩)
      · have sub' : Node.partsAll children ⊆ Node.partsAll all :=
          fun _ h => sub (Node.partsAll_push children range rest h)
        refine .bind (inside sub' same) fun resolved hresolved => ?_
        have single : Node.partsAll [.push children range] ⊆ Node.partsAll all :=
          fun _ h => sub (Node.partsAll_head _ rest h)
        have pushes : FailsAt (ctx.Faulty p all) (Resolved.push resolved range).generate :=
          (generate_push_overlong hresolved (generateAll_overlong hresolved)).mono
            fun _ _ => faulty same single
        exact .bind (recordPush_unwinds range pushes) fun _ _ => .done _
  | evaluation children range rest inside ih =>
      have first := sub (Node.partsAll_first (.evaluation children range) rest)
      refine resolveAll_cons_unwinds ?_ (ih (fun _ h => sub (Node.partsAll_rest _ rest h)) same)
      rw [resolve, openBracket_bind]
      split
      · exact .fail (.blamed ⟨_, first, .bracketsTooDeep (.evaluation children range), rfl⟩)
      rw [openEvaluation_bind]
      split
      · exact .fail (.blamed ⟨_, first, .evaluationTooDeep children range, rfl⟩)
      · have sub' : Node.partsAll children ⊆ Node.partsAll all :=
          fun _ h => sub (Node.partsAll_evaluation children range rest h)
        have same' : q.inBracket.inEvaluation.chain = p.chain := same
        refine .bind (inside sub' same') fun resolved hresolved => ?_
        refine finishEvaluation_unwinds ?_ fun program failure generated fails => ?_
        · exact (generateAll_overlong hresolved).mono fun _ _ => faulty same' sub'
        · exact .blamed ⟨_, first, .evaluation same' ⟨resolved, hresolved, generated⟩ fails, rfl⟩

theorem read_unwinds (p : Place) (source : Bytes) :
    ctx.Unwinds p (ctx.FaultyAt p source) (read ctx source) := by
  unfold read
  refine .bind (.ofExcept ((Token.ofText_failsAt source).mono fun _ _ => .unread)) ?_
  intro tokens htokens
  refine .bind (.tell _ _ _) fun _ _ => ?_
  have unspelled : FailsAt (ctx.FaultyAt p source)
      (Node.ofTokens (ctx.env.bounds ctx.options) tokens) :=
    (Node.ofTokens_failsAt _ tokens).mono fun _ _ => .unspelled (Run.ofExcept_eq_ok.1 htokens)
  refine .bind (.ofExcept unspelled) fun nodes _ => ?_
  exact .bind (.tell _ _ _) fun _ _ => .bind (.tree nodes) fun _ _ => .done nodes

/-- The scripts that a source leads to, in a context in which they have names. -/
theorem Named.of_program (named : ctx.Named)
    (program : ctx.env.program? ctx.options p.script = some nodes) :
    ∀ name ∈ Node.namesAll nodes, ∀ t, ctx.LeadsTo p.script name t →
      ctx.env.scripts.contains t = true → t ≠ [] :=
  fun name hname t leads => named p.script t ⟨nodes, program, name, hname, leads⟩

/-- What goes wrong in a script behind its entry. -/
theorem compileSource_unwinds (named : ctx.Named) {source : Bytes}
    (hsource : ctx.env.scripts.find? p.script = some source) (below : ctx.UnwindsBelow p) :
    ∃ r : Run Compiled, compileSource ctx ctx.enter p source = (Run.entry p >>= fun _ => r) ∧
      ctx.Unwinds p (ctx.FaultyAt p source) r := by
  refine ⟨_, rfl, ?_⟩
  refine .bind (read_unwinds p source) fun nodes hnodes => ?_
  have read : Compiler.treeOf? (ctx.env.bounds ctx.options) source = some nodes :=
    read_eq_ok.1 hnodes
  have program : ctx.env.program? ctx.options p.script = some nodes :=
    Environment.program?_eq_some.2 ⟨source, hsource, read⟩
  have resolves := resolveAll_unwinds (fun _ h => h) rfl below (named.of_program program)
  refine .bind (resolves.mono fun _ _ => .resolved read) fun resolved hresolved => ?_
  have generates : FailsAt (ctx.FaultyAt p source) (Resolved.generateAll resolved) :=
    (generateAll_overlong hresolved).mono
      fun _ _ long => .resolved read (.blamed long.blames)
  exact .bind (generate_unwinds generates) fun b _ => .done _

theorem unfinished_entry (ctx : Context) (p : Place) (events : List Event) :
    ctx.unfinished (.entry p :: events) =
      if (ctx.enter p).result.toOption.isNone then p :: ctx.unfinished events
      else ctx.unfinished events := by
  simp [unfinished, Event.entries, List.filter_cons]

/-- An error that is raised in a script gets its id. -/
theorem Unwound.raised {source : Bytes} {cause : Cause} {range : Range}
    (hsource : ctx.env.scripts.find? p.script = some source)
    (faulty : ctx.FaultyAt p source cause range) :
    ctx.Unwound p [p] ((⟨cause, range, [], []⟩ : CompileError).within p.script) p where
  last := rfl
  names := rfl
  chain := by simp [CompileError.within, Place.chain]
  depth h := h
  named h := h
  faulty := ⟨source, hsource, faulty⟩

/-- An error that comes out of a script has an id, so the script above gets into its chain. -/
theorem Unwound.enter {places : List Place} {e : CompileError} {last : Place} {t : Bytes}
    (h : ctx.Unwound (q.enter t) places e last) (same : q.chain = p.chain) (ht : t ≠ [])
    (room : (q.enter t).chain.length ≤ ctx.options.referenceDepth + 1) :
    ctx.Unwound p (p :: places) (e.within p.script) last := by
  have tagged : e.script.isEmpty = false := by
    simpa using h.named ht
  have within : e.within p.script = { e with chain := p.script :: e.chain } := by
    simp only [CompileError.within, tagged, Bool.false_eq_true, if_false]
  have above : (q.enter t).above = p.above ++ [p.script] := same
  rw [within]
  constructor
  · rw [List.getLast?_cons, h.last]
    rfl
  · rw [List.map_cons, h.names]
    rfl
  · rw [h.chain, above]
    simp
  · exact fun _ => h.depth room
  · exact fun _ => h.named ht
  · simpa using h.faulty

/-- Every script unwinds: the scripts in progress are those in the chain of its error. -/
theorem enter_unwinds (named : ctx.Named) (known : ctx.env.scripts.contains p.script = true) :
    ctx.UnwindsAt p := by
  induction p using placeInduction ctx with
  | missing p hp =>
      rw [hp] at known
      exact absurd known (by decide)
  | known p hp ih =>
      obtain ⟨source, hsource⟩ := (Table.contains_iff_find? _ _).1 hp
      have below : ctx.UnwindsBelow p := fun q same t fresh known => ih q same t fresh known
      obtain ⟨⟨events, result⟩, hr, unwinds⟩ := compileSource_unwinds named hsource below
      have run : ctx.enter p = (⟨.entry p :: events, result⟩ : Run Compiled).within p.script := by
        rw [enter_source hsource, hr]
        rfl
      have hevents : (ctx.enter p).events = .entry p :: events := by
        rw [run, Run.events_within]
      constructor
      · intro a ha
        rw [hevents, unfinished_entry, ha, if_neg (by simp [Except.toOption])]
        rw [run, Run.within_eq_ok] at ha
        exact unwinds.given a ha
      · intro e he
        rw [hevents, unfinished_entry, he, if_pos (by simp [Except.toOption])]
        rw [run, Run.within_eq_failed] at he
        obtain ⟨own, hown, rfl⟩ := he
        rcases unwinds.failed own hown with
          ⟨nothing, cause, range, rfl, faulty⟩ | ⟨q, t, last, same, ht, room, unwound⟩
        · rw [show ctx.unfinished events = [] from nothing]
          exact ⟨p, .raised hsource faulty⟩
        · exact ⟨last, unwound.enter same ht room⟩
      · intro what hwhat
        refine unwinds.thrown what ?_
        rw [run] at hwhat
        cases result with
        | ok a => cases hwhat
        | error halt =>
            cases halt with
            | failed e => cases hwhat
            | thrown what' => exact hwhat

end Context

end AuthScript
