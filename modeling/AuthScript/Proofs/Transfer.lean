import AuthScript.Proofs.Yield

/-!
# Moving a compilation to another place

What nodes come to does not depend on how deep a compilation is: the scripts in
progress and the open brackets and evaluations can only make it fail. So bytes that
are given at a place are given at every place that is no deeper (`Gives.transfer`),
and in particular where the script is the root of a compilation.

The same holds if the sources of scripts in progress are replaced, for these are not
read again, and whether the run is a debug run or not. Both are part of the statement,
which is about a context and the context `withScripts`.
-/

namespace AuthScript

/-- A place is no deeper than another: fewer scripts are in progress, and no more
evaluations and brackets are open. -/
structure Place.Shallower (q p : Place) : Prop where
  chain : q.chain ⊆ p.chain
  length : q.chain.length ≤ p.chain.length
  evaluations : q.evaluations ≤ p.evaluations
  brackets : q.brackets ≤ p.brackets

namespace Place.Shallower

variable {p q : Place}

theorem refl (p : Place) : p.Shallower p :=
  ⟨fun _ h => h, Nat.le_refl _, Nat.le_refl _, Nat.le_refl _⟩

theorem enter (h : q.Shallower p) (id : Bytes) : (q.enter id).Shallower (p.enter id) := by
  refine ⟨?_, ?_, h.evaluations, h.brackets⟩
  · rw [chain_enter, chain_enter]
    exact List.append_subset.2 ⟨fun s hs => List.mem_append_left _ (h.chain hs),
      fun s hs => List.mem_append_right _ hs⟩
  · simpa using h.length

theorem inBracket (h : q.Shallower p) : q.inBracket.Shallower p.inBracket :=
  ⟨h.chain, h.length, h.evaluations, Nat.succ_le_succ h.brackets⟩

theorem inEvaluation (h : q.Shallower p) : q.inEvaluation.Shallower p.inEvaluation :=
  ⟨h.chain, h.length, Nat.succ_le_succ h.evaluations, h.brackets⟩

/-- A script is compiled as the root of a compilation at the shallowest place. -/
theorem root (p : Place) : ({ script := p.script } : Place).Shallower p := by
  refine ⟨?_, ?_, Nat.zero_le _, Nat.zero_le _⟩
  · intro s hs
    exact List.mem_append_right _ hs
  · simp [Place.chain]

end Place.Shallower

namespace Context

/-- The context with other sources of scripts, for a debug run or not. -/
def withScripts (ctx : Context) (scripts : Table Bytes) (debug : Bool) : Context :=
  { ctx with env := { ctx.env with scripts }, debug }

/-- The sources belong to the same scripts, and the invoker chooses the same machine. -/
structure Keeps (ctx : Context) (scripts : Table Bytes) : Prop where
  contains : ∀ id, scripts.contains id = ctx.env.scripts.contains id
  machine : ctx.invoker.machine { ctx.env with scripts } = ctx.invoker.machine ctx.env

/-- What an identifier stands for does not depend on the script it stands in: the
identifier covers no locking script, and the operations do not look at the script. -/
def Portable (ctx : Context) (name : Bytes) : Prop :=
  ∀ access, Meaning.ofName ctx.env name = .ok (.variable_ access) →
    access.needsCovered ctx.data name = false ∧
    ∀ cap s s' covered signed,
      (ctx.invoker.operation ctx.env.operations cap
        (access.request name s covered signed) ctx.data).value =
      (ctx.invoker.operation ctx.env.operations cap
        (access.request name s' covered signed) ctx.data).value

variable {ctx ctx' : Context} {scripts : Table Bytes} {debug : Bool} {p q : Place}

theorem options_withScripts (ctx : Context) (scripts : Table Bytes) (debug : Bool) :
    (ctx.withScripts scripts debug).options = ctx.options := rfl

theorem Keeps.same (ctx : Context) : ctx.Keeps ctx.env.scripts := ⟨fun _ => rfl, rfl⟩

theorem Keeps.ofName (h : ctx.Keeps scripts) (name : Bytes) :
    Meaning.ofName (ctx.withScripts scripts debug).env name = Meaning.ofName ctx.env name := by
  have haccess : Access.ofName? (ctx.withScripts scripts debug).env name =
      Access.ofName? ctx.env name := rfl
  have hcontains : (ctx.withScripts scripts debug).env.scripts.contains name =
      ctx.env.scripts.contains name := h.contains name
  unfold Meaning.ofName
  rw [haccess, hcontains]
  rfl

theorem Keeps.evaluates (h : ctx.Keeps scripts) {body b : Bytes} (he : ctx.Evaluates body b) :
    (ctx.withScripts scripts debug).Evaluates body b := by
  obtain ⟨machine, hm, hb⟩ := he
  exact ⟨machine, h.machine.trans hm, hb⟩

/-- Identifiers that stand for bytes in the script at `p` stand for the same bytes in
the script at `q`, however many brackets and evaluations are open. -/
def Carries (ctx ctx' : Context) (p q : Place) (names : List Bytes) : Prop :=
  ∀ p' q' : Place, p'.chain = p.chain → p'.script = p.script → q'.Shallower p' →
    q'.script = q.script → ∀ name ∈ names, ∀ b, ctx.Denotes p' name b → ctx'.Denotes q' name b

theorem Carries.mono {names others : List Bytes} (h : ctx.Carries ctx' p q names)
    (sub : others ⊆ names) : ctx.Carries ctx' p q others :=
  fun p' q' hp hps hq hqs name hname => h p' q' hp hps hq hqs name (sub hname)

theorem Carries.inBracket {names : List Bytes} (h : ctx.Carries ctx' p q names) :
    ctx.Carries ctx' p.inBracket q.inBracket names := h

theorem Carries.inEvaluation {names : List Bytes} (h : ctx.Carries ctx' p q names) :
    ctx.Carries ctx' p.inEvaluation q.inEvaluation names := h

/-- Nodes come to the same bytes at a place that is no deeper, if their identifiers do. -/
theorem Yields.transfer (options : ctx'.options = ctx.options)
    (evaluates : ∀ {body b}, ctx.Evaluates body b → ctx'.Evaluates body b) {nodes : List Node}
    (carries : ctx.Carries ctx' p q (Node.namesAll nodes)) (hq : q.Shallower p) {b : Bytes}
    (h : ctx.Yields p nodes b) : ctx'.Yields q nodes b := by
  induction nodes using Node.nodesInduction generalizing p q b with
  | nil => simpa using h
  | literal node rest hnode ih =>
      obtain ⟨own, other, hown, hother, rfl⟩ := yields_cons.1 h
      have hrest := ih (carries.mono (Node.namesAll_rest _ rest)) hq hother
      exact yields_cons.2 ⟨own, other, nodeYields_literal hnode hown, hrest, rfl⟩
  | identifier name range rest ih =>
      obtain ⟨own, other, hown, hother, rfl⟩ := yields_cons.1 h
      have hrest := ih (carries.mono (Node.namesAll_rest _ rest)) hq hother
      have hname := carries p q rfl rfl hq rfl name (Node.namesAll_identifier name range rest) own
        (nodeYields_identifier.1 hown)
      exact yields_cons.2 ⟨own, other, nodeYields_identifier.2 hname, hrest, rfl⟩
  | push children range rest inside ih =>
      obtain ⟨own, other, hown, hother, rfl⟩ := yields_cons.1 h
      obtain ⟨room, contents, hcontents, hpush⟩ := nodeYields_push.1 hown
      have hrest := ih (carries.mono (Node.namesAll_rest _ rest)) hq hother
      have hchildren := carries.mono (Node.namesAll_push children range rest)
      have hin := inside hchildren.inBracket hq.inBracket hcontents
      have room' : q.brackets < ctx'.options.nestingDepth :=
        options ▸ Nat.lt_of_le_of_lt hq.brackets room
      exact yields_cons.2
        ⟨own, other, nodeYields_push.2 ⟨room', contents, hin, hpush⟩, hrest, rfl⟩
  | evaluation children range rest inside ih =>
      obtain ⟨own, other, hown, hother, rfl⟩ := yields_cons.1 h
      obtain ⟨room, few, body, hbody, heval⟩ := nodeYields_evaluation.1 hown
      have hrest := ih (carries.mono (Node.namesAll_rest _ rest)) hq hother
      have hchildren := carries.mono (Node.namesAll_evaluation children range rest)
      have hin := inside hchildren.inBracket.inEvaluation hq.inBracket.inEvaluation hbody
      have room' : q.brackets < ctx'.options.nestingDepth :=
        options ▸ Nat.lt_of_le_of_lt hq.brackets room
      have few' : q.evaluations < ctx'.options.evaluationDepth :=
        options ▸ Nat.lt_of_le_of_lt hq.evaluations few
      exact yields_cons.2 ⟨own, other,
        nodeYields_evaluation.2 ⟨room', few', body, hin, evaluates heval⟩, hrest, rfl⟩

/-- An identifier stands for the same bytes where it can refer to the same scripts, if
it stands in the same script or does not depend on it. -/
theorem Denotes.transfer (keeps : ctx.Keeps scripts)
    (refers : ∀ id b, ctx.Refers p id b → (ctx.withScripts scripts debug).Refers q id b)
    {name : Bytes} (hscript : q.script = p.script ∨ ctx.Portable name) {b : Bytes}
    (h : ctx.Denotes p name b) : (ctx.withScripts scripts debug).Denotes q name b := by
  unfold Denotes at h ⊢
  rw [keeps.ofName]
  cases hm : Meaning.ofName ctx.env name with
  | error cause => simp [hm] at h
  | ok meaning =>
      simp only [hm] at h
      cases meaning with
      | opcode op => exact h
      | script => exact refers name b h
      | variable_ access =>
          obtain ⟨cap, covered, signed, hcap, hcovers, hsigns, hb⟩ := h
          refine ⟨cap, covered, signed, hcap, ?_, ?_, ?_⟩
          · unfold Covers at hcovers ⊢
            by_cases needs : access.needsCovered ctx.data name = true
            · rw [if_pos needs] at hcovers
              obtain ⟨locking, own, hlocking, hown, rfl⟩ := hcovers
              have same : q.script = p.script := by
                rcases hscript with same | portable
                · exact same
                · rw [(portable access hm).1] at needs
                  exact absurd needs Bool.false_ne_true
              have needs' : access.needsCovered (ctx.withScripts scripts debug).data name = true :=
                needs
              rw [if_pos needs', same]
              exact ⟨locking, own, hlocking, refers locking own hown, rfl⟩
            · rw [if_neg needs] at hcovers
              have needs' :
                  ¬ access.needsCovered (ctx.withScripts scripts debug).data name = true := needs
              rw [if_neg needs']
              exact hcovers
          · unfold Signs at hsigns ⊢
            cases ht : access.signedScript? with
            | none => simpa [ht] using hsigns
            | some target =>
                simp only [ht] at hsigns ⊢
                obtain ⟨known, own, hown, rfl⟩ := hsigns
                exact ⟨(keeps.contains target).trans known, own, refers target own hown, rfl⟩
          · rcases hscript with same | portable
            · rw [same]
              exact hb
            · exact ((portable access hm).2 cap q.script p.script covered signed).trans hb

theorem program?_withScripts {id : Bytes} (h : scripts.find? id = ctx.env.scripts.find? id) :
    (ctx.withScripts scripts debug).env.program? ctx.options id =
      ctx.env.program? ctx.options id := by
  simp only [Environment.program?, Environment.bounds, withScripts, h]

/-- A script gives the same bytes at a place that is no deeper, whatever the sources of
the scripts that are in progress above it. -/
theorem Gives.transfer (keeps : ctx.Keeps scripts)
    (sources : ∀ id, id = p.script ∨ id ∉ p.chain →
      scripts.find? id = ctx.env.scripts.find? id)
    (hq : q.Shallower p) (hscript : q.script = p.script) {b : Bytes} (h : ctx.Gives p b) :
    (ctx.withScripts scripts debug).Gives q b := by
  induction p using placeInduction ctx generalizing q b with
  | missing p hp =>
      obtain ⟨nodes, hnodes, _⟩ := gives_iff.1 h
      obtain ⟨source, hsource, _⟩ := Environment.program?_eq_some.1 hnodes
      rw [(Table.contains_iff_find? _ _).2 ⟨source, hsource⟩] at hp
      exact absurd hp (by decide)
  | known p hp ih =>
      obtain ⟨nodes, hnodes, hyields⟩ := gives_iff.1 h
      refine gives_iff.2 ⟨nodes, ?_, ?_⟩
      · rw [hscript]
        exact (program?_withScripts (sources _ (.inl rfl))).trans hnodes
      · refine Yields.transfer (options_withScripts ctx scripts debug) keeps.evaluates ?_ hq hyields
        intro p' q' hchain hps hq' hqs name _ own hown
        refine Denotes.transfer keeps ?_ (.inl (hqs.trans (hscript.trans hps.symm))) hown
        rintro id own ⟨fresh, depth, hgives⟩
        refine ⟨fun hid => fresh (hq'.chain hid), Nat.le_trans hq'.length depth, ?_⟩
        refine ih p' hchain id (hchain ▸ fresh) ?_ (hq'.enter id) rfl hgives
        rintro other (rfl | hother)
        · exact sources _ (.inr (hchain ▸ fresh))
        · refine sources other (.inr fun hmem => hother ?_)
          rw [Place.chain_enter, hchain]
          exact List.mem_append_left _ hmem

/-- The scripts that can be referred to from a place can be referred to from a place
that is no deeper, whatever the sources of the scripts in progress. -/
theorem Refers.transfer (keeps : ctx.Keeps scripts)
    (sources : ∀ id ∉ p.chain, scripts.find? id = ctx.env.scripts.find? id)
    (hq : q.Shallower p) {id b : Bytes} (h : ctx.Refers p id b) :
    (ctx.withScripts scripts debug).Refers q id b := by
  obtain ⟨fresh, depth, hgives⟩ := h
  refine ⟨fun hid => fresh (hq.chain hid), Nat.le_trans hq.length depth, ?_⟩
  refine Gives.transfer keeps ?_ (hq.enter id) rfl hgives
  rintro other (rfl | hother)
  · exact sources _ fresh
  · exact sources other fun hmem => hother (List.mem_append_left _ hmem)

/-- Identifiers stand for the same bytes where no more is in progress, in the same script
or in any other if they do not depend on it. -/
theorem carries_of_sources (keeps : ctx.Keeps scripts)
    (sources : ∀ id ∉ p.chain, scripts.find? id = ctx.env.scripts.find? id)
    {names : List Bytes} (hscript : q.script = p.script ∨ ∀ name ∈ names, ctx.Portable name) :
    ctx.Carries (ctx.withScripts scripts debug) p q names := by
  intro p' q' hchain hps hq' hqs name hname own hown
  refine Denotes.transfer keeps (fun id c h => ?_) ?_ hown
  · exact h.transfer keeps (fun other hother => sources other (hchain ▸ hother)) hq'
  · rcases hscript with same | portable
    · exact .inl (hqs.trans (same.trans hps.symm))
    · exact .inr (portable name hname)

/-- Nodes of a script in progress come to the same bytes, whatever its source is. -/
theorem Yields.withScripts (keeps : ctx.Keeps scripts)
    (sources : ∀ id ∉ p.chain, scripts.find? id = ctx.env.scripts.find? id)
    {nodes : List Node} {b : Bytes} (h : ctx.Yields p nodes b) :
    (ctx.withScripts scripts debug).Yields p nodes b :=
  h.transfer (options_withScripts ctx scripts debug) keeps.evaluates
    (carries_of_sources keeps sources (.inl rfl)) (.refl p)

end Context

end AuthScript
