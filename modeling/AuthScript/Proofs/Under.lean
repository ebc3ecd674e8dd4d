import AuthScript.Proofs.Cycles
import AuthScript.Proofs.Thresholds

/-!
# Compiling behind another place

Bytes that are given at a place are given at every place that is no deeper. The converse
needs two things: room for all that is open at the deeper place, and that none of the scripts
in progress there is met again. A script that compiles with that much to spare then compiles
to the same where it is referred to (`Gives.refers_of_room`).

The room is spoken of through limits: a script compiles behind a place exactly if it compiles
under limits that are lower by as much as is open there (`gives_leaving_iff`), and that is so
exactly if it compiles with so much to spare (`gives_leaving_iff_needed_le`).
-/

namespace AuthScript

/-- What is around a place: the scripts in progress above it, and the evaluations and brackets
that are open. -/
structure Surroundings where
  above : List Bytes := []
  evaluations : Nat := 0
  brackets : Nat := 0

/-- What is around a script that is referred to from a place. -/
def Place.surroundings (q : Place) : Surroundings := ⟨q.chain, q.evaluations, q.brackets⟩

/-- The place with more around it. -/
def Place.behind (p : Place) (s : Surroundings) : Place :=
  ⟨s.above ++ p.above, p.script, s.evaluations + p.evaluations, s.brackets + p.brackets⟩

namespace Place

@[simp] theorem chain_behind (p : Place) (s : Surroundings) :
    (p.behind s).chain = s.above ++ p.chain :=
  List.append_assoc s.above p.above [p.script]

theorem enter_behind (p : Place) (s : Surroundings) (id : Bytes) :
    (p.behind s).enter id = (p.enter id).behind s := by
  simp [enter, behind, chain]

/-- A root behind a place is a script that is referred to from there. -/
theorem root_behind (q : Place) (id : Bytes) :
    ({ script := id } : Place).behind q.surroundings = q.enter id := by
  simp [enter, behind, surroundings]

end Place

namespace Context

variable {ctx : Context} {p : Place} {s : Surroundings}

/-- The context with the limits that are left where so much is around. -/
def leaving (ctx : Context) (s : Surroundings) : Context :=
  ctx.withOptions
    { referenceDepth := ctx.options.referenceDepth - s.above.length
      evaluationDepth := ctx.options.evaluationDepth - s.evaluations
      nestingDepth := ctx.options.nestingDepth - s.brackets }

/-- An identifier stands for the same under other limits, and at another place in the script,
if its references come to the same there. -/
theorem denotes_withOptions_iff {options : Options} {q : Place} {name b : Bytes}
    (script : q.script = p.script)
    (refers : ∀ t v, ctx.LeadsTo p.script name t →
      ((ctx.withOptions options).Refers q t v ↔ ctx.Refers p t v)) :
    (ctx.withOptions options).Denotes q name b ↔ ctx.Denotes p name b := by
  have env : (ctx.withOptions options).env = ctx.env := rfl
  have data : (ctx.withOptions options).data = ctx.data := rfl
  have invoker : (ctx.withOptions options).invoker = ctx.invoker := rfl
  unfold LeadsTo at refers
  unfold Denotes
  rw [env]
  cases hm : Meaning.ofName ctx.env name with
  | error cause => rfl
  | ok meaning =>
      rw [hm] at refers
      cases meaning with
      | opcode op => rfl
      | script => exact refers name b rfl
      | variable_ access =>
          have covers : ∀ covered, (ctx.withOptions options).Covers q name access covered ↔
              ctx.Covers p name access covered := by
            intro covered
            unfold Covers
            rw [env, data, script]
            by_cases needs : access.needsCovered ctx.data name = true
            · rw [if_pos needs, if_pos needs]
              refine exists_congr fun locking => exists_congr fun v => ?_
              exact and_congr_right fun hl => and_congr_left' (refers locking v (.inr ⟨needs, hl⟩))
            · rw [if_neg needs, if_neg needs]
          have signs : ∀ signed, (ctx.withOptions options).Signs q access signed ↔
              ctx.Signs p access signed := by
            intro signed
            unfold Signs
            rw [env]
            cases ht : access.signedScript? with
            | none => rfl
            | some target =>
                refine and_congr_right fun _ => exists_congr fun v => ?_
                exact and_congr_left' (refers target v (.inl ht))
          simp only [Accesses, covers, signs, env, data, invoker, script]

/-- Nodes come to the same behind a place, if their identifiers do. -/
theorem yields_leaving_iff_of_denotes {nodes : List Node} {b : Bytes}
    (denotes : ∀ r : Place, r.chain = p.chain → ∀ name ∈ Node.namesAll nodes, ∀ v,
      ((ctx.leaving s).Denotes r name v ↔ ctx.Denotes (r.behind s) name v)) :
    (ctx.leaving s).Yields p nodes b ↔ ctx.Yields (p.behind s) nodes b := by
  have brackets : ∀ n, n < (ctx.leaving s).options.nestingDepth ↔
      s.brackets + n < ctx.options.nestingDepth := fun n => Nat.lt_sub_iff_add_lt'
  have evaluations : ∀ n, n < (ctx.leaving s).options.evaluationDepth ↔
      s.evaluations + n < ctx.options.evaluationDepth := fun n => Nat.lt_sub_iff_add_lt'
  induction nodes using Node.nodesInduction generalizing p b with
  | nil => rw [yields_nil, yields_nil]
  | literal node rest hnode ih =>
      have own : ∀ v, (ctx.leaving s).NodeYields p node v ↔ ctx.NodeYields (p.behind s) node v :=
        fun v => ⟨nodeYields_literal hnode, nodeYields_literal hnode⟩
      have others : ∀ v, (ctx.leaving s).Yields p rest v ↔ ctx.Yields (p.behind s) rest v :=
        fun v => ih fun r hr name hname => denotes r hr name (Node.namesAll_rest _ rest hname)
      simp only [yields_cons, own, others]
  | identifier name range rest ih =>
      have own : ∀ v, (ctx.leaving s).NodeYields p (.identifier name range) v ↔
          ctx.NodeYields (p.behind s) (.identifier name range) v := by
        intro v
        rw [nodeYields_identifier, nodeYields_identifier]
        exact denotes p rfl name (Node.namesAll_identifier name range rest) v
      have others : ∀ v, (ctx.leaving s).Yields p rest v ↔ ctx.Yields (p.behind s) rest v :=
        fun v => ih fun r hr name hname => denotes r hr name (Node.namesAll_rest _ rest hname)
      simp only [yields_cons, own, others]
  | push children range rest inside ih =>
      have contents : ∀ v, (ctx.leaving s).Yields p.inBracket children v ↔
          ctx.Yields (p.behind s).inBracket children v :=
        fun v => inside (p := p.inBracket) fun r hr name hname =>
          denotes r hr name (Node.namesAll_push children range rest hname)
      have own : ∀ v, (ctx.leaving s).NodeYields p (.push children range) v ↔
          ctx.NodeYields (p.behind s) (.push children range) v := by
        intro v
        simp only [nodeYields_push, brackets, contents]
        rfl
      have others : ∀ v, (ctx.leaving s).Yields p rest v ↔ ctx.Yields (p.behind s) rest v :=
        fun v => ih fun r hr name hname => denotes r hr name (Node.namesAll_rest _ rest hname)
      simp only [yields_cons, own, others]
  | evaluation children range rest inside ih =>
      have contents : ∀ v, (ctx.leaving s).Yields p.inBracket.inEvaluation children v ↔
          ctx.Yields (p.behind s).inBracket.inEvaluation children v :=
        fun v => inside (p := p.inBracket.inEvaluation) fun r hr name hname =>
          denotes r hr name (Node.namesAll_evaluation children range rest hname)
      have own : ∀ v, (ctx.leaving s).NodeYields p (.evaluation children range) v ↔
          ctx.NodeYields (p.behind s) (.evaluation children range) v := by
        intro v
        simp only [nodeYields_evaluation, brackets, evaluations, contents]
        rfl
      have others : ∀ v, (ctx.leaving s).Yields p rest v ↔ ctx.Yields (p.behind s) rest v :=
        fun v => ih fun r hr name hname => denotes r hr name (Node.namesAll_rest _ rest hname)
      simp only [yields_cons, own, others]

/-- A script is referred to behind a place like elsewhere, if it is not in progress there and
compiles to the same. -/
theorem refers_leaving_iff {t b : Bytes} (other : t ∉ s.above)
    (gives : t ∉ p.chain →
      ((ctx.leaving s).Gives (p.enter t) b ↔ ctx.Gives ((p.enter t).behind s) b)) :
    (ctx.leaving s).Refers p t b ↔ ctx.Refers (p.behind s) t b := by
  have fresh : t ∉ (p.behind s).chain ↔ t ∉ p.chain := by
    rw [Place.chain_behind, List.mem_append, or_iff_right other]
  have depth : (p.behind s).chain.length ≤ ctx.options.referenceDepth ↔
      p.chain.length ≤ (ctx.leaving s).options.referenceDepth := by
    have left : (ctx.leaving s).options.referenceDepth =
        ctx.options.referenceDepth - s.above.length := rfl
    have positive : 0 < p.chain.length := by simp [Place.chain]
    rw [Place.chain_behind, List.length_append, left]
    omega
  unfold Refers
  rw [fresh, depth, Place.enter_behind]
  exact and_congr_right fun hfresh => and_congr_right fun _ => gives hfresh

/-- A script compiles behind a place to the same, if its nodes come to the same. What is read
with less room can be read, and what comes to bytes behind the place can be read with less
room. -/
theorem gives_leaving_iff_of_yields {b : Bytes}
    (yields : ∀ nodes, ctx.env.program? ctx.options p.script = some nodes →
      ((ctx.leaving s).Yields p nodes b ↔ ctx.Yields (p.behind s) nodes b)) :
    (ctx.leaving s).Gives p b ↔ ctx.Gives (p.behind s) b := by
  rw [gives_iff, gives_iff]
  constructor
  · rintro ⟨nodes, hnodes, hyields⟩
    obtain ⟨source, hsource, read⟩ := Environment.program?_eq_some.1 hnodes
    have program : ctx.env.program? ctx.options p.script = some nodes :=
      Environment.program?_eq_some.2
        ⟨source, hsource, Compiler.treeOf?_of_le read (Nat.sub_le _ _)⟩
    exact ⟨nodes, program, (yields nodes program).1 hyields⟩
  · rintro ⟨nodes, program, hyields⟩
    obtain ⟨source, hsource, read⟩ := Environment.program?_eq_some.1 program
    have room : Node.depthAll nodes ≤ (ctx.leaving s).options.nestingDepth :=
      Nat.le_trans hyields.depthAll_le (Nat.sub_le_sub_left (Nat.le_add_right _ _) _)
    have left : (ctx.leaving s).env.program? (ctx.leaving s).options p.script = some nodes :=
      Environment.program?_eq_some.2
        ⟨source, hsource, Compiler.treeOf?_of_depthAll_le read room⟩
    exact ⟨nodes, left, (yields nodes program).2 hyields⟩

/-- A script from which none of the scripts in progress at another place can be reached
compiles behind that place to the same. -/
theorem gives_leaving_iff {b : Bytes}
    (unreached : ∀ u ∈ s.above, ¬ Relation.ReflTransGen ctx.Mentions p.script u) :
    (ctx.leaving s).Gives p b ↔ ctx.Gives (p.behind s) b := by
  induction p using placeInduction ctx generalizing b with
  | missing p hp =>
      refine gives_leaving_iff_of_yields fun nodes program => ?_
      obtain ⟨source, hsource, _⟩ := Environment.program?_eq_some.1 program
      rw [(Table.contains_iff_find? _ _).2 ⟨source, hsource⟩] at hp
      cases hp
  | known p hp ih =>
      refine gives_leaving_iff_of_yields fun nodes program => ?_
      refine yields_leaving_iff_of_denotes fun r hr name hname v => ?_
      have script : r.script = p.script := Place.script_eq_of_chain_eq hr
      refine denotes_withOptions_iff rfl fun t v leads => ?_
      have mentions : ctx.Mentions p.script t := ⟨nodes, program, name, hname, script ▸ leads⟩
      have beyond : ∀ u ∈ s.above, ¬ Relation.ReflTransGen ctx.Mentions t u :=
        fun u hu reached => unreached u hu (.head mentions reached)
      have other : t ∉ s.above := fun again => beyond t again .refl
      exact refers_leaving_iff other fun fresh => ih r hr t (hr ▸ fresh) beyond

/-- In the same script an identifier stands for the same inside of more brackets and
evaluations as under limits that are lower by as much. -/
theorem denotes_leaving_iff {name b : Bytes} (alone : s.above = []) :
    (ctx.leaving s).Denotes p name b ↔ ctx.Denotes (p.behind s) name b := by
  have unmet : ∀ {t : Bytes}, t ∉ s.above := fun {t} => alone ▸ List.not_mem_nil
  refine denotes_withOptions_iff rfl fun t v _ => ?_
  exact refers_leaving_iff unmet fun _ => gives_leaving_iff fun u hu => absurd hu unmet

/-- A script that compiles compiles to the same under exactly those limits that have room for
it. -/
theorem Gives.withOptions_iff {options : Options} {l b : Bytes}
    (h : ctx.Gives { script := l } b) :
    (ctx.withOptions options).Gives { script := l } b ↔
      ctx.referencesNeeded l ≤ options.referenceDepth ∧
        ctx.evaluationsNeeded l ≤ options.evaluationDepth ∧
        ctx.bracketsNeeded l ≤ options.nestingDepth := by
  obtain ⟨compiled, hcompiled, rfl⟩ := h
  have given : ∃ compiled, (ctx.compile l).result = .ok compiled := ⟨compiled, hcompiled⟩
  rw [← compile_withOptions_iff given]
  constructor
  · rintro ⟨compiled', hcompiled', _⟩
    exact ⟨compiled', hcompiled'⟩
  · intro given'
    have same : (ctx.withOptions options).compile l = ctx.compile l :=
      compile_withOptions_of_given given given'
    exact ⟨compiled, (congrArg Run.result same).trans hcompiled, rfl⟩

/-- The limits have room for a script that compiles. -/
theorem Gives.needed_le {l b : Bytes} (h : ctx.Gives { script := l } b) :
    ctx.referencesNeeded l ≤ ctx.options.referenceDepth ∧
      ctx.evaluationsNeeded l ≤ ctx.options.evaluationDepth ∧
      ctx.bracketsNeeded l ≤ ctx.options.nestingDepth := by
  have own : (ctx.withOptions ctx.options).Gives { script := l } b := h
  exact h.withOptions_iff.1 own

/-- What compiles with so much less compiles to the same. -/
theorem Gives.of_leaving {l b : Bytes} (h : (ctx.leaving s).Gives { script := l } b) :
    ctx.Gives { script := l } b := by
  have given : ((ctx.leaving s).withOptions ctx.options).Gives { script := l } b := by
    obtain ⟨references, evaluations, brackets⟩ := h.needed_le
    refine h.withOptions_iff.2 ⟨?_, ?_, ?_⟩
    · exact Nat.le_trans references (Nat.sub_le _ _)
    · exact Nat.le_trans evaluations (Nat.sub_le _ _)
    · exact Nat.le_trans brackets (Nat.sub_le _ _)
  exact given

/-- A script compiles with so much less exactly if it compiles with so much to spare. -/
theorem gives_leaving_iff_needed_le {l b : Bytes}
    (references : s.above.length ≤ ctx.options.referenceDepth)
    (evaluations : s.evaluations ≤ ctx.options.evaluationDepth)
    (brackets : s.brackets ≤ ctx.options.nestingDepth) :
    (ctx.leaving s).Gives { script := l } b ↔ ctx.Gives { script := l } b ∧
      ctx.referencesNeeded l + s.above.length ≤ ctx.options.referenceDepth ∧
      ctx.evaluationsNeeded l + s.evaluations ≤ ctx.options.evaluationDepth ∧
      ctx.bracketsNeeded l + s.brackets ≤ ctx.options.nestingDepth := by
  have room : ctx.referencesNeeded l + s.above.length ≤ ctx.options.referenceDepth ∧
      ctx.evaluationsNeeded l + s.evaluations ≤ ctx.options.evaluationDepth ∧
      ctx.bracketsNeeded l + s.brackets ≤ ctx.options.nestingDepth ↔
      ctx.referencesNeeded l ≤ ctx.options.referenceDepth - s.above.length ∧
      ctx.evaluationsNeeded l ≤ ctx.options.evaluationDepth - s.evaluations ∧
      ctx.bracketsNeeded l ≤ ctx.options.nestingDepth - s.brackets := by
    rw [Nat.le_sub_iff_add_le references, Nat.le_sub_iff_add_le evaluations,
      Nat.le_sub_iff_add_le brackets]
  rw [room]
  constructor
  · intro h
    exact ⟨h.of_leaving, h.of_leaving.withOptions_iff.1 h⟩
  · rintro ⟨h, left⟩
    exact h.withOptions_iff.2 left

/-- A script that compiles with room for all that is open at a place, and does not lead back
to the scripts in progress there, gives the same bytes where it is referred to. -/
theorem Gives.refers_of_room {q : Place} {l b : Bytes} (h : ctx.Gives { script := l } b)
    (references : ctx.referencesNeeded l + q.chain.length ≤ ctx.options.referenceDepth)
    (evaluations : ctx.evaluationsNeeded l + q.evaluations ≤ ctx.options.evaluationDepth)
    (brackets : ctx.bracketsNeeded l + q.brackets ≤ ctx.options.nestingDepth)
    (unreached : ∀ u ∈ q.chain, ¬ Relation.ReflTransGen ctx.Mentions l u) :
    ctx.Refers q l b := by
  have left : (ctx.leaving q.surroundings).Gives { script := l } b := by
    refine h.withOptions_iff.2 ⟨?_, ?_, ?_⟩
    · exact Nat.le_sub_of_add_le references
    · exact Nat.le_sub_of_add_le evaluations
    · exact Nat.le_sub_of_add_le brackets
  refine ⟨fun again => unreached l again .refl, ?_, ?_⟩
  · exact Nat.le_trans (Nat.le_add_left _ _) references
  · rw [← Place.root_behind]
    exact (gives_leaving_iff unreached).1 left

/-- A script that compiles with a reference to spare, and does not lead back to the script
that refers to it, gives the same bytes there. -/
theorem Gives.refers {l u b : Bytes} (h : ctx.Gives { script := l } b)
    (room : ctx.referencesNeeded l < ctx.options.referenceDepth)
    (unreached : ¬ Relation.ReflTransGen ctx.Mentions l u) :
    ctx.Refers { script := u } l b := by
  obtain ⟨_, evaluations, brackets⟩ := h.needed_le
  refine h.refers_of_room room evaluations brackets fun v hv => ?_
  obtain rfl : v = u := List.mem_singleton.1 hv
  exact unreached

end Context

end AuthScript
