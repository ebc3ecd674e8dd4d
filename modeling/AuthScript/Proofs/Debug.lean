import AuthScript.Proofs.Blame
import AuthScript.Proofs.Comparison
import AuthScript.Proofs.Cycles

/-!
# Debug runs

A debug run records every node that it resolves, and generates the bytes of a push as soon
as this is resolved. The record is no part of the result, but the bytes are: if a push is
too long the debug run fails there, while the other one goes on to resolve what is behind
the push, which may fail before. That is the only way in which the results can differ. Where
every push fits (`PushesFit`), they are the same.
-/

namespace AuthScript

/-- Runs that end in the same way, whatever has happened. -/
def Run.sameResult : Run.Comparison where
  Rel r r' := r'.result = r.result
  done _ := rfl
  refl _ := rfl
  bind := by
    intro α β r r' f f' hr hf
    rw [result_bind, result_bind, hr]
    cases h : r.result with
    | error halt => rfl
    | ok a => exact hf a h (hr.trans h)
  within := by
    intro α r r' hr id
    obtain ⟨events, result⟩ := r
    obtain ⟨events', result'⟩ := r'
    obtain rfl : result' = result := hr
    cases result' with
    | ok a => rfl
    | error halt => cases halt <;> rfl

namespace Context

/-- The same compilation, in a debug run. -/
def debugging (ctx : Context) : Context := { ctx with debug := true }

theorem options_debugging (ctx : Context) : ctx.debugging.options = ctx.options := rfl

/-- No push of a script to which what is mentioned leads has contents that are too long. -/
def PushesFit (ctx : Context) (root : Bytes) : Prop :=
  ∀ p nodes, ctx.Visits root p → ctx.env.program? ctx.options p.script = some nodes →
    ∀ q children range contents, .push children range ∈ Node.partsAll nodes →
      q.chain = p.chain → ctx.Yields q children contents → contents.length ≤ Push.maxLength

variable {ctx : Context} {p q : Place} {root : Bytes}

theorem PushesFit.not_overlong (fits : ctx.PushesFit root) (visits : ctx.Visits root p)
    {nodes : List Node} (program : ctx.env.program? ctx.options p.script = some nodes)
    (cause : Cause) (range : Range) : ¬ ctx.Overlong p nodes cause range := by
  rintro ⟨part, inside, yields, long⟩
  exact absurd (fits p nodes visits program _ _ _ _ part inside yields) (Nat.not_le.2 long)

theorem finishEvaluation_debugging (children : List Resolved) (range : Range) :
    Run.sameResult.Rel (finishEvaluation ctx q children range)
      (finishEvaluation ctx.debugging q children range) := by
  unfold finishEvaluation
  refine Run.sameResult.bind rfl fun body _ _ => ?_
  refine Run.sameResult.bind rfl fun value _ _ => ?_
  refine Run.sameResult.bind rfl fun result _ _ => ?_
  refine Run.sameResult.bind ?_ fun _ _ _ => rfl
  exact (result_record _ _ _ _).trans (result_record _ _ _ _).symm

/-- An identifier is resolved alike if the references are that it leads to. -/
theorem resolveIdentifier_debugging {name : Bytes} {range : Range}
    (refers : ∀ t, ctx.LeadsTo q.script name t → Run.sameResult.Rel (refer ctx ctx.enter q t range)
      (refer ctx.debugging ctx.debugging.enter q t range)) :
    Run.sameResult.Rel (resolveIdentifier ctx ctx.enter q name range)
      (resolveIdentifier ctx.debugging ctx.debugging.enter q name range) := by
  have agree : ctx.AgreeOn ctx.debugging q.script name :=
    ⟨rfl, fun _ => rfl, rfl, fun _ _ _ _ => rfl⟩
  refine resolveIdentifier_linked_of_agree Run.sameResult.keepsRefusals rfl agree ?_ ?_ refers
  · intro kind b
    exact (result_record _ _ _ _).trans (result_record _ _ _ _).symm
  · intro access cap covered signed _ _
    rfl

/-- Nodes without a push that is too long are resolved alike. -/
theorem resolveAll_debugging {all nodes : List Node}
    (short : ∀ cause range, ¬ ctx.Overlong p all cause range)
    (refers : ∀ q : Place, q.chain = p.chain → ∀ name ∈ Node.namesAll all, ∀ t range,
      ctx.LeadsTo q.script name t → Run.sameResult.Rel (refer ctx ctx.enter q t range)
        (refer ctx.debugging ctx.debugging.enter q t range))
    (sub : Node.partsAll nodes ⊆ Node.partsAll all) (same : q.chain = p.chain) :
    Run.sameResult.Rel (resolveAll ctx ctx.enter q nodes)
      (resolveAll ctx.debugging ctx.debugging.enter q nodes) := by
  induction nodes using Node.nodesInduction generalizing q with
  | nil =>
      rw [resolveAll, resolveAll]
      exact Run.sameResult.refl _
  | literal node rest hnode ih =>
      refine resolveAll_cons_linked ?_ (ih (fun _ h => sub (Node.partsAll_rest node rest h)) same)
      cases hnode <;> rw [resolve, resolve] <;> exact Run.sameResult.refl _
  | identifier name range rest ih =>
      have first := sub (Node.partsAll_first (.identifier name range) rest)
      have hname : name ∈ Node.namesAll all := Node.mem_namesAll_iff.2 ⟨range, first⟩
      refine resolveAll_cons_linked ?_ (ih (fun _ h => sub (Node.partsAll_rest _ rest h)) same)
      rw [resolve, resolve]
      exact resolveIdentifier_debugging fun t leads => refers q same name hname t range leads
  | push children range rest inside ih =>
      refine resolveAll_cons_linked ?_ (ih (fun _ h => sub (Node.partsAll_rest _ rest h)) same)
      rw [resolve, resolve, openBracket_bind, openBracket_bind, options_debugging]
      split
      · exact Run.sameResult.refl _
      · have inside' := inside (fun _ h => sub (Node.partsAll_push children range rest h))
          (q := q.inBracket) same
        refine Run.sameResult.bind inside' fun resolved hresolved _ => ?_
        refine Run.sameResult.bind ?_ fun _ _ _ => rfl
        have single : Node.partsAll [.push children range] ⊆ Node.partsAll all :=
          fun _ h => sub (Node.partsAll_head _ rest h)
        have pushes : FailsAt (ctx.Overlong q [.push children range])
            (Resolved.push resolved range).generate :=
          generate_push_overlong hresolved (generateAll_overlong hresolved)
        cases hpush : (Resolved.push resolved range).generate with
        | error e =>
            obtain ⟨cause, r, _, long⟩ := pushes e hpush
            exact absurd (long.mono same single) (short cause r)
        | ok b => exact (recordPush_eq_ok hpush).trans (recordPush_eq_ok hpush).symm
  | evaluation children range rest inside ih =>
      refine resolveAll_cons_linked ?_ (ih (fun _ h => sub (Node.partsAll_rest _ rest h)) same)
      rw [resolve, resolve, openBracket_bind, openBracket_bind, options_debugging]
      split
      · exact Run.sameResult.refl _
      · rw [openEvaluation_bind, openEvaluation_bind, options_debugging]
        split
        · exact Run.sameResult.refl _
        · have inside' := inside (fun _ h => sub (Node.partsAll_evaluation children range rest h))
            (q := q.inBracket.inEvaluation) same
          refine Run.sameResult.bind inside' fun resolved _ _ => ?_
          exact finishEvaluation_debugging resolved range

/-- A debug run of a script ends as the other run does. -/
theorem enter_debugging (fits : ctx.PushesFit root) (visits : ctx.Visits root p) :
    Run.sameResult.Rel (ctx.enter p) (ctx.debugging.enter p) := by
  induction p using placeInduction ctx with
  | missing p hp =>
      have hp' : ctx.debugging.env.scripts.contains p.script = false := hp
      rw [enter_missing hp, enter_missing hp']
      exact Run.sameResult.refl _
  | known p hp ih =>
      obtain ⟨source, hsource⟩ := (Table.contains_iff_find? _ _).1 hp
      have hsource' : ctx.debugging.env.scripts.find? p.script = some source := hsource
      rw [enter_source hsource, enter_source hsource']
      refine Run.sameResult.within ?_ p.script
      unfold compileSource
      refine Run.sameResult.bind rfl fun _ _ _ => ?_
      refine Run.sameResult.bind rfl fun nodes hnodes _ => ?_
      have program : ctx.env.program? ctx.options p.script = some nodes :=
        Environment.program?_eq_some.2 ⟨source, hsource, read_eq_ok.1 hnodes⟩
      have short := fits.not_overlong visits program
      refine Run.sameResult.bind ?_ fun _ _ _ => Run.sameResult.refl _
      refine resolveAll_debugging short ?_ (fun _ h => h) rfl
      intro q same name hname t range leads
      have script : q.script = p.script := Place.script_eq_of_chain_eq same
      have mentions : ctx.Mentions p.script t := ⟨nodes, program, name, hname, script ▸ leads⟩
      refine refer_compared rfl fun fresh => ?_
      exact ih q same t (same ▸ fresh) (.enter visits hp mentions same (same ▸ fresh))

end Context

/-- A debug compilation ends with the bytecode or the error of the compilation that records
nothing, by calling or by waiting, if no push is too long. -/
theorem Compiler.compile_debug_result {c : Compiler} {invoker : Invoker} {root : Bytes}
    {data : Data} (fits : (⟨c.env, data, c.options, invoker, false⟩ : Context).PushesFit root) :
    (c.compile invoker true root data).value.result =
      (c.compile invoker false root data).value.result := by
  have same := Context.enter_debugging fits .root
  exact congrArg (fun result : Except Halt Compiled =>
    (result.map Compiled.bytecode).mapError (errorOf root)) same

/-- A debug run has generated a push before it fails at an identifier, as the other run
does. -/
theorem Compiler.compile_debug_result_of_unknown :
    let c : Compiler :=
      { env := { lockedByOwner with scripts := .ofList [(text "lock", text "<'x'> OP_3")] } }
    let e : CompileError :=
      ⟨.unknownIdentifier (text "OP_3"), ⟨⟨1, 7, 6⟩, ⟨1, 11, 10⟩⟩, text "lock", []⟩
    (⟨c.env, {}, c.options, .sync, false⟩ : Context).PushesFit (text "lock") ∧
      (c.compile .sync false (text "lock") {}).value.result = .error e ∧
      (c.compile .sync true (text "lock") {}).value.result = .error e := by
  intro c e
  have fits : (⟨c.env, {}, c.options, .sync, false⟩ : Context).PushesFit (text "lock") := by
    intro p nodes _ program q children range contents part _ yields
    obtain ⟨source, hsource, read⟩ := Environment.program?_eq_some.1 program
    have known : p.script ∈ c.env.scripts.keys :=
      (Table.contains_iff_mem_keys _ _).1 ((Table.contains_iff_find? _ _).2 ⟨source, hsource⟩)
    have hp : p.script = text "lock" := List.mem_singleton.1 known
    rw [hp] at hsource
    obtain rfl : text "<'x'> OP_3" = source := Option.some.inj hsource
    have hnodes : Compiler.treeOf? (c.env.bounds c.options) (text "<'x'> OP_3") =
        some [.push [.utf8 (text "x") ⟨⟨1, 2, 1⟩, ⟨1, 5, 4⟩⟩] ⟨⟨1, 1, 0⟩, ⟨1, 6, 5⟩⟩,
          .identifier (text "OP_3") ⟨⟨1, 7, 6⟩, ⟨1, 11, 10⟩⟩] := by
      with_unfolding_all rfl
    obtain rfl := Option.some.inj (hnodes.symm.trans read)
    obtain ⟨rfl, _⟩ : children = [.utf8 (text "x") ⟨⟨1, 2, 1⟩, ⟨1, 5, 4⟩⟩] ∧
        range = ⟨⟨1, 1, 0⟩, ⟨1, 6, 5⟩⟩ := by
      simpa [Node.partsAll, Node.parts] using part
    rw [Context.yields_singleton, Context.nodeYields_utf8] at yields
    rw [← yields]
    decide
  have failed : (c.compile .sync false (text "lock") {}).value.result = .error e := by
    with_unfolding_all rfl
  exact ⟨fits, failed, (compile_debug_result fits).trans failed⟩

end AuthScript
