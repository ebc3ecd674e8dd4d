import AuthScript.Proofs.Comparison
import AuthScript.Proofs.Reference

/-!
# More definitions

An environment may be extended by opcodes, scripts and variables. An identifier that had
a meaning keeps it, or is ambiguous now: each name space is searched on its own, so an
added entry cannot hide the old one. So a script that compiles goes on to compile to the
same bytecode, unless the extension makes one of the identifiers ambiguous.

The ids of added variables must be plain. One with a dot takes the identifier of an
operation on another variable away from it, and one with the name of the built-in variable
takes all its identifiers.
-/

namespace AuthScript

/-- The second environment has more opcodes, scripts and variables, and is the first one
otherwise. -/
structure Environment.Extends (env env' : Environment) : Prop where
  rest : env' = { env with
    opcodes := env'.opcodes, scripts := env'.scripts, definitions := env'.definitions }
  opcodes : ∀ {name op}, env.opcodes.find? name = some op → env'.opcodes.find? name = some op
  scripts : ∀ {id source}, env.scripts.find? id = some source →
    env'.scripts.find? id = some source
  definitions : ∀ {id d}, env.definitions.find? id = some d → env'.definitions.find? id = some d
  plain : ∀ {id}, env.definitions.find? id = none → env'.definitions.contains id = true →
    0x2e ∉ id ∧ id ≠ signingSerialization

variable {env env' : Environment}

/-- What a table has it still has when an entry is added. -/
theorem Table.find?_insert_of_fresh {α : Type} {t : Table α} {key other : Bytes} {value a : α}
    (fresh : t.find? key = none) (h : t.find? other = some a) :
    (t.insert key value).find? other = some a := by
  have distinct : other ≠ key := by
    rintro rfl
    cases fresh.symm.trans h
  rw [Table.find?_insert, if_neg distinct]
  exact h

/-- A new opcode, a new script and a new variable make an extension. -/
theorem Environment.extends_insert {name id key : Bytes} (op : UInt8) (source : Bytes)
    (d : Variable) (opcode : env.opcodes.find? name = none) (script : env.scripts.find? id = none)
    (variable_ : env.definitions.find? key = none)
    (plain : 0x2e ∉ key ∧ key ≠ signingSerialization) :
    env.Extends { env with
      opcodes := env.opcodes.insert name op
      scripts := env.scripts.insert id source
      definitions := env.definitions.insert key d } where
  rest := rfl
  opcodes := Table.find?_insert_of_fresh opcode
  scripts := Table.find?_insert_of_fresh script
  definitions := Table.find?_insert_of_fresh variable_
  plain := by
    intro other missing added
    obtain ⟨found, hfound⟩ := (Table.contains_iff_find? _ _).1 added
    by_cases same : other = key
    · exact same ▸ plain
    · rw [Table.find?_insert, if_neg same] at hfound
      cases missing.symm.trans hfound

/-! ## Identifiers -/

/-- An id that is not plain is added to no variables. -/
theorem Environment.Extends.find?_eq_none (h : env.Extends env') {id : Bytes}
    (missing : env.definitions.find? id = none) (special : 0x2e ∈ id ∨ id = signingSerialization) :
    env'.definitions.find? id = none := by
  cases hd : env'.definitions.find? id with
  | none => rfl
  | some d =>
      have added : env'.definitions.contains id = true :=
        (Table.contains_iff_find? _ _).2 ⟨d, hd⟩
      obtain ⟨undotted, ordinary⟩ := h.plain missing added
      rcases special with dotted | builtin
      · exact absurd dotted undotted
      · exact absurd builtin ordinary

/-- An identifier of a variable is one of the same variable in the extension. -/
theorem Access.ofName?_extends (h : env.Extends env') {name : Bytes} {access : Access}
    (ha : ofName? env name = some access) : ofName? env' name = some access := by
  unfold ofName? headDefinition? at ha ⊢
  cases hwhole : env.definitions.find? name with
  | some d =>
      rw [h.definitions hwhole]
      rw [hwhole] at ha
      exact ha
  | none =>
      rw [hwhole] at ha
      by_cases dotted : 0x2e ∈ name
      · have hdot : name.contains 0x2e = true := List.contains_iff_mem.2 dotted
        rw [h.find?_eq_none hwhole (.inl dotted)]
        simp only [if_pos hdot] at ha ⊢
        cases hhead : env.definitions.find? (head name) with
        | some d =>
            rw [h.definitions hhead]
            rw [hhead] at ha
            exact ha
        | none =>
            rw [hhead] at ha
            have builtin : head name = signingSerialization := by
              by_cases builtin : head name = signingSerialization
              · exact builtin
              · simp [builtin] at ha
            rw [h.find?_eq_none hhead (.inr builtin)]
            exact ha
      · have hdot : ¬ name.contains 0x2e = true := fun hdot => dotted (List.contains_iff_mem.1 hdot)
        simp only [if_neg hdot] at ha ⊢
        have builtin : name = signingSerialization := by
          by_cases builtin : name = signingSerialization
          · exact builtin
          · simp [head_eq_self dotted, builtin] at ha
        rw [h.find?_eq_none hwhole (.inr builtin)]
        exact ha

/-- What an identifier means it means in the extension, unless it is ambiguous there. -/
theorem Meaning.ofName_extends (h : env.Extends env') {name : Bytes} {meaning : Meaning}
    (hm : ofName env name = .ok meaning) :
    ofName env' name = .ok meaning ∨
      ∃ spaces, ofName env' name = .error (.ambiguousIdentifier name spaces) := by
  unfold ofName at hm ⊢
  cases hop : env.opcodes.find? name with
  | some op =>
      rw [hop] at hm
      rw [h.opcodes hop]
      cases ha : Access.ofName? env name <;> cases hs : env.scripts.contains name <;>
        simp only [ha, hs] at hm <;> cases hm
      cases Access.ofName? env' name <;> cases env'.scripts.contains name <;> simp
  | none =>
      rw [hop] at hm
      cases ha : Access.ofName? env name with
      | some access =>
          rw [Access.ofName?_extends h ha]
          cases hs : env.scripts.contains name <;> simp only [ha, hs] at hm <;> cases hm
          cases env'.opcodes.find? name <;> cases env'.scripts.contains name <;> simp
      | none =>
          cases hs : env.scripts.contains name <;> simp only [ha, hs] at hm <;> cases hm
          obtain ⟨source, hsource⟩ := (Table.contains_iff_find? _ _).1 hs
          have hs' : env'.scripts.contains name = true :=
            (Table.contains_iff_find? _ _).2 ⟨source, h.scripts hsource⟩
          rw [hs']
          cases env'.opcodes.find? name <;> cases Access.ofName? env' name <;> simp

/-! ## Compilations -/

/-- An identifier has more than one meaning. -/
def Cause.IsAmbiguity (cause : Cause) : Prop :=
  ∃ name spaces, cause = .ambiguousIdentifier name spaces

/-- Evaluations are the same: the machine is. -/
theorem evaluate_extends (h : env.Extends env') (program : Bytes) (range : Range) :
    evaluate .sync env' program range = evaluate .sync env program range := by
  have machine : Invoker.sync.machine env' = Invoker.sync.machine env := by
    rw [h.rest]
    rfl
  simp only [evaluate, machine]

namespace Context

variable {ctx : Context}

/-- Where an identifier stands for something, it stands for the same in the extension, if
it has only one meaning there. -/
theorem resolveIdentifier_extends (h : ctx.env.Extends env') {p : Place} {name : Bytes}
    {range : Range}
    (hr : ∀ t, (Run.keeps Cause.IsAmbiguity).Rel (refer ctx ctx.enter p t range)
      (refer { ctx with env := env' } (enter { ctx with env := env' }) p t range)) :
    (Run.keeps Cause.IsAmbiguity).Rel (resolveIdentifier ctx ctx.enter p name range)
      (resolveIdentifier { ctx with env := env' } (enter { ctx with env := env' }) p name
        range) := by
  intro resolved given
  have denoted := resolveIdentifier_eq_ok.1 given
  cases hm : Meaning.ofName ctx.env name with
  | error cause =>
      rw [hm] at denoted
      exact absurd denoted id
  | ok meaning =>
      rcases Meaning.ofName_extends h hm with same | ⟨spaces, ambiguous⟩
      · have agree : ctx.AgreeOn { ctx with env := env' } p.script name := by
          refine ⟨same.trans hm.symm, fun _ => rfl, ?_, ?_⟩
          · show env'.unlocks.find? p.script = ctx.env.unlocks.find? p.script
            rw [h.rest]
          · -- the script that is signed is known, or the access would not have succeeded
            intro access t hvariable htarget
            rw [hvariable] at denoted
            obtain ⟨_, ⟨_, _, _, _, _, hsigns, _⟩, _⟩ := denoted
            unfold Signs at hsigns
            rw [htarget] at hsigns
            obtain ⟨source, hsource⟩ := (Table.contains_iff_find? _ _).1 hsigns.1
            exact ((Table.contains_iff_find? _ _).2 ⟨source, h.scripts hsource⟩).trans
              hsigns.1.symm
        have operations : env'.operations = ctx.env.operations := by
          rw [h.rest]
        refine resolveIdentifier_linked_of_agree (Run.keeps _).keepsRefusals rfl agree ?_ ?_
          (fun t _ => hr t) resolved given
        · intro kind b
          exact (Run.keeps _).refl _
        · intro access cap covered signed _ _
          simp only [invoke, operations]
          exact (Run.keeps _).refl _
      · refine .inr ⟨⟨.ambiguousIdentifier name spaces, range, [], []⟩, ?_, name, spaces, rfl⟩
        simp only [resolveIdentifier, ambiguous, Run.result_fail]

/-- A context compares with an extension in all its parts. -/
theorem compared_extends (h : ctx.env.Extends env') (calls : ctx.invoker = .sync) :
    Compared (Run.keeps Cause.IsAmbiguity) (fun _ => True) ctx { ctx with env := env' } where
  options := rfl
  digits := by rw [h.rest]
  source := h.scripts
  missing := by
    intro p hp
    rw [enter_missing hp]
    intro compiled given
    cases given
  entry hr := (Run.keeps _).bind ((Run.keeps _).refl _) fun _ _ _ => hr trivial
  identifier _ _ _ hr := resolveIdentifier_extends h hr
  recordPush p node range := (Run.keeps _).refl _
  finish := by
    intro p children range
    simp only [finishEvaluation, calls, evaluate_extends h]
    exact (Run.keeps _).refl _

end Context

/-- A script that compiles compiles to the same bytecode in an extension, or one of the
identifiers on the way is ambiguous there: more definitions do not change what it means. -/
theorem Compiler.generate_extends (h : env.Extends env') {options : Options} {id b : Bytes}
    {data : Data} (given : (⟨env, options⟩ : Compiler).generate id data = .ok b) :
    (⟨env', options⟩ : Compiler).generate id data = .ok b ∨
      ∃ e, (⟨env', options⟩ : Compiler).generate id data = .error e ∧ e.stage = .resolve ∧
        e.cause.IsAmbiguity := by
  obtain ⟨compiled, hcompiled, rfl⟩ := generate_eq_ok.1 given
  let ctx : Context := context ⟨env, options⟩ data
  have compared : Context.Compared (Run.keeps Cause.IsAmbiguity) (fun _ => True) ctx
      { ctx with env := env' } := Context.compared_extends h rfl
  rcases compared.enter { script := id } compiled hcompiled with same | ⟨e, he, ambiguous⟩
  · exact .inl (generate_eq_ok.2 ⟨compiled, same, rfl⟩)
  · refine .inr ⟨e, ?_, ?_, ambiguous⟩
    · exact generate_of_failed he
    · obtain ⟨name, spaces, hcause⟩ := ambiguous
      rw [CompileError.stage, hcause]
      rfl

/-- A script to compile in two extensions. The variable of the second one has the name of a
script that is referred to. -/
theorem Compiler.generate_extends_of_lock :
    let extended (key : Bytes) : Environment :=
      { lockedByOwner with
        opcodes := lockedByOwner.opcodes.insert (text "OP_2") 0x52
        scripts := lockedByOwner.scripts.insert (text "spare") (text "<heir.public_key> OP_2")
        definitions := lockedByOwner.definitions.insert key { kind := .key } }
    lockedByOwner.Extends (extended (text "heir")) ∧
      lockedByOwner.Extends (extended (text "data")) ∧
      (⟨lockedByOwner, {}⟩ : Compiler).generate (text "lock") {} = .ok [0x51, 0x02, 0x51, 0x78] ∧
      (⟨extended (text "heir"), {}⟩ : Compiler).generate (text "lock") {} =
        .ok [0x51, 0x02, 0x51, 0x78] ∧
      ∃ e, (⟨extended (text "data"), {}⟩ : Compiler).generate (text "lock") {} = .error e ∧
        e.stage = .resolve ∧ e.cause.IsAmbiguity := by
  intro extended
  have opcode : lockedByOwner.opcodes.find? (text "OP_2") = none := rfl
  have script : lockedByOwner.scripts.find? (text "spare") = none := rfl
  have heir : lockedByOwner.Extends (extended (text "heir")) :=
    Environment.extends_insert _ _ _ opcode script rfl (by decide +kernel)
  have data : lockedByOwner.Extends (extended (text "data")) :=
    Environment.extends_insert _ _ _ opcode script rfl (by decide +kernel)
  have given : (⟨lockedByOwner, {}⟩ : Compiler).generate (text "lock") {} =
      .ok [0x51, 0x02, 0x51, 0x78] := by
    decide +kernel
  refine ⟨heir, data, given, ?_, ?_⟩
  · rcases generate_extends heir given with same | ⟨e, he, _⟩
    · exact same
    · have succeeds : ((⟨extended (text "heir"), {}⟩ : Compiler).generate (text "lock")
          {}).toOption.isSome = true := by decide +kernel
      rw [he] at succeeds
      cases succeeds
  · rcases generate_extends data given with same | failed
    · have fails : ((⟨extended (text "data"), {}⟩ : Compiler).generate (text "lock")
          {}).toOption = none := by decide +kernel
      rw [same] at fails
      cases fails
    · exact failed

end AuthScript
