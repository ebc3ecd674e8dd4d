import AuthScript.Template

/-!
# The last definition counts

The environment of a template is laid out one definition after another. What it holds at any point
is said by the definitions up to there alone: under an id it has what the last definition of that
id says, and nothing that an earlier one said besides (`Environment.Holds`). A definition keeps
this up in the four tables of scripts at once, also where it leaves out what the one before it had
(`Holds.defineScript`), a declaration in the two tables of variables (`Holds.declare`), and so does
the whole template (`holds_environment`). The last declaration of a variable is the last one of the
last entity that provides it (`lastDeclaration?_declarations`).
-/

namespace AuthScript

namespace Template

/-- The last element of a list that has an id. -/
def lastWith? {α : Type} (idOf : α → Bytes) (l : List α) (id : Bytes) : Option α :=
  (l.filter (idOf · = id)).getLast?

/-- The last of some script definitions with an id. -/
def lastScript? (scripts : List (Bytes × Script)) (id : Bytes) : Option Script :=
  (lastWith? (·.1) scripts id).map (·.2)

/-- The last of some declarations of a variable. -/
def lastDeclaration? (declared : List Declaration) (id : Bytes) : Option Declaration :=
  lastWith? (·.id) declared id

/-- The last variable with an id that some entities provide, and the id of its entity. A later
entity counts before an earlier one, and so do the variables of one entity. -/
def lastProvided? (entities : List Entity) (id : Bytes) : Option (Bytes × Variable) :=
  entities.reverse.findSome? fun e => (lastWith? (·.1) e.provides id).map fun v => (e.id, v.2)

theorem lastWith?_append {α : Type} (idOf : α → Bytes) (l more : List α) (id : Bytes) :
    lastWith? idOf (l ++ more) id = (lastWith? idOf more id).or (lastWith? idOf l id) := by
  rw [lastWith?, List.filter_append, List.getLast?_append]
  rfl

theorem lastWith?_concat {α : Type} (idOf : α → Bytes) (l : List α) (a : α) (id : Bytes) :
    lastWith? idOf (l ++ [a]) id = if id = idOf a then some a else lastWith? idOf l id := by
  rw [lastWith?_append]
  by_cases same : id = idOf a
  · rw [if_pos same, lastWith?, List.filter_cons_of_pos (by simp [same])]
    rfl
  · rw [if_neg same, lastWith?, List.filter_cons_of_neg (by simpa using Ne.symm same)]
    rfl

theorem isSome_lastWith? {α : Type} (idOf : α → Bytes) (l : List α) (id : Bytes) :
    (lastWith? idOf l id).isSome = l.any (idOf · = id) := by
  rw [Bool.eq_iff_iff, lastWith?, List.getLast?_isSome, List.any_eq_true]
  simp [List.filter_eq_nil_iff]

theorem lastScript?_concat (scripts : List (Bytes × Script)) (id other : Bytes) (script : Script) :
    lastScript? (scripts ++ [(id, script)]) other =
      if other = id then some script else lastScript? scripts other := by
  rw [lastScript?, lastWith?_concat]
  split <;> rfl

theorem lastDeclaration?_concat (declared : List Declaration) (d : Declaration) (id : Bytes) :
    lastDeclaration? (declared ++ [d]) id =
      if id = d.id then some d else lastDeclaration? declared id := by
  rw [lastDeclaration?, lastWith?_concat, lastDeclaration?]

/-- The last declaration of a variable is that of the entity which provides it last. -/
theorem lastDeclaration?_declarations (entities : List Entity) (id : Bytes) :
    lastDeclaration? (entities.flatMap Entity.declarations) id =
      (lastProvided? entities id).map fun p => ⟨p.1, id, p.2⟩ := by
  -- among the variables of one entity the last one counts
  have own (e : Entity) : lastDeclaration? e.declarations id =
      ((lastWith? (·.1) e.provides id).map fun v => (e.id, v.2)).map fun p => ⟨p.1, id, p.2⟩ := by
    rw [lastDeclaration?, lastWith?, Entity.declarations, List.filter_map, List.getLast?_map,
      Option.map_map]
    refine Option.map_congr fun v hv => ?_
    have named : v.1 = id := of_decide_eq_true (List.mem_filter.1 (List.mem_of_getLast? hv)).2
    rw [← named]
    rfl
  induction entities with
  | nil => rfl
  | cons e entities ih =>
      have later : lastProvided? (e :: entities) id = (lastProvided? entities id).or
          ((lastWith? (·.1) e.provides id).map fun v => (e.id, v.2)) := by
        rw [lastProvided?, List.reverse_cons, List.findSome?_append, List.findSome?_singleton,
          lastProvided?]
      rw [List.flatMap_cons, lastDeclaration?, lastWith?_append, ← lastDeclaration?,
        ← lastDeclaration?, ih, own, later, Option.map_or]

end Template

namespace Environment

open Template

/-- What an environment holds after some script definitions and declarations of variables: for each
id what the last of them says. -/
structure Holds (env : Environment) (scripts : List (Bytes × Script))
    (declared : List Declaration) : Prop where
  source (id : Bytes) : env.scripts.find? id = (lastScript? scripts id).map (·.source)
  unlocks (id : Bytes) : env.unlocks.find? id = (lastScript? scripts id).bind (·.unlocks)
  lockingType (id : Bytes) :
    env.lockingTypes.find? id = (lastScript? scripts id).bind (·.lockingType)
  timeLockType (id : Bytes) :
    env.timeLockTypes.find? id = (lastScript? scripts id).bind (·.timeLockType)
  definition (id : Bytes) :
    env.definitions.find? id = (lastDeclaration? declared id).map (·.definition)
  owner (id : Bytes) : env.owners.find? id = (lastDeclaration? declared id).map (·.owner)

theorem holds_empty : Holds {} [] [] :=
  ⟨fun _ => rfl, fun _ => rfl, fun _ => rfl, fun _ => rfl, fun _ => rfl, fun _ => rfl⟩

namespace Holds

variable {env : Environment} {scripts : List (Bytes × Script)} {declared : List Declaration}

/-- A field that the definition leaves out is none of the last definition any more. -/
theorem defineScript (h : env.Holds scripts declared) (id : Bytes) (script : Script) :
    (env.defineScript id script).Holds (scripts ++ [(id, script)]) declared where
  source other := by
    rw [Environment.defineScript, Table.find?_insert, lastScript?_concat, h.source other]
    split <;> rfl
  unlocks other := by
    rw [Environment.defineScript, Table.find?_assign, lastScript?_concat, h.unlocks other]
    split <;> rfl
  lockingType other := by
    rw [Environment.defineScript, Table.find?_assign, lastScript?_concat, h.lockingType other]
    split <;> rfl
  timeLockType other := by
    rw [Environment.defineScript, Table.find?_assign, lastScript?_concat, h.timeLockType other]
    split <;> rfl
  definition := h.definition
  owner := h.owner

theorem declare (h : env.Holds scripts declared) (d : Declaration) :
    (env.declare d).Holds scripts (declared ++ [d]) where
  source := h.source
  unlocks := h.unlocks
  lockingType := h.lockingType
  timeLockType := h.timeLockType
  definition id := by
    rw [Environment.declare, Table.find?_insert, lastDeclaration?_concat, h.definition id]
    split <;> rfl
  owner id := by
    rw [Environment.declare, Table.find?_insert, lastDeclaration?_concat, h.owner id]
    split <;> rfl

/-- More script definitions, one after another. -/
theorem defineScripts (h : env.Holds scripts declared) (more : List (Bytes × Script)) :
    (more.foldl (fun env s => env.defineScript s.1 s.2) env).Holds (scripts ++ more) declared := by
  induction more generalizing env scripts with
  | nil => rwa [List.append_nil]
  | cons s more ih =>
      rw [List.append_cons]
      exact ih (h.defineScript s.1 s.2)

/-- More declarations, one after another. -/
theorem declareAll (h : env.Holds scripts declared) (more : List Declaration) :
    (more.foldl Environment.declare env).Holds scripts (declared ++ more) := by
  induction more generalizing env declared with
  | nil => rwa [List.append_nil]
  | cons d more ih =>
      rw [List.append_cons]
      exact ih (h.declare d)

/-- Variables and owners are known under the same ids. -/
theorem contains_definitions (h : env.Holds scripts declared) (id : Bytes) :
    env.definitions.contains id = env.owners.contains id := by
  rw [Table.contains, Table.contains, h.definition, h.owner, Option.isSome_map, Option.isSome_map]

end Holds

end Environment

namespace Template

theorem value_environment (t : Template) :
    t.environment.value = t.declarations.foldl Environment.declare
      (t.scripts.foldl (fun env s => env.defineScript s.1 s.2) {}) := by
  rw [environment, Logged.value_bind, Logged.value_bind, Logged.value_bind, Logged.value_pure,
    Logged.value_foldlM, Logged.value_foldlM]
  rfl

theorem holds_environment (t : Template) :
    t.environment.value.Holds t.scripts t.declarations := by
  rw [value_environment]
  exact (Environment.holds_empty.defineScripts t.scripts).declareAll t.declarations

/-- The environment of a template has under an id the source and the optional fields that the last
definition of that script has, and no more; under the id of a variable what the last entity that
provides it says last, and the id of this entity; and variables and owners under the same ids. -/
theorem environment_last_wins (t : Template) (id : Bytes) :
    let env := t.environment.value
    env.scripts.find? id = (lastScript? t.scripts id).map Script.source ∧
    env.unlocks.find? id = (lastScript? t.scripts id).bind Script.unlocks ∧
    env.lockingTypes.find? id = (lastScript? t.scripts id).bind Script.lockingType ∧
    env.timeLockTypes.find? id = (lastScript? t.scripts id).bind Script.timeLockType ∧
    env.definitions.find? id = (lastProvided? t.entities id).map Prod.snd ∧
    env.owners.find? id = (lastProvided? t.entities id).map Prod.fst ∧
    (id ∈ env.definitions.keys ↔ id ∈ env.owners.keys) := by
  intro env
  have holds : env.Holds t.scripts t.declarations := t.holds_environment
  refine ⟨holds.source id, holds.unlocks id, holds.lockingType id, holds.timeLockType id,
    ?_, ?_, ?_⟩
  · rw [holds.definition id, declarations, lastDeclaration?_declarations, Option.map_map]
    rfl
  · rw [holds.owner id, declarations, lastDeclaration?_declarations, Option.map_map]
    rfl
  · rw [← Table.contains_iff_mem_keys, ← Table.contains_iff_mem_keys, holds.contains_definitions]

/-- A variable that two entities provide, the first of them twice, is that of the second; one that
only the first provides stays. A script that is defined again without the script it unlocks unlocks
none. -/
theorem environment_last_wins_of_two :
    let key : Variable := { kind := .key }
    let note : Variable := { kind := .addressData }
    let t : Template :=
      { entities := [
          { id := text "owner", provides := [(text "k", key), (text "n", note), (text "k", note)] },
          { id := text "heir", provides := [(text "k", key)] }]
        scripts := [
          (text "u", { source := text "OP_1", unlocks := some (text "l") }),
          (text "u", { source := text "OP_2" })] }
    let env := t.environment.value
    (env.definitions.find? (text "k") = some key ∧
      env.owners.find? (text "k") = some (text "heir")) ∧
    (env.definitions.find? (text "n") = some note ∧
      env.owners.find? (text "n") = some (text "owner")) ∧
    env.definitions.find? (text "u") = none ∧
    env.scripts.find? (text "u") = some (text "OP_2") ∧ env.unlocks.find? (text "u") = none := by
  intro key note t env
  obtain ⟨-, -, -, -, definition, owner, -⟩ := t.environment_last_wins (text "k")
  obtain ⟨-, -, -, -, definition', owner', -⟩ := t.environment_last_wins (text "n")
  obtain ⟨source, unlocks, -, -, undefined, -, -⟩ := t.environment_last_wins (text "u")
  exact ⟨⟨definition, owner⟩, ⟨definition', owner'⟩, undefined, source, unlocks⟩

end Template

end AuthScript
