import AuthScript.Environment

/-!
# Templates

A template is the author's view of a set of scripts: who takes part and what each
participant provides, and the scripts with what they unlock. Entities and scripts
keep the order they were declared in, and an id may be declared again.

`Template.environment` lays the declarations into an environment one after another,
so that the last one counts, and warns of those it replaces. A script definition
that leaves an optional field out takes the field away from the definition it
replaces. Owners are told apart by their ids alone: a variable that is declared
again under the id of its owner is replaced without a warning.
-/

namespace AuthScript

namespace Template

/-- The definition of a script. -/
structure Script where
  source : Bytes
  name : Bytes := []
  /-- The locking script that the script unlocks. -/
  unlocks : Option Bytes := none
  /-- The type of a locking script. -/
  lockingType : Option Bytes := none
  /-- The type of the time lock of an unlocking script. -/
  timeLockType : Option Bytes := none
deriving DecidableEq

/-- A participant and the variables it provides. -/
structure Entity where
  id : Bytes
  name : Bytes := []
  provides : List (Bytes × Variable) := []

/-- The declaration of a variable by an entity. -/
structure Declaration where
  owner : Bytes
  id : Bytes
  definition : Variable
deriving DecidableEq

/-- The declarations of an entity. -/
def Entity.declarations (e : Entity) : List Declaration :=
  e.provides.map fun v => ⟨e.id, v.1, v.2⟩

end Template

/-- Entities and scripts in the order they were declared in. -/
structure Template where
  name : Bytes := []
  description : Bytes := []
  entities : List Template.Entity := []
  scripts : List (Bytes × Template.Script) := []

namespace Environment

/-- The environment with a script in place of the one that had its id. -/
def defineScript (env : Environment) (id : Bytes) (script : Template.Script) : Environment :=
  { env with
    scripts := env.scripts.insert id script.source
    unlocks := env.unlocks.assign id script.unlocks
    lockingTypes := env.lockingTypes.assign id script.lockingType
    timeLockTypes := env.timeLockTypes.assign id script.timeLockType }

/-- The environment with a variable in place of the one that had its id. -/
def declare (env : Environment) (d : Template.Declaration) : Environment :=
  { env with
    definitions := env.definitions.insert d.id d.definition
    owners := env.owners.insert d.id d.owner }

end Environment

namespace Template

/-- The declarations of all entities, in order. -/
def declarations (t : Template) : List Declaration := t.entities.flatMap Entity.declarations

/-- A message about a template. -/
def about (t : Template) (message : Bytes) : Bytes :=
  text "template " ++ quoted t.name ++ text ": " ++ message

/-- The warnings of a script definition. -/
def scriptWarnings (t : Template) (env : Environment) (id : Bytes) : List Log.Line :=
  if env.scripts.contains id then
    [⟨.warn, .template, t.about (text "script " ++ quoted id ++
      text " is defined more than once; the last definition wins")⟩]
  else []

/-- The warnings of the declaration of a variable. -/
def declarationWarnings (t : Template) (env : Environment) (d : Declaration) : List Log.Line :=
  match env.owners.find? d.id with
  | some owner =>
    if owner = d.owner then []
    else [⟨.warn, .template, t.about (text "variable " ++ quoted d.id ++ text " of entity " ++
      quoted owner ++ text " is redefined by entity " ++ quoted d.owner ++
      text "; the last definition wins")⟩]
  | none => []

/-- Lays a script into an environment. -/
def addScript (t : Template) (env : Environment) (s : Bytes × Script) : Logged Environment :=
  ⟨t.scriptWarnings env s.1, env.defineScript s.1 s.2⟩

/-- Lays a variable into an environment. -/
def addVariable (t : Template) (env : Environment) (d : Declaration) : Logged Environment :=
  ⟨t.declarationWarnings env d, env.declare d⟩

/-- The environment of a template. -/
def environment (t : Template) : Logged Environment := do
  let env ← t.scripts.foldlM t.addScript {}
  let env ← t.declarations.foldlM t.addVariable env
  .tell .debug .template (t.about (Bytes.decimal env.scripts.size ++ text " scripts, " ++
    Bytes.decimal env.definitions.size ++ text " variables"))
  return env

end Template

end AuthScript
