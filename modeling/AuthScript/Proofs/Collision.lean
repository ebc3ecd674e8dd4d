import AuthScript.Log.Logger
import AuthScript.Proofs.LastDefinition

/-!
# Collisions of ids

Laying out a template tells of what it replaces. A line is told at a definition, by what has been
laid out before it, so the lines of a template are said by its definitions with those in front of
each (`withEarlier`): one line for each script that is defined again, and one for each variable
that is declared again by an entity with another id than the one that declared it last
(`environment_warnings`). A variable that an entity declares again, or another entity with the
same id, is replaced without a line (`environment_warnings_absent`).
-/

namespace AuthScript

/-- The elements of a list, each with those before it: earlier ones first, then those of the
list. -/
def withEarlier {α : Type} (earlier : List α) : List α → List (List α × α)
  | [] => []
  | a :: rest => (earlier, a) :: withEarlier (earlier ++ [a]) rest

namespace Logged

/-- Where what is told at each step is known from the elements up to there, by what holds then
of the value, the lines of all steps are these. -/
theorem lines_foldlM {α β : Type} (f : β → α → Logged β) (Holds : List α → β → Prop)
    (told : List α → α → Option Log.Line)
    (step : ∀ {earlier b} a, Holds earlier b → Holds (earlier ++ [a]) (f b a).value)
    (lines : ∀ {earlier b} a, Holds earlier b → (f b a).lines = (told earlier a).toList)
    {earlier : List α} {b : β} (h : Holds earlier b) (l : List α) :
    (l.foldlM f b).lines = (withEarlier earlier l).filterMap fun p => told p.1 p.2 := by
  induction l generalizing earlier b with
  | nil => rfl
  | cons a l ih =>
      rw [List.foldlM_cons, lines_bind, lines a h, ih (step a h), withEarlier, List.filterMap_cons]
      cases told earlier a <;> rfl

end Logged

namespace Log

/-- Whether a call writes a line of a level. -/
def Call.writes (level : Level) : Call → Bool
  | .write _ line => line.level = level
  | _ => false

/-- Of the calls that write lines, those that write lines of a level are the calls for these lines,
if the logger lets them pass. -/
theorem Session.filter_calls (s : Session) (time : Bytes) (level : Level) {lines : List Line}
    (pass : ∀ line ∈ lines, line.level = level →
      s.logger.willLog line.level line.category = true) :
    (s.calls time lines).filter (Call.writes level) =
      (lines.filter fun line => line.level = level).map (.write time) := by
  rw [calls, List.filter_map, List.filter_filter]
  refine congrArg (List.map _) (List.filter_congr fun line mem => ?_)
  rw [Bool.eq_iff_iff, Bool.and_eq_true]
  exact and_iff_left_of_imp fun same => pass line mem (of_decide_eq_true same)

end Log

namespace Template

open Log

/-! ## What is replaced -/

/-- The script definitions whose id an earlier one has. -/
def redefinitions (t : Template) : List (Bytes × Script) :=
  ((withEarlier [] t.scripts).filter fun p => p.1.any (·.1 = p.2.1)).map (·.2)

/-- The declarations of variables that were declared before, each after the one that it
replaces. -/
def redeclarations (t : Template) : List (Declaration × Declaration) :=
  (withEarlier [] t.declarations).filterMap fun p => (lastDeclaration? p.1 p.2.id).map (·, p.2)

/-- The line about a script that is defined again. -/
def redefined (t : Template) (id : Bytes) : Line :=
  ⟨.warn, .template, t.about (text "script " ++ quoted id ++
    text " is defined more than once; the last definition wins")⟩

/-- The line about a variable that another entity declares again. -/
def redeclared (t : Template) (old new : Declaration) : Line :=
  ⟨.warn, .template, t.about (text "variable " ++ quoted new.id ++ text " of entity " ++
    quoted old.owner ++ text " is redefined by entity " ++ quoted new.owner ++
    text "; the last definition wins")⟩

/-- The lines about what is replaced: one for each script that is defined again, then one for each
variable that is declared again, unless the two entities have one id. -/
def warnings (t : Template) : List Line :=
  (t.redefinitions.map fun s => t.redefined s.1) ++
    (t.redeclarations.filter fun p => p.1.owner ≠ p.2.owner).map fun p => t.redeclared p.1 p.2

/-- The line about a template that has been laid out. -/
def summary (t : Template) (env : Environment) : Line :=
  ⟨.debug, .template, t.about (Bytes.decimal env.scripts.size ++ text " scripts, " ++
    Bytes.decimal env.definitions.size ++ text " variables")⟩

/-! ## What is told at one definition -/

/-- The line about a script definition, by those before it. -/
def toldOfScript (t : Template) (earlier : List (Bytes × Script)) (s : Bytes × Script) :
    Option Line :=
  if earlier.any (·.1 = s.1) then some (t.redefined s.1) else none

/-- The line about a declaration, by those before it. -/
def toldOfDeclaration (t : Template) (earlier : List Declaration) (d : Declaration) :
    Option Line :=
  ((lastDeclaration? earlier d.id).filter (·.owner ≠ d.owner)).map (t.redeclared · d)

section

variable {env : Environment} {scripts : List (Bytes × Script)} {declared : List Declaration}

theorem lines_addScript (t : Template) (h : env.Holds scripts declared) (s : Bytes × Script) :
    (t.addScript env s).lines = (t.toldOfScript scripts s).toList := by
  have known : env.scripts.contains s.1 = scripts.any (·.1 = s.1) := by
    rw [Table.contains, h.source, lastScript?, Option.isSome_map, Option.isSome_map,
      isSome_lastWith?]
  unfold addScript scriptWarnings toldOfScript
  rw [known]
  split <;> rfl

theorem lines_addVariable (t : Template) (h : env.Holds scripts declared) (d : Declaration) :
    (t.addVariable env d).lines = (t.toldOfDeclaration declared d).toList := by
  unfold addVariable declarationWarnings toldOfDeclaration
  rw [h.owner]
  cases lastDeclaration? declared d.id with
  | none => rfl
  | some old =>
      dsimp only [Option.map_some]
      by_cases same : old.owner = d.owner
      · rw [if_pos same, Option.filter_some, if_neg (by simpa using same)]
        rfl
      · rw [if_neg same, Option.filter_some, if_pos (by simpa using same)]
        rfl

end

/-! ## What is told of a template -/

/-- The lines of all script definitions. -/
theorem filterMap_toldOfScript (t : Template) :
    ((withEarlier [] t.scripts).filterMap fun p => t.toldOfScript p.1 p.2) =
      t.redefinitions.map fun s => t.redefined s.1 := by
  rw [redefinitions, List.map_map, ← List.filterMap_eq_filter, List.map_filterMap]
  refine congrArg (List.filterMap · _) (funext fun p => ?_)
  unfold toldOfScript Option.guard
  split <;> rfl

/-- The lines of all declarations. -/
theorem filterMap_toldOfDeclaration (t : Template) :
    ((withEarlier [] t.declarations).filterMap fun p => t.toldOfDeclaration p.1 p.2) =
      (t.redeclarations.filter fun p => p.1.owner ≠ p.2.owner).map fun p =>
        t.redeclared p.1 p.2 := by
  rw [redeclarations, List.filter_filterMap, List.map_filterMap]
  refine congrArg (List.filterMap · _) (funext fun p => ?_)
  unfold toldOfDeclaration
  cases lastDeclaration? p.1 p.2.id with
  | none => rfl
  | some old =>
      rw [Option.map_some, Option.filter_some, Option.filter_some]
      split <;> rfl

/-- All lines of a template, in order. -/
theorem lines_environment (t : Template) :
    t.environment.lines = t.warnings ++ [t.summary t.environment.value] := by
  have scripts := Logged.lines_foldlM t.addScript (fun scripts env => env.Holds scripts [])
    t.toldOfScript (fun s h => h.defineScript s.1 s.2) (fun s h => t.lines_addScript h s)
    Environment.holds_empty t.scripts
  have laid : (t.scripts.foldlM t.addScript {}).value.Holds t.scripts [] := by
    rw [Logged.value_foldlM]
    exact Environment.holds_empty.defineScripts t.scripts
  have declarations := Logged.lines_foldlM t.addVariable
    (fun declared env => env.Holds t.scripts declared) t.toldOfDeclaration
    (fun d h => h.declare d) (fun d h => t.lines_addVariable h d) laid t.declarations
  rw [filterMap_toldOfScript] at scripts
  rw [filterMap_toldOfDeclaration] at declarations
  rw [environment, Logged.lines_bind, Logged.lines_bind, Logged.lines_bind, scripts, declarations]
  exact (List.append_assoc _ _ _).symm

theorem warnings_warn (t : Template) {line : Line} (mem : line ∈ t.warnings) :
    line.level = .warn ∧ line.category = .template := by
  rw [warnings, List.mem_append, List.mem_map, List.mem_map] at mem
  rcases mem with ⟨_, _, rfl⟩ | ⟨_, _, rfl⟩ <;> exact ⟨rfl, rfl⟩

/-- Where warnings about templates pass, the calls that write a warning are one for each script
definition whose id an earlier one has, then one for each declaration of a variable that was
declared last by an entity with another id, and no others. -/
theorem environment_warnings (t : Template) (s : Session) (time : Bytes)
    (pass : s.logger.willLog .warn .template = true) :
    (s.calls time t.environment.lines).filter (Call.writes .warn) =
      t.warnings.map (.write time) := by
  have passes : ∀ line ∈ t.environment.lines, line.level = .warn →
      s.logger.willLog line.level line.category = true := by
    intro line mem level
    rw [lines_environment, List.mem_append, List.mem_singleton] at mem
    rcases mem with mem | rfl
    · rw [level, (t.warnings_warn mem).2, pass]
    · cases level
  have kept : t.warnings.filter (fun line => line.level = .warn) = t.warnings :=
    List.filter_eq_self.2 fun line mem => decide_eq_true (t.warnings_warn mem).1
  have dropped : [t.summary t.environment.value].filter (fun line => line.level = .warn) = [] := rfl
  rw [Session.filter_calls s time .warn passes, lines_environment, List.filter_append, kept,
    dropped, List.append_nil]

/-- A script that is defined twice, and a variable that two entities declare. -/
theorem environment_warnings_of_two :
    let a : Bytes := [0x61]
    let v : Bytes := [0x76]
    let first : Entity := { id := [0x65], provides := [(v, {})] }
    let second : Entity := { id := [0x66], provides := [(v, { kind := .key })] }
    let t : Template := { entities := [first, second], scripts := [(a, ⟨[], [], none, none, none⟩),
      (a, ⟨[0x31], [], none, none, none⟩)] }
    let s : Session := {}
    s.logger.willLog .warn .template = true ∧
      (s.calls [] t.environment.lines).filter (Call.writes .warn) =
        [.write [] (t.redefined a),
          .write [] (t.redeclared ⟨first.id, v, {}⟩ ⟨second.id, v, { kind := .key }⟩)] := by
  intro a v first second t s
  have pass : s.logger.willLog .warn .template = true := by decide
  exact ⟨pass, environment_warnings t s [] pass⟩

/-- An entity declares a variable twice, and another one with the same id does so again: two
declarations are replaced, and no warning is written. -/
theorem environment_warnings_absent :
    let v : Bytes := [0x76]
    let first : Entity := { id := [0x65], provides := [(v, {}), (v, { kind := .addressData })] }
    let second : Entity := { id := [0x65], provides := [(v, { kind := .key })] }
    let t : Template := { entities := [first, second] }
    let s : Session := {}
    s.logger.willLog .warn .template = true ∧ t.redeclarations.length = 2 ∧
      (s.calls [] t.environment.lines).filter (Call.writes .warn) = [] := by
  intro v first second t s
  exact ⟨by decide, by decide, rfl⟩

end Template

end AuthScript
