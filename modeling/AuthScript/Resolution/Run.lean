import AuthScript.Environment
import AuthScript.Bytecode.Resolved
import AuthScript.Tree.Node

/-!
# Runs

A run is a computation of the compiler: what happened, in order, and a value or the
reason why there is none. A run halts with a compile error, or because an operation
broke off; what happened before is kept either way.
-/

namespace AuthScript

/-- Where a compilation is: the scripts it came through, root first, the script it is
in, and the evaluations and brackets that are open, in all of them. -/
structure Place where
  above : List Bytes := []
  script : Bytes
  evaluations : Nat := 0
  brackets : Nat := 0
deriving DecidableEq

namespace Place

/-- The scripts in progress, root first. -/
def chain (p : Place) : List Bytes := p.above ++ [p.script]

/-- The place in a script that the current one refers to. -/
def enter (p : Place) (id : Bytes) : Place := { p with above := p.chain, script := id }

/-- The place behind one more open bracket. -/
def inBracket (p : Place) : Place := { p with brackets := p.brackets + 1 }

/-- The place in one more evaluation. -/
def inEvaluation (p : Place) : Place := { p with evaluations := p.evaluations + 1 }

@[simp] theorem chain_enter (p : Place) (id : Bytes) : (p.enter id).chain = p.chain ++ [id] := rfl

theorem script_eq_of_chain_eq {p q : Place} (h : p.chain = q.chain) : p.script = q.script :=
  (List.cons.inj (List.append_inj_right' h rfl)).1

@[simp] theorem chain_inBracket (p : Place) : p.inBracket.chain = p.chain := rfl

@[simp] theorem chain_inEvaluation (p : Place) : p.inEvaluation.chain = p.chain := rfl

end Place

/-- One resolved node of a script, with the bytes it contributes. -/
structure Step where
  kind : Resolved.Kind
  label : Bytes
  script : Bytes
  range : Range
  bytes : Bytes
deriving DecidableEq

/-- What happens during a run: a log line, a script that is entered, the tree of a script
that has been read, or a node that has been resolved. -/
inductive Event where
  | line (line : Log.Line)
  | entry (place : Place)
  | tree (nodes : List Node)
  | step (step : Step)

namespace Event

/-- The log line for a script that is entered. -/
def entryLine (place : Place) : Log.Line :=
  ⟨.trace, .resolver, text "compiling script " ++ quoted place.script ++ text " at depth " ++
    Bytes.decimal place.above.length⟩

/-- The log lines among events. -/
def lines (events : List Event) : List Log.Line :=
  events.filterMap fun
    | .line l => some l
    | .entry place => some (entryLine place)
    | .tree _ | .step _ => none

/-- The first tree among events: that of the root. -/
def tree? (events : List Event) : Option (List Node) :=
  events.findSome? fun
    | .tree nodes => some nodes
    | _ => none

/-- The resolved nodes among events. -/
def steps (events : List Event) : List Step :=
  events.filterMap fun
    | .step s => some s
    | _ => none

end Event

/-- Why a run gives no value. -/
inductive Halt where
  | failed (error : CompileError)
  | thrown (what : Bytes)
deriving DecidableEq

/-- What happened, and a value or the reason why there is none. -/
structure Run (α : Type) where
  events : List Event := []
  result : Except Halt α

namespace Run

variable {α β : Type}

/-- The run in which nothing happens. -/
def done (a : α) : Run α := ⟨[], .ok a⟩

/-- The run after other events. -/
def after (r : Run α) (events : List Event) : Run α := ⟨events ++ r.events, r.result⟩

/-- The first run and then, if it gives a value, the second. -/
def andThen (r : Run α) (f : α → Run β) : Run β :=
  match r.result with
  | .ok a => (f a).after r.events
  | .error h => ⟨r.events, .error h⟩

instance : Monad Run where
  pure := done
  bind := andThen

/-- Halts with an error. -/
def fail (cause : Cause) (range : Range) : Run α := ⟨[], .error (.failed ⟨cause, range, [], []⟩)⟩

/-- Goes on with the value, or halts with the error. -/
def ofExcept : Except CompileError α → Run α
  | .ok a => .done a
  | .error e => ⟨[], .error (.failed e)⟩

/-- Goes on with a value after its log lines. -/
def ofLogged (l : Logged α) : Run α := ⟨l.lines.map .line, .ok l.value⟩

/-- A log line. -/
def tell (level : Log.Level) (category : Log.Category) (message : Bytes) : Run Unit :=
  ⟨[.line ⟨level, category, message⟩], .ok ()⟩

/-- A script is entered. -/
def entry (place : Place) : Run Unit := ⟨[.entry place], .ok ()⟩

/-- The tree of a script. -/
def tree (nodes : List Node) : Run Unit := ⟨[.tree nodes], .ok ()⟩

/-- A resolved node. -/
def step (s : Step) : Run Unit := ⟨[.step s], .ok ()⟩

/-- The run with its error as it leaves a script. -/
def within (r : Run α) (id : Bytes) : Run α :=
  match r.result with
  | .error (.failed e) => ⟨r.events, .error (.failed (e.within id))⟩
  | _ => r

@[simp] theorem pure_eq (a : α) : (pure a : Run α) = ⟨[], .ok a⟩ := rfl

theorem bind_ok (events : List Event) (a : α) (f : α → Run β) :
    (⟨events, .ok a⟩ >>= f : Run β) = ⟨events ++ (f a).events, (f a).result⟩ := rfl

theorem bind_error (events : List Event) (h : Halt) (f : α → Run β) :
    (⟨events, .error h⟩ >>= f : Run β) = ⟨events, .error h⟩ := rfl

end Run

end AuthScript
