import AuthScript.Environment

/-!
# Invokers

Operations and machines can be called or waited for. A compilation that calls uses
only what can be called; one that waits prefers what can be waited for and calls
the rest. An invoker is that choice: for a capability an operation, and for an
environment a machine.
-/

namespace AuthScript

/-- The choice of operations and machines for a compilation. -/
structure Invoker where
  operation : Operations → Capability → Handler
  machine : Environment → Option VirtualMachine

namespace Invoker

/-- The refusal of a capability that cannot be used. -/
def unavailable (cap : Capability) (req : Request) (reason : String) : Fault :=
  ⟨.capabilityUnsupported, text "identifier " ++ quoted req.identifier ++ text " requires the " ++
    cap.name ++ text " capability, which is " ++ text reason⟩

/-- An operation that always refuses for this reason. -/
def refuse (cap : Capability) (reason : String) : Handler := fun req _ =>
  .silent (.error (.refused (unavailable cap req reason)))

/-- The operation for a capability without any. -/
def absent (cap : Capability) : Handler := refuse cap "not available in this environment"

/-- Calls, and never waits. -/
def sync : Invoker where
  operation ops cap :=
    match ops.binding? cap with
    | none => absent cap
    | some ⟨some call, _⟩ => call
    | some ⟨none, some _⟩ =>
      refuse cap "bound only asynchronously; use the async compilation path"
    | some ⟨none, none⟩ => absent cap
  machine env := env.machine

/-- Waits for an operation, and says so before. -/
def await (cap : Capability) (wait : Handler) : Handler := fun req data => do
  .tell .trace .resolver
    (text "awaiting " ++ cap.name ++ text " operation for " ++ quoted req.identifier)
  wait req data

/-- Waits for what can be waited for, and calls the rest. -/
def async : Invoker where
  operation ops cap :=
    match ops.binding? cap with
    | none => absent cap
    | some ⟨_, some wait⟩ => await cap wait
    | some ⟨some call, none⟩ => call
    | some ⟨none, none⟩ => absent cap
  machine env :=
    match env.asyncMachine with
    | some machine => some machine
    | none => env.machine

end Invoker

/-- The item that a program leaves on top, run by the machine that the invoker chooses,
for an evaluation at a range. -/
def evaluate (invoker : Invoker) (env : Environment) (program : Bytes) (range : Range) :
    Logged (Except CompileError Bytes) := do
  let fail (failure : EvaluationFailure) : Except CompileError Bytes :=
    .error ⟨.evaluation range failure, range, [], []⟩
  .tell .trace .evaluation
    (text "evaluating " ++ Hex.encode program ++ text " at " ++ range.format)
  match invoker.machine env with
  | none => return fail .noMachine
  | some machine =>
    let ended ← machine program
    match ended.failure, ended.stack with
    | some reason, _ => return fail (.failed reason)
    | none, [] => return fail .emptyStack
    | none, top :: _ =>
      .tell .trace .evaluation
        (text "evaluation at " ++ range.format ++ text " produced " ++ Hex.encode top)
      return .ok top

theorem evaluate_eq_ok {invoker : Invoker} {env : Environment} {program b : Bytes} {range : Range} :
    (evaluate invoker env program range).value = .ok b ↔
      ∃ machine, invoker.machine env = some machine ∧
        (machine program).value.failure = none ∧ (machine program).value.stack.head? = some b := by
  cases hm : invoker.machine env with
  | none => simp [evaluate, hm]
  | some machine =>
      rcases hv : (machine program).value with ⟨_ | reason, _ | ⟨top, stack⟩, executed⟩ <;>
        simp [evaluate, hm, hv]

end AuthScript
