import AuthScript.Invoker
import AuthScript.Resolution.Meaning
import AuthScript.Resolution.Run
import AuthScript.Source.Lexer
import AuthScript.Tree.Parser

/-!
# Resolving scripts

To compile a script is to read its source, to resolve the tree, and to generate the
bytecode. Resolving an identifier may compile another script: one it names, the
locking script that a signature covers, or a script that is signed as data. Such a
reference compiles in the same environment and with the same data, one level
deeper; a script that is being compiled already is never entered again.

Resolving a tree is recursion on the tree, given a way to compile the script at a
place. Compiling is recursion on the number of scripts that can still be entered:
since no script is entered twice on a path, the number of scripts that are not in
progress is enough, and the last case is never met.
-/

namespace AuthScript

/-- What does not change during a compilation. In a debug run every resolved node is
recorded, and pushes are generated as soon as they are resolved. -/
structure Context where
  env : Environment
  data : Data
  options : Options
  invoker : Invoker
  debug : Bool

/-- What a script compiles to. -/
structure Compiled where
  resolved : List Resolved
  bytecode : Bytes

/-- The bounds on the trees of a compilation. -/
def Environment.bounds (env : Environment) (options : Options) : Tree.Bounds :=
  ⟨options.nestingDepth, env.digits⟩

@[simp] theorem Environment.brackets_bounds (env : Environment) (options : Options) :
    (env.bounds options).brackets = options.nestingDepth := rfl

namespace Context

/-- The number of bytes that were generated, as a log line. -/
def tellGenerated (b : Bytes) : Run Unit :=
  .tell .trace .generation (text "generated " ++ Bytes.decimal b.length ++ text " bytes")

/-- The bytecode of nodes. -/
def generate (nodes : List Resolved) : Run Bytes := do
  let b ← Run.ofExcept (Resolved.generateAll nodes)
  tellGenerated b
  return b

/-- Records a node in a debug run. -/
def record (ctx : Context) (place : Place) (kind : Resolved.Kind) (label : Bytes) (range : Range)
    (bytes : Bytes) : Run Unit :=
  if ctx.debug then .step ⟨kind, label, place.script, range, bytes⟩ else .done ()

/-- Runs an operation. -/
def invoke (ctx : Context) (cap : Capability) (req : Request) (range : Range) : Run Bytes := do
  match ← Run.ofLogged (ctx.invoker.operation ctx.env.operations cap req ctx.data) with
  | .ok b => return b
  | .error (.refused fault) => .fail (.refused fault) range
  | .error (.thrown what) => ⟨[], .error (.thrown what)⟩

section

variable (ctx : Context) (compile : Place → Run Compiled)

/-- Compiles a script that the current one refers to. -/
def refer (place : Place) (id : Bytes) (range : Range) : Run Bytes :=
  if place.chain.contains id then .fail (.referenceCycle place.chain id) range
  else if ctx.options.referenceDepth < place.chain.length then
    .fail (.referenceTooDeep ctx.options.referenceDepth id) range
  else do
    .tell .trace .resolver (quoted place.script ++ text " references " ++ quoted id)
    return (← compile (place.enter id)).bytecode

/-- The bytecode of the locking script, where an access needs it. -/
def coveredBytecode (place : Place) (name : Bytes) (range : Range) (access : Access) :
    Run (Option Bytes) :=
  if access.needsCovered ctx.data name then
    match ctx.env.unlocks.find? place.script with
    | none => .fail (.unlocksNothing name place.script) range
    | some locking => do return some (← refer ctx compile place locking range)
  else .done none

/-- The bytecode of the script that an access signs as data. -/
def signedBytecode (place : Place) (name : Bytes) (range : Range) (access : Access) :
    Run (Option Bytes) :=
  match access.signedScript? with
  | none => .done none
  | some target =>
    if ctx.env.scripts.contains target then do
      return some (← refer ctx compile place target range)
    else .fail (.signsUnknownScript name target) range

/-- The bytes that an access stands for. -/
def accessBytes (place : Place) (name : Bytes) (range : Range) (access : Access) : Run Bytes :=
  match access.capability? with
  | none => .fail (access.failure name) range
  | some cap => do
    let covered ← coveredBytecode ctx compile place name range access
    let signed ← signedBytecode ctx compile place name range access
    ctx.invoke cap (access.request name place.script covered signed) range

/-- Resolves an identifier. -/
def resolveIdentifier (place : Place) (name : Bytes) (range : Range) : Run Resolved :=
  match Meaning.ofName ctx.env name with
  | .error cause => .fail cause range
  | .ok (.opcode op) => do
    ctx.record place .opcode name range [op]
    return .opcode name op range
  | .ok .script => do
    let b ← refer ctx compile place name range
    ctx.record place .bytecode name range b
    return .bytecode name b range
  | .ok (.variable_ access) => do
    let b ← accessBytes ctx compile place name range access
    ctx.record place .bytecode name range b
    return .bytecode name b range

/-- Records a resolved push in a debug run. -/
def recordPush (place : Place) (node : Resolved) (range : Range) : Run Unit :=
  if ctx.debug then do
    let b ← generate [node]
    ctx.record place .push (text "<...>") range b
  else .done ()

/-- Runs the body of an evaluation. -/
def finishEvaluation (place : Place) (children : List Resolved) (range : Range) : Run Resolved := do
  let body ← generate children
  let result ← Run.ofExcept (← Run.ofLogged (evaluate ctx.invoker ctx.env body range))
  ctx.record place .evaluation (text "$(...)") range result
  return .evaluation children result range

/-- Opens a bracket, if one more may be open. -/
def openBracket (place : Place) (range : Range) : Run Place :=
  if ctx.options.nestingDepth ≤ place.brackets then
    .fail (.bracketsTooDeep ctx.options.nestingDepth) range
  else .done place.inBracket

/-- Opens an evaluation, if one more may be open. -/
def openEvaluation (place : Place) (range : Range) : Run Place :=
  if ctx.options.evaluationDepth ≤ place.evaluations then
    .fail (.evaluationTooDeep ctx.options.evaluationDepth) range
  else .done place.inEvaluation

mutual

/-- Resolves a node. -/
def resolve (place : Place) : Node → Run Resolved
  | .integer value range => .done (.literal (Literal.ofInteger value) range)
  | .hex digits range => do return .literal (← Run.ofExcept (Literal.ofHex range digits)) range
  | .utf8 contents range => .done (.literal (Literal.ofString contents) range)
  | .identifier name range => resolveIdentifier ctx compile place name range
  | .push children range => do
    let inner ← openBracket ctx place range
    let resolved ← resolveAll inner children
    recordPush ctx place (.push resolved range) range
    return .push resolved range
  | .evaluation children range => do
    let inner ← openBracket ctx place range
    let inner ← openEvaluation ctx inner range
    let resolved ← resolveAll inner children
    finishEvaluation ctx place resolved range

/-- Resolves nodes one after another. -/
def resolveAll (place : Place) : List Node → Run (List Resolved)
  | [] => .done []
  | node :: rest => do
    let first ← resolve place node
    let others ← resolveAll place rest
    return first :: others

end

/-- Reads the source of a script. -/
def read (source : Bytes) : Run (List Node) := do
  let tokens ← Run.ofExcept (Token.ofText source)
  .tell .trace .lexer (text "tokenized " ++ Bytes.decimal source.length ++ text " bytes into " ++
    Bytes.decimal tokens.length ++ text " tokens")
  let nodes ← Run.ofExcept (Node.ofTokens (ctx.env.bounds ctx.options) tokens)
  .tell .trace .parser
    (text "parsed " ++ Bytes.decimal nodes.length ++ text " top-level statements")
  .tree nodes
  return nodes

/-- Compiles the source of the script at a place. -/
def compileSource (place : Place) (source : Bytes) : Run Compiled := do
  .entry place
  let nodes ← read ctx source
  let resolved ← resolveAll ctx compile place nodes
  let bytecode ← generate resolved
  return ⟨resolved, bytecode⟩

/-- Compiles the script at a place. -/
def compileWith (place : Place) : Run Compiled :=
  match ctx.env.scripts.find? place.script with
  | none => .fail (.unknownScript place.script) {}
  | some source => (compileSource ctx compile place source).within place.script

end

/-- Compiles the script at a place, where `spare` more scripts than this one can be
entered. -/
def compileAt (ctx : Context) : Nat → Place → Run Compiled
  | 0, place => .fail (.referenceCycle place.above place.script) {}
  | spare + 1, place => compileWith ctx (compileAt ctx spare) place

/-- The scripts that are not in progress. -/
def spare (ctx : Context) (place : Place) : List Bytes :=
  ctx.env.scripts.keys.filter fun id => !place.chain.contains id

/-- Compiles the script at a place. One more script than there are can be named, since
a locking script may be missing. -/
def enter (ctx : Context) (place : Place) : Run Compiled :=
  compileAt ctx ((ctx.spare place).length + 2) place

/-- Compiles a script as the root of a compilation. -/
def compile (ctx : Context) (id : Bytes) : Run Compiled := ctx.enter { script := id }

end Context

end AuthScript
