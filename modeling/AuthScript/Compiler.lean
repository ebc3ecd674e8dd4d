import AuthScript.Operation
import AuthScript.Resolution.Resolve

/-!
# Compilers

A compiler is an environment with the limits of its compilations. It compiles a
script by calling or by waiting, and with or without a record of the intermediate
forms. An operation that breaks off ends the compilation with an error of its root.
-/

namespace AuthScript

/-- An environment and the limits of compilations in it. -/
structure Compiler where
  env : Environment
  options : Options := {}

/-- What a compilation of a script gives: the bytecode or the error, and for a debug
compilation the forms it went through as far as it got. -/
structure Artifact where
  script : Bytes
  source : Bytes
  tree : Option (List Node)
  resolved : Option (List Resolved)
  steps : List Step
  result : Except CompileError Bytes

namespace Compiler

/-- The error that a compilation ends with. -/
def errorOf (id : Bytes) : Halt → CompileError
  | .failed e => e
  | .thrown what => ⟨.thrown what, {}, id, []⟩

/-- The tree of a source, if it can be read within bounds. -/
def treeOf? (bounds : Tree.Bounds) (source : Bytes) : Option (List Node) :=
  ((Token.ofText source).bind (Node.ofTokens bounds)).toOption

/-- The log line at the end of a compilation. -/
def lastLine (id : Bytes) : Except CompileError Bytes → Log.Line
  | .ok b => ⟨.debug, .compiler, text "compiled " ++ quoted id ++ text ": " ++ Hex.encode b⟩
  | .error e =>
    ⟨.debug, .compiler, text "compilation of " ++ quoted id ++ text " failed: " ++ e.report.format⟩

/-- Compiles a script. -/
def compile (c : Compiler) (invoker : Invoker) (debug : Bool) (id : Bytes) (data : Data) :
    Logged Artifact :=
  let run := (⟨c.env, data, c.options, invoker, debug⟩ : Context).compile id
  let result := (run.result.map Compiled.bytecode).mapError (errorOf id)
  { lines := ⟨.debug, .compiler, text "compiling " ++ quoted id⟩ ::
      (Event.lines run.events ++ [lastLine id result])
    value :=
      { script := id
        source := (c.env.scripts.find? id).getD []
        tree := if debug then Event.tree? run.events else none
        resolved := if debug then (run.result.map Compiled.resolved).toOption else none
        steps := Event.steps run.events
        result } }

/-- The bytecode of a script, by calling operations. -/
def generate (c : Compiler) (id : Bytes) (data : Data) : Except CompileError Bytes :=
  (c.compile .sync false id data).value.result

/-- The bytecode of a script, by waiting for operations. -/
def generateAsync (c : Compiler) (id : Bytes) (data : Data) : Except CompileError Bytes :=
  (c.compile .async false id data).value.result

/-- The environment with the default opcodes if it has none, and with operations in
place of those that are not bound. -/
def complete (env : Environment) (defaults : Operations) : Environment :=
  { env with
    opcodes := if env.opcodes.isEmpty then Opcode.table else env.opcodes
    operations := env.operations.fillMissing defaults }

/-- The usual compiler: all default operations, and the machine of this library unless
there is another. -/
def common (signer : Curve.Signer) (env : Environment) (options : Options) : Compiler :=
  let env := complete env (.default signer)
  { env :=
      if env.machine.isNone && env.asyncMachine.isNone then
        { env with machine := some (interpreter {}) }
      else env
    options }

/-- A compiler with only those default operations that need no keys, and no machine of
its own. -/
def commonSynchronous (env : Environment) (options : Options) : Compiler :=
  { env := complete env .common, options }

end Compiler

end AuthScript
