import AuthScript.Environment

/-!
# What identifiers mean

An identifier is looked up among the opcodes, the variables and the scripts of an
environment, and must be found in exactly one of these name spaces. A variable is
found under the whole identifier or, failing that, under its first segment; the
other segments are then a path into the variable. Unless the environment defines a
variable of that name, `signing_serialization` is a built-in one.
-/

namespace AuthScript

/-- The variable that an identifier belongs to and the path into it. A built-in
variable has no definition. -/
structure Access where
  variableId : Bytes
  path : List Bytes := []
  definition : Option Variable := none
deriving DecidableEq

/-- What an identifier means. -/
inductive Meaning where
  | opcode (op : UInt8)
  | variable_ (access : Access)
  | script
deriving DecidableEq

namespace Access

/-- The first segment of an identifier. -/
def head (name : Bytes) : Bytes := name.takeWhile (· ≠ 0x2e)

/-- The other segments of an identifier. -/
def segments (name : Bytes) : List Bytes :=
  match name.dropWhile (· ≠ 0x2e) with
  | [] => []
  | _ :: rest => Bytes.pieces 0x2e rest

/-- The definition of the first segment of an identifier that has others. -/
def headDefinition? (env : Environment) (name : Bytes) : Option Variable :=
  if name.contains 0x2e then env.definitions.find? (head name) else none

/-- The variable that an identifier belongs to. -/
def ofName? (env : Environment) (name : Bytes) : Option Access :=
  match env.definitions.find? name with
  | some d => some ⟨name, [], some d⟩
  | none =>
    match headDefinition? env name with
    | some d => some ⟨head name, segments name, some d⟩
    | none =>
      if head name = signingSerialization then some ⟨head name, segments name, none⟩ else none

/-- The capability that serves an access; none if there is no such operation. -/
def capability? (a : Access) : Option Capability :=
  match a.definition with
  | none =>
    match a.path with
    | [component] => if Signing.isHash component then some .hash else some .transactionContext
    | _ => some .transactionContext
  | some d =>
    match d.kind with
    | .key =>
      match a.path with
      | [] => none
      | operation :: _ =>
        if operation = text "public_key" then some .key
        else if operation = text "public_key_hash" then some .hash
        else if operation = text "signature" || operation = text "data_signature" then
          some .signature
        else none
    | .walletData | .addressData => some .walletData
    | .currentBlockHeight | .currentBlockTime => some .transactionContext

/-- Why an access that no capability serves fails. -/
def failure (a : Access) (name : Bytes) : Cause :=
  match a.path, a.definition with
  | [], _ | _, none => .bareKey a.variableId
  | _, some d => .unknownOperation name d.kind a.variableId

/-- Whether an access signs a transaction by a known algorithm. -/
def signsTransaction (a : Access) : Bool :=
  a.capability? = some .signature &&
    match a.path with
    | [kind, target] => kind = text "signature" && (Algorithm.ofName? target).isSome
    | _ => false

/-- Whether an access is to a component that reads the bytecode of the locking
script. -/
def readsCovered (a : Access) : Bool :=
  a.definition.isNone &&
    match a.path with
    | [component] => Signing.readsCovered component
    | _ => false

/-- Whether an access needs the bytecode of the locking script. A signature that has
been made already does not. -/
def needsCovered (a : Access) (data : Data) (name : Bytes) : Bool :=
  (a.signsTransaction && !data.signatures.contains name) || a.readsCovered

/-- The script that an access signs as data. -/
def signedScript? (a : Access) : Option Bytes :=
  if a.capability? = some .signature then
    match a.path with
    | [kind, target] => if kind = text "data_signature" then some target else none
    | _ => none
  else none

/-- What an access asks an operation for, in a script. -/
def request (a : Access) (name script : Bytes) (covered signed : Option Bytes) : Request where
  identifier := name
  variableId := a.variableId
  path := a.path
  definition := a.definition
  script := script
  covered := covered
  signed := signed

end Access

namespace Meaning

/-- The meaning of an identifier. -/
def ofName (env : Environment) (name : Bytes) : Except Cause Meaning :=
  match env.opcodes.find? name, Access.ofName? env name, env.scripts.contains name with
  | some op, none, false => .ok (.opcode op)
  | none, some a, false => .ok (.variable_ a)
  | none, none, true => .ok .script
  | none, none, false => .error (.unknownIdentifier name)
  | op, a, isScript =>
    .error (.ambiguousIdentifier name
      ((if op.isSome then [.opcode] else []) ++ (if a.isSome then [.variable_] else []) ++
        if isScript then [.script] else []))

end Meaning

end AuthScript
