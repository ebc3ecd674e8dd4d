import AuthScript.Curve.Key
import AuthScript.Environment

/-!
# The default operations

Each operation is a function of the request and the data. It refuses a request it
does not know, and one whose values are missing from the data.
-/

namespace AuthScript

namespace Operation

/-- The refusal of a request for which a value is missing. -/
def missing (req : Request) (what : Bytes) : Fault :=
  ⟨.capabilityMissingData, text "identifier " ++ quoted req.identifier ++ text " requires " ++ what⟩

/-- The refusal of a request that means nothing. -/
def malformed (req : Request) : Fault :=
  ⟨.capabilityError, text "unknown operation " ++ quoted req.identifier⟩

/-- Whether a request is for a variable of a type. -/
def isKind (req : Request) (kind : Variable.Kind) : Bool := req.definition.any (·.kind = kind)

/-- The value that is there, or the refusal of the request. -/
def demand {α : Type} (req : Request) (what : String) : Option α → Except Fault α
  | some a => .ok a
  | none => .error (missing req (text what))

/-- The private key of the variable of a request. -/
def privateKey (req : Request) (data : Data) : Except Fault Curve.Key :=
  match data.privateKeys.find? req.variableId with
  | some secret => Curve.Key.ofSecret secret
  | none => .error (missing req (text "a private key for " ++ quoted req.variableId))

/-- The public key of the variable of a request: the one that is given, else the
compressed one of the private key. -/
def publicKeyOf (req : Request) (data : Data) : Except Fault Bytes :=
  match data.publicKeys.find? req.variableId with
  | some key => .ok key
  | none => Curve.Key.compressed <$> privateKey req data

/-- The public key of a key. -/
def publicKeyBytes (req : Request) (data : Data) : Except Fault Bytes :=
  if isKind req .key && req.path = [text "public_key"] then publicKeyOf req data
  else .error (malformed req)

/-- What a signature signs, and the byte that follows it if it signs a transaction. -/
structure Message where
  digest : Bytes
  hashType : Option UInt8

/-- What a request for a signature that has not been made already is to sign. -/
def message (req : Request) (data : Data) (kind target : Bytes) : Except Fault Message :=
  if kind = text "signature" then
    match Algorithm.ofName? target with
    | none => .error ⟨.capabilityError, text "unknown signing algorithm " ++ quoted target ++
        text " in " ++ quoted req.identifier⟩
    | some alg => do
      let tx ← demand req "a transaction context" data.transaction
      let covered ← demand req "the covered locking bytecode" req.covered
      return ⟨hash256 (Signing.serialize tx covered alg), some alg.hashType⟩
  else if kind = text "data_signature" then
    match req.signed with
    | some signed => .ok ⟨sha256 signed, none⟩
    | none => .error (missing req (text "the compiled bytecode of " ++ quoted target))
  else .error (malformed req)

/-- What a request for a signature comes to: one that has been made already, or a key
and what it is to sign. -/
inductive Task where
  | supplied (signature : Bytes)
  | sign (key : Curve.Key) (message : Message)

/-- What is to be done for a request for a signature. -/
def task (req : Request) (data : Data) : Except Fault Task :=
  match isKind req .key, req.path with
  | true, [kind, target] =>
    match data.signatures.find? req.identifier with
    | some signature => .ok (.supplied signature)
    | none => do
      let m ← message req data kind target
      return .sign (← privateKey req data) m
  | _, _ => .error (malformed req)

/-- The bytes of a signature, with the byte that follows it. -/
def Task.bytes (signer : Curve.Signer) : Task → Except Fault Bytes
  | .supplied signature => .ok signature
  | .sign key m => (· ++ m.hashType.toList) <$> (key.sign signer m.digest).value

/-- The lines told when a signature is made. -/
def Task.lines (signer : Curve.Signer) (req : Request) : Task → List Log.Line
  | .supplied _ => []
  | .sign key m => (key.sign signer m.digest).lines ++ [⟨.trace, .curve,
      text "signed " ++ Hex.encode m.digest ++ text " for " ++ quoted req.identifier⟩]

/-- The digest of a public key or of a component of the signing serialization. -/
def hashBytes (req : Request) (data : Data) : Except Fault Bytes :=
  if isKind req .key && req.path = [text "public_key_hash"] then hash160 <$> publicKeyOf req data
  else match req.path with
    | [name] =>
      if req.variableId = signingSerialization && Signing.isHash name then do
        let tx ← demand req "a transaction context" data.transaction
        hash256 <$> Signing.component tx (Signing.withoutHash name) req.covered
      else .error (malformed req)
    | _ => .error (malformed req)

/-- The value of a variable that the data hold. -/
def walletDataBytes (req : Request) (data : Data) : Except Fault Bytes :=
  if !req.path.isEmpty then .error (malformed req)
  else do
    let values ←
      if isKind req .walletData then .ok data.walletData
      else if isKind req .addressData then .ok data.addressData
      else .error (malformed req)
    match values.find? req.variableId with
    | some b => return b
    | none => .error (missing req (text "a value for " ++ quoted req.variableId))

/-- The block height as a script number, the block time as a word, or a component of
the signing serialization. -/
def transactionContextBytes (req : Request) (data : Data) : Except Fault Bytes :=
  if isKind req .currentBlockHeight then
    if req.path.isEmpty then do
      let height ← demand req "the current block height" data.currentBlockHeight
      return ScriptNumber.encodeWord height.toUInt64.toInt64
    else .error (malformed req)
  else if isKind req .currentBlockTime then
    if req.path.isEmpty then
      Signing.word32 <$> demand req "the current block time" data.currentBlockTime
    else .error (malformed req)
  else match req.path with
    | [name] =>
      if req.variableId = signingSerialization then do
        let tx ← demand req "a transaction context" data.transaction
        Signing.component tx name req.covered
      else .error (malformed req)
    | _ => .error (malformed req)

/-- An operation that tells nothing and never breaks off. -/
def quiet (f : Request → Data → Except Fault Bytes) : Handler := fun req data =>
  .silent ((f req data).mapError Refusal.refused)

/-- `<key>.public_key`. -/
def publicKey : Handler := quiet publicKeyBytes

/-- `<key>.signature.<algorithm>` and `<key>.data_signature.<script>`. -/
def signature (signer : Curve.Signer) : Handler := fun req data =>
  match task req data with
  | .error f => .silent (.error (.refused f))
  | .ok t =>
    match t.bytes signer with
    | .ok b => ⟨t.lines signer req, .ok b⟩
    | .error f => .silent (.error (.refused f))

/-- `<key>.public_key_hash` and `signing_serialization.<component>_hash`. -/
def hash : Handler := quiet hashBytes

/-- Variables whose values the data hold. -/
def walletData : Handler := quiet walletDataBytes

/-- Block height and time, and `signing_serialization.<component>`. -/
def transactionContext : Handler := quiet transactionContextBytes

end Operation

namespace Operations

/-- The operations that need neither keys nor digests of their own. -/
def common : Operations where
  walletData := { sync := some Operation.walletData }
  transactionContext := { sync := some Operation.transactionContext }

/-- All default operations, with what makes signatures. -/
def default (signer : Curve.Signer) : Operations :=
  { common with
    key := { sync := some Operation.publicKey }
    signature := { sync := some (Operation.signature signer) }
    hash := { sync := some Operation.hash } }

end Operations

end AuthScript
