import AuthScript.Curve.Nonce
import AuthScript.Proofs.KeyVariable

/-!
# Signatures that have been made already

The data may hold signatures under whole identifiers, `k.signature.a` of a transaction and
`k.data_signature.m` of a script, and the default operation then gives the one that is there,
whatever else the data hold. For a signature of a transaction the script that it covers is not
compiled either, so nothing but the signature matters. For a signature of a script there is no
such exception: the script must be there and must compile, and what it compiles to is then not
used (`resolveIdentifier_supplied`).
-/

namespace AuthScript

/-- An identifier means a key variable with two segments behind it. -/
def Environment.MeansKey (env : Environment) (name kind target : Bytes) : Prop :=
  ∃ key d, d.kind = .key ∧ Meaning.ofName env name = .ok (.variable_ (.ofKey key d [kind, target]))

theorem Environment.meansKey_of_unused {env : Environment} {key kind target : Bytes} {d : Variable}
    (plain : 0x2e ∉ key) (plainKind : 0x2e ∉ kind) (plainTarget : 0x2e ∉ target)
    (defined : env.definitions.find? key = some d) (isKey : d.kind = .key)
    (unused : env.Unused (key ++ 0x2e :: (kind ++ 0x2e :: target))) :
    env.MeansKey (key ++ 0x2e :: (kind ++ 0x2e :: target)) kind target := by
  have own := Meaning.ofName_ofKey plain defined unused
  rw [Bytes.pieces_append plainKind, Bytes.pieces_of_plain plainTarget] at own
  exact ⟨key, d, isKey, own⟩

namespace Access

variable {key target : Bytes} {d : Variable}

theorem capability?_signature (kind : d.kind = .key) :
    (ofKey key d [text "signature", target]).capability? = some .signature := by
  have other : text "signature" ≠ text "public_key" := by decide
  have hash : text "signature" ≠ text "public_key_hash" := by decide
  simp [capability?, ofKey, kind, other, hash]

theorem signedScript?_signature :
    (ofKey key d [text "signature", target]).signedScript? = none := by
  have other : text "signature" ≠ text "data_signature" := by decide
  simp [signedScript?, ofKey, other]

/-- With a signature in the data a key variable needs no locking script. -/
theorem needsCovered_of_supplied {data : Data} {name b : Bytes} {path : List Bytes}
    (supplied : data.signatures.find? name = some b) :
    (ofKey key d path).needsCovered data name = false := by
  have held : data.signatures.contains name = true :=
    (Table.contains_iff_find? _ _).2 ⟨b, supplied⟩
  rw [needsCovered, held]
  simp [readsCovered, ofKey]

end Access

/-- The default operation gives the signature that is there. -/
theorem Operation.signature_supplied (signer : Curve.Signer) {req : Request} {data : Data}
    {kind target b : Bytes} (key : isKind req .key = true) (path : req.path = [kind, target])
    (supplied : data.signatures.find? req.identifier = some b) :
    (signature signer req data).value = .ok b := by
  rw [signature_eq_ok]
  refine ⟨.supplied b, ?_, rfl⟩
  unfold task
  simp only [key, path, supplied]

namespace Context

variable {ctx : Context} {signer : Curve.Signer} {compile : Place → Run Compiled} {p : Place}
  {name b : Bytes}  {range : Range}

theorem resolveIdentifier_result {access : Access}
    (h : Meaning.ofName ctx.env name = .ok (.variable_ access)) :
    (resolveIdentifier ctx compile p name range).result =
      (accessBytes ctx compile p name range access).result.map fun b => .bytecode name b range := by
  unfold resolveIdentifier
  rw [h]
  show (Run.result (_ >>= _)) = _
  rw [Run.result_bind]
  cases (accessBytes ctx compile p name range access).result with
  | error halt => rfl
  | ok b =>
      show (Run.result (_ >>= _)) = _
      rw [Run.result_bind, result_record]
      rfl

variable (invoked : ctx.invoker = .sync ∨ ctx.invoker = .async)
  (defaults : ctx.env.operations = .default signer)
  (supplied : ctx.data.signatures.find? name = some b)

include invoked defaults supplied

theorem invoke_supplied {key kind target : Bytes} {d : Variable} (isKey : d.kind = .key)
    (covered signed : Option Bytes) :
    (ctx.invoke .signature ((Access.ofKey key d [kind, target]).request name p.script covered
      signed) range).result = .ok b := by
  have served : ctx.invoker.operation ctx.env.operations .signature =
      Operation.signature signer := by
    rw [defaults]
    rcases invoked with calls | waits
    · rw [calls]
      rfl
    · rw [waits]
      rfl
  rw [invoke_eq_ok, served]
  exact Operation.signature_supplied signer (Operation.isKind_ofKey isKey) rfl supplied

/-- For a signature of a transaction that is there nothing is compiled. -/
theorem accessBytes_signature {key target : Bytes} {d : Variable} (isKey : d.kind = .key) :
    (accessBytes ctx compile p name range
      (.ofKey key d [text "signature", target])).result = .ok b := by
  have uncovered : (Access.ofKey key d [text "signature", target]).needsCovered ctx.data name =
      false := Access.needsCovered_of_supplied supplied
  unfold accessBytes coveredBytecode signedBytecode
  rw [Access.capability?_signature isKey, uncovered, Access.signedScript?_signature]
  exact invoke_supplied invoked defaults supplied isKey none none

/-- For a signature of a script that is there the script is compiled nevertheless. -/
theorem accessBytes_dataSignature {key target : Bytes} {d : Variable} (isKey : d.kind = .key) :
    (accessBytes ctx compile p name range
      (.ofKey key d [text "data_signature", target])).result =
        if ctx.env.scripts.contains target then
          (refer ctx compile p target range).result.map fun _ => b
        else .error (.failed ⟨.signsUnknownScript name target, range, [], []⟩) := by
  have uncovered : (Access.ofKey key d [text "data_signature", target]).needsCovered ctx.data
      name = false := Access.needsCovered_of_supplied supplied
  unfold accessBytes coveredBytecode signedBytecode
  rw [Access.capability?_dataSignature isKey, uncovered, Access.signedScript?_dataSignature isKey]
  show (Run.result ((if ctx.env.scripts.contains target then _ else _) >>= _)) = _
  cases ctx.env.scripts.contains target with
  | false => rfl
  | true =>
      show (Run.result ((refer ctx compile p target range >>= _) >>= _)) = _
      rw [Run.result_bind, Run.result_bind]
      cases (refer ctx compile p target range).result with
      | error halt => rfl
      | ok signed => exact invoke_supplied invoked defaults supplied isKey none (some signed)

/-- A signature of a transaction that is there is what its identifier stands for, and nothing is
compiled for it. A signature of a script that is there is, too, but only after the script has been
looked for and compiled. -/
theorem resolveIdentifier_supplied (compile : Place → Run Compiled) (p : Place) (range : Range)
    (target : Bytes) :
    (ctx.env.MeansKey name (text "signature") target →
      (resolveIdentifier ctx compile p name range).result = .ok (.bytecode name b range)) ∧
    (ctx.env.MeansKey name (text "data_signature") target →
      (ctx.env.scripts.contains target = false →
        (resolveIdentifier ctx compile p name range).result =
          .error (.failed ⟨.signsUnknownScript name target, range, [], []⟩)) ∧
      (ctx.env.scripts.contains target = true →
        (resolveIdentifier ctx compile p name range).result =
          (refer ctx compile p target range).result.map fun _ => .bytecode name b range)) := by
  refine ⟨?_, ?_⟩
  · rintro ⟨key, d, isKey, means⟩
    rw [resolveIdentifier_result means, accessBytes_signature invoked defaults supplied isKey]
    rfl
  · rintro ⟨key, d, isKey, means⟩
    rw [resolveIdentifier_result means, accessBytes_dataSignature invoked defaults supplied isKey]
    refine ⟨fun unknown => ?_, fun known => ?_⟩
    · rw [unknown]
      rfl
    · rw [known, if_pos rfl]
      cases (refer ctx compile p target range).result with
      | error halt => rfl
      | ok signed => rfl

end Context

/-! ## Signatures of scripts that do not compile -/

/-- Scripts with signatures of an owner. What `unlock` unlocks does not compile. -/
def signedByOwner : Environment where
  definitions := .ofList [(text "owner", { kind := .key })]
  scripts := .ofList [
    (text "lock", text "memo"),
    (text "unlock", text "<owner.signature.all_outputs>"),
    (text "check", text "<owner.data_signature.lock>"),
    (text "loose", text "<owner.data_signature.nothing>"),
    (text "note", text "0x2a")]
  unlocks := .ofList [(text "unlock", text "lock")]
  operations := .default .deterministic

/-- Signatures of the owner, and no keys. -/
def signaturesOfOwner : Data where
  signatures := .ofList [
    (text "owner.signature.all_outputs", [0x30, 0x01, 0x41]),
    (text "owner.data_signature.lock", [0x30, 0x01, 0x42]),
    (text "owner.data_signature.nothing", [0x30, 0x01, 0x43]),
    (text "owner.data_signature.note", [0x30, 0x01, 0x44])]

namespace Context

theorem resolveIdentifier_supplied_of_owner :
    let ctx : Context := ⟨signedByOwner, signaturesOfOwner, {}, .async, true⟩
    let p : Place := ⟨[text "root"], text "unlock", 2, 3⟩
    (resolveIdentifier ctx ctx.enter p (text "owner.signature.all_outputs") {}).result =
        .ok (.bytecode (text "owner.signature.all_outputs") [0x30, 0x01, 0x41] {}) ∧
      (resolveIdentifier ctx ctx.enter p (text "owner.data_signature.note") {}).result =
        .ok (.bytecode (text "owner.data_signature.note") [0x30, 0x01, 0x44] {}) := by
  intro ctx p
  have means : ∀ kind target, 0x2e ∉ kind → 0x2e ∉ target →
      ctx.env.Unused (text "owner" ++ 0x2e :: (kind ++ 0x2e :: target)) →
      ctx.env.MeansKey (text "owner" ++ 0x2e :: (kind ++ 0x2e :: target)) kind target :=
    fun kind target plainKind plainTarget unused =>
      Environment.meansKey_of_unused (by decide) plainKind plainTarget
        (by with_unfolding_all rfl) rfl unused
  have transaction : ctx.env.MeansKey (text "owner.signature.all_outputs") (text "signature")
      (text "all_outputs") :=
    means (text "signature") (text "all_outputs") (by decide) (by decide) ⟨rfl, rfl, rfl⟩
  have script : ctx.env.MeansKey (text "owner.data_signature.note") (text "data_signature")
      (text "note") :=
    means (text "data_signature") (text "note") (by decide) (by decide) ⟨rfl, rfl, rfl⟩
  have compiled : (refer ctx ctx.enter p (text "note") {}).result = .ok [0x2a] := by
    with_unfolding_all rfl
  refine ⟨?_, ?_⟩
  · exact (resolveIdentifier_supplied (.inr rfl) rfl rfl ctx.enter p {} _).1 transaction
  · rw [((resolveIdentifier_supplied (.inr rfl) rfl rfl ctx.enter p {} _).2 script).2 rfl,
      compiled]
    rfl

end Context

/-- With a signature in the data a transaction needs no locking script that compiles, but a
script that is signed as data must be there and must compile. -/
theorem Compiler.supplied_needs_script :
    let c : Compiler := ⟨signedByOwner, {}⟩
    let data := signaturesOfOwner
    (c.env.definitions.find? (text "owner")).map Variable.kind = some .key ∧
      c.env.operations = .default .deterministic ∧
      data.signatures.find? (text "owner.signature.all_outputs") = some [0x30, 0x01, 0x41] ∧
      data.signatures.find? (text "owner.data_signature.lock") = some [0x30, 0x01, 0x42] ∧
      data.signatures.find? (text "owner.data_signature.nothing") = some [0x30, 0x01, 0x43] ∧
      c.generate (text "unlock") data = .ok [0x03, 0x30, 0x01, 0x41] ∧
      c.generate (text "check") data =
        .error ⟨.unknownIdentifier (text "memo"), ⟨⟨1, 1, 0⟩, ⟨1, 5, 4⟩⟩, text "lock",
          [text "check"]⟩ ∧
      c.generate (text "loose") data =
        .error ⟨.signsUnknownScript (text "owner.data_signature.nothing") (text "nothing"),
          ⟨⟨1, 2, 1⟩, ⟨1, 30, 29⟩⟩, text "loose", []⟩ := by
  intro c data
  refine ⟨rfl, rfl, rfl, rfl, rfl, ?_, ?_, ?_⟩
  · with_unfolding_all rfl
  · with_unfolding_all rfl
  · with_unfolding_all rfl

end AuthScript
