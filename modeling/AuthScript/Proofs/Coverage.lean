import AuthScript.Proofs.Identifier
import AuthScript.Proofs.Reference

/-!
# What a transaction signature covers

The identifier `k.signature.a` of a key variable `k` and an algorithm `a` stands for a
signature of the transaction and of one script: the locking script that the script with
the identifier unlocks. The bytes that are covered are those that the locking script
compiles to by itself, and the byte behind the signature is the one of the algorithm.
-/

namespace AuthScript

/-- The identifier of a signature of the transaction. -/
def signatureName (key : Bytes) (alg : Algorithm) : Bytes :=
  key ++ text ".signature." ++ alg.name

namespace Algorithm

@[simp] theorem ofName?_name (alg : Algorithm) : ofName? alg.name = some alg := by
  cases alg <;> rfl

theorem ofName?_eq_some_iff {name : Bytes} {alg : Algorithm} :
    ofName? name = some alg ↔ alg.name = name := by
  constructor
  · intro found
    unfold ofName? at found
    have named := List.find?_some found
    exact of_decide_eq_true named
  · rintro rfl
    exact ofName?_name alg

theorem pieces_name (alg : Algorithm) :
    Bytes.pieces 0x2e (text "signature." ++ alg.name) = [text "signature", alg.name] := by
  cases alg <;> rfl

end Algorithm

namespace Access

/-- The access of a transaction signature. -/
def ofSignature (key : Bytes) (d : Variable) (alg : Algorithm) : Access :=
  ⟨key, [text "signature", alg.name], some d⟩

variable {key : Bytes} {d : Variable} {alg : Algorithm}

theorem ofName?_signatureName {env : Environment} (plain : 0x2e ∉ key)
    (whole : env.definitions.find? (signatureName key alg) = none)
    (defined : env.definitions.find? key = some d) :
    ofName? env (signatureName key alg) = some (ofSignature key d alg) := by
  have hname : signatureName key alg = key ++ 0x2e :: (text "signature." ++ alg.name) := by
    have hdot : text ".signature." = 0x2e :: text "signature." := rfl
    rw [signatureName, hdot]
    simp
  rw [hname] at whole ⊢
  rw [ofName?_of_head plain whole defined, alg.pieces_name]
  rfl

theorem capability?_ofSignature (kind : d.kind = .key) :
    (ofSignature key d alg).capability? = some .signature := by
  have hpublic : text "signature" ≠ text "public_key" := by decide
  have hhash : text "signature" ≠ text "public_key_hash" := by decide
  simp [capability?, ofSignature, kind, hpublic, hhash]

theorem needsCovered_ofSignature (kind : d.kind = .key) {data : Data} {name : Bytes}
    (unsupplied : data.signatures.find? name = none) :
    (ofSignature key d alg).needsCovered data name = true := by
  have hcap : (ofSignature key d alg).capability? = some .signature :=
    capability?_ofSignature kind
  have hsigns : (ofSignature key d alg).signsTransaction = true := by
    rw [signsTransaction, hcap]
    simp [ofSignature]
  simp [needsCovered, hsigns, Table.contains, unsupplied]

end Access

namespace Operation

theorem demand_eq_ok {α : Type} {req : Request} {what : String} {o : Option α} {a : α} :
    demand req what o = .ok a ↔ o = some a := by
  cases o <;> simp [demand]

theorem privateKey_eq_ok {req : Request} {data : Data} {k : Curve.Key} :
    privateKey req data = .ok k ↔
      ∃ secret, data.privateKeys.find? req.variableId = some secret ∧
        Curve.Key.ofSecret secret = .ok k := by
  unfold privateKey
  cases data.privateKeys.find? req.variableId <;> simp

/-- A transaction is signed with the bytecode of the locking script. -/
theorem message_eq_ok {req : Request} {data : Data} {alg : Algorithm} {m : Message} :
    message req data (text "signature") alg.name = .ok m ↔
      ∃ tx covered, data.transaction = some tx ∧ req.covered = some covered ∧
        ⟨hash256 (Signing.serialize tx covered alg), some alg.hashType⟩ = m := by
  unfold message
  simp [except_bind_eq_ok, demand_eq_ok, pure, Except.pure]

theorem signature_eq_ok {signer : Curve.Signer} {req : Request} {data : Data} {b : Bytes} :
    (signature signer req data).value = .ok b ↔
      ∃ t, task req data = .ok t ∧ t.bytes signer = .ok b := by
  unfold signature
  cases ht : task req data with
  | error f => simp [Logged.silent]
  | ok t => cases hb : t.bytes signer <;> simp [Logged.silent, hb]

/-- What the default operation makes of a request for a signature of the transaction
that has not been made already. -/
theorem signature_transaction {signer : Curve.Signer} {req : Request} {data : Data}
    {alg : Algorithm} {b : Bytes} (kind : isKind req .key = true)
    (path : req.path = [text "signature", alg.name])
    (unsupplied : data.signatures.find? req.identifier = none)
    (h : (signature signer req data).value = .ok b) :
    ∃ tx covered secret key sig, data.transaction = some tx ∧ req.covered = some covered ∧
      data.privateKeys.find? req.variableId = some secret ∧
      Curve.Key.ofSecret secret = .ok key ∧
      (key.sign signer (hash256 (Signing.serialize tx covered alg))).value = .ok sig ∧
      sig ++ [alg.hashType] = b := by
  obtain ⟨t, ht, hb⟩ := signature_eq_ok.1 h
  unfold task at ht
  simp only [kind, path, unsupplied, except_bind_eq_ok] at ht
  obtain ⟨m, hm, key, hkey, hsign⟩ := ht
  obtain ⟨tx, covered, htx, hcovered, rfl⟩ := message_eq_ok.1 hm
  obtain ⟨secret, hsecret, hof⟩ := privateKey_eq_ok.1 hkey
  obtain rfl := Except.ok.inj hsign
  obtain ⟨sig, hsig, hbytes⟩ := except_map_eq_ok.1 hb
  exact ⟨tx, covered, secret, key, sig, htx, hcovered, hsecret, hof, hsig, hbytes⟩

end Operation

namespace Context

theorem resolveIdentifier_variable {ctx : Context} {p : Place} {name : Bytes} {range : Range}
    {access : Access} {r : Resolved} (h : Access.ofName? ctx.env name = some access)
    (hr : (resolveIdentifier ctx ctx.enter p name range).result = .ok r) :
    ∃ b, ctx.Accesses p name access b ∧ .bytecode name b range = r := by
  rw [resolveIdentifier_eq_ok] at hr
  cases hm : Meaning.ofName ctx.env name with
  | error cause => simp [hm] at hr
  | ok meaning =>
      obtain rfl := Meaning.eq_variable h hm
      simpa [hm] using hr

/-- Wherever the identifier of a transaction signature is resolved, in whatever script
that unlocks another and however deep, it becomes the signature of the transaction and
of the bytecode that the locking script has by itself. -/
theorem signature_covers_locking_script {ctx : Context} {signer : Curve.Signer}
    (calls : ctx.invoker = .sync) (defaults : ctx.env.operations = .default signer)
    {key : Bytes} {d : Variable} {alg : Algorithm}
    (plain : 0x2e ∉ key) (whole : ctx.env.definitions.find? (signatureName key alg) = none)
    (defined : ctx.env.definitions.find? key = some d) (kind : d.kind = .key)
    (unsupplied : ctx.data.signatures.find? (signatureName key alg) = none) {p : Place}
    {locking : Bytes} (unlocks : ctx.env.unlocks.find? p.script = some locking) {range : Range}
    {node : Resolved}
    (resolved : (resolve ctx ctx.enter p (.identifier (signatureName key alg) range)).result =
      .ok node) :
    ∃ covered tx secret k sig,
      (⟨ctx.env, ctx.options⟩ : Compiler).generate locking ctx.data = .ok covered ∧
      ctx.data.transaction = some tx ∧ ctx.data.privateKeys.find? key = some secret ∧
      Curve.Key.ofSecret secret = .ok k ∧
      (k.sign signer (hash256 (Signing.serialize tx covered alg))).value = .ok sig ∧
      node = .bytecode (signatureName key alg) (sig ++ [alg.hashType]) range := by
  rw [resolve] at resolved
  have haccess := Access.ofName?_signatureName plain whole defined
  obtain ⟨b, haccesses, hnode⟩ := resolveIdentifier_variable haccess resolved
  obtain ⟨cap, own, signed, hcap, hcovers, hsigns, hb⟩ := haccesses
  -- the operation is the default one for signatures
  rw [Access.capability?_ofSignature kind] at hcap
  obtain rfl := Option.some.inj hcap
  rw [calls, defaults] at hb
  -- the covered script is the one that is unlocked, and compiles to the same by itself
  rw [Covers, if_pos (Access.needsCovered_ofSignature kind unsupplied)] at hcovers
  obtain ⟨_, covered, hlocking, hrefers, rfl⟩ := hcovers
  obtain rfl := Option.some.inj (unlocks.symm.trans hlocking)
  have hgenerate : (⟨ctx.env, ctx.options⟩ : Compiler).generate locking ctx.data = .ok covered := by
    have hgives := hrefers.compile false
    rw [Compiler.generate_eq_ok, Compiler.context, ← calls]
    exact hgives
  have hkind : Operation.isKind ((Access.ofSignature key d alg).request (signatureName key alg)
      p.script (some covered) signed) .key = true := by
    simp [Operation.isKind, Access.request, Access.ofSignature, kind]
  obtain ⟨tx, _, secret, k, sig, htx, hcovered, hsecret, hk, hsig, hbytes⟩ :=
    Operation.signature_transaction hkind rfl unsupplied hb
  obtain rfl := Option.some.inj hcovered
  refine ⟨covered, tx, secret, k, sig, hgenerate, htx, hsecret, hk, hsig, ?_⟩
  rw [← hnode, ← hbytes]

theorem signature_covers_locking_script_in_evaluation :
    let ctx : Context := ⟨lockedByOwner, dataOfOwner, {}, .sync, false⟩
    let name := signatureName (text "owner") .noOutputsSingleInput
    let p : Place := ⟨[text "spend"], text "unlock", 1, 2⟩
    ∃ node, (resolve ctx ctx.enter p (.identifier name {})).result = .ok node ∧
      ∃ covered tx secret k sig,
        (⟨ctx.env, ctx.options⟩ : Compiler).generate (text "lock") ctx.data = .ok covered ∧
        ctx.data.transaction = some tx ∧ ctx.data.privateKeys.find? (text "owner") = some secret ∧
        Curve.Key.ofSecret secret = .ok k ∧
        (k.sign .deterministic
          (hash256 (Signing.serialize tx covered .noOutputsSingleInput))).value = .ok sig ∧
        node = .bytecode name (sig ++ [0xc2]) {} := by
  intro ctx name p
  have given : (resolve ctx ctx.enter p (.identifier name {})).result.toOption.isSome = true := by
    decide +kernel
  have defined : ctx.env.definitions.find? (text "owner") = some { kind := .key } := by
    decide +kernel
  have unlocks : ctx.env.unlocks.find? p.script = some (text "lock") := by decide +kernel
  obtain ⟨node, resolved⟩ := except_isSome_iff.1 given
  refine ⟨node, resolved, ?_⟩
  exact signature_covers_locking_script rfl rfl (by decide +kernel) (by decide +kernel) defined
    rfl (by decide +kernel) unlocks resolved

end Context

end AuthScript
