import AuthScript.Proofs.Comparison
import AuthScript.Proofs.Thresholds

/-!
# What a compilation reads of its data

An identifier belongs to a variable, and the default operations look for values under the
id of that variable only; a private key is looked at only where a signature is made or
there is no public key. So a compilation does the same, log lines and errors included,
with all data that agree for the identifiers in the scripts which it enters.

The scripts are those that one of the two compilations enters. That the other one enters
the same is part of the result.
-/

namespace AuthScript

/-- Two data agree in all that a request reads. The private key counts unless the request
has a single segment, as those for a public key have, and there is a public key. -/
structure Data.AgreeFor (data data' : Data) (req : Request) : Prop where
  privateKey : (req.path.length = 1 → data.publicKeys.find? req.variableId = none) →
    data'.privateKeys.find? req.variableId = data.privateKeys.find? req.variableId
  publicKey : data'.publicKeys.find? req.variableId = data.publicKeys.find? req.variableId
  signature : data'.signatures.find? req.identifier = data.signatures.find? req.identifier
  walletData : data'.walletData.find? req.variableId = data.walletData.find? req.variableId
  addressData : data'.addressData.find? req.variableId = data.addressData.find? req.variableId
  blockHeight : data'.currentBlockHeight = data.currentBlockHeight
  blockTime : data'.currentBlockTime = data.currentBlockTime
  transaction : data'.transaction = data.transaction

/-- Two data differ at most in the values of one variable. Signatures that have been made
already are no values of a variable. -/
structure Data.AgreeExcept (data data' : Data) (v : Bytes) : Prop where
  privateKeys : ∀ id ≠ v, data'.privateKeys.find? id = data.privateKeys.find? id
  publicKeys : ∀ id ≠ v, data'.publicKeys.find? id = data.publicKeys.find? id
  walletData : ∀ id ≠ v, data'.walletData.find? id = data.walletData.find? id
  addressData : ∀ id ≠ v, data'.addressData.find? id = data.addressData.find? id
  signatures : data'.signatures = data.signatures
  blockHeight : data'.currentBlockHeight = data.currentBlockHeight
  blockTime : data'.currentBlockTime = data.currentBlockTime
  transaction : data'.transaction = data.transaction

theorem Data.AgreeExcept.agreeFor {data data' : Data} {v : Bytes} (h : data.AgreeExcept data' v)
    {req : Request} (other : req.variableId ≠ v) : data.AgreeFor data' req where
  privateKey _ := h.privateKeys _ other
  publicKey := h.publicKeys _ other
  signature := by rw [h.signatures]
  walletData := h.walletData _ other
  addressData := h.addressData _ other
  blockHeight := h.blockHeight
  blockTime := h.blockTime
  transaction := h.transaction

/-! ## Operations -/

namespace Operation

variable {data data' : Data} {req : Request}

theorem privateKey_congr
    (h : data'.privateKeys.find? req.variableId = data.privateKeys.find? req.variableId) :
    privateKey req data' = privateKey req data := by
  simp only [privateKey, h]

/-- The private key is not looked at if there is a public one. -/
theorem publicKeyOf_congr (h : data.AgreeFor data' req) :
    publicKeyOf req data' = publicKeyOf req data := by
  unfold publicKeyOf
  rw [h.publicKey]
  cases hkey : data.publicKeys.find? req.variableId with
  | some key => rfl
  | none => rw [privateKey_congr (h.privateKey fun _ => hkey)]

theorem publicKeyBytes_congr (h : data.AgreeFor data' req) :
    publicKeyBytes req data' = publicKeyBytes req data := by
  simp only [publicKeyBytes, publicKeyOf_congr h]

theorem hashBytes_congr (h : data.AgreeFor data' req) :
    hashBytes req data' = hashBytes req data := by
  simp only [hashBytes, publicKeyOf_congr h, h.transaction]

theorem message_congr (h : data.AgreeFor data' req) (kind target : Bytes) :
    message req data' kind target = message req data kind target := by
  simp only [message, h.transaction]

theorem task_congr (h : data.AgreeFor data' req) : task req data' = task req data := by
  unfold task
  split
  · rename_i kind target _ hpath
    have several : req.path.length = 1 → data.publicKeys.find? req.variableId = none := by
      simp [hpath]
    rw [h.signature, message_congr h, privateKey_congr (h.privateKey several)]
  · rfl

theorem walletDataBytes_congr (h : data.AgreeFor data' req) :
    walletDataBytes req data' = walletDataBytes req data := by
  unfold walletDataBytes
  split
  · rfl
  · split
    · simp only [bind, Except.bind, h.walletData]
    · split
      · simp only [bind, Except.bind, h.addressData]
      · rfl

theorem transactionContextBytes_congr (h : data.AgreeFor data' req) :
    transactionContextBytes req data' = transactionContextBytes req data := by
  unfold transactionContextBytes
  rw [h.blockHeight, h.blockTime, h.transaction]

theorem quiet_congr {f : Request → Data → Except Fault Bytes} (h : f req data' = f req data) :
    quiet f req data' = quiet f req data := by
  simp only [quiet, h]

theorem signature_congr (signer : Curve.Signer) (h : data.AgreeFor data' req) :
    signature signer req data' = signature signer req data := by
  simp only [signature, task_congr h]

end Operation

/-- The default operations do the same where the data agree for a request. -/
theorem Invoker.operation_congr {data data' : Data} {req : Request}
    (h : data.AgreeFor data' req) (signer : Curve.Signer) (cap : Capability) :
    sync.operation (.default signer) cap req data' =
      sync.operation (.default signer) cap req data := by
  cases cap with
  | key => exact Operation.quiet_congr (Operation.publicKeyBytes_congr h)
  | signature => exact Operation.signature_congr signer h
  | hash => exact Operation.quiet_congr (Operation.hashBytes_congr h)
  | walletData => exact Operation.quiet_congr (Operation.walletDataBytes_congr h)
  | transactionContext => exact Operation.quiet_congr (Operation.transactionContextBytes_congr h)
  | scriptComposition => rfl

/-! ## Runs -/

/-- If all the places that the first run enters have a property, the second run is the
same, whether it succeeds or fails. -/
def Run.sameWithin (S : Place → Prop) : Run.Comparison where
  Rel r r' := (∀ q, .entry q ∈ r.events → S q) → r' = r
  done _ := fun _ => rfl
  refl _ := fun _ => rfl
  bind := by
    intro α β r r' f f' hr hf entries
    obtain rfl := hr fun q hq => entries q (Run.mem_events_bind.2 (.inl hq))
    refine Link.equal.bind rfl fun a ha _ => hf a ha ha fun q hq => ?_
    exact entries q (Run.mem_events_bind.2 (.inr ⟨a, ha, hq⟩))
  within := by
    intro α r r' hr id entries
    rw [Run.events_within] at entries
    rw [hr entries]

namespace Context

variable {ctx : Context} {signer : Curve.Signer} {data' : Data}

/-- The identifiers in the scripts that a compilation enters. -/
def identifiers (ctx : Context) (root : Bytes) : List Bytes :=
  (Event.entries (ctx.compile root).events).flatMap fun q => Node.namesAll (ctx.nodesAt q)

theorem mem_identifiers {root name : Bytes} {q : Place} {nodes : List Node}
    (hq : .entry q ∈ (ctx.compile root).events)
    (program : ctx.env.program? ctx.options q.script = some nodes)
    (hname : name ∈ Node.namesAll nodes) : name ∈ ctx.identifiers root := by
  refine List.mem_flatMap.2 ⟨q, Event.mem_entries.2 hq, ?_⟩
  rw [nodesAt_eq program]
  exact hname

/-- The default operations give what is asked for an identifier alike with two data. -/
def Alike (ctx : Context) (data' : Data) (name : Bytes) : Prop :=
  ∀ access, Meaning.ofName ctx.env name = .ok (.variable_ access) →
    ∀ script covered signed, ctx.data.AgreeFor data' (access.request name script covered signed)

/-- Two contexts compare in all their parts if their data agree for the identifiers in the
scripts with a property. -/
theorem compared_data (calls : ctx.invoker = .sync)
    (defaults : ctx.env.operations = .default signer)
    (signatures : data'.signatures = ctx.data.signatures) {S : Bytes → Prop}
    (alike : ∀ script nodes, S script → ctx.env.program? ctx.options script = some nodes →
      ∀ name ∈ Node.namesAll nodes, ctx.Alike data' name) :
    Compared (Run.sameWithin fun q => S q.script) S ctx { ctx with data := data' } where
  options := rfl
  digits := rfl
  source h := h
  missing := by
    intro p hp
    have hp' : (Context.env { ctx with data := data' }).scripts.contains p.script = false := hp
    rw [enter_missing hp, enter_missing hp']
    exact (Run.sameWithin _).refl _
  entry := by
    intro α p r r' h entries
    have here : S p.script :=
      entries p (Run.mem_events_bind.2 (.inl (List.mem_singleton_self _)))
    rw [h here fun q hq => entries q (Run.mem_events_bind.2 (.inr ⟨(), rfl, hq⟩))]
  identifier := by
    intro p nodes name range hS program hname hr
    have agree : ctx.AgreeOn { ctx with data := data' } p.script name := by
      refine ⟨rfl, fun access => ?_, rfl, fun _ _ _ _ => rfl⟩
      simp only [Access.needsCovered, signatures]
    refine resolveIdentifier_linked_of_agree (Run.sameWithin _).keepsRefusals rfl agree ?_ ?_
      fun t _ => hr t
    · intro kind b
      exact (Run.sameWithin _).refl _
    · intro access cap covered signed hm _ _
      have same := Invoker.operation_congr
        (alike p.script nodes hS program name hname access hm p.script covered signed) signer cap
      simp only [invoke, calls, defaults, same]
  recordPush p node range := (Run.sameWithin _).refl _
  finish p children range := (Run.sameWithin _).refl _

/-- A compilation is the same run with all data that agree for the identifiers it meets. -/
theorem compile_data (calls : ctx.invoker = .sync) (defaults : ctx.env.operations = .default signer)
    (signatures : data'.signatures = ctx.data.signatures) {root : Bytes}
    (alike : ∀ name ∈ ctx.identifiers root, ctx.Alike data' name) :
    compile { ctx with data := data' } root = ctx.compile root := by
  let S : Bytes → Prop := fun script => ∃ q, .entry q ∈ (ctx.compile root).events ∧
    q.script = script
  have compared : Compared (Run.sameWithin fun q => S q.script) S ctx
      { ctx with data := data' } := by
    refine compared_data calls defaults signatures ?_
    rintro _ nodes ⟨q, hq, rfl⟩ program name hname
    exact alike name (mem_identifiers hq program hname)
  exact compared.enter { script := root } fun q hq => ⟨q, hq, rfl⟩

end Context

/-! ## Variables -/

/-- The identifier of the public key of a variable, and that of its digest. -/
def publicKeyName (v : Bytes) : Bytes := v ++ text ".public_key"

def publicKeyHashName (v : Bytes) : Bytes := v ++ text ".public_key_hash"

/-- A public key and its digest are one segment below their variable. -/
theorem Access.path_of_publicKey {env : Environment} {name v : Bytes} {access : Access}
    (h : ofName? env name = some access) (belongs : access.variableId = v)
    (hname : name = publicKeyName v ∨ name = publicKeyHashName v) : access.path.length = 1 := by
  have hkey : publicKeyName v = v ++ 0x2e :: text "public_key" := rfl
  have hhash : publicKeyHashName v = v ++ 0x2e :: text "public_key_hash" := rfl
  rcases ofName?_variableId h with ⟨own, _⟩ | ⟨first, path⟩
  · -- the identifier is longer than the id
    rw [belongs] at own
    have longer : v.length < name.length := by
      rcases hname with rfl | rfl
      · simp [hkey]
      · simp [hhash]
    rw [own] at longer
    exact absurd longer (Nat.lt_irrefl _)
  · have plain : 0x2e ∉ v := belongs.symm.trans first ▸ plain_head name
    rw [path]
    rcases hname with rfl | rfl
    · rw [hkey, segments_dotted plain]
      rfl
    · rw [hhash, segments_dotted plain]
      rfl

theorem Data.agreeExcept_assign (data : Data) (v : Bytes) (secret : Option Bytes) :
    data.AgreeExcept { data with privateKeys := data.privateKeys.assign v secret } v :=
  ⟨fun _ other => by simp [other], fun _ _ => rfl, fun _ _ => rfl, fun _ _ => rfl, rfl, rfl, rfl,
    rfl⟩

namespace Context

variable {ctx : Context} {name v : Bytes}

/-- Data that differ in a variable which an identifier does not name agree for it. -/
theorem alike_of_unnamed {data' : Data} (agree : ctx.data.AgreeExcept data' v)
    (unnamed : name ≠ v ∧ Access.head name ≠ v) : ctx.Alike data' name := by
  intro access hm script covered signed
  have other : access.variableId ≠ v := by
    rcases Access.ofName?_variableId (Meaning.ofName_variable hm) with ⟨id, _⟩ | ⟨id, _⟩
    · exact id ▸ unnamed.1
    · exact id ▸ unnamed.2
  exact agree.agreeFor other

/-- With a public key, the private one does not count for identifiers of the public key and
of its digest. -/
theorem alike_of_publicKey (supplied : ctx.data.publicKeys.contains v = true)
    (onlyPublic : name = v ∨ Access.head name = v →
      name = publicKeyName v ∨ name = publicKeyHashName v) (secret : Option Bytes) :
    ctx.Alike { ctx.data with privateKeys := ctx.data.privateKeys.assign v secret } name := by
  obtain ⟨key, hkey⟩ := (Table.contains_iff_find? _ _).1 supplied
  intro access hm script covered signed
  have haccess := Meaning.ofName_variable hm
  by_cases belongs : access.variableId = v
  · have named : name = v ∨ Access.head name = v := by
      rcases Access.ofName?_variableId haccess with ⟨id, _⟩ | ⟨id, _⟩
      · exact .inl (id.symm.trans belongs)
      · exact .inr (id.symm.trans belongs)
    have single : access.path.length = 1 :=
      Access.path_of_publicKey haccess belongs (onlyPublic named)
    -- a private key would be looked at only without a public key
    refine ⟨fun unsupplied => ?_, rfl, rfl, rfl, rfl, rfl, rfl, rfl⟩
    have missing : ctx.data.publicKeys.find? access.variableId = none := unsupplied single
    rw [belongs, hkey] at missing
    cases missing
  · exact (Data.agreeExcept_assign ctx.data v secret).agreeFor belongs

end Context

/-! ## Compilations -/

namespace Compiler

variable {c : Compiler} {signer : Curve.Signer} {root v : Bytes} {data : Data}

/-- A compilation does and tells the same with all data that agree for the identifiers it
meets. -/
theorem compile_data (defaults : c.env.operations = .default signer) {debug : Bool} {data' : Data}
    (signatures : data'.signatures = data.signatures)
    (alike : let ctx : Context := ⟨c.env, data, c.options, .sync, debug⟩
      ∀ name ∈ ctx.identifiers root, ctx.Alike data' name) :
    c.compile .sync debug root data' = c.compile .sync debug root data := by
  let ctx : Context := ⟨c.env, data, c.options, .sync, debug⟩
  have run : Context.compile { ctx with data := data' } root = ctx.compile root :=
    Context.compile_data rfl defaults signatures alike
  simp only [ctx] at run
  simp only [compile, run]

/-- The values of a variable do not count if no identifier that is met has the id of the
variable, or has it as its first segment. If there is a public key and only that key and
its digest are asked for, the private key does not count, and need not be there. -/
theorem generate_reads_named (defaults : c.env.operations = .default signer) (root v : Bytes)
    (data : Data) :
    let names := (c.context data).identifiers root
    (∀ data', data.AgreeExcept data' v →
        (∀ name ∈ names, name ≠ v ∧ Access.head name ≠ v) →
        c.generate root data' = c.generate root data) ∧
      (data.publicKeys.contains v = true →
        (∀ name ∈ names, name = v ∨ Access.head name = v →
          name = publicKeyName v ∨ name = publicKeyHashName v) →
        ∀ secret : Option Bytes,
          c.generate root { data with privateKeys := data.privateKeys.assign v secret } =
            c.generate root data) := by
  intro names
  constructor
  · intro data' agree unnamed
    have same : c.compile .sync false root data' = c.compile .sync false root data :=
      compile_data defaults agree.signatures fun name hname =>
        Context.alike_of_unnamed agree (unnamed name hname)
    rw [generate, generate, same]
  · intro supplied onlyPublic secret
    let data' : Data := { data with privateKeys := data.privateKeys.assign v secret }
    have same : c.compile .sync false root data' = c.compile .sync false root data :=
      compile_data defaults rfl fun name hname =>
        Context.alike_of_publicKey supplied (onlyPublic name hname) secret
    show (c.compile .sync false root data').value.result = c.generate root data
    rw [same, generate]

/-- A script that asks for a public key and a note, and a variable that it does not name. -/
theorem generate_reads_named_of_note :
    let c : Compiler :=
      { env := { lockedByOwner with
          definitions := .ofList [
            (text "owner", { kind := .key }), (text "heir", { kind := .key }), (text "note", {})]
          scripts := .ofList [(text "lock", text "<owner.public_key> <note>")] } }
    let data : Data :=
      { publicKeys := .ofList [(text "owner", [0x02, 0x2a])]
        walletData := .ofList [(text "note", [0x2b])] }
    let data' : Data :=
      { data with
        privateKeys := data.privateKeys.insert (text "heir") [0x01]
        publicKeys := data.publicKeys.insert (text "heir") [0x03]
        walletData := data.walletData.insert (text "heir") [0x2c] }
    data.AgreeExcept data' (text "heir") ∧
      c.generate (text "lock") data' = .ok [0x02, 0x02, 0x2a, 0x01, 0x2b] ∧
      ∀ secret, c.generate (text "lock")
          { data with privateKeys := data.privateKeys.assign (text "owner") secret } =
        .ok [0x02, 0x02, 0x2a, 0x01, 0x2b] := by
  intro c data data'
  have agree : data.AgreeExcept data' (text "heir") :=
    ⟨fun _ other => by simp [data', other], fun _ other => by simp [data', other],
      fun _ other => by simp [data', other], fun _ _ => rfl, rfl, rfl, rfl, rfl⟩
  have given : c.generate (text "lock") data = .ok [0x02, 0x02, 0x2a, 0x01, 0x2b] := by
    decide +kernel
  have unnamed : ∀ name ∈ (c.context data).identifiers (text "lock"),
      name ≠ text "heir" ∧ Access.head name ≠ text "heir" := by
    decide +kernel
  have onlyPublic : ∀ name ∈ (c.context data).identifiers (text "lock"),
      name = text "owner" ∨ Access.head name = text "owner" →
        name = publicKeyName (text "owner") ∨ name = publicKeyHashName (text "owner") := by
    decide +kernel
  refine ⟨agree, ?_, fun secret => ?_⟩
  · exact ((generate_reads_named rfl (text "lock") (text "heir") data).1 data' agree
      unnamed).trans given
  · exact ((generate_reads_named rfl (text "lock") (text "owner") data).2 rfl
      onlyPublic secret).trans given

end Compiler

end AuthScript
