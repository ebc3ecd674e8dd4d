import AuthScript.Proofs.Component
import AuthScript.Proofs.Coverage
import AuthScript.Proofs.Noninterference
import AuthScript.Proofs.Reading

/-!
# Identifiers of key variables

`k.public_key` stands for the public key of a key variable `k`, and `k.data_signature.m` for a
signature of the bytecode of the script `m`. Such an identifier belongs to `k` if neither `k`
nor `m` has a dot and the environment has no other meaning for the identifier
(`Environment.Unused`).

With the default operations, what the two stand for is a matter of the data and, for the
signature, of what `m` compiles to where the identifier stands (`denotes_publicKeyName`,
`denotes_dataSignatureName`). `k.public_key_hash` stands for the digest of what `k.public_key`
stands for (`denotes_publicKeyHashName`).
-/

namespace AuthScript

/-- The identifier of a signature of a script as data. -/
def dataSignatureName (key script : Bytes) : Bytes :=
  key ++ 0x2e :: (text "data_signature" ++ 0x2e :: script)

/-- The environment has no meaning of its own for an identifier. -/
structure Environment.Unused (env : Environment) (name : Bytes) : Prop where
  opcode : env.opcodes.find? name = none
  script : env.scripts.contains name = false
  whole : env.definitions.find? name = none

/-! ## Segments -/

namespace Token

/-- A name that an identifier can have as a segment. -/
def Segment (name : Bytes) : Prop :=
  ∃ c more, name = c :: more ∧ startsIdentifier c = true ∧ ∀ d ∈ more, inIdentifier d = true

namespace Segment

variable {name : Bytes} (h : Segment name)

include h

theorem inIdentifier_of_mem : ∀ c ∈ name, inIdentifier c = true := by
  obtain ⟨c, more, rfl, start, inside⟩ := h
  refine List.forall_mem_cons.2 ⟨?_, inside⟩
  rw [inIdentifier, start, Bool.true_or]

theorem plain : 0x2e ∉ name := fun dot =>
  absurd (h.inIdentifier_of_mem 0x2e dot) (by decide)

theorem continues : name.head?.any inIdentifier = true := by
  have inside := h.inIdentifier_of_mem
  obtain ⟨c, more, rfl, _⟩ := h
  exact inside c List.mem_cons_self

/-- A segment is a word by itself, -/
theorem word : Word ⟨.identifier, name, {}⟩ := by
  obtain ⟨c, more, rfl, start, inside⟩ := h
  exact ⟨⟨c, more, rfl, .identifier start (dotted_of_inIdentifier inside)⟩, rfl⟩

/-- and in front of others. -/
theorem word_dotted {rest : Bytes} (continues : rest.head?.any inIdentifier = true)
    (dotted : Dotted rest) : Word ⟨.identifier, name ++ 0x2e :: rest, {}⟩ := by
  obtain ⟨c, more, rfl, start, inside⟩ := h
  exact ⟨⟨c, _, rfl, .identifier start (dotted_append inside continues dotted)⟩, rfl⟩

end Segment

end Token

/-! ## Accesses -/

/-- The access of a key variable along a path. -/
def Access.ofKey (key : Bytes) (d : Variable) (path : List Bytes) : Access := ⟨key, path, some d⟩

/-- An identifier of a key variable that has no other meaning means that variable. -/
theorem Meaning.ofName_ofKey {env : Environment} {key rest : Bytes} {d : Variable}
    (plain : 0x2e ∉ key) (defined : env.definitions.find? key = some d)
    (unused : env.Unused (key ++ 0x2e :: rest)) :
    ofName env (key ++ 0x2e :: rest) =
      .ok (.variable_ (.ofKey key d (Bytes.pieces 0x2e rest))) := by
  have access := Access.ofName?_of_head plain unused.whole defined
  simp only [ofName, unused.opcode, unused.script, access]
  rfl

namespace Access

variable {key : Bytes} {d : Variable} (kind : d.kind = .key)

theorem needsCovered_eq_false {access : Access} {data : Data} {name : Bytes}
    (unsigned : access.signsTransaction = false) (defined : access.definition.isSome = true) :
    access.needsCovered data name = false := by
  have own : access.readsCovered = false := by
    rw [readsCovered, ← Option.not_isSome, defined]
    rfl
  rw [needsCovered, unsigned, own]
  rfl

/-- An access signs nothing unless the capability for signatures serves it. -/
theorem signsTransaction_eq_false {access : Access} {cap : Capability}
    (serves : access.capability? = some cap) (other : cap ≠ .signature) :
    access.signsTransaction = false := by
  rw [signsTransaction, serves]
  simp [other]

theorem signedScript?_eq_none {access : Access} {cap : Capability}
    (serves : access.capability? = some cap) (other : cap ≠ .signature) :
    access.signedScript? = none := by
  rw [signedScript?, serves]
  simp [other]

include kind

theorem capability?_publicKey : (ofKey key d [text "public_key"]).capability? = some .key := by
  simp [capability?, ofKey, kind]

theorem capability?_publicKeyHash :
    (ofKey key d [text "public_key_hash"]).capability? = some .hash := by
  have other : text "public_key_hash" ≠ text "public_key" := by decide
  simp [capability?, ofKey, kind, other]

theorem capability?_dataSignature (script : Bytes) :
    (ofKey key d [text "data_signature", script]).capability? = some .signature := by
  have other : text "data_signature" ≠ text "public_key" := by decide
  have hash : text "data_signature" ≠ text "public_key_hash" := by decide
  simp [capability?, ofKey, kind, other, hash]

theorem signsTransaction_dataSignature (script : Bytes) :
    (ofKey key d [text "data_signature", script]).signsTransaction = false := by
  have other : text "data_signature" ≠ text "signature" := by decide
  rw [signsTransaction, capability?_dataSignature kind]
  simp [ofKey, other]

theorem signedScript?_dataSignature (script : Bytes) :
    (ofKey key d [text "data_signature", script]).signedScript? = some script := by
  rw [signedScript?, capability?_dataSignature kind]
  rfl

end Access

/-! ## What they stand for -/

/-- The data hold the private key of a variable. -/
def Data.HasKey (data : Data) (name : Bytes) (key : Curve.Key) : Prop :=
  ∃ secret, data.privateKeys.find? name = some secret ∧ Curve.Key.ofSecret secret = .ok key

namespace Operation

variable {signer : Curve.Signer} {req : Request} {data : Data} {b : Bytes}

theorem publicKeyOf_eq_ok :
    publicKeyOf req data = .ok b ↔
      data.publicKeys.find? req.variableId = some b ∨
        data.publicKeys.find? req.variableId = none ∧
          ∃ key, data.HasKey req.variableId key ∧ key.compressed = b := by
  unfold publicKeyOf
  cases data.publicKeys.find? req.variableId with
  | some supplied => simp
  | none => simp [except_map_eq_ok, privateKey_eq_ok, Data.HasKey]

theorem publicKey_eq_ok (kind : isKind req .key = true) (path : req.path = [text "public_key"]) :
    (publicKey req data).value = .ok b ↔ publicKeyOf req data = .ok b := by
  unfold publicKey
  rw [quiet_eq_ok]
  simp only [publicKeyBytes, kind, path, decide_true, Bool.and_self, if_true]

theorem hash_publicKey_eq_ok (kind : isKind req .key = true)
    (path : req.path = [text "public_key_hash"]) :
    (hash req data).value = .ok b ↔ ∃ v, publicKeyOf req data = .ok v ∧ hash160 v = b := by
  unfold hash
  rw [quiet_eq_ok]
  simp only [hashBytes, kind, path, decide_true, Bool.and_self, if_true, except_map_eq_ok]

/-- A script is signed as data by the digest of its bytecode. -/
theorem signature_data (kind : isKind req .key = true) {script : Bytes}
    (path : req.path = [text "data_signature", script])
    (unsupplied : data.signatures.find? req.identifier = none) {signed : Bytes}
    (hsigned : req.signed = some signed) :
    (signature signer req data).value = .ok b ↔
      ∃ key, data.HasKey req.variableId key ∧
        (key.sign signer (sha256 signed)).value = .ok b := by
  have other : text "data_signature" ≠ text "signature" := by decide
  have hmessage : message req data (text "data_signature") script =
      .ok ⟨sha256 signed, none⟩ := by
    rw [message, if_neg other, if_pos rfl, hsigned]
  have htask : ∀ t, task req data = .ok t ↔
      ∃ key, data.HasKey req.variableId key ∧ .sign key ⟨sha256 signed, none⟩ = t := by
    intro t
    unfold task
    simp only [kind, path, unsupplied, hmessage, except_bind_eq_ok, privateKey_eq_ok]
    constructor
    · rintro ⟨m, hm, key, held, ht⟩
      obtain rfl := Except.ok.inj hm
      exact ⟨key, held, Except.ok.inj ht⟩
    · rintro ⟨key, held, rfl⟩
      exact ⟨_, rfl, key, held, rfl⟩
  have bytes : ∀ key : Curve.Key, (Task.sign key ⟨sha256 signed, none⟩).bytes signer = .ok b ↔
      (key.sign signer (sha256 signed)).value = .ok b := by
    intro key
    simp [Task.bytes]
  rw [signature_eq_ok]
  constructor
  · rintro ⟨t, ht, hb⟩
    obtain ⟨key, held, rfl⟩ := (htask t).1 ht
    exact ⟨key, held, (bytes key).1 hb⟩
  · rintro ⟨key, held, hb⟩
    exact ⟨_, (htask _).2 ⟨key, held, rfl⟩, (bytes key).2 hb⟩

theorem isKind_ofKey {name : Bytes} {d : Variable} (kind : d.kind = .key) {path : List Bytes}
    {identifier script : Bytes} {covered signed : Option Bytes} :
    isKind ((Access.ofKey name d path).request identifier script covered signed) .key = true := by
  simp [isKind, Access.request, Access.ofKey, kind]

end Operation

namespace Context

variable {ctx : Context} {signer : Curve.Signer} (calls : ctx.invoker = .sync)
  (defaults : ctx.env.operations = .default signer) {p : Place} {key b : Bytes} {d : Variable}
  (plain : 0x2e ∉ key)
  (defined : ctx.env.definitions.find? key = some d) (kind : d.kind = .key)

include calls defaults plain defined

/-- An identifier of a key variable that is not for a signature stands for what the operation
gives. -/
theorem denotes_ofKey {segment : Bytes} (plainSegment : 0x2e ∉ segment)
    (unused : ctx.env.Unused (key ++ 0x2e :: segment)) {cap : Capability}
    (serves : (Access.ofKey key d [segment]).capability? = some cap) (other : cap ≠ .signature)
    {P : Prop}
    (made : ∀ covered signed, (Invoker.sync.operation (.default signer) cap
      ((Access.ofKey key d [segment]).request (key ++ 0x2e :: segment) p.script covered signed)
        ctx.data).value = .ok b ↔ P) :
    ctx.Denotes p (key ++ 0x2e :: segment) b ↔ P := by
  have access : Meaning.ofName ctx.env (key ++ 0x2e :: segment) =
      .ok (.variable_ (.ofKey key d [segment])) := by
    have own := Meaning.ofName_ofKey plain defined unused
    rwa [Bytes.pieces_of_plain plainSegment] at own
  have uncovered : (Access.ofKey key d [segment]).needsCovered ctx.data
      (key ++ 0x2e :: segment) = false :=
    Access.needsCovered_eq_false (Access.signsTransaction_eq_false serves other) rfl
  unfold Denotes
  rw [access]
  simp only [Accesses, Covers, uncovered, Signs, Access.signedScript?_eq_none serves other, serves,
    Option.some.injEq, calls, defaults]
  constructor
  · rintro ⟨_, covered, signed, rfl, _, _, hb⟩
    exact (made covered signed).1 hb
  · intro hb
    exact ⟨cap, none, none, rfl, rfl, rfl, (made none none).2 hb⟩

include kind

/-- The identifier of a public key stands for the one that is supplied, or else for that of
the private key. -/
theorem denotes_publicKeyName (unused : ctx.env.Unused (publicKeyName key)) :
    ctx.Denotes p (publicKeyName key) b ↔
      ctx.data.publicKeys.find? key = some b ∨
        ctx.data.publicKeys.find? key = none ∧
          ∃ k, ctx.data.HasKey key k ∧ k.compressed = b := by
  refine denotes_ofKey calls defaults plain defined (by decide) unused
    (Access.capability?_publicKey kind) (by decide) fun _ _ => ?_
  exact (Operation.publicKey_eq_ok (Operation.isKind_ofKey kind) rfl).trans
    Operation.publicKeyOf_eq_ok

/-- The identifier of the digest of a public key stands for the digest of that key. -/
theorem denotes_publicKeyHashName (unused : ctx.env.Unused (publicKeyName key))
    (unused' : ctx.env.Unused (publicKeyHashName key)) :
    ctx.Denotes p (publicKeyHashName key) b ↔
      ∃ v, ctx.Denotes p (publicKeyName key) v ∧ hash160 v = b := by
  have hashed : ∀ v, ctx.Denotes p (publicKeyName key) v ↔
      ctx.data.publicKeys.find? key = some v ∨ ctx.data.publicKeys.find? key = none ∧
        ∃ k, ctx.data.HasKey key k ∧ k.compressed = v :=
    fun _ => denotes_publicKeyName calls defaults plain defined kind unused
  simp only [hashed]
  refine denotes_ofKey calls defaults plain defined (by decide) unused'
    (Access.capability?_publicKeyHash kind) (by decide) fun _ _ => ?_
  refine (Operation.hash_publicKey_eq_ok (Operation.isKind_ofKey kind) rfl).trans ?_
  exact exists_congr fun _ => and_congr_left' Operation.publicKeyOf_eq_ok

/-- The identifier of a signature of a script stands for the signature of what the script
compiles to there. -/
theorem denotes_dataSignatureName {script : Bytes} (plainScript : 0x2e ∉ script)
    (unused : ctx.env.Unused (dataSignatureName key script))
    (unsupplied : ctx.data.signatures.find? (dataSignatureName key script) = none) :
    ctx.Denotes p (dataSignatureName key script) b ↔
      ctx.env.scripts.contains script = true ∧ ∃ message, ctx.Refers p script message ∧
        ∃ k, ctx.data.HasKey key k ∧ (k.sign signer (sha256 message)).value = .ok b := by
  have mark : (0x2e : UInt8) ∉ text "data_signature" := by decide
  have access : Meaning.ofName ctx.env (dataSignatureName key script) =
      .ok (.variable_ (.ofKey key d [text "data_signature", script])) := by
    have own := Meaning.ofName_ofKey plain defined unused
    rwa [Bytes.pieces_append mark, Bytes.pieces_of_plain plainScript] at own
  have uncovered : (Access.ofKey key d [text "data_signature", script]).needsCovered ctx.data
      (dataSignatureName key script) = false :=
    Access.needsCovered_eq_false (Access.signsTransaction_dataSignature kind script) rfl
  have served : ctx.invoker.operation ctx.env.operations .signature =
      Operation.signature signer := by
    rw [calls, defaults]
    rfl
  have made : ∀ covered message, (Operation.signature signer ((Access.ofKey key d
      [text "data_signature", script]).request (dataSignatureName key script) p.script covered
        (some message)) ctx.data).value = .ok b ↔
      ∃ k, ctx.data.HasKey key k ∧ (k.sign signer (sha256 message)).value = .ok b :=
    fun _ _ => Operation.signature_data (Operation.isKind_ofKey kind) rfl unsupplied rfl
  unfold Denotes
  rw [access]
  simp only [Accesses, Covers, uncovered, Signs, Access.signedScript?_dataSignature kind,
    Access.capability?_dataSignature kind, Option.some.injEq]
  constructor
  · rintro ⟨_, covered, _, rfl, _, ⟨known, message, hrefers, rfl⟩, hb⟩
    rw [served] at hb
    exact ⟨known, message, hrefers, (made covered message).1 hb⟩
  · rintro ⟨known, message, hrefers, hb⟩
    refine ⟨.signature, none, some message, rfl, rfl, ⟨known, message, hrefers, rfl⟩, ?_⟩
    rw [served]
    exact (made none message).2 hb

end Context

end AuthScript
