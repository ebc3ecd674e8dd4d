import AuthScript.Proofs.KeyVariable
import AuthScript.Proofs.LowSignature
import AuthScript.Proofs.Operand
import AuthScript.Proofs.Step
import AuthScript.Proofs.Under

/-!
# Data signatures are accepted

The compiler signs a script as data by the digest of its bytecode, and the machine checks a
signature against the digest of an operand. A source that pushes the signature, the script and
the public key of a variable, in this order, and checks them therefore evaluates to true
(`generate_dataSignatureCheck`): both digests are those of the same bytes, since a script
compiles to the same wherever it is referred to.

Of signing it is needed only that the signature of this one digest holds for the public key.
The names must be those that the source is meant to have: a script with a dot in its name
cannot be signed as data, for the dot begins another segment.
-/

namespace AuthScript

open Machine

/-- A signature of a message is checked against the digest of the message, and the answer takes
the place of the three operands. -/
theorem Machine.step_checkDataSig {limits : Limits} {s : State}
    {publicKey message signature : Bytes} {rest : Stack}
    (stack : s.stack = publicKey :: message :: signature :: rest)
    (executing : s.isExecuting = true) (few : s.operations < limits.operations)
    (room : s.stack.length + s.alt.length ≤ limits.stackSize)
    (shaped : Curve.Signature.isShaped signature = true)
    (valid : Curve.Point.isPublicKey publicKey = true) :
    step limits s ⟨0xba, []⟩ =
      .ok { s with stack := ofBool (Stack.dataSigHolds signature message publicKey) :: rest,
                   operations := s.operations + 1, executed := s.executed + 1 } := by
  have action : Opcode.action 0xba = .checkDataSig false := rfl
  have checked : Stack.checkDataSig false s.stack =
      .ok (ofBool (Stack.dataSigHolds signature message publicKey) :: rest) := by
    rw [stack]
    simp [Stack.checkDataSig, shaped, valid]
  refine step_of_effect rfl (by decide) (fun t => ?_) executing few checked ?_
  · rw [action]
    rfl
  · rw [stack] at room
    simp only [List.length_cons] at room ⊢
    omega

/-- A check of identifiers that stand for a signature, a message and a public key evaluates to
true if the signature holds. -/
theorem Context.nodeYields_checkDataSig {ctx : Context} {p : Place} {names : List Bytes}
    {name message publicKey : Bytes} {sig : Curve.Signature}
    (machine : ctx.invoker.machine ctx.env = some (interpreter {}))
    (brackets : p.brackets + 1 < ctx.options.nestingDepth)
    (evaluations : p.evaluations < ctx.options.evaluationDepth)
    (denotes : List.Forall₂ (ctx.Denotes p.inBracket.inEvaluation.inBracket) names
      [sig.encode, message, publicKey])
    (opcode : Meaning.ofName ctx.env name = .ok (.opcode 0xba)) (short : message.length ≤ 520)
    (compressed : publicKey.length = 33)
    (holds : Curve.verify publicKey (sha256 message) sig.encode = true) :
    ctx.NodeYields p (.operation names name) [1] := by
  have fits : ∀ operand ∈ [sig.encode, message, publicKey], operand.length ≤ 520 := by
    refine List.forall_mem_cons.2 ⟨Nat.le_trans sig.length_encode.2 (by decide), ?_⟩
    refine List.forall_mem_cons.2 ⟨short, List.forall_mem_singleton.2 ?_⟩
    rw [compressed]
    decide
  have fits' : ∀ operand ∈ [sig.encode, message, publicKey],
      operand.length ≤ min Push.maxLength ({} : Limits).elementSize :=
    fun operand h => Nat.le_trans (fits operand h) (by decide)
  have size : (Push.program [sig.encode, message, publicKey] 0xba).length ≤ 10000 :=
    Nat.le_trans (Push.length_program_le 0xba fits (by decide))
      (Nat.le_of_ble_eq_true rfl : 3 * (520 + 5) + 1 ≤ 10000)
  have accepted : Stack.dataSigHolds sig.encode message publicKey = true := by
    rw [Stack.dataSigHolds, holds]
    rfl
  let s : State := { stack := [publicKey, message, sig.encode], executed := 3 }
  have few : s.operations < ({} : Limits).operations := Nat.succ_pos 200
  have room : s.stack.length + s.alt.length ≤ ({} : Limits).stackSize :=
    Nat.le_of_ble_eq_true rfl
  have checked := step_checkDataSig rfl rfl few room sig.isShaped_encode
    (Curve.isPublicKey_of_verify compressed holds)
  rw [accepted] at checked
  exact nodeYields_operation machine brackets evaluations denotes opcode ⟨by decide, by decide⟩
    fits' (Nat.le_of_ble_eq_true rfl) size checked rfl rfl

/-- The source that signs a script as data and checks the signature. -/
def dataSignatureCheck (key script : Bytes) : Bytes :=
  text "$(<" ++ key ++ text ".data_signature." ++ script ++ text "> <" ++ script ++ text "> <" ++
    key ++ text ".public_key> OP_CHECKDATASIG)"

theorem dataSignatureCheck_eq (key script : Bytes) :
    dataSignatureCheck key script =
      operationSource [dataSignatureName key script, script, publicKeyName key]
        (text "OP_CHECKDATASIG") := by
  have opening : text "$(<" = text "$(" ++ text "<" := rfl
  have between : text "> <" = text "> " ++ text "<" := rfl
  have signature : text ".data_signature." = 0x2e :: (text "data_signature" ++ [0x2e]) := rfl
  have closing : text ".public_key> OP_CHECKDATASIG)" = text ".public_key" ++
      (text "> " ++ (text "OP_CHECKDATASIG" ++ text ")")) := rfl
  unfold dataSignatureCheck operationSource dataSignatureName publicKeyName
  rw [opening, between, signature, closing]
  simp only [List.flatMap_cons, List.flatMap_nil, List.append_assoc, List.cons_append,
    List.nil_append, List.append_nil]

/-- The names in a check of a data signature mean what they say: the key variable and the
script have names of one segment, and the names made of these have no other meaning. -/
structure Environment.SignsData (env : Environment) (key : Bytes) (d : Variable)
    (script : Bytes) : Prop where
  defined : env.definitions.find? key = some d
  kind : d.kind = .key
  keySegment : Token.Segment key
  scriptSegment : Token.Segment script
  signature : env.Unused (dataSignatureName key script)
  message : Meaning.ofName env script = .ok .script
  publicKey : env.Unused (publicKeyName key)
  opcode : Meaning.ofName env (text "OP_CHECKDATASIG") = .ok (.opcode 0xba)

namespace Environment.SignsData

variable {env : Environment} {key script : Bytes} {d : Variable}
  (names : env.SignsData key d script)

include names

theorem words : ∀ operand ∈ [dataSignatureName key script, script, publicKeyName key],
    Token.Word ⟨.identifier, operand, {}⟩ := by
  have own : ∀ c ∈ text "data_signature", Token.inIdentifier c = true := List.all_eq_true.1 rfl
  have signature : Token.Word ⟨.identifier, dataSignatureName key script, {}⟩ := by
    refine names.keySegment.word_dotted rfl ?_
    exact Token.dotted_append own names.scriptSegment.continues
      (Token.dotted_of_inIdentifier names.scriptSegment.inIdentifier_of_mem)
  have publicKey : Token.Word ⟨.identifier, publicKeyName key, {}⟩ :=
    names.keySegment.word_dotted rfl (Token.dotted_of_inIdentifier (List.all_eq_true.1 rfl))
  refine List.forall_mem_cons.2 ⟨signature, ?_⟩
  exact List.forall_mem_cons.2 ⟨names.scriptSegment.word, List.forall_mem_singleton.2 publicKey⟩

/-- The check of a data signature is read as an operation on three identifiers. -/
theorem treeOf? {bounds : Tree.Bounds} (room : 2 ≤ bounds.brackets) :
    (Compiler.treeOf? bounds (dataSignatureCheck key script)).map Node.bareAll =
      some [.operation [dataSignatureName key script, script, publicKeyName key]
        (text "OP_CHECKDATASIG")] := by
  have opcode : Token.Segment (text "OP_CHECKDATASIG") :=
    ⟨0x4f, text "P_CHECKDATASIG", rfl, rfl, List.all_eq_true.1 rfl⟩
  rw [dataSignatureCheck_eq]
  exact Compiler.treeOf?_operation names.words opcode.word room

end Environment.SignsData

namespace Compiler

variable {c : Compiler} {data : Data} {root key script : Bytes} {d : Variable}

/-- The check of a data signature mentions the script that is signed. -/
theorem mentions_dataSignatureCheck (names : c.env.SignsData key d script)
    (source : c.env.scripts.find? root = some (dataSignatureCheck key script))
    (room : 2 ≤ c.options.nestingDepth) : (c.context data).Mentions root script := by
  have twice : 2 ≤ (c.env.bounds c.options).brackets := room
  obtain ⟨nodes, hread, hnodes⟩ := Option.map_eq_some_iff.1 (names.treeOf? twice)
  have program : (c.context data).env.program? c.options root = some nodes :=
    Environment.program?_eq_some.2 ⟨_, source, hread⟩
  have leads : (c.context data).LeadsTo root script script := by
    unfold Context.LeadsTo
    have message : Meaning.ofName (c.context data).env script = .ok .script := names.message
    rw [message]
  refine ⟨nodes, program, script, ?_, leads⟩
  rw [← Node.namesAll_bareAll, hnodes]
  simp [Node.operation, Node.namesAll, Node.names]

/-- A script that is signed as data by a key variable, pushed, and checked against the public
key of the variable evaluates to true, if the limits have room for one more reference, one more
evaluation and two more brackets than the script needs by itself. -/
theorem generate_dataSignatureCheck {signer : Curve.Signer} {message signature : Bytes}
    {k : Curve.Key} (defaults : c.env.operations = .default signer)
    (machine : c.env.machine = some (interpreter {}))
    (source : c.env.scripts.find? root = some (dataSignatureCheck key script))
    (names : c.env.SignsData key d script) (held : data.HasKey key k)
    (own : data.publicKeys.find? key = none)
    (unsupplied : data.signatures.find? (dataSignatureName key script) = none)
    (given : c.generate script data = .ok message) (short : message.length ≤ 520)
    (signed : (k.sign signer (sha256 message)).value = .ok signature)
    (holds : Curve.verify k.compressed (sha256 message) signature = true)
    (references : (c.context data).referencesNeeded script + 1 ≤ c.options.referenceDepth)
    (evaluations : (c.context data).evaluationsNeeded script + 1 ≤ c.options.evaluationDepth)
    (brackets : (c.context data).bracketsNeeded script + 2 ≤ c.options.nestingDepth) :
    c.generate root data = .ok [1] := by
  let ctx := c.context data
  let p : Place := { script := root }
  have twice : 2 ≤ c.options.nestingDepth := Nat.le_trans (Nat.le_add_left _ _) brackets
  have once : 1 ≤ c.options.evaluationDepth := Nat.le_trans (Nat.le_add_left _ _) evaluations
  have plain := names.keySegment.plain
  -- the script compiles to the same inside of the evaluation, for it does not lead back
  have hgives : ctx.Gives { script := script } message := generate_eq_ok.1 given
  have mentions : ctx.Mentions root script := mentions_dataSignatureCheck names source twice
  have unreached : ∀ u ∈ p.inBracket.inEvaluation.inBracket.chain,
      ¬ Relation.ReflTransGen ctx.Mentions script u := by
    intro u hu reached
    obtain rfl : u = root := List.mem_singleton.1 hu
    obtain ⟨compiled, hcompiled, _⟩ := hgives
    exact Context.not_cyclic ⟨compiled, hcompiled⟩ ⟨script, .refl, .tail' reached mentions⟩
  have hrefers : ctx.Refers p.inBracket.inEvaluation.inBracket script message :=
    hgives.refers_of_room references evaluations brackets unreached
  -- so that the three identifiers stand for the signature, the message and the public key
  have hsignature : ctx.Denotes p.inBracket.inEvaluation.inBracket
      (dataSignatureName key script) signature := by
    refine (Context.denotes_dataSignatureName rfl defaults plain names.defined names.kind
      names.scriptSegment.plain names.signature unsupplied).2 ?_
    exact ⟨Meaning.ofName_script names.message, message, hrefers, k, held, signed⟩
  have hmessage : ctx.Denotes p.inBracket.inEvaluation.inBracket script message := by
    have meaning : Meaning.ofName ctx.env script = .ok .script := names.message
    rw [Context.Denotes, meaning]
    exact hrefers
  have hpublicKey : ctx.Denotes p.inBracket.inEvaluation.inBracket (publicKeyName key)
      k.compressed :=
    (Context.denotes_publicKeyName rfl defaults plain names.defined names.kind
      names.publicKey).2 (.inr ⟨own, k, held, rfl⟩)
  -- where the signature of the message holds for the public key
  obtain ⟨sig, _, rfl⟩ := Curve.Key.sign_eq_ok signed
  have denotes : List.Forall₂ (ctx.Denotes p.inBracket.inEvaluation.inBracket)
      [dataSignatureName key script, script, publicKeyName key]
      [sig.encode, message, k.compressed] :=
    .cons hsignature (.cons hmessage (.cons hpublicKey .nil))
  have evaluated : ctx.NodeYields p (.operation [dataSignatureName key script, script,
      publicKeyName key] (text "OP_CHECKDATASIG")) [1] :=
    Context.nodeYields_checkDataSig machine twice once denotes names.opcode short
      k.length_compressed holds
  exact (generate_iff_yields source (names.treeOf? twice)).2 (Context.yields_singleton.2 evaluated)

/-- A key variable, a script that it signs as data, and a script that checks the signature. -/
def checkingOwner (script : Bytes) : Environment where
  opcodes := .ofList [(text "OP_1", 0x51), (text "OP_CHECKDATASIG", 0xba)]
  definitions := .ofList [(text "owner", { kind := .key })]
  scripts := .ofList [(script, text "OP_1"),
    (text "check", dataSignatureCheck (text "owner") script)]
  operations := .default .deterministic
  machine := some (interpreter {})

/-- The key one. -/
def keyOne : Curve.Key := .scalar 1 (by decide) (by decide)

theorem hasKey_dataOfOwner : dataOfOwner.HasKey (text "owner") keyOne :=
  ⟨List.replicate 31 0 ++ [1], rfl, rfl⟩

/-- The key one signs the digest of one byte, and the signature holds. -/
theorem keyOne_signs : ∃ signature,
    (keyOne.sign .deterministic (sha256 [0x51])).value = .ok signature ∧
    Curve.verify keyOne.compressed (sha256 [0x51]) signature = true := by
  have holds : (keyOne.sign .deterministic (sha256 [0x51])).value.toOption.any
      (Curve.verify keyOne.compressed (sha256 [0x51])) = true := by
    decide +kernel
  cases signed : (keyOne.sign .deterministic (sha256 [0x51])).value with
  | error fault =>
      rw [signed] at holds
      cases holds
  | ok signature =>
      rw [signed, Except.toOption, Option.any_some] at holds
      exact ⟨signature, rfl, holds⟩

theorem generate_dataSignatureCheck_of_byte :
    let c : Compiler := ⟨checkingOwner (text "message"), {}⟩
    c.generate (text "message") dataOfOwner = .ok [0x51] ∧
      c.generate (text "check") dataOfOwner = .ok [1] := by
  intro c
  obtain ⟨signature, signed, holds⟩ := keyOne_signs
  have given : c.generate (text "message") dataOfOwner = .ok [0x51] := by
    with_unfolding_all rfl
  have names : c.env.SignsData (text "owner") { kind := .key } (text "message") := by
    refine ⟨rfl, rfl, ?_, ?_, ⟨rfl, rfl, rfl⟩, ?_, ⟨rfl, rfl, rfl⟩, rfl⟩
    · exact ⟨0x6f, text "wner", rfl, rfl, List.all_eq_true.1 rfl⟩
    · exact ⟨0x6d, text "essage", rfl, rfl, List.all_eq_true.1 rfl⟩
    · rfl
  refine ⟨given, ?_⟩
  exact generate_dataSignatureCheck rfl rfl rfl names hasKey_dataOfOwner rfl rfl given (by decide)
    signed holds (by with_unfolding_all decide) (by with_unfolding_all decide)
    (by with_unfolding_all decide)

/-- A script whose name has a dot cannot be signed as data: the part behind the dot is a third
segment, and the operation for signatures refuses an identifier that has so many. -/
theorem dataSignatureCheck_dotted :
    let c : Compiler := ⟨checkingOwner (text "a.b"), {}⟩
    (c.env.definitions.find? (text "owner")).map Variable.kind = some .key ∧
      dataOfOwner.HasKey (text "owner") keyOne ∧
      dataOfOwner.publicKeys.find? (text "owner") = none ∧
      dataOfOwner.signatures.find? (text "owner.data_signature.a.b") = none ∧
      c.env.operations = .default .deterministic ∧ c.env.machine = some (interpreter {}) ∧
      c.env.scripts.find? (text "check") =
        some (text "$(<owner.data_signature.a.b> <a.b> <owner.public_key> OP_CHECKDATASIG)") ∧
      c.generate (text "a.b") dataOfOwner = .ok [0x51] ∧
      (∃ signature,
        (keyOne.sign .deterministic (sha256 [0x51])).value = .ok signature ∧
        Curve.verify keyOne.compressed (sha256 [0x51]) signature = true) ∧
      c.generate (text "check") dataOfOwner =
        .error ⟨.refused ⟨.capabilityError, text "unknown operation 'owner.data_signature.a.b'"⟩,
          ⟨⟨1, 4, 3⟩, ⟨1, 28, 27⟩⟩, text "check", []⟩ ∧
      c.generate (text "check") dataOfOwner ≠ .ok [1] := by
  intro c
  have given : c.generate (text "a.b") dataOfOwner = .ok [0x51] := by with_unfolding_all rfl
  have failed : c.generate (text "check") dataOfOwner =
      .error ⟨.refused ⟨.capabilityError, text "unknown operation 'owner.data_signature.a.b'"⟩,
        ⟨⟨1, 4, 3⟩, ⟨1, 28, 27⟩⟩, text "check", []⟩ := by
    with_unfolding_all rfl
  refine ⟨rfl, hasKey_dataOfOwner, rfl, rfl, rfl, rfl, rfl, given, keyOne_signs, failed, ?_⟩
  rw [failed]
  intro same
  cases same

end Compiler

end AuthScript
