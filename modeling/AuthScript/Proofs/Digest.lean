import AuthScript.Proofs.CoveredComponent
import AuthScript.Proofs.KeyVariable
import AuthScript.Proofs.OpcodeName
import AuthScript.Proofs.Operand
import AuthScript.Proofs.Preimage
import AuthScript.Proofs.Step

/-!
# Digests by name and by machine

A digest can be written in two ways: by an identifier that names it, such as
`k.public_key_hash`, and by an evaluation that pushes what is hashed and runs an opcode. The
first is answered by one operation, the second resolves the plain identifier, pushes its bytes
and hashes them in the machine. Both come to the digest of the bytes that the plain identifier
stands for (`denotes_digest_iff`, `nodeYields_digest_iff`).

They ask for these bytes at different places, for the evaluation has the plain identifier inside
of two brackets. The bytecode of the locking script is compiled from there, so it is the one
digest for which the two ways differ: the evaluation needs that much room more
(`generate_digest_iff`).
-/

namespace AuthScript

open Machine

/-! ## In the machine -/

namespace Opcode

/-- The opcode of a digest. -/
def Digest.opcode : Digest → UInt8
  | .ripemd160 => 0xa6
  | .sha1 => 0xa7
  | .sha256 => 0xa8
  | .hash160 => 0xa9
  | .hash256 => 0xaa

theorem Digest.action_opcode (d : Digest) : action d.opcode = .digest d := by
  cases d <;> rfl

theorem Digest.bare_opcode (d : Digest) : Bare d.opcode := by
  cases d <;> exact ⟨by decide, by decide⟩

theorem Digest.isPush_opcode (d : Digest) : isPush d.opcode = false := by
  cases d <;> decide

theorem segment_name (op : UInt8) : Token.Segment (name op) := by
  obtain ⟨more, hname, inside⟩ := name_eq_cons op
  exact ⟨0x4f, more, hname, rfl, inside⟩

end Opcode

/-- A digest takes the place of the item on top. -/
theorem Machine.step_digest {limits : Limits} {s : State} {item : Bytes} {rest : Stack}
    (d : Opcode.Digest) (stack : s.stack = item :: rest) (executing : s.isExecuting = true)
    (few : s.operations < limits.operations)
    (room : s.stack.length + s.alt.length ≤ limits.stackSize) :
    step limits s ⟨d.opcode, []⟩ =
      .ok { s with stack := Stack.digestOf d item :: rest,
                   operations := s.operations + 1, executed := s.executed + 1 } := by
  have hashed : s.stack.digest d = .ok (Stack.digestOf d item :: rest) := by
    rw [stack]
    rfl
  refine step_of_effect ?_ d.isPush_opcode (fun t => ?_) executing few hashed ?_
  · rw [d.action_opcode]
    rfl
  · rw [d.action_opcode]
    rfl
  · rw [stack] at room
    exact room

namespace Context

variable {ctx : Context} {p : Place} {name b : Bytes} {d : Opcode.Digest}

/-- An evaluation of a digest of an identifier comes to the digest of the bytes that the
identifier stands for inside of it. -/
theorem nodeYields_digest_iff (machine : ctx.invoker.machine ctx.env = some (interpreter {}))
    (brackets : p.brackets + 1 < ctx.options.nestingDepth)
    (evaluations : p.evaluations < ctx.options.evaluationDepth)
    (opcode : Meaning.ofName ctx.env (Opcode.name d.opcode) = .ok (.opcode d.opcode))
    (short : ∀ v, ctx.Denotes p.inBracket.inEvaluation.inBracket name v → v.length ≤ 520) :
    ctx.NodeYields p (.operation [name] (Opcode.name d.opcode)) b ↔
      ∃ v, ctx.Denotes p.inBracket.inEvaluation.inBracket name v ∧ Stack.digestOf d v = b := by
  have evaluates : ∀ v, ctx.Denotes p.inBracket.inEvaluation.inBracket name v →
      ctx.NodeYields p (.operation [name] (Opcode.name d.opcode)) (Stack.digestOf d v) := by
    intro v denotes
    have fits : ∀ operand ∈ [v], operand.length ≤ 520 :=
      List.forall_mem_singleton.2 (short v denotes)
    have size : (Push.program [v] d.opcode).length ≤ 10000 :=
      Nat.le_trans (Push.length_program_le d.opcode fits (by decide))
        (Nat.le_of_ble_eq_true rfl : 1 * (520 + 5) + 1 ≤ 10000)
    let s : State := { stack := [v], executed := 1 }
    have few : s.operations < ({} : Limits).operations := Nat.succ_pos 200
    have room : s.stack.length + s.alt.length ≤ ({} : Limits).stackSize :=
      Nat.le_of_ble_eq_true rfl
    exact nodeYields_operation machine brackets evaluations (.cons denotes .nil) opcode
      d.bare_opcode (fun operand h => Nat.le_trans (fits operand h) (by decide))
      (Nat.le_of_ble_eq_true rfl) size (step_digest d rfl rfl few room) rfl rfl
  constructor
  · intro h
    obtain ⟨operands, denoted⟩ := denotes_of_nodeYields_operation h
    cases denoted with
    | cons denotes _ => exact ⟨_, denotes, (evaluates _ denotes).unique h⟩
  · rintro ⟨v, denotes, rfl⟩
    exact evaluates v denotes

end Context

/-! ## By name -/

namespace Signing

variable {component : Bytes} (listed : component ∈ hashable)

include listed

theorem isHash_append_hashSuffix : isHash (component ++ hashSuffix) = true :=
  isHash_iff.2 ⟨component, listed, rfl⟩

theorem withoutHash_append_hashSuffix : withoutHash (component ++ hashSuffix) = component :=
  List.append_cancel_right (withoutHash_mem (isHash_append_hashSuffix listed)).2.symm

/-- The named digest of a component is that of its bytes. -/
theorem value_append_hashSuffix (tx : Transaction) (covered : Option Bytes) :
    value tx (component ++ hashSuffix) covered = hash256 <$> value tx component covered := by
  have plain : isHash component = false := isHash_of_mem_hashable component listed
  simp only [value, isHash_append_hashSuffix listed, withoutHash_append_hashSuffix listed, plain,
    if_true, Bool.false_eq_true, if_false]

theorem readsCovered_append_hashSuffix :
    readsCovered (component ++ hashSuffix) = readsCovered component := by
  rw [← readsCovered_withoutHash (isHash_append_hashSuffix listed),
    withoutHash_append_hashSuffix listed]

omit listed in
theorem inIdentifier_of_mem_hashable : ∀ component ∈ hashable,
    ∀ c ∈ component ++ hashSuffix, Token.inIdentifier c = true := by
  have words : hashable.all (fun component =>
      (component ++ hashSuffix).all Token.inIdentifier) = true := rfl
  intro component listed
  exact List.all_eq_true.1 (List.all_eq_true.1 words component listed)

/-- No name of a component with a digest has a dot, and neither has that of the digest. -/
theorem pieces_hashable : Bytes.pieces 0x2e component = [component] ∧
    Bytes.pieces 0x2e (component ++ hashSuffix) = [component ++ hashSuffix] := by
  have inside := inIdentifier_of_mem_hashable component listed
  have plain : 0x2e ∉ component ++ hashSuffix := fun dot => absurd (inside 0x2e dot) (by decide)
  exact ⟨Bytes.pieces_of_plain fun dot => plain (List.mem_append_left _ dot),
    Bytes.pieces_of_plain plain⟩

end Signing

/-- An identifier names the digest of what another one stands for, and neither has another
meaning: the identifiers of a public key and its digest, and those of a component of the signing
serialization and its digest. -/
inductive Environment.IsDigest (env : Environment) : Bytes → Bytes → Opcode.Digest → Prop where
  | publicKey {key : Bytes} {d : Variable} (segment : Token.Segment key)
      (defined : env.definitions.find? key = some d) (kind : d.kind = .key)
      (plain : env.Unused (publicKeyName key)) (hashed : env.Unused (publicKeyHashName key)) :
      IsDigest env (publicKeyHashName key) (publicKeyName key) .hash160
  | component {component : Bytes} (listed : component ∈ Signing.hashable)
      (plain : env.Unshadowed (componentName component))
      (hashed : env.Unshadowed (componentName (component ++ Signing.hashSuffix))) :
      IsDigest env (componentName (component ++ Signing.hashSuffix)) (componentName component)
        .hash256

namespace Environment.IsDigest

variable {env : Environment} {digest name : Bytes} {d : Opcode.Digest}

/-- Both identifiers are words. -/
theorem words (h : env.IsDigest digest name d) :
    Token.Word ⟨.identifier, digest, {}⟩ ∧ Token.Word ⟨.identifier, name, {}⟩ := by
  cases h with
  | publicKey segment =>
      exact ⟨segment.word_dotted rfl (Token.dotted_of_inIdentifier (List.all_eq_true.1 rfl)),
        segment.word_dotted rfl (Token.dotted_of_inIdentifier (List.all_eq_true.1 rfl))⟩
  | @component component listed =>
      have variable_ : Token.Segment signingSerialization :=
        ⟨0x73, text "igning_serialization", rfl, rfl, List.all_eq_true.1 rfl⟩
      have inside := Signing.inIdentifier_of_mem_hashable component listed
      have starts : ∀ own ∈ Signing.hashable, own.head?.any Token.inIdentifier = true ∧
          (own ++ Signing.hashSuffix).head?.any Token.inIdentifier = true := by decide
      obtain ⟨own, digest⟩ := starts component listed
      exact ⟨variable_.word_dotted digest (Token.dotted_of_inIdentifier inside),
        variable_.word_dotted own (Token.dotted_of_inIdentifier fun c hc =>
          inside c (List.mem_append_left _ hc))⟩

end Environment.IsDigest

namespace Context

variable {ctx : Context} {signer : Curve.Signer} {p : Place} {digest name b : Bytes}
  {d : Opcode.Digest}

/-- An identifier that names a digest stands for the digest of what the plain one stands for. -/
theorem denotes_digest_iff (calls : ctx.invoker = .sync)
    (defaults : ctx.env.operations = .default signer) (h : ctx.env.IsDigest digest name d) :
    ctx.Denotes p digest b ↔ ∃ v, ctx.Denotes p name v ∧ Stack.digestOf d v = b := by
  cases h with
  | publicKey segment defined kind plain hashed =>
      exact denotes_publicKeyHashName calls defaults segment.plain defined kind plain hashed
  | @component component listed plain hashed =>
      obtain ⟨single, single'⟩ := Signing.pieces_hashable listed
      cases transaction : ctx.data.transaction with
      | none =>
          have missing : ∀ name', ctx.env.Unshadowed (componentName name') →
              Bytes.pieces 0x2e name' = [name'] → ∀ v, ¬ ctx.Denotes p (componentName name') v := by
            intro name' free one v denotes
            obtain ⟨tx, present⟩ :=
              transaction_of_denotes_componentName calls defaults free one denotes
            rw [transaction] at present
            cases present
          exact ⟨fun own => (missing _ hashed single' _ own).elim,
            fun ⟨v, own, _⟩ => (missing _ plain single _ own).elim⟩
      | some tx =>
          have digestOf : Stack.digestOf .hash256 = hash256 := rfl
          simp only [denotes_componentName calls defaults transaction plain single,
            denotes_componentName calls defaults transaction hashed single',
            Signing.readsCovered_append_hashSuffix listed, Signing.value_append_hashSuffix listed,
            except_map_eq_ok, digestOf]
          by_cases reads : Signing.readsCovered component = true
          · simp only [if_pos reads]
            constructor
            · rintro ⟨covered, locks, v, hv, hb⟩
              exact ⟨v, ⟨covered, locks, hv⟩, hb⟩
            · rintro ⟨v, ⟨covered, locks, hv⟩, hb⟩
              exact ⟨covered, locks, v, hv, hb⟩
          · simp only [if_neg reads]

/-- Of the identifiers of digests, one leads to a script. -/
theorem not_leadsTo_digest (h : ctx.env.IsDigest digest name d)
    (other : name ≠ componentName (text "covered_bytecode")) (script t : Bytes) :
    ¬ ctx.LeadsTo script digest t := by
  unfold LeadsTo
  cases h with
  | @publicKey key v segment defined kind plain hashed =>
      have access : Meaning.ofName ctx.env (publicKeyHashName key) =
          .ok (.variable_ (.ofKey key v [text "public_key_hash"])) :=
        Meaning.ofName_ofKey segment.plain defined hashed
      have serves : (Access.ofKey key v [text "public_key_hash"]).capability? = some .hash :=
        Access.capability?_publicKeyHash kind
      have uncovered : (Access.ofKey key v [text "public_key_hash"]).needsCovered ctx.data
          (publicKeyHashName key) = false :=
        Access.needsCovered_eq_false (Access.signsTransaction_eq_false serves (by decide)) rfl
      rw [access]
      simp [Access.signedScript?_eq_none serves (by decide), uncovered]
  | @component component listed plain hashed =>
      have unread : Signing.readsCovered component = false := by
        refine Bool.eq_false_iff.2 fun reads => other ?_
        rw [Signing.readsCovered_of_mem_hashable component listed reads]
      rw [Meaning.ofName_componentName hashed (Signing.pieces_hashable listed).2]
      simp [Access.signedScript?_ofComponent, Access.needsCovered_ofComponent,
        Signing.readsCovered_append_hashSuffix listed, unread]

end Context

/-! ## In scripts -/

namespace Compiler

variable {c : Compiler} {signer : Curve.Signer} {data : Data}
  {u source name digest b : Bytes} {d : Opcode.Digest}

theorem unused_withSource (known : c.env.scripts.contains u = true)
    (unused : c.env.Unused name) : (c.withSource u source).env.Unused name :=
  ⟨unused.opcode, (contains_withSource known name).trans unused.script, unused.whole⟩

/-- Another source of a script changes no names of digests, -/
theorem isDigest_withSource (known : c.env.scripts.contains u = true)
    (h : c.env.IsDigest digest name d) : (c.withSource u source).env.IsDigest digest name d := by
  cases h with
  | publicKey segment defined kind plain hashed =>
      exact .publicKey segment defined kind (unused_withSource known plain)
        (unused_withSource known hashed)
  | component listed plain hashed =>
      exact .component listed (unshadowed_withSource known plain)
        (unshadowed_withSource known hashed)

/-- and no meanings. -/
theorem ofName_withSource (known : c.env.scripts.contains u = true) (name : Bytes) :
    Meaning.ofName (c.withSource u source).env name = Meaning.ofName c.env name := by
  have access : Access.ofName? (c.withSource u source).env name = Access.ofName? c.env name := rfl
  unfold Meaning.ofName
  rw [access, contains_withSource known]
  rfl

/-- What a script is read as, whatever its positions are, is what it compiles to. -/
theorem gives_withSource_iff {nodes : List Node}
    (read : (treeOf? (c.env.bounds c.options) source).map Node.bareAll = some nodes) :
    ((c.withSource u source).context data).Gives { script := u } b ↔
      ((c.withSource u source).context data).Yields { script := u } nodes b := by
  have found : (c.withSource u source).env.scripts.find? u = some source := by
    simp [withSource]
  rw [← generate_eq_ok]
  exact generate_iff_yields found read

/-- A script that is an identifier compiles to what the identifier stands for. -/
theorem gives_identifier_iff (word : Token.Word ⟨.identifier, name, {}⟩) :
    ((c.withSource u name).context data).Gives { script := u } b ↔
      ((c.withSource u name).context data).Denotes { script := u } name b := by
  have read : (treeOf? (c.env.bounds c.options) name).map Node.bareAll =
      some [.identifier name {}] :=
    treeOf?_word (c.env.bounds c.options) word (Token.spells_identifier name {})
  rw [gives_withSource_iff read, Context.yields_singleton, Context.nodeYields_identifier]

/-- A script that hashes in the machine compiles to the digest of what the plain identifier
stands for inside of the evaluation. -/
theorem gives_operation_iff (machine : c.env.machine = some (interpreter {}))
    (known : c.env.scripts.contains u = true) (h : c.env.IsDigest digest name d)
    (opcode : Meaning.ofName c.env (Opcode.name d.opcode) = .ok (.opcode d.opcode))
    (once : 1 ≤ c.options.evaluationDepth) (twice : 2 ≤ c.options.nestingDepth)
    (short : ∀ v, (c.withSource u name).generate u data = .ok v → v.length ≤ 520) :
    let source := operationSource [name] (Opcode.name d.opcode)
    let p : Place := { script := u }
    ((c.withSource u source).context data).Gives p b ↔
      ∃ v, ((c.withSource u source).context data).Denotes p.inBracket.inEvaluation.inBracket name v
        ∧ Stack.digestOf d v = b := by
  intro source p
  obtain ⟨_, word⟩ := h.words
  have read : (treeOf? (c.env.bounds c.options) source).map Node.bareAll =
      some [.operation [name] (Opcode.name d.opcode)] :=
    treeOf?_operation (List.forall_mem_singleton.2 word) (Opcode.segment_name d.opcode).word twice
  have shallower : p.Shallower p.inBracket.inEvaluation.inBracket :=
    ⟨fun _ h => h, Nat.le_refl _, Nat.zero_le _, Nat.zero_le _⟩
  have fits : ∀ v, ((c.withSource u source).context data).Denotes
      p.inBracket.inEvaluation.inBracket name v → v.length ≤ 520 := by
    intro v inside
    refine short v (generate_eq_ok.2 ((gives_identifier_iff word).2 ?_))
    exact denotes_withSource (List.mem_singleton_self u) shallower rfl source name inside
  rw [gives_withSource_iff read, Context.yields_singleton]
  exact Context.nodeYields_digest_iff machine twice once
    ((ofName_withSource known _).trans opcode) fits

/-- The identifier of a digest compiles under limits that are lower by what an evaluation opens
exactly if it compiles, and for the bytecode of the locking script there is so much to spare: the
others lead to no script. -/
theorem gives_leaving_digest_iff (known : c.env.scripts.contains u = true)
    (h : c.env.IsDigest digest name d) (once : 1 ≤ c.options.evaluationDepth)
    (twice : 2 ≤ c.options.nestingDepth) :
    let ctx := (c.withSource u digest).context data
    let s : Surroundings := { evaluations := 1, brackets := 2 }
    (ctx.leaving s).Gives { script := u } b ↔ ctx.Gives { script := u } b ∧
      (name = componentName (text "covered_bytecode") →
        ctx.evaluationsNeeded u + 1 ≤ c.options.evaluationDepth ∧
          ctx.bracketsNeeded u + 2 ≤ c.options.nestingDepth) := by
  intro ctx s
  let p : Place := { script := u }
  let left : Compiler := ⟨c.env, (ctx.leaving s).options⟩
  obtain ⟨word, _⟩ := h.words
  by_cases covered : name = componentName (text "covered_bytecode")
  · rw [Context.gives_leaving_iff_needed_le (Nat.zero_le _) once twice]
    refine and_congr_right fun gives => ?_
    rw [forall_prop_of_true covered]
    exact and_iff_right gives.needed_le.1
  · have unled : ∀ t, ¬ ctx.LeadsTo u digest t :=
      Context.not_leadsTo_digest (isDigest_withSource known h) covered u
    rw [and_iff_left fun same => absurd same covered]
    calc
      (ctx.leaving s).Gives p b ↔ (ctx.leaving s).Denotes p digest b :=
          gives_identifier_iff (c := left) word
      _ ↔ ctx.Denotes p digest b :=
          Context.denotes_withOptions_iff rfl fun t _ leads => absurd leads (unled t)
      _ ↔ ctx.Gives p b := (gives_identifier_iff word).symm

/-- A script that hashes in the machine compiles to the same as one that names the digest. Only
the bytecode of the locking script is compiled inside of the evaluation, so for this there must
be room for one evaluation and two brackets more. -/
theorem generate_digest_iff (defaults : c.env.operations = .default signer)
    (machine : c.env.machine = some (interpreter {}))
    (known : c.env.scripts.contains u = true) (h : c.env.IsDigest digest name d)
    (opcode : Meaning.ofName c.env (Opcode.name d.opcode) = .ok (.opcode d.opcode))
    (once : 1 ≤ c.options.evaluationDepth) (twice : 2 ≤ c.options.nestingDepth)
    (short : ∀ v, (c.withSource u name).generate u data = .ok v → v.length ≤ 520) :
    let ctx := (c.withSource u digest).context data
    (c.withSource u (operationSource [name] (Opcode.name d.opcode))).generate u data = .ok b ↔
      (c.withSource u digest).generate u data = .ok b ∧
        (name = componentName (text "covered_bytecode") →
          ctx.evaluationsNeeded u + 1 ≤ c.options.evaluationDepth ∧
            ctx.bracketsNeeded u + 2 ≤ c.options.nestingDepth) := by
  intro ctx
  let source := operationSource [name] (Opcode.name d.opcode)
  let ctx' := (c.withSource u source).context data
  let p : Place := { script := u }
  let s : Surroundings := { evaluations := 1, brackets := 2 }
  let left : Compiler := ⟨c.env, (ctx.leaving s).options⟩
  obtain ⟨word, _⟩ := h.words
  have inside : u ∈ p.chain := List.mem_singleton_self u
  have own : (ctx.leaving s).env.IsDigest digest name d := isDigest_withSource known h
  -- the plain identifier stands for the same in both sources, under the limits that are left
  have plain : ∀ v, ctx'.Denotes (p.behind s) name v ↔ (ctx.leaving s).Denotes p name v := by
    intro v
    rw [← Context.denotes_leaving_iff rfl]
    exact ⟨fun h => denotes_withSource (c := left) inside (.refl p) rfl source digest h,
      fun h => denotes_withSource (c := left) inside (.refl p) rfl digest source h⟩
  calc
    (c.withSource u source).generate u data = .ok b
      ↔ ctx'.Gives p b := generate_eq_ok
    _ ↔ ∃ v, ctx'.Denotes (p.behind s) name v ∧ Stack.digestOf d v = b :=
        gives_operation_iff machine known h opcode once twice short
    _ ↔ ∃ v, (ctx.leaving s).Denotes p name v ∧ Stack.digestOf d v = b := by simp only [plain]
    _ ↔ (ctx.leaving s).Denotes p digest b := (Context.denotes_digest_iff rfl defaults own).symm
    _ ↔ (ctx.leaving s).Gives p b := (gives_identifier_iff (c := left) word).symm
    _ ↔ ctx.Gives p b ∧ (name = componentName (text "covered_bytecode") →
          ctx.evaluationsNeeded u + 1 ≤ c.options.evaluationDepth ∧
            ctx.bracketsNeeded u + 2 ≤ c.options.nestingDepth) :=
        gives_leaving_digest_iff known h once twice
    _ ↔ _ := by rw [← generate_eq_ok]

/-- Key variables and others, and a script that unlocks one with a bracket. -/
def hashing (opcodes : Table UInt8) (definitions : Table Variable) : Environment where
  opcodes := opcodes
  definitions := definitions
  scripts := .ofList [(text "lock", text "<1>"), (text "unlock", []), (text "public_key_hash", [])]
  unlocks := .ofList [(text "unlock", text "lock")]
  operations := .default .deterministic
  machine := some (interpreter {})

/-- The opcodes of two digests. -/
def hashingOpcodes : Table UInt8 :=
  .ofList [(text "OP_HASH160", 0xa9), (text "OP_HASH256", 0xaa)]

/-- With room for the brackets of the evaluation around that of the locking script, the
bytecode of the locking script is hashed in both ways. -/
theorem generate_digest_iff_of_lock :
    let c : Compiler :=
      ⟨hashing hashingOpcodes ∅, { evaluationDepth := 1, nestingDepth := 3 }⟩
    let data : Data := { transaction := some {} }
    ∃ b, (c.withSource (text "unlock")
          (text "signing_serialization.covered_bytecode_hash")).generate (text "unlock") data =
        .ok b ∧
      (c.withSource (text "unlock")
          (text "$(<signing_serialization.covered_bytecode> OP_HASH256)")).generate
        (text "unlock") data = .ok b := by
  intro c data
  have names : c.env.IsDigest (componentName (text "covered_bytecode" ++ Signing.hashSuffix))
      (componentName (text "covered_bytecode")) .hash256 :=
    .component (by decide) (by decide) (by decide)
  have plain : (c.withSource (text "unlock") (componentName (text "covered_bytecode"))).generate
      (text "unlock") data = .ok [0x51] := by
    with_unfolding_all rfl
  have short : ∀ v, (c.withSource (text "unlock")
      (componentName (text "covered_bytecode"))).generate (text "unlock") data = .ok v →
        v.length ≤ 520 := by
    intro v hv
    obtain rfl := Except.ok.inj (plain.symm.trans hv)
    decide
  have given : ((c.withSource (text "unlock") (componentName
      (text "covered_bytecode" ++ Signing.hashSuffix))).generate (text "unlock")
        data).toOption.isSome = true := by
    with_unfolding_all rfl
  obtain ⟨b, hb⟩ := except_isSome_iff.1 given
  refine ⟨b, hb, ?_⟩
  have both := generate_digest_iff (b := b) rfl rfl rfl names rfl (Nat.le_refl 1)
    (Nat.le_of_ble_eq_true rfl) short
  exact both.2 ⟨hb, fun _ => ⟨by with_unfolding_all decide, by with_unfolding_all decide⟩⟩

/-- The two ways differ where there is no room for the brackets of the evaluation around that of
the locking script, and where one of the names means something else: a variable has the name of
the public key, the opcode is not there, or the name of the key variable has a dot and is read as
that of another key variable and an operation. -/
theorem digest_differs :
    let u := text "unlock"
    let owner : Bytes × Variable := (text "owner", { kind := .key })
    let data : Data :=
      { publicKeys := .ofList [(text "owner", [0x02]), (text "owner.data_signature", [0x02])]
        signatures := .ofList [(text "owner.data_signature.public_key_hash", [0x30])]
        transaction := some {} }
    let tight : Compiler :=
      ⟨hashing hashingOpcodes ∅, { evaluationDepth := 1, nestingDepth := 2 }⟩
    let taken : Compiler :=
      ⟨hashing hashingOpcodes (.ofList [owner, (text "owner.public_key", {})]), {}⟩
    let bare : Compiler := ⟨hashing ∅ (.ofList [owner]), {}⟩
    let dotted : Compiler :=
      ⟨hashing hashingOpcodes (.ofList [owner, (text "owner.data_signature", { kind := .key })]),
        {}⟩
    (tight.env.operations = .default .deterministic ∧ tight.env.machine = some (interpreter {}) ∧
      (tight.withSource u (text "signing_serialization.covered_bytecode")).generate u data =
        .ok [0x51] ∧
      (∃ b, (tight.withSource u (text "signing_serialization.covered_bytecode_hash")).generate u
        data = .ok b) ∧
      (tight.withSource u (text "$(<signing_serialization.covered_bytecode> OP_HASH256)")).generate
        u data = .error ⟨.bracketsTooDeep 2, ⟨⟨1, 1, 0⟩, ⟨1, 4, 3⟩⟩, text "lock", [u]⟩) ∧
    ((∃ b, (taken.withSource u (text "owner.public_key_hash")).generate u data = .ok b) ∧
      (taken.withSource u (text "$(<owner.public_key> OP_HASH160)")).generate u data =
        .error ⟨.refused ⟨.capabilityMissingData,
          text "identifier 'owner.public_key' requires a value for 'owner.public_key'"⟩,
          ⟨⟨1, 4, 3⟩, ⟨1, 20, 19⟩⟩, u, []⟩) ∧
    ((∃ b, (bare.withSource u (text "owner.public_key_hash")).generate u data = .ok b) ∧
      (bare.withSource u (text "$(<owner.public_key> OP_HASH160)")).generate u data =
        .error ⟨.unknownIdentifier (text "OP_HASH160"), ⟨⟨1, 22, 21⟩, ⟨1, 32, 31⟩⟩, u, []⟩) ∧
    (dotted.withSource u (text "owner.data_signature.public_key_hash")).generate u data =
        .ok [0x30] ∧
      (dotted.withSource u (text "$(<owner.data_signature.public_key> OP_HASH160)")).generate u
        data = .error ⟨.signsUnknownScript (text "owner.data_signature.public_key")
          (text "public_key"), ⟨⟨1, 4, 3⟩, ⟨1, 35, 34⟩⟩, u, []⟩ := by
  intro u owner data tight taken bare dotted
  refine ⟨⟨rfl, rfl, ?_, ?_, ?_⟩, ⟨?_, ?_⟩, ⟨?_, ?_⟩, ?_, ?_⟩
  · with_unfolding_all rfl
  · exact except_isSome_iff.1 (by with_unfolding_all rfl)
  · with_unfolding_all rfl
  · exact except_isSome_iff.1 (by with_unfolding_all rfl)
  · with_unfolding_all rfl
  · exact except_isSome_iff.1 (by with_unfolding_all rfl)
  · with_unfolding_all rfl
  · with_unfolding_all rfl
  · with_unfolding_all rfl

end Compiler

end AuthScript
