import AuthScript.Proofs.Component
import AuthScript.Proofs.Coverage
import AuthScript.Proofs.Refusal

/-!
# Which components cover the locking script

The locking script is compiled for a component before any operation is asked, so what is
compiled and what the operation reads have to be decided alike, from the name of the component
alone. The names that cover the locking script are four: its bytes, their length, their digest,
and a whole serialization by an algorithm (`Signing.Reads`). For these the bytes of the locking
script are there when the operation is asked, and for all others nothing is compiled and nothing
is read (`Context.component_reads_covered`).
-/

namespace AuthScript

namespace Signing

variable {tx : Transaction} {name : Bytes}

/-- The components that read the bytecode of the locking script, and what they come to. -/
inductive Reads (tx : Transaction) (covered : Bytes) : Bytes → Bytes → Prop where
  | bytecode : Reads tx covered (text "covered_bytecode") covered
  | length : Reads tx covered (text "covered_bytecode_length") (compactSize covered.length)
  | digest : Reads tx covered (text "covered_bytecode_hash") (hash256 covered)
  | full (alg : Algorithm) : Reads tx covered (fullMark ++ alg.name) (serialize tx covered alg)

/-! ## Names of components -/

/-- The name of a digest is that of a component with the ending. -/
theorem isHash_iff : isHash name = true ↔ ∃ own ∈ hashable, name = own ++ hashSuffix := by
  have cut : ∀ own : Bytes, withoutHash (own ++ hashSuffix) = own := by
    intro own
    simp [withoutHash]
  unfold isHash
  rw [Bool.and_eq_true, List.isSuffixOf_iff_suffix, List.contains_iff_mem]
  constructor
  · rintro ⟨⟨own, rfl⟩, listed⟩
    rw [cut] at listed
    exact ⟨own, listed, rfl⟩
  · rintro ⟨own, listed, rfl⟩
    rw [cut]
    exact ⟨List.suffix_append own hashSuffix, listed⟩

theorem withoutHash_mem (digest : isHash name = true) :
    withoutHash name ∈ hashable ∧ name = withoutHash name ++ hashSuffix := by
  obtain ⟨own, listed, rfl⟩ := isHash_iff.1 digest
  have cut : withoutHash (own ++ hashSuffix) = own := by simp [withoutHash]
  rw [cut]
  exact ⟨listed, rfl⟩

theorem isHash_of_mem_hashable : ∀ own ∈ hashable, isHash own = false := by
  decide

/-- Of the components with a named digest, one reads the locking script. -/
theorem readsCovered_of_mem_hashable :
    ∀ own ∈ hashable, readsCovered own = true → own = text "covered_bytecode" := by
  decide

/-- A digest reads the locking script if its component does. -/
theorem readsCovered_withoutHash (digest : isHash name = true) :
    readsCovered (withoutHash name) = readsCovered name := by
  have own : isHash (withoutHash name) = false :=
    isHash_of_mem_hashable _ (withoutHash_mem digest).1
  simp only [readsCovered, digest, own, Bool.false_eq_true, if_false, if_true]

/-- The names, other than those of digests, that read the locking script. -/
theorem readsCovered_iff_of_component (component : isHash name = false) :
    readsCovered name = true ↔ name = text "covered_bytecode" ∨
      name = text "covered_bytecode_length" ∨ ∃ alg : Algorithm, name = fullMark ++ alg.name := by
  by_cases full : fullMark <+: name
  · obtain ⟨own, rfl⟩ := full
    have other : fullMark ++ own ≠ text "covered_bytecode" :=
      fun same => absurd (List.cons.inj same).1 (by decide)
    have length : fullMark ++ own ≠ text "covered_bytecode_length" :=
      fun same => absurd (List.cons.inj same).1 (by decide)
    have reads : readsCovered (fullMark ++ own) = (Algorithm.ofName? own).isSome := by
      simp [readsCovered, component]
    rw [reads, Option.isSome_iff_exists]
    simp only [other, length, false_or, List.append_cancel_left_eq,
      Algorithm.ofName?_eq_some_iff]
    exact exists_congr fun alg => eq_comm
  · have unmarked : ∀ alg : Algorithm, name ≠ fullMark ++ alg.name := by
      rintro alg rfl
      exact full (List.prefix_append _ _)
    simp [readsCovered, component, full, unmarked]

/-- A name reads the locking script if it is one of the four. -/
theorem readsCovered_iff (tx : Transaction) (covered : Bytes) :
    readsCovered name = true ↔ ∃ b, Reads tx covered name b := by
  constructor
  · intro reads
    by_cases digest : isHash name = true
    · obtain ⟨listed, spelled⟩ := withoutHash_mem digest
      have own := readsCovered_of_mem_hashable _ listed
        ((readsCovered_withoutHash digest).trans reads)
      rw [own] at spelled
      rw [spelled]
      exact ⟨_, .digest⟩
    · rcases (readsCovered_iff_of_component (Bool.not_eq_true _ ▸ digest)).1 reads with
        rfl | rfl | ⟨alg, rfl⟩
      · exact ⟨_, .bytecode⟩
      · exact ⟨_, .length⟩
      · exact ⟨_, .full alg⟩
  · rintro ⟨b, _ | _ | _ | alg⟩
    · rfl
    · rfl
    · rfl
    · cases alg <;> rfl

/-! ## Bytes of components -/

/-- A component that reads the locking script comes to bytes if the locking script is there. -/
theorem value_of_reads {covered b : Bytes} (reads : Reads tx covered name b) :
    value tx name (some covered) = .ok b := by
  cases reads with
  | bytecode | length | digest => rfl
  | full alg => cases alg <;> rfl

theorem component_of_not_readsCovered (unread : readsCovered name = false)
    (covered covered' : Option Bytes) : component tx name covered = component tx name covered' := by
  simp only [component, unread, Bool.false_eq_true, if_false]

/-- A component that does not read the locking script does not depend on it. -/
theorem value_of_not_readsCovered (unread : readsCovered name = false)
    (covered covered' : Option Bytes) : value tx name covered = value tx name covered' := by
  unfold value
  by_cases digest : isHash name = true
  · rw [if_pos digest, if_pos digest, component_of_not_readsCovered
      ((readsCovered_withoutHash digest).trans unread) covered covered']
  · rw [if_neg digest, if_neg digest, component_of_not_readsCovered unread covered covered']

end Signing

/-! ## Refusals -/

/-- A refusal because the bytecode of the locking script is not there. -/
def Fault.MissesCovered (f : Fault) : Prop := text "no covered bytecode" <+: f.message

/-- The fourth byte tells this refusal from the others. -/
theorem Fault.not_missesCovered {f : Fault} {c : UInt8} (fourth : f.message[3]? = some c)
    (other : c ≠ 0x63) : ¬ f.MissesCovered := by
  rintro ⟨rest, same⟩
  rw [← same] at fourth
  exact other (Option.some.inj fourth).symm

/-- A computation does not fail because the bytecode of the locking script is not there. -/
def Furnished {α : Type} (x : Except Fault α) : Prop := ∀ f, x = .error f → ¬ f.MissesCovered

namespace Furnished

variable {α β : Type}

theorem ok (a : α) : Furnished (.ok a : Except Fault α) := by
  intro f h
  cases h

theorem error {f : Fault} {c : UInt8} (fourth : f.message[3]? = some c) (other : c ≠ 0x63) :
    Furnished (.error f : Except Fault α) := by
  intro f' h
  cases h
  exact Fault.not_missesCovered fourth other

theorem bind {x : Except Fault α} {g : α → Except Fault β} (hx : Furnished x)
    (hg : ∀ a, Furnished (g a)) : Furnished (x >>= g) := by
  cases x with
  | error f =>
      intro f' h
      cases h
      exact hx f rfl
  | ok a => exact hg a

theorem map {x : Except Fault α} (hx : Furnished x) (g : α → β) : Furnished (g <$> x) := by
  cases x with
  | error f =>
      intro f' h
      cases h
      exact hx f rfl
  | ok a => exact ok (g a)

end Furnished

theorem Signing.component_furnished {tx : Transaction} {name : Bytes} {covered : Option Bytes}
    (there : readsCovered name = true → covered.isSome = true) :
    Furnished (component tx name covered) := by
  unfold component
  split
  · exact .ok _
  · split
    · split
      · exact .ok _
      · exact .error rfl (by decide)
    · split
      · rename_i reads
        obtain ⟨b, rfl⟩ := Option.isSome_iff_exists.1 (there reads)
        unfold coveredComponent
        refine iteInduction (fun _ => .ok _) fun _ => ?_
        refine iteInduction (fun _ => .ok _) fun _ => ?_
        split
        · exact .ok _
        · exact .error rfl (by decide)
      · exact .error rfl (by decide)

theorem Curve.Key.ofSecret_furnished (secret : Bytes) : Furnished (ofSecret secret) := by
  unfold ofSecret
  split
  · exact .error rfl (by decide)
  · dsimp only
    split
    · exact .ok _
    · exact .error rfl (by decide)

theorem Curve.SignerFailure.furnished (failure : SignerFailure) :
    Furnished (Key.unsigned failure.message).value := by
  cases failure <;> exact .error rfl (by decide)

theorem Curve.Key.sign_furnished (signer : Signer) (key : Key) (digest : Bytes) :
    Furnished (key.sign signer digest).value := by
  cases key with
  | empty => exact .error rfl (by decide)
  | scalar k pos lt =>
      unfold sign
      dsimp only
      split
      · exact SignerFailure.furnished _
      · split
        · exact .error rfl (by decide)
        · exact .ok _

namespace Operation

variable {req : Request} {data : Data}

theorem missing_furnished {α : Type} (what : Bytes) :
    Furnished (.error (missing req what) : Except Fault α) :=
  .error rfl (by decide)

theorem malformed_furnished {α : Type} : Furnished (.error (malformed req) : Except Fault α) :=
  .error rfl (by decide)

theorem demand_furnished {α : Type} (what : String) (o : Option α) :
    Furnished (demand req what o) := by
  cases o with
  | none => exact missing_furnished _
  | some a => exact .ok a

theorem privateKey_furnished : Furnished (privateKey req data) := by
  unfold privateKey
  split
  · exact Curve.Key.ofSecret_furnished _
  · exact missing_furnished _

theorem publicKeyOf_furnished : Furnished (publicKeyOf req data) := by
  unfold publicKeyOf
  split
  · exact .ok _
  · exact .map privateKey_furnished _

theorem publicKeyBytes_furnished : Furnished (publicKeyBytes req data) := by
  unfold publicKeyBytes
  split
  · exact publicKeyOf_furnished
  · exact malformed_furnished

theorem message_furnished (kind target : Bytes) : Furnished (message req data kind target) := by
  unfold message
  split
  · split
    · exact .error rfl (by decide)
    · refine .bind (demand_furnished _ _) fun tx => ?_
      exact .bind (demand_furnished _ _) fun covered => .ok _
  · split
    · split
      · exact .ok _
      · exact missing_furnished _
    · exact malformed_furnished

theorem task_furnished : Furnished (task req data) := by
  unfold task
  split
  · split
    · exact .ok _
    · refine .bind (message_furnished _ _) fun m => ?_
      exact .bind privateKey_furnished fun key => .ok _
  · exact malformed_furnished

theorem bytes_furnished (signer : Curve.Signer) (t : Task) : Furnished (t.bytes signer) := by
  cases t with
  | supplied signature => exact .ok signature
  | sign key m => exact .map (Curve.Key.sign_furnished signer key m.digest) _

theorem signature_furnished {signer : Curve.Signer} {fault : Fault}
    (refused : (signature signer req data).value = .error (.refused fault)) :
    ¬ fault.MissesCovered := by
  unfold signature at refused
  cases htask : task req data with
  | error f =>
      rw [htask] at refused
      obtain rfl : f = fault := Refusal.refused.inj (Except.error.inj refused)
      exact task_furnished f htask
  | ok t =>
      cases hbytes : t.bytes signer with
      | error f =>
          simp only [htask, hbytes] at refused
          obtain rfl : f = fault := Refusal.refused.inj (Except.error.inj refused)
          exact bytes_furnished signer t f hbytes
      | ok b =>
          simp only [htask, hbytes] at refused
          cases refused

theorem walletDataBytes_furnished : Furnished (walletDataBytes req data) := by
  unfold walletDataBytes
  split
  · exact malformed_furnished
  · split
    · refine .bind (.ok _) fun values => ?_
      dsimp only
      split
      · exact .ok _
      · exact missing_furnished _
    · split
      · refine .bind (.ok _) fun values => ?_
        dsimp only
        split
        · exact .ok _
        · exact missing_furnished _
      · exact malformed_furnished

theorem hashBytes_furnished (there : ∀ name, req.path = [name] → Signing.isHash name = true →
    Signing.readsCovered name = true → req.covered.isSome = true) :
    Furnished (hashBytes req data) := by
  unfold hashBytes
  split
  · exact .map publicKeyOf_furnished _
  · split
    · rename_i name path
      split
      · rename_i own
        have digest : Signing.isHash name = true := (Bool.and_eq_true_iff.1 own).2
        refine .bind (demand_furnished _ _) fun tx => ?_
        refine .map (Signing.component_furnished fun reads => ?_) _
        rw [Signing.readsCovered_withoutHash digest] at reads
        exact there name path digest reads
      · exact malformed_furnished
    · exact malformed_furnished

theorem transactionContextBytes_furnished
    (there : ∀ name, isKind req .currentBlockHeight = false →
      isKind req .currentBlockTime = false → req.path = [name] →
      Signing.readsCovered name = true → req.covered.isSome = true) :
    Furnished (transactionContextBytes req data) := by
  unfold transactionContextBytes
  split
  · split
    · exact .bind (demand_furnished _ _) fun height => .ok _
    · exact malformed_furnished
  · rename_i height
    split
    · split
      · exact .map (demand_furnished _ _) _
      · exact malformed_furnished
    · rename_i time
      split
      · rename_i name path
        split
        · refine .bind (demand_furnished _ _) fun tx => ?_
          exact Signing.component_furnished
            (there name (Bool.not_eq_true _ ▸ height) (Bool.not_eq_true _ ▸ time) path)
        · exact malformed_furnished
      · exact malformed_furnished

end Operation

/-! ## Requests -/

namespace Access

variable {a : Access} {name : Bytes}

/-- The digest of a component is asked for only without a definition. -/
theorem definition_of_hash (serves : a.capability? = some .hash) (path : a.path = [name])
    (digest : Signing.isHash name = true) : a.definition = none := by
  cases defined : a.definition with
  | none => rfl
  | some d =>
      have other : name ≠ text "public_key_hash" := by
        rintro rfl
        exact absurd digest (by decide)
      unfold capability? at serves
      cases kind : d.kind <;> simp [defined, kind, path, other] at serves
      split at serves
      · cases serves
      · split at serves <;> cases serves

/-- Of the variables with a definition, only the height and the time are asked of the operation
for components. -/
theorem kind_of_transactionContext (serves : a.capability? = some .transactionContext)
    {d : Variable} (defined : a.definition = some d) :
    d.kind = .currentBlockHeight ∨ d.kind = .currentBlockTime := by
  unfold capability? at serves
  cases kind : d.kind with
  | currentBlockHeight => exact .inl rfl
  | currentBlockTime => exact .inr rfl
  | walletData | addressData => simp [defined, kind] at serves
  | key =>
      simp only [defined, kind] at serves
      split at serves
      · cases serves
      · repeat' split at serves
        all_goals cases serves

end Access

namespace Context

variable {ctx : Context} {signer : Curve.Signer} {p : Place} {name : Bytes} {cap : Capability}
  {req : Request}

/-- Where a component reads the locking script, the request comes with its bytecode. -/
theorem Asks.covered (asked : ctx.Asks p name cap req) {c : Bytes}
    (undefined : req.definition = none) (path : req.path = [c])
    (reads : Signing.readsCovered c = true) :
    ∃ covered, ctx.Locks p covered ∧ req.covered = some covered := by
  obtain @⟨access, _, _, _, _, _, covers, _⟩ := asked
  have undefined : access.definition = none := undefined
  have path : access.path = [c] := path
  have needs : access.needsCovered ctx.data name = true := by
    simp [Access.needsCovered, Access.readsCovered, undefined, path, reads]
  rw [Covers, if_pos needs] at covers
  obtain ⟨locking, covered, unlocks, refers, rfl⟩ := covers
  exact ⟨covered, ⟨locking, unlocks, refers⟩, rfl⟩

variable (invoked : ctx.invoker = .sync ∨ ctx.invoker = .async)
  (defaults : ctx.env.operations = .default signer)

include invoked defaults

theorem answer_eq (cap : Capability) (req : Request) :
    ctx.answer cap req = (Invoker.sync.operation (.default signer) cap req ctx.data).value := by
  unfold answer
  rw [defaults]
  rcases invoked with calls | waits
  · rw [calls]
  · rw [waits]
    cases cap <;> rfl

/-- No default operation misses the bytecode of the locking script. -/
theorem answer_furnished (asked : ctx.Asks p name cap req) {fault : Fault}
    (refused : ctx.answer cap req = .error (.refused fault)) : ¬ fault.MissesCovered := by
  have there : ∀ c, req.definition = none → req.path = [c] → Signing.readsCovered c = true →
      req.covered.isSome = true := by
    intro c undefined path reads
    obtain ⟨covered, _, hcovered⟩ := asked.covered undefined path reads
    rw [hcovered]
    rfl
  rw [answer_eq invoked defaults] at refused
  obtain @⟨access, _, covered, signed, _, serves, _, _⟩ := asked
  cases cap with
  | key => exact Operation.publicKeyBytes_furnished fault (Operation.quiet_eq_refused.1 refused)
  | walletData =>
      exact Operation.walletDataBytes_furnished fault (Operation.quiet_eq_refused.1 refused)
  | hash =>
      refine Operation.hashBytes_furnished ?_ fault (Operation.quiet_eq_refused.1 refused)
      intro c path digest reads
      exact there c (Access.definition_of_hash serves path digest) path reads
  | transactionContext =>
      refine Operation.transactionContextBytes_furnished ?_ fault
        (Operation.quiet_eq_refused.1 refused)
      intro c height time path reads
      refine there c ?_ path reads
      cases defined : access.definition with
      | none => exact defined
      | some d =>
          rcases Access.kind_of_transactionContext serves defined with kind | kind
          · simp [Operation.isKind, Access.request, defined, kind] at height
          · simp [Operation.isKind, Access.request, defined, kind] at time
  | signature => exact Operation.signature_furnished refused
  | scriptComposition =>
      obtain rfl : Invoker.unavailable .scriptComposition _ _ = fault :=
        Refusal.refused.inj (Except.error.inj refused)
      exact Fault.not_missesCovered rfl (by decide)

end Context

/-! ## Components and locking scripts -/

namespace Context

variable {ctx : Context} {signer : Curve.Signer} {p : Place} {c : Bytes}

/-- The context with other locking scripts. -/
def withUnlocks (ctx : Context) (unlocks : Table Bytes) : Context :=
  { ctx with env := { ctx.env with unlocks } }

/-- Neither a locking script nor another one is compiled for an identifier that the environment
knows as a variable. -/
structure Uncovered (ctx : Context) (name : Bytes) : Prop where
  script : Meaning.ofName ctx.env name ≠ .ok .script
  locking : ∀ access, Meaning.ofName ctx.env name = .ok (.variable_ access) →
    access.needsCovered ctx.data name = false

section

variable (plain : 0x2e ∉ c)

include plain

theorem segments_componentName : Access.segments (componentName c) = [c] :=
  (Access.segments_dotted plain_signingSerialization c).trans (Bytes.pieces_of_plain plain)

/-- An identifier of a component belongs to a variable of the environment, or it is that of the
built-in variable. -/
theorem ofName?_componentName {access : Access}
    (h : Access.ofName? ctx.env (componentName c) = some access) :
    access = .ofComponent c ∨ access.definition.isSome = true ∧
      (access.path = [] ∨ access.path = [c]) := by
  unfold Access.ofName? at h
  split at h
  · cases h
    exact .inr ⟨rfl, .inl rfl⟩
  · split at h
    · cases h
      exact .inr ⟨rfl, .inr (segments_componentName plain)⟩
    · split at h
      · rename_i own
        cases h
        left
        rw [segments_componentName plain, own]
        rfl
      · cases h

theorem signedScript?_of_componentName {access : Access}
    (h : Access.ofName? ctx.env (componentName c) = some access) :
    access.signedScript? = none := by
  rcases ofName?_componentName plain h with rfl | ⟨_, path⟩
  · exact Access.signedScript?_ofComponent
  · unfold Access.signedScript?
    rcases path with path | path <;> simp [path]

/-- An identifier for which no script is compiled is resolved alike whatever there is to be
compiled. -/
theorem resolveIdentifier_withUnlocks (uncovered : ctx.Uncovered (componentName c))
    (unlocks : Table Bytes) (compile compile' : Place → Run Compiled) (range : Range) :
    resolveIdentifier ctx compile p (componentName c) range =
      resolveIdentifier (ctx.withUnlocks unlocks) compile' p (componentName c) range := by
  have meaning : Meaning.ofName (ctx.withUnlocks unlocks).env (componentName c) =
      Meaning.ofName ctx.env (componentName c) := rfl
  unfold resolveIdentifier
  rw [meaning]
  cases hm : Meaning.ofName ctx.env (componentName c) with
  | error cause => rfl
  | ok own =>
      cases own with
      | opcode op => rfl
      | script => exact absurd hm uncovered.script
      | variable_ access =>
          have needless := uncovered.locking access hm
          have unsigned := signedScript?_of_componentName plain (Meaning.ofName_variable hm)
          have same : accessBytes ctx compile p (componentName c) range access =
              accessBytes (ctx.withUnlocks unlocks) compile' p (componentName c) range access := by
            have data : (ctx.withUnlocks unlocks).data = ctx.data := rfl
            unfold accessBytes coveredBytecode signedBytecode
            rw [data, needless, unsigned]
            rfl
          simp only [same]
          rfl

end

/-- A request for a component of the built-in variable. -/
theorem Asks.ofComponent {cap : Capability} {req : Request} (plain : 0x2e ∉ c)
    (asked : ctx.Asks p (componentName c) cap req) (undefined : req.definition = none) :
    ∃ covered signed, req = (Access.ofComponent c).request (componentName c) p.script covered
      signed ∧ (Access.ofComponent c).capability? = some cap := by
  obtain @⟨access, _, covered, signed, meaning, serves, _, _⟩ := asked
  rcases ofName?_componentName plain (Meaning.ofName_variable meaning) with rfl | ⟨defined, _⟩
  · exact ⟨covered, signed, rfl, serves⟩
  · have undefined : access.definition = none := undefined
    rw [undefined] at defined
    cases defined

/-- What is compiled for a component and what the operation reads agree. When an operation is
asked for a component that reads the locking script, the bytecode is there, and so is the
algorithm of a whole serialization; otherwise the operation does not read it. No compilation
fails because the bytecode is missing. Where the locking script is not compiled, it does not
matter which one there is. -/
theorem component_reads_covered (invoked : ctx.invoker = .sync ∨ ctx.invoker = .async)
    (defaults : ctx.env.operations = .default signer) (plain : 0x2e ∉ c) :
    (∀ p cap req, ctx.Asks p (componentName c) cap req →
      (∀ fault, ctx.answer cap req = .error (.refused fault) → ¬ fault.MissesCovered) ∧
      (req.definition = none → ∀ tx, ctx.data.transaction = some tx →
        if Signing.readsCovered c then
          ∃ covered b, ctx.Locks p covered ∧ req.covered = some covered ∧
            Signing.Reads tx covered c b ∧ ctx.answer cap req = .ok b
        else ∀ covered, ctx.answer cap { req with covered } = ctx.answer cap req)) ∧
    (∀ p, (ctx.enter p).Refuses fun fault => ¬ fault.MissesCovered) ∧
    (ctx.Uncovered (componentName c) → ∀ unlocks compile compile' p range,
      resolveIdentifier ctx compile p (componentName c) range =
        resolveIdentifier (ctx.withUnlocks unlocks) compile' p (componentName c) range) := by
  refine ⟨fun p cap req asked => ⟨?_, ?_⟩, fun p => ?_, ?_⟩
  · exact fun fault => answer_furnished invoked defaults asked
  · intro undefined tx transaction
    obtain ⟨own, signed, hreq, serves⟩ := asked.ofComponent plain undefined
    have answers : ∀ covered, ctx.answer cap { req with covered } =
        (Signing.value tx c covered).mapError .refused := by
      intro covered
      rw [answer_eq invoked defaults, hreq]
      exact Invoker.operation_ofComponent transaction serves
    split
    · rename_i reads
      have path : req.path = [c] := by rw [hreq]; rfl
      obtain ⟨covered, locks, hcovered⟩ := asked.covered undefined path reads
      obtain ⟨b, hb⟩ := (Signing.readsCovered_iff tx covered).1 reads
      refine ⟨covered, b, locks, hcovered, hb, ?_⟩
      have hanswer := answers (some covered)
      rw [Signing.value_of_reads hb, ← hcovered] at hanswer
      exact hanswer
    · rename_i unread
      intro covered
      have hanswer : ctx.answer cap req = (Signing.value tx c req.covered).mapError .refused :=
        answers req.covered
      rw [answers covered, hanswer,
        Signing.value_of_not_readsCovered (Bool.not_eq_true _ ▸ unread) covered req.covered]
  · intro e fault failed hcause
    obtain ⟨q, name, cap, req, asked, refused⟩ := ctx.enter_refuses p e fault failed hcause
    exact answer_furnished invoked defaults asked refused
  · intro uncovered unlocks compile compile' p range
    exact resolveIdentifier_withUnlocks plain uncovered unlocks compile compile' range

/-- In a script that unlocks another one, the digest of the covered bytecode is there, and the
lock time does not depend on what is unlocked. -/
theorem component_reads_covered_of_unlock :
    let ctx : Context := ⟨lockedByOwner, dataOfOwner, {}, .async, true⟩
    let p : Place := ⟨[text "spend"], text "unlock", 1, 2⟩
    (∃ cap req covered, ctx.Asks p (componentName (text "covered_bytecode_hash")) cap req ∧
      ctx.Locks p covered ∧ ctx.answer cap req = .ok (hash256 covered)) ∧
    ∀ unlocks, resolveIdentifier ctx ctx.enter p (componentName (text "locktime")) {} =
      resolveIdentifier (ctx.withUnlocks unlocks) (ctx.withUnlocks unlocks).enter p
        (componentName (text "locktime")) {} := by
  intro ctx p
  have locked : (refer ctx ctx.enter p (text "lock") {}).result = .ok [0x51, 0x02, 0x51, 0x78] := by
    with_unfolding_all rfl
  refine ⟨?_, fun unlocks => ?_⟩
  · have meaning : Meaning.ofName ctx.env (componentName (text "covered_bytecode_hash")) =
        .ok (.variable_ (.ofComponent (text "covered_bytecode_hash"))) := by
      with_unfolding_all rfl
    have asked := Asks.access (p := p) meaning Access.capability?_ofComponent
      ⟨text "lock", _, rfl, refer_eq_ok.1 locked, rfl⟩ rfl
    have served := (component_reads_covered (.inr rfl) rfl (by decide)).1 p _ _ asked
    obtain ⟨covered, b, locks, _, reads, hb⟩ := served.2 rfl {} rfl
    cases reads
    exact ⟨_, _, covered, asked, locks, hb⟩
  · have meaning : Meaning.ofName ctx.env (componentName (text "locktime")) =
        .ok (.variable_ (.ofComponent (text "locktime"))) := by
      with_unfolding_all rfl
    have uncovered : ctx.Uncovered (componentName (text "locktime")) := by
      refine ⟨?_, ?_⟩
      · rw [meaning]
        exact fun h => nomatch h
      · intro access h
        obtain rfl := Meaning.variable_.inj (Except.ok.inj (meaning.symm.trans h))
        rfl
    exact (component_reads_covered (.inr rfl) rfl (by decide)).2.2 uncovered unlocks _ _ p {}

end Context

end AuthScript
