import AuthScript.Proofs.Identifier
import AuthScript.Proofs.Reference

/-!
# Components of the signing serialization

`signing_serialization.c` stands for the component `c`, or for its digest if that is what
`c` names, as long as the environment has no meaning of its own for the identifier. Most
components are functions of the transaction; those that read the bytecode of the locking
script have it compiled, from the place where the identifier stands (`Locks`).
-/

namespace AuthScript

/-- The identifier of a component of the signing serialization. -/
def componentName (component : Bytes) : Bytes := signingSerialization ++ 0x2e :: component

/-- The access of a component. -/
def Access.ofComponent (component : Bytes) : Access := ⟨signingSerialization, [component], none⟩

/-- The bytes of a component, or the digest of one. -/
def Signing.value (tx : Transaction) (name : Bytes) (covered : Option Bytes) :
    Except Fault Bytes :=
  if isHash name then hash256 <$> component tx (withoutHash name) covered
  else component tx name covered

/-- The environment has no meaning of its own for an identifier of the built-in variable. -/
structure Environment.Unshadowed (env : Environment) (name : Bytes) : Prop where
  opcode : env.opcodes.find? name = none
  script : env.scripts.contains name = false
  whole : env.definitions.find? name = none
  variable_ : env.definitions.find? signingSerialization = none

variable {env : Environment} {signer : Curve.Signer} {name : Bytes}

instance : Decidable (env.Unshadowed name) :=
  decidable_of_iff
    (env.opcodes.find? name = none ∧ env.scripts.contains name = false ∧
      env.definitions.find? name = none ∧ env.definitions.find? signingSerialization = none)
    ⟨fun ⟨opcode, script, whole, variable_⟩ => ⟨opcode, script, whole, variable_⟩,
      fun ⟨opcode, script, whole, variable_⟩ => ⟨opcode, script, whole, variable_⟩⟩

theorem plain_signingSerialization : 0x2e ∉ signingSerialization := by
  decide

/-- An identifier of a component that has no other meaning means the component. -/
theorem Meaning.ofName_componentName (free : env.Unshadowed (componentName name))
    (single : Bytes.pieces 0x2e name = [name]) :
    ofName env (componentName name) = .ok (.variable_ (.ofComponent name)) := by
  have hhead : Access.head (componentName name) = signingSerialization :=
    Access.head_dotted plain_signingSerialization name
  have hsegments : Access.segments (componentName name) = [name] :=
    (Access.segments_dotted plain_signingSerialization name).trans single
  have haccess : Access.ofName? env (componentName name) = some (.ofComponent name) := by
    simp only [Access.ofName?, Access.headDefinition?, free.whole, hhead, free.variable_,
      ite_self, hsegments, if_true]
    rfl
  simp only [ofName, free.opcode, free.script, haccess]

/-! ## Accesses -/

namespace Access

theorem capability?_ofComponent :
    (ofComponent name).capability? =
      some (if Signing.isHash name then .hash else .transactionContext) := by
  simp only [capability?, ofComponent]
  split <;> rfl

theorem needsCovered_ofComponent (data : Data) (identifier : Bytes) :
    (ofComponent name).needsCovered data identifier = Signing.readsCovered name := by
  have unsigned : (ofComponent name).signsTransaction = false := by
    simp only [signsTransaction, capability?_ofComponent]
    split <;> rfl
  rw [needsCovered, unsigned]
  rfl

theorem signedScript?_ofComponent : (ofComponent name).signedScript? = none := by
  simp only [signedScript?, capability?_ofComponent]
  split <;> simp_all

end Access

/-! ## Operations -/

theorem Operation.quiet_eq_ok {f : Request → Data → Except Fault Bytes} {req : Request}
    {data : Data} {b : Bytes} : (quiet f req data).value = .ok b ↔ f req data = .ok b :=
  except_mapError_eq_ok

theorem Operation.quiet_eq_refused {f : Request → Data → Except Fault Bytes} {req : Request}
    {data : Data} {fault : Fault} :
    (quiet f req data).value = .error (.refused fault) ↔ f req data = .error fault := by
  simp [quiet, Logged.silent, except_mapError_eq_error]

/-- The default operations compute components. -/
theorem Invoker.operation_ofComponent {data : Data} {tx : Transaction}
    (transaction : data.transaction = some tx) {identifier script : Bytes}
    {covered signed : Option Bytes} {cap : Capability}
    (hcap : (Access.ofComponent name).capability? = some cap) :
    (sync.operation (.default signer) cap
        ((Access.ofComponent name).request identifier script covered signed) data).value =
      (Signing.value tx name covered).mapError .refused := by
  rw [Access.capability?_ofComponent] at hcap
  obtain rfl := Option.some.inj hcap
  by_cases digest : Signing.isHash name = true
  · have served :
        sync.operation (.default signer) .hash = Operation.quiet Operation.hashBytes := rfl
    rw [if_pos digest, served]
    simp [Operation.quiet, Logged.silent, Operation.hashBytes, Operation.isKind, Operation.demand,
      Access.request, Access.ofComponent, Signing.value, digest, transaction, bind, Except.bind]
  · have served : (sync.operation (.default signer) .transactionContext) =
        Operation.quiet Operation.transactionContextBytes := rfl
    rw [if_neg digest, served]
    simp [Operation.quiet, Logged.silent, Operation.transactionContextBytes, Operation.isKind,
      Operation.demand, Access.request, Access.ofComponent, Signing.value, digest, transaction,
      bind, Except.bind]

/-- Without a transaction they refuse to. -/
theorem Invoker.operation_ofComponent_refused {data : Data} (missing : data.transaction = none)
    {identifier script : Bytes} {covered signed : Option Bytes} {cap : Capability}
    (hcap : (Access.ofComponent name).capability? = some cap) :
    ∃ fault, (sync.operation (.default signer) cap
      ((Access.ofComponent name).request identifier script covered signed) data).value =
        .error (.refused fault) := by
  rw [Access.capability?_ofComponent] at hcap
  obtain rfl := Option.some.inj hcap
  by_cases digest : Signing.isHash name = true
  · have served :
        sync.operation (.default signer) .hash = Operation.quiet Operation.hashBytes := rfl
    rw [if_pos digest, served]
    simp only [Operation.quiet_eq_refused]
    simp [Operation.hashBytes, Operation.isKind, Operation.demand, Access.request,
      Access.ofComponent, digest, missing, bind, Except.bind]
  · have served : (sync.operation (.default signer) .transactionContext) =
        Operation.quiet Operation.transactionContextBytes := rfl
    rw [if_neg digest, served]
    simp only [Operation.quiet_eq_refused]
    simp [Operation.transactionContextBytes, Operation.isKind, Operation.demand, Access.request,
      Access.ofComponent, missing, bind, Except.bind]

namespace Context

variable {ctx : Context} {p : Place}

/-- The script at a place unlocks one that compiles to these bytes. -/
def Locks (ctx : Context) (p : Place) (covered : Bytes) : Prop :=
  ∃ locking, ctx.env.unlocks.find? p.script = some locking ∧ ctx.Refers p locking covered

theorem Gives.unique {b b' : Bytes} (h : ctx.Gives p b) (h' : ctx.Gives p b') : b = b' := by
  obtain ⟨compiled, hcompiled, rfl⟩ := h
  obtain ⟨compiled', hcompiled', rfl⟩ := h'
  rw [Except.ok.inj (hcompiled.symm.trans hcompiled')]

theorem Locks.unique {b b' : Bytes} (h : ctx.Locks p b) (h' : ctx.Locks p b') : b = b' := by
  obtain ⟨locking, hlocking, _, _, hgives⟩ := h
  obtain ⟨locking', hlocking', _, _, hgives'⟩ := h'
  obtain rfl := Option.some.inj (hlocking.symm.trans hlocking')
  exact hgives.unique hgives'

/-- A component stands for nothing without a transaction. -/
theorem transaction_of_denotes_componentName (calls : ctx.invoker = .sync)
    (defaults : ctx.env.operations = .default signer)
    (free : ctx.env.Unshadowed (componentName name))
    (single : Bytes.pieces 0x2e name = [name]) {b : Bytes}
    (h : ctx.Denotes p (componentName name) b) : ∃ tx, ctx.data.transaction = some tx := by
  unfold Denotes at h
  rw [Meaning.ofName_componentName free single] at h
  obtain ⟨cap, covered, signed, hcap, _, _, served⟩ := h
  rw [calls, defaults] at served
  cases missing : ctx.data.transaction with
  | some tx => exact ⟨tx, rfl⟩
  | none =>
      obtain ⟨fault, refused⟩ := Invoker.operation_ofComponent_refused missing hcap
      rw [refused] at served
      cases served

/-- What a component stands for: its bytes, if it reads no locking script, else those
for the bytecode of the locking script. -/
theorem denotes_componentName (calls : ctx.invoker = .sync)
    (defaults : ctx.env.operations = .default signer) {tx : Transaction}
    (transaction : ctx.data.transaction = some tx)
    (free : ctx.env.Unshadowed (componentName name))
    (single : Bytes.pieces 0x2e name = [name]) {b : Bytes} :
    ctx.Denotes p (componentName name) b ↔
      if Signing.readsCovered name then
        ∃ covered, ctx.Locks p covered ∧ Signing.value tx name (some covered) = .ok b
      else Signing.value tx name none = .ok b := by
  have serves : ∀ cap covered signed, (Access.ofComponent name).capability? = some cap →
      ((ctx.invoker.operation ctx.env.operations cap ((Access.ofComponent name).request
        (componentName name) p.script covered signed) ctx.data).value = .ok b ↔
        Signing.value tx name covered = .ok b) := by
    intro cap covered signed hcap
    rw [calls, defaults, Invoker.operation_ofComponent transaction hcap]
    exact except_mapError_eq_ok
  have unsigned : ctx.Signs p (Access.ofComponent name) none := by
    simp only [Signs, Access.signedScript?_ofComponent]
  unfold Denotes
  rw [Meaning.ofName_componentName free single]
  simp only [Accesses, Covers, Access.needsCovered_ofComponent]
  by_cases reads : Signing.readsCovered name = true
  · simp only [if_pos reads]
    constructor
    · rintro ⟨cap, _, signed, hcap, ⟨locking, covered, hlocking, hrefers, rfl⟩, _, hb⟩
      exact ⟨covered, ⟨locking, hlocking, hrefers⟩, (serves _ _ _ hcap).1 hb⟩
    · rintro ⟨covered, ⟨locking, hlocking, hrefers⟩, hb⟩
      exact ⟨_, some covered, none, Access.capability?_ofComponent,
        ⟨locking, covered, hlocking, hrefers, rfl⟩, unsigned,
        (serves _ _ _ Access.capability?_ofComponent).2 hb⟩
  · simp only [if_neg reads]
    constructor
    · rintro ⟨cap, _, signed, hcap, rfl, _, hb⟩
      exact (serves _ _ _ hcap).1 hb
    · intro hb
      exact ⟨_, none, none, Access.capability?_ofComponent, rfl, unsigned,
        (serves _ _ _ Access.capability?_ofComponent).2 hb⟩

end Context

end AuthScript
