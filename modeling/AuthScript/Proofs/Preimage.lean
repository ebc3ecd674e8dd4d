import AuthScript.Proofs.Component
import AuthScript.Proofs.Under
import Mathlib.Data.List.Forall2

/-!
# The preimage of a signature from its components

A covenant script puts together what a signature signs from the components of the signing
serialization. The concatenation of all fields (`Signing.preimage`) and the component for
the whole (`Signing.full`) come to the same bytes, wherever they stand in a script: those
of the serialization with the bytecode of the locking script, if that can be compiled
there, and to none otherwise.

All this is so where the environment has no meaning of its own for the identifiers. An
identifier is looked up whole before its first segment, so a variable with the name of a
component takes it over.
-/

namespace AuthScript

namespace Signing

/-- The identifier of a component, as a node. -/
def componentNode (name : Bytes) : Node := .identifier (componentName name) {}

/-- Bytes as a literal. -/
def literalNode (b : Bytes) : Node := .hex (Hex.encode b) {}

/-- The digest of the outputs that an algorithm covers, or zeros. -/
def outputsNode (tx : Transaction) (alg : Algorithm) : Node :=
  match alg.outputs, tx.correspondingOutput with
  | .all, _ => componentNode (text "transaction_outputs_hash")
  | .corresponding, some _ => componentNode (text "corresponding_output_hash")
  | _, _ => literalNode zeroDigest

/-- The fields of the signing serialization one by one, with zeros for those that an
algorithm does not cover. -/
def preimage (tx : Transaction) (alg : Algorithm) : List Node := [
  componentNode (text "version"),
  if alg.coversOutpoints then componentNode (text "transaction_outpoints_hash")
    else literalNode zeroDigest,
  if alg.coversSequenceNumbers then componentNode (text "transaction_sequence_numbers_hash")
    else literalNode zeroDigest,
  componentNode (text "outpoint_transaction_hash"),
  componentNode (text "outpoint_index"),
  componentNode (text "covered_bytecode_length"),
  componentNode (text "covered_bytecode"),
  componentNode (text "output_value"),
  componentNode (text "sequence_number"),
  outputsNode tx alg,
  componentNode (text "locktime"),
  literalNode (Bytes.littleEndian 4 alg.hashType.toNat)]

/-- The whole signing serialization as one component. -/
def full (alg : Algorithm) : Node := componentNode (fullMark ++ alg.name)

theorem pieces_full (alg : Algorithm) :
    Bytes.pieces 0x2e (fullMark ++ alg.name) = [fullMark ++ alg.name] := by
  cases alg <;> rfl

theorem readsCovered_full (alg : Algorithm) : readsCovered (fullMark ++ alg.name) = true := by
  cases alg <;> rfl

theorem value_full (tx : Transaction) (covered : Bytes) (alg : Algorithm) :
    value tx (fullMark ++ alg.name) (some covered) = .ok (serialize tx covered alg) := by
  cases alg <;> rfl

/-- The bytecode of the locking script is one of the fields. -/
theorem covered_mem_preimage (tx : Transaction) (alg : Algorithm) :
    componentNode (text "covered_bytecode") ∈ preimage tx alg := by
  simp [preimage]

end Signing

/-! ## Nodes with fixed bytes -/

theorem Hex.length_encode (b : Bytes) : (encode b).length = 2 * b.length := by
  induction b with
  | nil => rfl
  | cons c b ih =>
      rw [encode_cons, List.length_append, ih]
      simp [digits]
      omega

namespace Context

variable {ctx : Context} {signer : Curve.Signer} {p : Place} {tx : Transaction}
  {alg : Algorithm}

/-- A node comes to these bytes and to no others, if its identifiers are not shadowed. -/
def Fixed (ctx : Context) (p : Place) (node : Node) (v : Bytes) : Prop :=
  (∀ name ∈ Node.names node, ctx.env.Unshadowed name) → ∀ b, ctx.NodeYields p node b ↔ v = b

theorem Fixed.literalNode (v : Bytes) : ctx.Fixed p (Signing.literalNode v) v := by
  intro _ b
  unfold Signing.literalNode
  rw [nodeYields_hex, Hex.length_encode, Hex.decode?_encode]
  simp

/-- Nodes with fixed bytes come to these one after another. -/
theorem yields_of_fixed {nodes : List Node} {values : List Bytes}
    (h : List.Forall₂ (ctx.Fixed p) nodes values)
    (free : ∀ name ∈ Node.namesAll nodes, ctx.env.Unshadowed name) {b : Bytes} :
    ctx.Yields p nodes b ↔ values.flatten = b := by
  induction h generalizing b with
  | nil => simp [eq_comm]
  | @cons node v nodes values first _ ih =>
      have hnode : ∀ own, ctx.NodeYields p node own ↔ v = own :=
        first fun name hname => free name (List.mem_append_left _ hname)
      have hrest : ∀ other, ctx.Yields p nodes other ↔ values.flatten = other :=
        fun other => ih fun name hname => free name (List.mem_append_right _ hname)
      rw [yields_cons, List.flatten_cons]
      simp only [hnode, hrest]
      constructor
      · rintro ⟨_, _, rfl, rfl, rfl⟩
        rfl
      · rintro rfl
        exact ⟨_, _, rfl, rfl, rfl⟩

/-- Nodes come to bytes only if each of them does. -/
theorem Yields.mem {nodes : List Node} {b : Bytes} (h : ctx.Yields p nodes b) {node : Node}
    (hnode : node ∈ nodes) : ∃ own, ctx.NodeYields p node own := by
  obtain ⟨before, after, rfl⟩ := List.append_of_mem hnode
  obtain ⟨_, _, _, rest, _⟩ := yields_append.1 h
  obtain ⟨own, _, hown, _⟩ := yields_cons.1 rest
  exact ⟨own, hown⟩

/-! ## The fields -/

section

variable (calls : ctx.invoker = .sync) (defaults : ctx.env.operations = .default signer)
  (transaction : ctx.data.transaction = some tx)

include calls defaults transaction

theorem Fixed.component {name v : Bytes} (single : Bytes.pieces 0x2e name = [name])
    (reads : Signing.readsCovered name = false) (value : Signing.value tx name none = .ok v) :
    ctx.Fixed p (Signing.componentNode name) v := by
  intro free b
  have unshadowed : ctx.env.Unshadowed (componentName name) := free _ (List.mem_singleton_self _)
  unfold Signing.componentNode
  rw [nodeYields_identifier, denotes_componentName calls defaults transaction unshadowed single,
    reads, value]
  simp

/-- A component that reads the locking script comes to bytes only if that script does. -/
theorem nodeYields_covered {name : Bytes} (single : Bytes.pieces 0x2e name = [name])
    (reads : Signing.readsCovered name = true)
    (unshadowed : ctx.env.Unshadowed (componentName name)) {b : Bytes} :
    ctx.NodeYields p (Signing.componentNode name) b ↔
      ∃ covered, ctx.Locks p covered ∧ Signing.value tx name (some covered) = .ok b := by
  unfold Signing.componentNode
  rw [nodeYields_identifier, denotes_componentName calls defaults transaction unshadowed single,
    if_pos reads]

theorem Fixed.covered {name covered v : Bytes} (locks : ctx.Locks p covered)
    (single : Bytes.pieces 0x2e name = [name]) (reads : Signing.readsCovered name = true)
    (value : Signing.value tx name (some covered) = .ok v) :
    ctx.Fixed p (Signing.componentNode name) v := by
  intro free b
  rw [nodeYields_covered calls defaults transaction single reads
    (free _ (List.mem_singleton_self _))]
  constructor
  · rintro ⟨other, hother, hb⟩
    obtain rfl := hother.unique locks
    exact Except.ok.inj (value.symm.trans hb)
  · rintro rfl
    exact ⟨covered, locks, value⟩

theorem fixed_outputsNode :
    ctx.Fixed p (Signing.outputsNode tx alg) (Signing.outputsDigest hash256 tx alg) := by
  unfold Signing.outputsNode Signing.outputsDigest Signing.correspondingDigest
  cases alg.outputs with
  | all => exact .component calls defaults transaction rfl rfl rfl
  | none => exact .literalNode _
  | corresponding =>
      cases houtput : tx.correspondingOutput with
      | none => exact .literalNode _
      | some output =>
          refine .component calls defaults transaction rfl rfl ?_
          have elsewhere : (Signing.fields.find? fun field =>
              field.1 = text "corresponding_output") = none := rfl
          show hash256 <$> Signing.component tx (text "corresponding_output") none = _
          rw [Signing.component, elsewhere]
          simp [houtput]

/-- Where the locking script compiles, the nodes come to the fields. -/
theorem fixed_preimage {covered : Bytes} (locks : ctx.Locks p covered) :
    List.Forall₂ (ctx.Fixed p) (Signing.preimage tx alg) [
      Signing.word32 tx.version, Signing.outpointsDigest hash256 tx alg,
      Signing.sequenceNumbersDigest hash256 tx alg, tx.outpointHash,
      Signing.word32 tx.outpointIndex,
      Signing.compactSize covered.length, covered, Signing.word64 tx.outputValue,
      Signing.word32 tx.sequenceNumber, Signing.outputsDigest hash256 tx alg,
      Signing.word32 tx.locktime, Bytes.littleEndian 4 alg.hashType.toNat] := by
  have field : ∀ {name v : Bytes}, Bytes.pieces 0x2e name = [name] →
      Signing.readsCovered name = false → Signing.value tx name none = .ok v →
        ctx.Fixed p (Signing.componentNode name) v := Fixed.component calls defaults transaction
  have script : ∀ {name v : Bytes}, Bytes.pieces 0x2e name = [name] →
      Signing.readsCovered name = true → Signing.value tx name (some covered) = .ok v →
        ctx.Fixed p (Signing.componentNode name) v :=
    Fixed.covered calls defaults transaction locks
  unfold Signing.preimage Signing.outpointsDigest Signing.sequenceNumbersDigest
  refine .cons (field rfl rfl rfl) (.cons ?_ (.cons ?_ ?_))
  · split
    · exact field rfl rfl rfl
    · exact .literalNode _
  · split
    · exact field rfl rfl rfl
    · exact .literalNode _
  · refine .cons (field rfl rfl rfl) ?_
    refine .cons (field rfl rfl rfl) ?_
    refine .cons (script rfl rfl rfl) ?_
    refine .cons (script rfl rfl rfl) ?_
    refine .cons (field rfl rfl rfl) ?_
    refine .cons (field rfl rfl rfl) ?_
    refine .cons (fixed_outputsNode calls defaults transaction) ?_
    refine .cons (field rfl rfl rfl) ?_
    exact .cons (.literalNode _) .nil

/-- The fields one by one come to the serialization with the bytecode of the locking
script. -/
theorem yields_preimage_iff
    (free : ∀ name ∈ Node.namesAll (Signing.preimage tx alg), ctx.env.Unshadowed name) {b : Bytes} :
    ctx.Yields p (Signing.preimage tx alg) b ↔
      ∃ covered, ctx.Locks p covered ∧ Signing.serialize tx covered alg = b := by
  have fields : ∀ {covered}, ctx.Locks p covered →
      (ctx.Yields p (Signing.preimage tx alg) b ↔ Signing.serialize tx covered alg = b) := by
    intro covered locks
    rw [yields_of_fixed (fixed_preimage calls defaults transaction locks) free]
    simp [Signing.serialize, Signing.serializeWith]
  constructor
  · intro h
    obtain ⟨own, hown⟩ := h.mem (Signing.covered_mem_preimage tx alg)
    have unshadowed : ctx.env.Unshadowed (componentName (text "covered_bytecode")) :=
      free _ (Node.mem_namesAll (List.mem_singleton_self _) (Signing.covered_mem_preimage tx alg))
    obtain ⟨covered, locks, _⟩ :=
      (nodeYields_covered calls defaults transaction rfl rfl unshadowed).1 hown
    exact ⟨covered, locks, (fields locks).1 h⟩
  · rintro ⟨covered, locks, hb⟩
    exact (fields locks).2 hb

/-- So does the component for the whole. -/
theorem nodeYields_full_iff
    (unshadowed : ctx.env.Unshadowed (componentName (Signing.fullMark ++ alg.name))) {b : Bytes} :
    ctx.NodeYields p (Signing.full alg) b ↔
      ∃ covered, ctx.Locks p covered ∧ Signing.serialize tx covered alg = b := by
  unfold Signing.full
  simp only [nodeYields_covered calls defaults transaction (Signing.pieces_full alg)
    (Signing.readsCovered_full alg) unshadowed, Signing.value_full, Except.ok.injEq]

end

/-- A component that reads the locking script leads to it. -/
theorem leadsTo_component {u l name : Bytes} (unlocks : ctx.env.unlocks.find? u = some l)
    (single : Bytes.pieces 0x2e name = [name]) (reads : Signing.readsCovered name = true)
    (unshadowed : ctx.env.Unshadowed (componentName name)) :
    ctx.LeadsTo u (componentName name) l := by
  unfold LeadsTo
  rw [Meaning.ofName_componentName unshadowed single]
  exact .inr ⟨(Access.needsCovered_ofComponent ctx.data _).trans reads, unlocks⟩

end Context

/-! ## Scripts -/

/-- A source spells the signing serialization for an algorithm within bounds, by its fields or
as one component. -/
def Signing.SpelledBy (bounds : Tree.Bounds) (tx : Transaction) (alg : Algorithm)
    (source : Bytes) : Prop :=
  (Compiler.treeOf? bounds source).map Node.bareAll = some (preimage tx alg) ∨
    (Compiler.treeOf? bounds source).map Node.bareAll = some [full alg]

theorem Signing.SpelledBy.nodes {bounds : Tree.Bounds} {tx : Transaction} {alg : Algorithm}
    {source : Bytes} (h : SpelledBy bounds tx alg source) :
    ∃ nodes, Compiler.treeOf? bounds source = some nodes ∧
      (Node.bareAll nodes = preimage tx alg ∨ Node.bareAll nodes = [full alg]) := by
  rcases h with fields | whole
  · obtain ⟨nodes, hread, hnodes⟩ := Option.map_eq_some_iff.1 fields
    exact ⟨nodes, hread, .inl hnodes⟩
  · obtain ⟨nodes, hread, hnodes⟩ := Option.map_eq_some_iff.1 whole
    exact ⟨nodes, hread, .inr hnodes⟩

namespace Compiler

/-- The compiler with another source of a script. -/
def withSource (c : Compiler) (id source : Bytes) : Compiler :=
  ⟨{ c.env with scripts := c.env.scripts.insert id source }, c.options⟩

variable {c : Compiler} {signer : Curve.Signer} {data : Data} {tx : Transaction}
  {alg : Algorithm} {u l source : Bytes}

theorem program?_withSource {nodes : List Node}
    (read : treeOf? (c.env.bounds c.options) source = some nodes) :
    (c.withSource u source).env.program? (c.withSource u source).options u = some nodes := by
  have hfind : (c.env.scripts.insert u source).find? u = some source := by simp
  exact Environment.program?_eq_some.2 ⟨source, hfind, read⟩

/-- Another source of a script makes no other names. -/
theorem contains_withSource (known : c.env.scripts.contains u = true) (name : Bytes) :
    (c.withSource u source).env.scripts.contains name = c.env.scripts.contains name := by
  have inserted : (c.withSource u source).env.scripts.contains name =
      (if name = u then some source else c.env.scripts.find? name).isSome :=
    congrArg Option.isSome (Table.find?_insert c.env.scripts u name source)
  rw [inserted]
  by_cases own : name = u
  · rw [if_pos own, own, known]
    rfl
  · rw [if_neg own]
    rfl

theorem unshadowed_withSource (known : c.env.scripts.contains u = true) {name : Bytes}
    (free : c.env.Unshadowed name) : (c.withSource u source).env.Unshadowed name :=
  ⟨free.opcode, (contains_withSource known name).trans free.script, free.whole, free.variable_⟩

theorem keeps_withSource (source source' : Bytes) :
    ((c.withSource u source).context data).Keeps (c.env.scripts.insert u source') := by
  refine ⟨fun id => ?_, rfl⟩
  by_cases own : id = u
  · simp [Table.contains, context, withSource, own]
  · simp [Table.contains, context, withSource, own]

/-- Scripts that are not in progress have the same sources. -/
theorem find?_insert_of_inside {p : Place} (inside : u ∈ p.chain) (source source' : Bytes) :
    ∀ id ∉ p.chain,
      (c.env.scripts.insert u source').find? id = (c.env.scripts.insert u source).find? id := by
  intro id other
  have distinct : id ≠ u := fun same => other (same ▸ inside)
  simp [distinct]

/-- In a script that is in progress identifiers stand for the same under all of its sources, and
where less is open. -/
theorem denotes_withSource {p q : Place} {name b : Bytes} (inside : u ∈ p.chain)
    (shallower : q.Shallower p) (script : q.script = p.script) (source source' : Bytes)
    (h : ((c.withSource u source).context data).Denotes p name b) :
    ((c.withSource u source').context data).Denotes q name b := by
  have carries : ((c.withSource u source).context data).Carries
      ((c.withSource u source').context data) p q [name] :=
    Context.carries_of_sources (keeps_withSource source source')
      (find?_insert_of_inside inside source source') (.inl script)
  exact carries p q rfl rfl shallower rfl name (List.mem_singleton_self name) b h

/-- The locking script compiles to the same under all sources of the script that unlocks
it. -/
theorem locks_withSource {covered : Bytes} (source source' : Bytes)
    (h : ((c.withSource u source).context data).Locks { script := u } covered) :
    ((c.withSource u source').context data).Locks { script := u } covered := by
  obtain ⟨locking, hlocking, hrefers⟩ := h
  have inside : u ∈ ({ script := u } : Place).chain := List.mem_singleton_self u
  exact ⟨locking, hlocking, hrefers.transfer (keeps_withSource source source')
    (find?_insert_of_inside inside source source') (.refl _)⟩

/-- A source that spells the serialization compiles exactly if the locking script can be
compiled from it. -/
theorem generate_spelled (defaults : c.env.operations = .default signer)
    (transaction : data.transaction = some tx) (known : c.env.scripts.contains u = true)
    (free : ∀ name ∈ Node.namesAll (Signing.full alg :: Signing.preimage tx alg),
      c.env.Unshadowed name)
    (spelled : Signing.SpelledBy (c.env.bounds c.options) tx alg source) {b : Bytes} :
    (c.withSource u source).generate u data = .ok b ↔
      ∃ covered, ((c.withSource u source).context data).Locks { script := u } covered ∧
        Signing.serialize tx covered alg = b := by
  obtain ⟨nodes, hread, hnodes⟩ := spelled.nodes
  have program := program?_withSource (u := u) hread
  rw [generate_eq_ok, Context.gives_iff_yields program, ← Context.yields_bareAll]
  rcases hnodes with fields | whole
  · rw [fields]
    refine Context.yields_preimage_iff rfl defaults transaction fun name hname => ?_
    exact unshadowed_withSource known (free name (List.mem_append_right _ hname))
  · rw [whole, Context.yields_singleton]
    refine Context.nodeYields_full_iff rfl defaults transaction ?_
    exact unshadowed_withSource known (free _ (List.mem_append_left _ (List.mem_singleton_self _)))

/-- A source that spells the serialization mentions the locking script. -/
theorem mentions_spelled (known : c.env.scripts.contains u = true)
    (unlocks : c.env.unlocks.find? u = some l)
    (free : ∀ name ∈ Node.namesAll (Signing.full alg :: Signing.preimage tx alg),
      c.env.Unshadowed name)
    (spelled : Signing.SpelledBy (c.env.bounds c.options) tx alg source) :
    ((c.withSource u source).context data).Mentions u l := by
  obtain ⟨nodes, hread, hnodes⟩ := spelled.nodes
  have program := program?_withSource (u := u) hread
  rcases hnodes with fields | whole
  · have hname : componentName (text "covered_bytecode") ∈
        Node.namesAll (Signing.preimage tx alg) :=
      Node.mem_namesAll (List.mem_singleton_self _) (Signing.covered_mem_preimage tx alg)
    refine ⟨nodes, program, _, ?_, Context.leadsTo_component unlocks rfl rfl
      (unshadowed_withSource known (free _ (List.mem_append_right _ hname)))⟩
    rw [← Node.namesAll_bareAll, fields]
    exact hname
  · have hname : componentName (Signing.fullMark ++ alg.name) ∈ Node.namesAll [Signing.full alg] :=
      Node.mem_namesAll (List.mem_singleton_self _) (List.mem_singleton_self _)
    refine ⟨nodes, program, _, ?_, Context.leadsTo_component unlocks (Signing.pieces_full alg)
      (Signing.readsCovered_full alg) (unshadowed_withSource known (free _
        (List.mem_append_left _ (List.mem_singleton_self _))))⟩
    rw [← Node.namesAll_bareAll, whole]
    exact hname

/-- All sources of a script that spell the signing serialization, by its fields or as one
component, compile to the same bytecode. If the locking script compiles with a reference
to spare, that is the serialization with its bytecode. -/
theorem generate_preimage (defaults : c.env.operations = .default signer)
    (transaction : data.transaction = some tx) (known : c.env.scripts.contains u = true)
    (unlocks : c.env.unlocks.find? u = some l)
    (free : ∀ name ∈ Node.namesAll (Signing.full alg :: Signing.preimage tx alg),
      c.env.Unshadowed name)
    {source' : Bytes} (spelled : Signing.SpelledBy (c.env.bounds c.options) tx alg source)
    (spelled' : Signing.SpelledBy (c.env.bounds c.options) tx alg source') :
    (∀ b, (c.withSource u source).generate u data = .ok b ↔
        (c.withSource u source').generate u data = .ok b) ∧
      ∀ covered, (c.withSource u source).generate l data = .ok covered →
        ((c.withSource u source).context data).referencesNeeded l < c.options.referenceDepth →
          (c.withSource u source).generate u data = .ok (Signing.serialize tx covered alg) := by
  constructor
  · intro b
    rw [generate_spelled defaults transaction known free spelled,
      generate_spelled defaults transaction known free spelled']
    constructor
    · rintro ⟨covered, locks, hb⟩
      exact ⟨covered, locks_withSource source source' locks, hb⟩
    · rintro ⟨covered, locks, hb⟩
      exact ⟨covered, locks_withSource source' source locks, hb⟩
  · intro covered given room
    let ctx := (c.withSource u source).context data
    have hgives : ctx.Gives { script := l } covered := generate_eq_ok.1 given
    have mentions : ctx.Mentions u l := mentions_spelled known unlocks free spelled
    -- the locking script would not compile if it led back to the script that unlocks it
    have unreached : ¬ Relation.ReflTransGen ctx.Mentions l u := by
      intro reached
      obtain ⟨compiled, hcompiled, _⟩ := hgives
      exact Context.not_cyclic ⟨compiled, hcompiled⟩ ⟨l, .refl, .tail' reached mentions⟩
    have locks : ctx.Locks { script := u } covered := ⟨l, unlocks, hgives.refers room unreached⟩
    exact (generate_spelled defaults transaction known free spelled).2 ⟨covered, locks, rfl⟩

/-- The fields of the algorithm that covers everything, as a source. -/
def coveringSource : Bytes :=
  text "signing_serialization.version" ++
    text " signing_serialization.transaction_outpoints_hash" ++
    text " signing_serialization.transaction_sequence_numbers_hash" ++
    text " signing_serialization.outpoint_transaction_hash" ++
    text " signing_serialization.outpoint_index" ++
    text " signing_serialization.covered_bytecode_length" ++
    text " signing_serialization.covered_bytecode" ++
    text " signing_serialization.output_value signing_serialization.sequence_number" ++
    text " signing_serialization.transaction_outputs_hash" ++
    text " signing_serialization.locktime 0x41000000"

/-- The fields and the component for the whole in the place of a script that signs. -/
theorem generate_preimage_of_lock :
    let c : Compiler := ⟨lockedByOwner, {}⟩
    let tx : Transaction :=
      { version := 1, outpoints := [0x0a], sequenceNumbers := [0x0b], outputs := [0x0c] }
    let data : Data := { dataOfOwner with transaction := some tx }
    let serialization := Signing.serialize tx [0x51, 0x02, 0x51, 0x78] .allOutputs
    (c.withSource (text "unlock") coveringSource).generate (text "unlock") data =
        .ok serialization ∧
      (c.withSource (text "unlock") (text "signing_serialization.full_all_outputs")).generate
        (text "unlock") data = .ok serialization := by
  intro c tx data serialization
  have fields : Signing.SpelledBy (c.env.bounds c.options) tx .allOutputs coveringSource :=
    .inl (by decide +kernel)
  have whole : Signing.SpelledBy (c.env.bounds c.options) tx .allOutputs
      (text "signing_serialization.full_all_outputs") :=
    .inr (by decide +kernel)
  have known : c.env.scripts.contains (text "unlock") = true := rfl
  have unlocks : c.env.unlocks.find? (text "unlock") = some (text "lock") := rfl
  have free : ∀ name ∈ Node.namesAll (Signing.full .allOutputs ::
      Signing.preimage tx .allOutputs), c.env.Unshadowed name := by
    decide +kernel
  have transaction : data.transaction = some tx := rfl
  obtain ⟨same, given⟩ := generate_preimage rfl transaction known unlocks free fields whole
  have compiled := given [0x51, 0x02, 0x51, 0x78] (by decide +kernel) (by decide +kernel)
  exact ⟨compiled, (same _).1 compiled⟩

/-- The fields of an algorithm that covers neither outputs nor other inputs, as a source. -/
def fieldsSource : Bytes :=
  let zeros := text " 0x0000000000000000000000000000000000000000000000000000000000000000"
  text "signing_serialization.version" ++ zeros ++ zeros ++
    text " signing_serialization.outpoint_transaction_hash" ++
    text " signing_serialization.outpoint_index" ++
    text " signing_serialization.covered_bytecode_length" ++
    text " signing_serialization.covered_bytecode" ++
    text " signing_serialization.output_value signing_serialization.sequence_number" ++ zeros ++
    text " signing_serialization.locktime 0xc2000000"

/-- The component for the whole, as a source. -/
def fullSource : Bytes := text "signing_serialization.full_no_outputs_single_input"

/-- A variable with the name of a component takes the identifier over, so the fields come
to other bytes than the whole. -/
theorem preimage_shadowed :
    let c : Compiler :=
      { env :=
          { definitions := .ofList [(componentName (text "version"), {})]
            scripts := .ofList [
              (text "lock", text "0x51"), (text "fields", fieldsSource), (text "full", fullSource)]
            unlocks := .ofList [(text "fields", text "lock"), (text "full", text "lock")]
            operations := .default .deterministic } }
    let data : Data :=
      { walletData := .ofList [(componentName (text "version"), [0x01, 0, 0, 0])]
        transaction := some {} }
    (treeOf? (c.env.bounds c.options) fieldsSource).map Node.bareAll =
        some (Signing.preimage {} .noOutputsSingleInput) ∧
      (treeOf? (c.env.bounds c.options) fullSource).map Node.bareAll =
        some [Signing.full .noOutputsSingleInput] ∧
      c.generate (text "lock") data = .ok [0x51] ∧
      c.generate (text "fields") data =
        .ok (Signing.serialize { version := 1 } [0x51] .noOutputsSingleInput) ∧
      c.generate (text "full") data =
        .ok (Signing.serialize {} [0x51] .noOutputsSingleInput) ∧
      c.generate (text "fields") data ≠ c.generate (text "full") data := by
  intro c data
  have fields : c.generate (text "fields") data =
      .ok (Signing.serialize { version := 1 } [0x51] .noOutputsSingleInput) := by
    decide +kernel
  have whole : c.generate (text "full") data =
      .ok (Signing.serialize {} [0x51] .noOutputsSingleInput) := by
    decide +kernel
  refine ⟨by decide +kernel, by decide +kernel, by decide +kernel, fields, whole, ?_⟩
  rw [fields, whole]
  decide +kernel

end Compiler

end AuthScript
