import AuthScript.Proofs.Coverage
import AuthScript.Proofs.Depth

/-!
# A reference is an expansion

An identifier that names a script stands for the bytes that the script compiles to. So
do the nodes of that script, put in the place of the identifier: they resolve in
another script then, with one script less in progress and as many open brackets, and
neither makes a difference unless one of them covers the locking script of the script
that it stands in.
-/

namespace AuthScript

namespace Node

/-- Nodes and what they become when one identifier, at any depth, is replaced by other
nodes. -/
inductive Splices (name : Bytes) (body : List Node) : List Node → List Node → Prop where
  | here (range : Range) (rest : List Node) :
      Splices name body (.identifier name range :: rest) (body ++ rest)
  | later (node : Node) {rest rest' : List Node} : Splices name body rest rest' →
      Splices name body (node :: rest) (node :: rest')
  | push (range : Range) (rest : List Node) {children children' : List Node} :
      Splices name body children children' →
      Splices name body (.push children range :: rest) (.push children' range :: rest)
  | evaluation (range : Range) (rest : List Node) {children children' : List Node} :
      Splices name body children children' →
      Splices name body (.evaluation children range :: rest) (.evaluation children' range :: rest)

end Node

/-- The default operations do not look at the script that an identifier stands in. -/
theorem Invoker.operation_request_script (signer : Curve.Signer) (cap : Capability)
    (access : Access) (name s s' : Bytes) (covered signed : Option Bytes) (data : Data) :
    sync.operation (.default signer) cap (access.request name s covered signed) data =
      sync.operation (.default signer) cap (access.request name s' covered signed) data := by
  cases cap <;> rfl

/-- An identifier covers the locking script of the script that it stands in. -/
def Environment.CoversLocking (env : Environment) (data : Data) (name : Bytes) : Prop :=
  ∃ access, Meaning.ofName env name = .ok (.variable_ access) ∧
    access.needsCovered data name = true

namespace Context

variable {ctx : Context} {signer : Curve.Signer} {scripts : Table Bytes} {debug : Bool}

theorem portable_of_default (calls : ctx.invoker = .sync)
    (defaults : ctx.env.operations = .default signer) {name : Bytes}
    (h : ¬ ctx.env.CoversLocking ctx.data name) :
    ctx.Portable name := by
  intro access hm
  refine ⟨Bool.eq_false_iff.2 fun needs => h ⟨access, hm, needs⟩, ?_⟩
  intro cap s s' covered signed
  rw [calls, defaults, Invoker.operation_request_script signer cap access name s s']

/-- What is put in the place of a reference comes to the same bytes, whatever the source
of the script around it is. -/
theorem Yields.splice (keeps : ctx.Keeps scripts) {name : Bytes} {body nodes nodes' : List Node}
    (hname : Meaning.ofName ctx.env name = .ok .script)
    (hbody : ctx.env.program? ctx.options name = some body)
    (portable : ∀ inner ∈ Node.namesAll body, ctx.Portable inner)
    (splices : Node.Splices name body nodes nodes') {p : Place}
    (sources : ∀ id ∉ p.chain, scripts.find? id = ctx.env.scripts.find? id) {b : Bytes}
    (h : ctx.Yields p nodes b) : (ctx.withScripts scripts debug).Yields p nodes' b := by
  induction splices generalizing p b with
  | here range rest =>
      obtain ⟨own, other, hown, hother, rfl⟩ := yields_cons.1 h
      have hdenotes : ctx.Denotes p name own := nodeYields_identifier.1 hown
      rw [Denotes, hname] at hdenotes
      obtain ⟨_, _, hgives⟩ := hdenotes
      have hyields := (gives_iff_yields hbody).1 hgives
      have shallower : p.Shallower (p.enter name) := by
        refine ⟨fun id hid => List.mem_append_left _ hid, ?_, Nat.le_refl _, Nat.le_refl _⟩
        simp
      have inner : ∀ id ∉ (p.enter name).chain,
          scripts.find? id = ctx.env.scripts.find? id := fun id hid =>
        sources id fun hmem => hid (List.mem_append_left _ hmem)
      have hin : (ctx.withScripts scripts debug).Yields p body own :=
        hyields.transfer (options_withScripts ctx scripts debug) keeps.evaluates
          (carries_of_sources keeps inner (.inr portable)) shallower
      exact yields_append.2 ⟨own, other, hin, hother.withScripts keeps sources, rfl⟩
  | later node _ ih =>
      obtain ⟨own, other, hown, hother, rfl⟩ := yields_cons.1 h
      have hnode : (ctx.withScripts scripts debug).Yields p [node] own :=
        (yields_singleton.2 hown).withScripts keeps sources
      exact yields_cons.2 ⟨own, other, yields_singleton.1 hnode, ih sources hother, rfl⟩
  | push range rest _ ih =>
      obtain ⟨own, other, hown, hother, rfl⟩ := yields_cons.1 h
      obtain ⟨room, contents, hcontents, hpush⟩ := nodeYields_push.1 hown
      have hin := ih (p := p.inBracket) sources hcontents
      exact yields_cons.2 ⟨own, other, nodeYields_push.2 ⟨room, contents, hin, hpush⟩,
        hother.withScripts keeps sources, rfl⟩
  | evaluation range rest _ ih =>
      obtain ⟨own, other, hown, hother, rfl⟩ := yields_cons.1 h
      obtain ⟨room, few, body, hbody, heval⟩ := nodeYields_evaluation.1 hown
      have hin := ih (p := p.inBracket.inEvaluation) sources hbody
      exact yields_cons.2 ⟨own, other,
        nodeYields_evaluation.2 ⟨room, few, body, hin, keeps.evaluates heval⟩,
        hother.withScripts keeps sources, rfl⟩

/-- A script may get another source without any change to the others. -/
theorem Keeps.insert {id : Bytes} (calls : ctx.invoker = .sync)
    (known : ctx.env.scripts.contains id = true) (source : Bytes) :
    ctx.Keeps (ctx.env.scripts.insert id source) := by
  constructor
  · intro other
    by_cases same : other = id
    · rw [same, known]
      simp [Table.contains]
    · simp [Table.contains, same]
  · rw [calls]
    rfl

/-- The nodes of a script with a reference replaced come to what the script gives. -/
theorem Gives.splice (calls : ctx.invoker = .sync) (defaults : ctx.env.operations = .default signer)
    (keeps : ctx.Keeps scripts) {name : Bytes} {body nodes nodes' : List Node}
    (hname : Meaning.ofName ctx.env name = .ok .script)
    (hbody : ctx.env.program? ctx.options name = some body)
    (uncovered : ∀ inner ∈ Node.namesAll body, ¬ ctx.env.CoversLocking ctx.data inner)
    (splices : Node.Splices name body nodes nodes') {p : Place}
    (sources : ∀ id ∉ p.chain, scripts.find? id = ctx.env.scripts.find? id)
    (program : ctx.env.program? ctx.options p.script = some nodes) {b : Bytes}
    (h : ctx.Gives p b) : (ctx.withScripts scripts debug).Yields p nodes' b := by
  have hyields := (gives_iff_yields program).1 h
  have portable : ∀ inner ∈ Node.namesAll body, ctx.Portable inner := by
    intro inner hinner
    exact portable_of_default calls defaults (uncovered inner hinner)
  exact Yields.splice keeps hname hbody portable splices sources hyields

end Context

namespace Compiler

/-- Where a reference to a script is replaced by the nodes of that script, and none of
these covers a locking script, the bytecode stays the same: that of the new nodes, and
that of every source which spells them. -/
theorem generate_spliced {c : Compiler} {signer : Curve.Signer}
    (defaults : c.env.operations = .default signer) {data : Data} {id name b : Bytes}
    {body nodes nodes' : List Node} (given : c.generate id data = .ok b)
    (program : c.env.program? c.options id = some nodes)
    (hname : Meaning.ofName c.env name = .ok .script)
    (hbody : c.env.program? c.options name = some body)
    (splices : Node.Splices name body nodes nodes')
    (uncovered : ∀ inner ∈ Node.namesAll body, ¬ c.env.CoversLocking data inner) :
    (c.context data).Yields { script := id } nodes' b ∧
      ∀ source options read, treeOf? (c.env.bounds options) source = some read →
        Node.bareAll read = Node.bareAll nodes' →
        (⟨{ c.env with scripts := c.env.scripts.insert id source }, c.options⟩ :
          Compiler).generate id data = .ok b := by
  have hgives := generate_eq_ok.1 given
  obtain ⟨old, hold, _⟩ := Environment.program?_eq_some.1 program
  have known : c.env.scripts.contains id = true := (Table.contains_iff_find? _ _).2 ⟨old, hold⟩
  constructor
  · exact hgives.splice rfl defaults (Context.Keeps.same _) hname hbody uncovered splices
      (fun _ _ => rfl) program
  · intro source options read hread hbare
    have keeps : (c.context data).Keeps (c.env.scripts.insert id source) :=
      Context.Keeps.insert rfl known source
    have sources : ∀ other ∉ ({ script := id } : Place).chain,
        (c.env.scripts.insert id source).find? other = c.env.scripts.find? other := by
      intro other hother
      have distinct : other ≠ id := by simpa [Place.chain] using hother
      simp [distinct]
    have hyields : ((c.context data).withScripts (c.env.scripts.insert id source) false).Yields
        { script := id } nodes' b :=
      hgives.splice rfl defaults keeps hname hbody uncovered splices sources program
    -- the source can be read, for the brackets of its nodes have been opened
    have room : Node.depthAll read ≤ c.options.nestingDepth := by
      rw [← Node.depthAll_bareAll, hbare, Node.depthAll_bareAll]
      exact hyields.depthAll_le
    have hprogram : treeOf? (c.env.bounds c.options) source = some read :=
      treeOf?_of_depthAll_le hread room
    have hfind : (c.env.scripts.insert id source).find? id = some source := by simp
    rw [generate_eq_ok, Context.gives_iff]
    refine ⟨read, Environment.program?_eq_some.2 ⟨source, hfind, hprogram⟩, ?_⟩
    rw [← Context.yields_bareAll, hbare, Context.yields_bareAll]
    exact hyields

theorem generate_spliced_in_push :
    let c : Compiler := ⟨lockedByOwner, {}⟩
    let source := text "OP_1 <OP_1 $(<'x'>)>"
    c.generate (text "lock") dataOfOwner = .ok [0x51, 0x02, 0x51, 0x78] ∧
      (⟨{ c.env with scripts := c.env.scripts.insert (text "lock") source }, c.options⟩ :
        Compiler).generate (text "lock") dataOfOwner = .ok [0x51, 0x02, 0x51, 0x78] := by
  intro c source
  have given : c.generate (text "lock") dataOfOwner = .ok [0x51, 0x02, 0x51, 0x78] := by
    decide +kernel
  refine ⟨given, ?_⟩
  let first : Node := .identifier (text "OP_1") ⟨⟨1, 1, 0⟩, ⟨1, 5, 4⟩⟩
  let body : List Node := [first,
    .evaluation [.push [.utf8 (text "x") ⟨⟨1, 9, 8⟩, ⟨1, 12, 11⟩⟩] ⟨⟨1, 8, 7⟩, ⟨1, 13, 12⟩⟩]
      ⟨⟨1, 6, 5⟩, ⟨1, 14, 13⟩⟩]
  have program : c.env.program? c.options (text "lock") = some [first,
      .push [.identifier (text "data") ⟨⟨1, 7, 6⟩, ⟨1, 11, 10⟩⟩] ⟨⟨1, 6, 5⟩, ⟨1, 12, 11⟩⟩] := by
    decide +kernel
  have hbody : c.env.program? c.options (text "data") = some body := by decide +kernel
  have hread : treeOf? (c.env.bounds {}) source = some [
      .identifier (text "OP_1") ⟨⟨1, 1, 0⟩, ⟨1, 5, 4⟩⟩,
      .push [.identifier (text "OP_1") ⟨⟨1, 7, 6⟩, ⟨1, 11, 10⟩⟩,
        .evaluation [.push [.utf8 (text "x") ⟨⟨1, 15, 14⟩, ⟨1, 18, 17⟩⟩]
          ⟨⟨1, 14, 13⟩, ⟨1, 19, 18⟩⟩] ⟨⟨1, 12, 11⟩, ⟨1, 20, 19⟩⟩] ⟨⟨1, 6, 5⟩, ⟨1, 21, 20⟩⟩] := by
    decide +kernel
  have hname : Meaning.ofName c.env (text "data") = .ok .script := by decide +kernel
  have hopcode : Meaning.ofName c.env (text "OP_1") = .ok (.opcode 0x51) := by decide +kernel
  have uncovered : ∀ inner ∈ Node.namesAll body, ¬ c.env.CoversLocking dataOfOwner inner := by
    intro inner hinner
    obtain rfl : inner = text "OP_1" := by
      simpa [body, first, Node.namesAll, Node.names] using hinner
    rintro ⟨access, hm, _⟩
    rw [hopcode] at hm
    cases hm
  have splices : Node.Splices (text "data") body
      [first, .push [.identifier (text "data") ⟨⟨1, 7, 6⟩, ⟨1, 11, 10⟩⟩] ⟨⟨1, 6, 5⟩, ⟨1, 12, 11⟩⟩]
      [first, .push (body ++ []) ⟨⟨1, 6, 5⟩, ⟨1, 12, 11⟩⟩] :=
    .later first (.push _ [] (.here _ []))
  refine (generate_spliced rfl given program hname hbody splices uncovered).2 source {} _ hread ?_
  simp only [body, first, Node.bareAll, Node.bare, List.append_nil]

end Compiler

end AuthScript
