import AuthScript.Proofs.Instruction
import AuthScript.Proofs.OpcodeName
import AuthScript.Proofs.Reading

/-!
# Disassembled programs are sources

A program in words is a source again. Each instruction is a word for its opcode and, if it
pushes bytes that follow it, a hexadecimal literal (`Instruction.words`); the opcode stands
for itself and the literal for the payload, so the instruction compiles to its own bytes
(`Context.yields_spelling`). A program that is read to its end compiles to itself, unless it
has a push whose length stands behind the opcode: of that length the words do not tell.
-/

namespace AuthScript

/-! ## Names of opcodes as identifiers -/

theorem Opcode.undotted_name (op : UInt8) : 0x2e ∉ name op := by
  obtain ⟨more, hname, inside⟩ := name_eq_cons op
  rw [hname]
  intro dot
  rcases List.mem_cons.1 dot with first | behind
  · exact absurd first (by decide)
  · exact absurd (inside 0x2e behind) (by decide)

/-- The name of an opcode belongs to no variable. -/
theorem Access.ofName?_opcode {env : Environment} (definitions : env.definitions = ∅)
    (op : UInt8) : ofName? env (Opcode.name op) = none := by
  have other : Opcode.name op ≠ signingSerialization := by
    obtain ⟨more, hname, _⟩ := Opcode.name_eq_cons op
    rw [hname]
    intro same
    exact absurd (List.cons.inj same).1 (by decide)
  have undotted := Opcode.undotted_name op
  unfold ofName? headDefinition?
  simp [definitions, undotted, head_eq_self undotted, other]

/-- In an environment with the usual opcodes and no variables, the name of an opcode means
that opcode, unless a script has it. -/
theorem Meaning.ofName_opcode {env : Environment} (opcodes : env.opcodes = Opcode.table)
    (definitions : env.definitions = ∅) {op : UInt8}
    (unnamed : env.scripts.contains (Opcode.name op) = false) :
    ofName env (Opcode.name op) = .ok (.opcode op) := by
  have found : env.opcodes.find? (Opcode.name op) = some op := by
    rw [opcodes]
    exact Opcode.ofName?_name op
  unfold ofName
  rw [found, Access.ofName?_opcode definitions, unnamed]

/-! ## Joining -/

theorem Bytes.join_append {separator : Bytes} {first others : List Bytes} (hfirst : first ≠ [])
    (hothers : others ≠ []) :
    join separator (first ++ others) =
      join separator first ++ separator ++ join separator others := by
  induction first with
  | nil => exact absurd rfl hfirst
  | cons b first ih =>
      cases first with
      | nil =>
          obtain ⟨c, others, rfl⟩ := List.exists_cons_of_ne_nil hothers
          rfl
      | cons c first =>
          rw [List.cons_append, List.cons_append, join_cons_cons, ← List.cons_append,
            ih (List.cons_ne_nil _ _), join_cons_cons]
          simp only [List.append_assoc]

/-- Joining what has been joined is joining all pieces. -/
theorem Bytes.join_map_join {α : Type} {separator : Bytes} {f : α → List Bytes} {l : List α}
    (some : ∀ a ∈ l, f a ≠ []) :
    join separator (l.map fun a => join separator (f a)) = join separator (l.flatMap f) := by
  induction l with
  | nil => rfl
  | cons a l ih =>
      obtain ⟨first, others⟩ := List.forall_mem_cons.1 some
      cases l with
      | nil => simp
      | cons b l =>
          have rest : (b :: l).flatMap f ≠ [] := by
            rw [List.flatMap_cons]
            exact List.append_ne_nil_of_left_ne_nil (others b List.mem_cons_self) _
          rw [List.flatMap_cons, join_append first rest, ← ih others]
          rfl

/-! ## Instructions in words -/

theorem Hex.isDigit_of_mem_encode {b : Bytes} {d : UInt8} (h : d ∈ encode b) :
    isDigit d = true := by
  obtain ⟨c, _, hd⟩ := List.mem_flatMap.1 h
  obtain ⟨hi, lo, _⟩ := digits_halves c
  have cases : d = digitOf (c >>> 4) ∨ d = digitOf (c &&& 15) := by simpa [digits] using hd
  rcases cases with rfl | rfl
  · rw [isDigit, hi]
    rfl
  · rw [isDigit, lo]
    rfl

namespace Machine

namespace Instruction

/-- The words of an instruction: its opcode and, in hexadecimal, the payload behind it. -/
def words (i : Instruction) : List Token :=
  ⟨.identifier, Opcode.name i.opcode, {}⟩ ::
    if Opcode.isDirectPush i.opcode then [⟨.hex, text "0x" ++ Hex.encode i.payload, {}⟩] else []

/-- What the words of an instruction are read as. -/
def spelling (i : Instruction) : List Node :=
  .identifier (Opcode.name i.opcode) {} ::
    if Opcode.isDirectPush i.opcode then [.hex (Hex.encode i.payload) {}] else []

/-- An instruction says how many bytes it pushes by its opcode, if at all. -/
def IsPlain (i : Instruction) : Prop := i.opcode ∉ ([0x4c, 0x4d, 0x4e] : List UInt8)

variable {i : Instruction}

theorem IsPlain.isDirectPush_iff (h : i.IsPlain) :
    Opcode.isDirectPush i.opcode = true ↔ 1 ≤ i.opcode ∧ i.opcode ≤ 0x4e := by
  simp only [IsPlain, List.mem_cons, List.not_mem_nil, or_false, not_or, ← UInt8.toNat_inj,
    UInt8.reduceToNat] at h
  simp only [Instruction.isDirectPush_iff, UInt8.le_iff_toNat_le, UInt8.reduceToNat]
  omega

theorem IsPlain.encode_eq (h : i.IsPlain) : i.encode = i.opcode :: i.payload := by
  have width : lengthWidth i.opcode = 0 := by
    simp only [IsPlain, List.mem_cons, List.not_mem_nil, or_false, not_or, ← UInt8.toNat_inj,
      UInt8.reduceToNat] at h
    exact lengthWidth_eq_zero (by omega)
  rw [Instruction.encode_eq, width, Bytes.littleEndian_zero, List.nil_append]

/-- An instruction that is no push has no payload. -/
theorem IsPlain.payload_eq_nil (h : i.IsPlain) (wf : i.WellFormed)
    (other : Opcode.isDirectPush i.opcode = false) : i.payload = [] := by
  have width : lengthWidth i.opcode = 0 := by
    have length := congrArg List.length h.encode_eq
    rw [length_encode, List.length_cons] at length
    omega
  simp only [WellFormed, other, width] at wf
  exact List.length_eq_zero_iff.1 (by simpa using wf)

theorem format_eq (h : i.IsPlain) :
    i.format = Bytes.join (text " ") (i.words.map Token.text) := by
  unfold format words
  cases direct : Opcode.isDirectPush i.opcode with
  | true =>
      have words : ∀ name digits : Bytes, name ++ text " 0x" ++ digits =
          Bytes.join (text " ") [name, text "0x" ++ digits] := by
        intro name digits
        have mark : text " 0x" = text " " ++ text "0x" := rfl
        rw [mark, ← List.append_assoc, List.append_assoc]
        rfl
      rw [if_pos (h.isDirectPush_iff.1 direct), words]
      rfl
  | false =>
      rw [if_neg fun range => Bool.false_ne_true (direct.symm.trans (h.isDirectPush_iff.2 range))]
      rfl

theorem word_of_mem_words : ∀ t ∈ i.words, t.Word := by
  intro t ht
  rcases List.mem_cons.1 ht with rfl | ht
  · obtain ⟨more, hname, inside⟩ := Opcode.name_eq_cons i.opcode
    exact ⟨⟨0x4f, more, hname, .identifier rfl (Token.dotted_of_inIdentifier inside)⟩, rfl⟩
  · split at ht
    · obtain rfl := List.mem_singleton.1 ht
      exact ⟨⟨_, _, rfl, .hex fun d => Hex.isDigit_of_mem_encode⟩, rfl⟩
    · cases ht

theorem words_spelled (digits : Option Nat) (wf : i.WellFormed) :
    List.Forall₂ (Token.Spells digits) (i.words.map Token.bare) i.spelling := by
  unfold words spelling
  refine .cons (Token.spells_identifier _ _) ?_
  cases direct : Opcode.isDirectPush i.opcode with
  | true =>
      have some : Hex.encode i.payload ≠ [] := by
        have length : i.payload.length = i.opcode.toNat := by simpa [WellFormed, direct] using wf
        have positive := (Instruction.isDirectPush_iff.1 direct).1
        refine List.ne_nil_of_length_pos ?_
        rw [Hex.length_encode]
        omega
      exact .cons (Token.spells_hex some _) .nil
  | false => exact .nil

end Instruction

end Machine

namespace Context

open Machine

variable {ctx : Context} {p : Place}

/-- The words of an instruction come to its bytes. -/
theorem yields_spelling {i : Instruction} (plain : i.IsPlain) (wf : i.WellFormed)
    (name : Meaning.ofName ctx.env (Opcode.name i.opcode) = .ok (.opcode i.opcode)) :
    ctx.Yields p i.spelling i.encode := by
  have opcode : ctx.NodeYields p (.identifier (Opcode.name i.opcode) {}) [i.opcode] := by
    rw [nodeYields_identifier, Denotes, name]
  rw [plain.encode_eq]
  unfold Instruction.spelling
  cases direct : Opcode.isDirectPush i.opcode with
  | true =>
      have payload : ctx.NodeYields p (.hex (Hex.encode i.payload) {}) i.payload := by
        rw [nodeYields_hex, Hex.length_encode]
        exact ⟨Nat.mul_mod_right 2 _, Hex.decode?_encode _⟩
      exact yields_cons.2 ⟨_, _, opcode, yields_singleton.2 payload, rfl⟩
  | false =>
      rw [plain.payload_eq_nil wf direct]
      exact yields_singleton.2 opcode

theorem yields_spellings {instructions : List Instruction}
    (h : ∀ i ∈ instructions, i.IsPlain ∧ i.WellFormed)
    (names : ∀ op, Meaning.ofName ctx.env (Opcode.name op) = .ok (.opcode op)) :
    ctx.Yields p (instructions.flatMap Instruction.spelling)
      (instructions.flatMap Instruction.encode) := by
  induction instructions with
  | nil => exact yields_nil.2 rfl
  | cons i rest ih =>
      obtain ⟨⟨plain, wf⟩, others⟩ := List.forall_mem_cons.1 h
      rw [List.flatMap_cons, List.flatMap_cons]
      exact yields_append.2 ⟨_, _, yields_spelling plain wf (names i.opcode), ih others, rfl⟩

end Context

/-- A program in words is read as the words of its instructions. -/
theorem Compiler.treeOf?_disassemble (bounds : Tree.Bounds) {b : Bytes}
    (whole : (Machine.Program.decode b).malformed = false)
    (plain : ∀ i ∈ (Machine.Program.decode b).instructions, i.IsPlain) :
    (treeOf? bounds (Machine.disassemble b)).map Node.bareAll =
      some ((Machine.Program.decode b).instructions.flatMap Machine.Instruction.spelling) := by
  have wf := (Machine.Program.decode_wellFormed b).1
  have source : Machine.disassemble b = Bytes.join (text " ")
      (((Machine.Program.decode b).instructions.flatMap Machine.Instruction.words).map
        Token.text) := by
    have formats := List.map_congr_left fun i hi => Machine.Instruction.format_eq (plain i hi)
    rw [Machine.disassemble, Machine.Program.format, whole, if_neg Bool.false_ne_true,
      List.append_nil, formats, List.map_flatMap]
    exact Bytes.join_map_join fun i _ => List.cons_ne_nil _ _
  rw [source]
  refine treeOf?_join bounds ?_ ?_
  · intro t ht
    obtain ⟨i, _, ht⟩ := List.mem_flatMap.1 ht
    exact Machine.Instruction.word_of_mem_words t ht
  · rw [List.map_flatMap]
    have same : List.Forall₂ (fun i j : Machine.Instruction => i = j ∧ i.WellFormed)
        (Machine.Program.decode b).instructions (Machine.Program.decode b).instructions :=
      List.forall₂_same.2 fun i hi => ⟨rfl, wf i hi⟩
    refine List.rel_flatMap same ?_
    rintro i _ ⟨rfl, hi⟩
    exact Machine.Instruction.words_spelled bounds.digits hi

/-- The usual compiler adds opcodes, operations and a machine, and changes no names. -/
theorem Compiler.env_common (signer : Curve.Signer) (env : Environment) (options : Options) :
    ∃ machine, (common signer env options).env =
      { complete env (.default signer) with machine } := by
  unfold common
  simp only
  split
  · exact ⟨_, rfl⟩
  · exact ⟨_, rfl⟩

/-- A program that is read to its end, and has no push whose length stands behind the opcode,
is what its words compile to, where nothing is defined but the usual opcodes and the script
itself. -/
theorem Compiler.generate_disassemble {signer : Curve.Signer} {env : Environment}
    {options : Options} {id b : Bytes}
    (opcodes : env.opcodes = ∅ ∨ env.opcodes = Opcode.table) (definitions : env.definitions = ∅)
    (scripts : env.scripts = .ofList [(id, Machine.disassemble b)])
    (unnamed : Opcode.ofName? id = none) (whole : (Machine.Program.decode b).malformed = false)
    (plain : ∀ i ∈ (Machine.Program.decode b).instructions, i.IsPlain) (data : Data) :
    (common signer env options).generate id data = .ok b := by
  obtain ⟨machine, common⟩ := env_common signer env options
  have table : (Compiler.common signer env options).env.opcodes = Opcode.table := by
    rw [common, complete]
    rcases opcodes with h | h
    · have empty : (∅ : Table UInt8).isEmpty = true := rfl
      simp only [h, empty, if_true]
    · simp only [h, ite_self]
  have kept : (Compiler.common signer env options).env.definitions = env.definitions ∧
      (Compiler.common signer env options).env.scripts = env.scripts := by
    rw [common]
    exact ⟨rfl, rfl⟩
  have find : (Compiler.common signer env options).env.scripts.find? id =
      some (Machine.disassemble b) := by
    rw [kept.2, scripts]
    simp [Table.ofList]
  have names : ∀ op, Meaning.ofName (Compiler.common signer env options).env (Opcode.name op) =
      .ok (.opcode op) := by
    intro op
    refine Meaning.ofName_opcode table (kept.1.trans definitions) ?_
    have other : Opcode.name op ≠ id := by
      rintro rfl
      cases unnamed.symm.trans (Opcode.ofName?_name op)
    rw [kept.2, scripts]
    simp [Table.contains, Table.ofList, other]
  have wf := (Machine.Program.decode_wellFormed b).1
  have yields : ((Compiler.common signer env options).context data).Yields { script := id }
      ((Machine.Program.decode b).instructions.flatMap Machine.Instruction.spelling)
      ((Machine.Program.decode b).instructions.flatMap Machine.Instruction.encode) :=
    Context.yields_spellings (fun i hi => ⟨plain i hi, wf i hi⟩) names
  rw [Machine.Program.flatMap_encode_decode whole] at yields
  exact (generate_iff_yields find (treeOf?_disassemble _ whole plain)).2 yields

theorem Compiler.generate_disassemble_of_pushes :
    let b : Bytes := [0x51, 0x02, 0xab, 0xcd, 0x00, 0xff]
    let env : Environment := { scripts := .ofList [(text "main", Machine.disassemble b)] }
    Machine.disassemble b = text "OP_1 OP_PUSHBYTES_2 0xabcd OP_0 OP_UNKNOWN255" ∧
      (common .deterministic env {}).generate (text "main") {} = .ok b := by
  intro b env
  have decoded : Machine.Program.decode b =
      ⟨[⟨0x51, []⟩, ⟨0x02, [0xab, 0xcd]⟩, ⟨0x00, []⟩, ⟨0xff, []⟩], false⟩ := by
    with_unfolding_all rfl
  have unnamed : Opcode.ofName? (text "main") = none := by
    refine Option.eq_none_iff_forall_ne_some.2 fun op found => ?_
    obtain ⟨more, hname, _⟩ := Opcode.name_eq_cons op
    have same := hname.symm.trans (Opcode.ofName?_eq_some_iff.1 found)
    exact absurd (List.cons.inj same).1 (by decide)
  have plain : ∀ i ∈ (Machine.Program.decode b).instructions, i.IsPlain := by
    rw [decoded]
    simp [Machine.Instruction.IsPlain]
  have whole : (Machine.Program.decode b).malformed = false := by rw [decoded]
  refine ⟨?_, generate_disassemble (.inl rfl) rfl rfl unnamed whole plain {}⟩
  rw [Machine.disassemble, decoded]
  rfl

end AuthScript
