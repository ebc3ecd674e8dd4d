import AuthScript.Bytecode.Resolved
import AuthScript.Machine.Run
import AuthScript.Proofs.Push
import AuthScript.Proofs.Run
import Mathlib.Data.List.Forall2

/-!
# Running generated pushes

The bytecode of a list of push nodes reads as the shortest instructions for their
contents, one for each. Each of these leaves its contents on the stack, whether it spells
them out or stands for a small number, and none counts as an operation. So a run of the
bytecode leaves the contents on the stack in order, if they fit.
-/

namespace AuthScript

open Machine

/-! ## What the opcodes of pushes do -/

theorem Opcode.action_of_le {op : UInt8} (h : op.toNat ≤ 0x4e) : action op = .push := by
  have all : ∀ n : Fin 79, action n.val.toUInt8 = .push := by decide +kernel
  have hop : op.toNat.toUInt8 = op := UInt8.ofNat_toNat
  exact hop ▸ all ⟨op.toNat, Nat.lt_succ_of_le h⟩

theorem Opcode.action_ofSmallNumber {n : Int} (h : IsSmall n) :
    action (ofSmallNumber n) = .constant n := by
  obtain rfl | ⟨k, rfl, lower, upper⟩ := h
  · decide
  · have all : ∀ k : Fin 17, 1 ≤ k.val → action (ofSmallNumber k.val) = .constant k.val := by
      decide
    exact all ⟨k, Nat.lt_succ_of_le upper⟩ lower

namespace Machine

variable {limits : Limits} {s : State}

theorem State.checkSize_eq_ok (h : s.stack.length + s.alt.length ≤ limits.stackSize) :
    s.checkSize limits = .ok s :=
  if_neg (Nat.not_lt.2 h)

/-- The state after one more instruction, which pushed an item. -/
def State.pushed (s : State) (item : Bytes) : State :=
  { s with stack := item :: s.stack, executed := s.executed + 1 }

theorem step_push {i : Instruction} (haction : Opcode.action i.opcode = .push)
    (minimal : i.isMinimalPush = true) (executing : s.isExecuting = true)
    (fits : i.payload.length ≤ limits.elementSize)
    (room : s.stack.length + s.alt.length < limits.stackSize) :
    step limits s i = .ok (s.pushed i.payload) := by
  have hsize : (s.pushed i.payload).checkSize limits = .ok (s.pushed i.payload) := by
    refine State.checkSize_eq_ok ?_
    simp only [State.pushed, List.length_cons]
    omega
  have hexecuting : ({ s with executed := s.executed + 1 } : State).isExecuting = true := executing
  simp only [step, haction, if_neg (Nat.not_lt.2 fits), hexecuting, if_true, State.push, minimal]
  exact hsize

theorem step_constant {i : Instruction} {n : Int} (haction : Opcode.action i.opcode = .constant n)
    (uncounted : Opcode.isPush i.opcode = true) (executing : s.isExecuting = true)
    (room : s.stack.length + s.alt.length < limits.stackSize) :
    step limits s i = .ok (s.pushed (ScriptNumber.encode n)) := by
  have hsize : (s.pushed (ScriptNumber.encode n)).checkSize limits =
      .ok (s.pushed (ScriptNumber.encode n)) := by
    refine State.checkSize_eq_ok ?_
    simp only [State.pushed, List.length_cons]
    omega
  have hexecuting : ({ s with executed := s.executed + 1 } : State).isExecuting = true := executing
  have hcount : ({ s with executed := s.executed + 1 } : State).count limits i.opcode =
      .ok { s with executed := s.executed + 1 } := if_pos uncounted
  simp only [step, haction, hcount]
  simp only [bind, Except.bind, hexecuting, if_true, State.perform, State.withStack]
  exact hsize

/-- The shortest push of a payload puts it on the stack, and does nothing else. -/
theorem step_instruction {payload : Bytes} (executing : s.isExecuting = true)
    (fits : payload.length ≤ limits.elementSize)
    (room : s.stack.length + s.alt.length < limits.stackSize) :
    step limits s (Push.instruction payload) = .ok (s.pushed payload) := by
  cases hop : Push.smallOpcode? payload with
  | some op =>
      rw [Push.instruction_of_some hop]
      rcases Push.smallOpcode?_eq_some.1 hop with ⟨rfl, rfl⟩ | ⟨n, hn, rfl, rfl⟩
      · exact step_push rfl rfl executing fits room
      · have uncounted : Opcode.isPush (Opcode.ofSmallNumber n) = true :=
          decide_eq_true (UInt8.le_iff_toNat_le.2 (Opcode.toNat_ofSmallNumber hn).2)
        exact step_constant (Opcode.action_ofSmallNumber hn) uncounted executing room
  | none =>
      have minimal : (Push.instruction payload).isMinimalPush = true := by
        rw [Instruction.isMinimalPush_iff, Push.instruction_of_none hop]
        exact (Push.instruction_of_none hop).symm
      rw [Push.instruction_of_none hop] at minimal ⊢
      have haction : Opcode.action (Push.lengthOpcode payload.length) = .push := by
        refine Opcode.action_of_le ?_
        rcases Push.toNat_lengthOpcode payload.length with ⟨short, hlength⟩ | ⟨_, _, upper⟩
        · rw [hlength]
          exact Nat.le_trans short (by decide)
        · exact upper
      exact step_push haction minimal executing fits room

/-- Shortest pushes one after another put their payloads on the stack. -/
theorem steps_instructions {contents : List Bytes} (executing : s.isExecuting = true)
    (fits : ∀ c ∈ contents, c.length ≤ limits.elementSize)
    (room : s.stack.length + s.alt.length + contents.length ≤ limits.stackSize) :
    steps limits s (contents.map Push.instruction) =
      .ok { s with stack := contents.reverse ++ s.stack,
                   executed := s.executed + contents.length } := by
  induction contents generalizing s with
  | nil => rfl
  | cons c rest ih =>
      obtain ⟨first, others⟩ := List.forall_mem_cons.1 fits
      rw [List.length_cons] at room
      have hstep : step limits s (Push.instruction c) = .ok (s.pushed c) :=
        step_instruction executing first (by omega)
      have hroom : (s.pushed c).stack.length + (s.pushed c).alt.length + rest.length ≤
          limits.stackSize := by
        simp only [State.pushed, List.length_cons]
        omega
      rw [List.map_cons, steps_cons, hstep]
      refine (ih (s := s.pushed c) executing others hroom).trans ?_
      simp [State.pushed]
      omega

end Machine

/-! ## From nodes to the stack -/

namespace Resolved

/-- A node is a push of certain contents. -/
def Pushes (node : Resolved) (contents : Bytes) : Prop :=
  ∃ children range, node = .push children range ∧ generateAll children = .ok contents

/-- The bytecode of pushes is that of the shortest instructions for their contents. -/
theorem generateAll_pushes {nodes : List Resolved} {contents : List Bytes} {b : Bytes}
    (pushes : List.Forall₂ Pushes nodes contents) (h : generateAll nodes = .ok b) :
    Program.decode b = ⟨contents.map Push.instruction, false⟩ := by
  have wellFormed : (∀ i ∈ contents.map Push.instruction, i.WellFormed) ∧
      (contents.map Push.instruction).flatMap Instruction.encode = b := by
    induction pushes generalizing b with
    | nil => simpa [eq_comm] using h
    | @cons node c nodes contents push _ ih =>
        obtain ⟨own, other, hown, hother, rfl⟩ := generateAll_cons_eq_ok.1 h
        obtain ⟨children, range, rfl, hchildren⟩ := push
        obtain ⟨c', hc, hencode⟩ := generate_push_eq_ok.1 hown
        obtain rfl : c = c' := Except.ok.inj (hchildren.symm.trans hc)
        obtain ⟨fits, rfl⟩ := Push.encode?_eq_some.1 hencode
        obtain ⟨others, hbytes⟩ := ih hother
        refine ⟨?_, ?_⟩
        · exact List.forall_mem_cons.2 ⟨Push.wellFormed_instruction fits, others⟩
        · rw [List.map_cons, List.flatMap_cons, hbytes]
  obtain ⟨wellFormed, rfl⟩ := wellFormed
  exact Program.decode_flatMap_encode wellFormed

end Resolved

/-- The bytecode of a list of pushes runs to its end and leaves the contents of the pushes on
the stack, the last one on top, whatever they are: each must fit as an item, all together on
the stack, and the bytecode in a program. -/
theorem Machine.execute_generated_pushes {limits : Limits} {stack : Stack}
    {nodes : List Resolved} {contents : List Bytes} {bytecode : Bytes}
    (pushes : List.Forall₂ Resolved.Pushes nodes contents)
    (generated : Resolved.generateAll nodes = .ok bytecode)
    (fits : ∀ c ∈ contents, c.length ≤ limits.elementSize)
    (room : stack.length + contents.length ≤ limits.stackSize)
    (size : bytecode.length ≤ limits.scriptSize) :
    execute limits stack bytecode = ⟨none, contents.reverse ++ stack, contents.length⟩ := by
  have hsteps := steps_instructions (s := { stack }) rfl fits room
  rw [execute, if_neg (Nat.not_lt.2 size), Resolved.generateAll_pushes pushes generated]
  dsimp only
  rw [hsteps]
  simp [Program.ending]

theorem Machine.execute_generated_pushes_of_all_widths :
    let contents := [[], [0x81], [0x10], [0x11], List.replicate 76 0xab]
    let nodes := contents.map fun c => Resolved.push [.literal c {}] {}
    let bytecode := [0x00, 0x4f, 0x60, 0x01, 0x11, 0x4c, 76] ++ List.replicate 76 0xab
    Resolved.generateAll nodes = .ok bytecode ∧ (∀ c ∈ contents, c.length ≤ 76) ∧
      bytecode.length ≤ 83 ∧
      execute ⟨83, 76, 6, 0⟩ [[0x07]] bytecode = ⟨none, contents.reverse ++ [[0x07]], 5⟩ := by
  intro contents nodes bytecode
  have generated : Resolved.generateAll nodes = .ok bytecode := by decide +kernel
  have pushes : List.Forall₂ Resolved.Pushes nodes contents := by
    refine List.forall₂_map_left_iff.2 (List.forall₂_same.2 fun c _ => ?_)
    exact ⟨_, _, rfl, by rw [Resolved.generateAll_singleton, Resolved.generate]⟩
  have fits : ∀ c ∈ contents, c.length ≤ 76 := by decide
  refine ⟨generated, fits, by decide, ?_⟩
  exact execute_generated_pushes pushes generated fits (by decide) (by decide)

end AuthScript
