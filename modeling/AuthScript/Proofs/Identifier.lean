import AuthScript.Resolution.Meaning
import Mathlib.Data.List.TakeWhile

/-!
# What identifiers belong to

An identifier is cut at its first dot. It belongs to the variable of its whole name if
there is one, and else to the variable of its first segment; then the other segments are
the path. What it means is one of what the three name spaces say.
-/

namespace AuthScript

/-- The last piece of a text is empty only behind a separator. -/
theorem Bytes.getLast?_pieces {separator : UInt8} {b : Bytes}
    (h : (pieces separator b).getLast? = some []) : b = [] ∨ b.getLast? = some separator := by
  induction b with
  | nil => exact .inl rfl
  | cons c b ih =>
      right
      have last : b.getLast? = some separator → (c :: b).getLast? = some separator :=
        fun hb => by rw [List.getLast?_cons, hb, Option.getD_some]
      obtain ⟨piece, rest, hpieces⟩ := List.exists_cons_of_ne_nil (pieces_ne_nil separator b)
      rw [pieces_cons] at h
      rw [hpieces] at h ih
      split at h
      · rename_i hc
        rw [List.getLast?_cons_cons] at h
        rcases ih h with rfl | hb
        · exact congrArg some hc
        · exact last hb
      · cases rest with
        | nil => simp at h
        | cons other rest =>
            rw [List.getLast?_cons_cons] at h ih
            rcases ih h with rfl | hb
            · cases hpieces
            · exact last hb

variable {env : Environment} {name : Bytes}

namespace Access

theorem signedScript?_eq_some {access : Access} {target : Bytes}
    (h : access.signedScript? = some target) : ∃ kind, access.path = [kind, target] := by
  unfold signedScript? at h
  split at h
  · split at h
    · rename_i kind target' hpath
      split at h
      · exact ⟨kind, Option.some.inj h ▸ hpath⟩
      · cases h
    · cases h
  · cases h

/-- The last segment of an identifier is empty only behind a dot. -/
theorem getLast?_segments (h : (segments name).getLast? = some []) :
    name.getLast? = some 0x2e := by
  unfold segments at h
  split at h
  · cases h
  · rename_i dot rest hrest
    have stops := List.head?_dropWhile_not (fun c : UInt8 => decide (c ≠ 0x2e)) name
    rw [hrest] at stops
    obtain rfl : dot = 0x2e := by simpa using stops
    have split : name = head name ++ 0x2e :: rest := by
      rw [head, ← hrest, List.takeWhile_append_dropWhile]
    rw [split, List.getLast?_append, List.getLast?_cons]
    rcases Bytes.getLast?_pieces h with rfl | hlast
    · rfl
    · rw [hlast]
      rfl

/-- The first segment of an identifier has no dot. -/
theorem plain_head (name : Bytes) : 0x2e ∉ head name := by
  intro dotted
  unfold head at dotted
  have undotted := List.all_eq_true.1 List.all_takeWhile _ dotted
  exact absurd undotted (by decide)

section

variable {key : Bytes} (plain : 0x2e ∉ key)

include plain

theorem ne_dot_of_plain : ∀ c ∈ key, decide (c ≠ 0x2e) = true := by
  intro c hc
  exact decide_eq_true fun hdot => plain (hdot ▸ hc)

theorem head_eq_self : head key = key := List.takeWhile_eq_self_iff.2 (ne_dot_of_plain plain)

theorem head_dotted (rest : Bytes) : head (key ++ 0x2e :: rest) = key := by
  rw [head, List.takeWhile_append_of_pos (ne_dot_of_plain plain)]
  simp

theorem segments_dotted (rest : Bytes) :
    segments (key ++ 0x2e :: rest) = Bytes.pieces 0x2e rest := by
  rw [segments, List.dropWhile_append_of_pos (ne_dot_of_plain plain)]
  simp

end

/-- An identifier belongs to the variable of its first segment, if it is no variable
itself. -/
theorem ofName?_of_head {key rest : Bytes} {d : Variable} (plain : 0x2e ∉ key)
    (whole : env.definitions.find? (key ++ 0x2e :: rest) = none)
    (defined : env.definitions.find? key = some d) :
    ofName? env (key ++ 0x2e :: rest) = some ⟨key, Bytes.pieces 0x2e rest, some d⟩ := by
  unfold ofName? headDefinition?
  simp [whole, head_dotted plain, segments_dotted plain, defined]

/-- An identifier belongs to the variable of its own name, or to that of its first
segment. -/
theorem ofName?_variableId {access : Access} (h : ofName? env name = some access) :
    access.variableId = name ∧ access.path = [] ∨
      access.variableId = head name ∧ access.path = segments name := by
  unfold ofName? at h
  split at h
  · cases h
    exact .inl ⟨rfl, rfl⟩
  · split at h
    · cases h
      exact .inr ⟨rfl, rfl⟩
    · split at h
      · cases h
        exact .inr ⟨rfl, rfl⟩
      · cases h

end Access

namespace Meaning

/-- An identifier of a variable means that variable or nothing. -/
theorem eq_variable {access : Access} {meaning : Meaning}
    (h : Access.ofName? env name = some access) (hm : ofName env name = .ok meaning) :
    meaning = .variable_ access := by
  unfold ofName at hm
  rw [h] at hm
  cases hop : env.opcodes.find? name with
  | some op => simp [hop] at hm
  | none =>
      cases hscript : env.scripts.contains name with
      | true => simp [hop, hscript] at hm
      | false =>
          simp only [hop, hscript, Except.ok.injEq] at hm
          exact hm.symm

theorem ofName_variable {access : Access} (h : ofName env name = .ok (.variable_ access)) :
    Access.ofName? env name = some access := by
  unfold ofName at h
  cases hop : env.opcodes.find? name <;> cases ha : Access.ofName? env name <;>
    cases hs : env.scripts.contains name <;> simp only [hop, ha, hs] at h <;> cases h
  rfl

theorem ofName_script (h : ofName env name = .ok .script) : env.scripts.contains name = true := by
  unfold ofName at h
  cases hop : env.opcodes.find? name <;> cases ha : Access.ofName? env name <;>
    cases hs : env.scripts.contains name <;> simp only [hop, ha, hs] at h <;> cases h
  rfl

/-- No cycle is found where an identifier is looked up. -/
theorem ofName_ne_referenceCycle (chain : List Bytes) (id : Bytes) :
    ofName env name ≠ .error (.referenceCycle chain id) := by
  unfold ofName
  cases env.opcodes.find? name <;> cases Access.ofName? env name <;>
    cases env.scripts.contains name <;> simp

/-- No operation is asked where an identifier is looked up. -/
theorem ofName_ne_refused (fault : Fault) : ofName env name ≠ .error (.refused fault) := by
  unfold ofName
  cases env.opcodes.find? name <;> cases Access.ofName? env name <;>
    cases env.scripts.contains name <;> simp

/-- An identifier is looked up where it is resolved. -/
theorem stage_ofName {cause : Cause} (h : ofName env name = .error cause) :
    cause.stage = .resolve := by
  unfold ofName at h
  cases hop : env.opcodes.find? name <;> cases ha : Access.ofName? env name <;>
    cases hs : env.scripts.contains name <;> simp only [hop, ha, hs] at h <;> cases h <;> rfl

end Meaning

end AuthScript
