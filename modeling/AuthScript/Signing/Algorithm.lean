import AuthScript.Bytes

/-!
# Signing algorithms

A transaction signature covers some of the inputs and outputs of a transaction. The
six algorithms combine which outputs are covered with whether all inputs are; the
byte that follows a signature says which algorithm made it, and its bits say what the
algorithm covers.
-/

namespace AuthScript

/-- What a transaction signature covers. -/
inductive Algorithm where
  | allOutputs
  | allOutputsSingleInput
  | correspondingOutput
  | correspondingOutputSingleInput
  | noOutputs
  | noOutputsSingleInput
deriving DecidableEq

namespace Algorithm

/-- The outputs that are covered. -/
inductive Outputs where
  | all
  | corresponding
  | none
deriving DecidableEq

/-- All algorithms. -/
def all : List Algorithm :=
  [allOutputs, allOutputsSingleInput, correspondingOutput, correspondingOutputSingleInput,
    noOutputs, noOutputsSingleInput]

/-- The name of an algorithm. -/
def name : Algorithm → Bytes
  | allOutputs => text "all_outputs"
  | allOutputsSingleInput => text "all_outputs_single_input"
  | correspondingOutput => text "corresponding_output"
  | correspondingOutputSingleInput => text "corresponding_output_single_input"
  | noOutputs => text "no_outputs"
  | noOutputsSingleInput => text "no_outputs_single_input"

/-- The algorithm with a name. -/
def ofName? (name : Bytes) : Option Algorithm := all.find? fun a => a.name = name

/-- The byte that follows a signature. -/
def hashType : Algorithm → UInt8
  | allOutputs => 0x41
  | allOutputsSingleInput => 0xc1
  | correspondingOutput => 0x43
  | correspondingOutputSingleInput => 0xc3
  | noOutputs => 0x42
  | noOutputsSingleInput => 0xc2

/-- The bits of the byte that say which outputs are covered. -/
def outputBits (alg : Algorithm) : UInt8 := alg.hashType &&& 0x1f

/-- Whether no input is covered but the one that is signed. -/
def singleInput (alg : Algorithm) : Bool := alg.hashType &&& 0x80 ≠ 0

/-- The outputs that an algorithm covers. -/
def outputs (alg : Algorithm) : Outputs :=
  if alg.outputBits = 0x03 then .corresponding
  else if alg.outputBits = 0x02 then .none
  else .all

/-- Whether an algorithm covers the outpoints of all inputs. -/
def coversOutpoints (alg : Algorithm) : Bool := !alg.singleInput

/-- Whether an algorithm covers the sequence numbers of all inputs. -/
def coversSequenceNumbers (alg : Algorithm) : Bool := !alg.singleInput && alg.outputs = .all

theorem outputs_eq (alg : Algorithm) :
    alg.outputs = match alg with
      | allOutputs | allOutputsSingleInput => .all
      | correspondingOutput | correspondingOutputSingleInput => .corresponding
      | noOutputs | noOutputsSingleInput => .none := by
  cases alg <;> rfl

theorem coversOutpoints_iff {alg : Algorithm} :
    alg.coversOutpoints = true ↔ alg ∈ [allOutputs, correspondingOutput, noOutputs] := by
  cases alg <;> decide

theorem coversSequenceNumbers_iff {alg : Algorithm} :
    alg.coversSequenceNumbers = true ↔ alg = allOutputs := by
  cases alg <;> decide

end Algorithm

end AuthScript
