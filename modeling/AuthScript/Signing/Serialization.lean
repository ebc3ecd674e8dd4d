import AuthScript.Fault
import AuthScript.Hash.Composite
import AuthScript.Signing.Algorithm

/-!
# The signing serialization

A transaction signature signs the double SHA-256 of a serialization of the
transaction as seen from one of its inputs. The serialization has eleven fields in
a fixed order; what an algorithm does not cover is replaced by zeros. Scripts may
also name the fields one by one (`component`), or the digest of some of them.
-/

namespace AuthScript

/-- A transaction as seen from the input that is being signed. Hashes and outpoints
are in the order of their bytes in a serialized transaction. -/
structure Transaction where
  version : UInt32 := 2
  outpointHash : Bytes := List.replicate 32 0
  outpointIndex : UInt32 := 0
  outputValue : UInt64 := 0
  sequenceNumber : UInt32 := 0
  locktime : UInt32 := 0
  /-- The serialized outpoints of all inputs. -/
  outpoints : Bytes := []
  /-- The serialized sequence numbers of all inputs. -/
  sequenceNumbers : Bytes := []
  /-- The serialized outputs. -/
  outputs : Bytes := []
  /-- The serialized output with the position of the input, if there is one. -/
  correspondingOutput : Option Bytes := none
deriving DecidableEq

/-- The variable under which scripts name parts of the serialization. -/
def signingSerialization : Bytes := text "signing_serialization"

namespace Signing

/-- The four bytes of a word, least significant first. -/
def word32 (n : UInt32) : Bytes := Bytes.littleEndian 4 n.toNat

/-- The eight bytes of a word, least significant first. -/
def word64 (n : UInt64) : Bytes := Bytes.littleEndian 8 n.toNat

/-- A length in one byte if it is small, else in two, four or eight bytes after a
mark. -/
def compactSize (n : Nat) : Bytes :=
  if n < 253 then Bytes.littleEndian 1 n
  else if n ≤ 0xffff then 0xfd :: Bytes.littleEndian 2 n
  else if n ≤ 0xffffffff then 0xfe :: Bytes.littleEndian 4 n
  else 0xff :: Bytes.littleEndian 8 n

/-- What stands for a digest that is not covered. -/
def zeroDigest : Bytes := List.replicate 32 0

section

variable (digest : Bytes → Bytes) (tx : Transaction)

/-- The digest of the outpoints, where they are covered. -/
def outpointsDigest (alg : Algorithm) : Bytes :=
  if alg.coversOutpoints then digest tx.outpoints else zeroDigest

/-- The digest of the sequence numbers, where they are covered. -/
def sequenceNumbersDigest (alg : Algorithm) : Bytes :=
  if alg.coversSequenceNumbers then digest tx.sequenceNumbers else zeroDigest

/-- The digest of the output with the position of the input, or zeros if there is none. -/
def correspondingDigest : Bytes := (tx.correspondingOutput.map digest).getD zeroDigest

/-- The digest of the outputs that are covered. -/
def outputsDigest (alg : Algorithm) : Bytes :=
  match alg.outputs with
  | .all => digest tx.outputs
  | .corresponding => correspondingDigest digest tx
  | .none => zeroDigest

/-- The serialization with any digest in the place of the double SHA-256. -/
def serializeWith (covered : Bytes) (alg : Algorithm) : Bytes :=
  word32 tx.version ++ outpointsDigest digest tx alg ++ sequenceNumbersDigest digest tx alg ++
    tx.outpointHash ++ word32 tx.outpointIndex ++ compactSize covered.length ++ covered ++
    word64 tx.outputValue ++ word32 tx.sequenceNumber ++ outputsDigest digest tx alg ++
    word32 tx.locktime ++ Bytes.littleEndian 4 alg.hashType.toNat

end

/-- The serialization that a signature of an input by an algorithm signs, where
`covered` is the bytecode of the locking script. -/
def serialize (tx : Transaction) (covered : Bytes) (alg : Algorithm) : Bytes :=
  serializeWith hash256 tx covered alg

/-- What the name of a digest ends with. -/
def hashSuffix : Bytes := text "_hash"

/-- What the name of a whole serialization starts with. -/
def fullMark : Bytes := text "full_"

/-- The components whose digest has a name too. -/
def hashable : List Bytes :=
  [text "transaction_outpoints", text "transaction_sequence_numbers",
    text "corresponding_output", text "transaction_outputs", text "covered_bytecode"]

/-- A name without the ending of digests. -/
def withoutHash (name : Bytes) : Bytes := name.take (name.length - hashSuffix.length)

/-- Whether a name is that of a digest of a component. -/
def isHash (name : Bytes) : Bool :=
  hashSuffix.isSuffixOf name && hashable.contains (withoutHash name)

/-- Whether a component, or the component whose digest is named, reads the bytecode of
the locking script. -/
def readsCovered (name : Bytes) : Bool :=
  let name := if isHash name then withoutHash name else name
  if fullMark.isPrefixOf name then (Algorithm.ofName? (name.drop fullMark.length)).isSome
  else name = text "covered_bytecode" || name = text "covered_bytecode_length"

/-- The components that every transaction has. -/
def fields : List (Bytes × (Transaction → Bytes)) := [
  (text "version", fun tx => word32 tx.version),
  (text "transaction_outpoints", fun tx => tx.outpoints),
  (text "transaction_sequence_numbers", fun tx => tx.sequenceNumbers),
  (text "outpoint_transaction_hash", fun tx => tx.outpointHash),
  (text "outpoint_index", fun tx => word32 tx.outpointIndex),
  (text "output_value", fun tx => word64 tx.outputValue),
  (text "sequence_number", fun tx => word32 tx.sequenceNumber),
  (text "transaction_outputs", fun tx => tx.outputs),
  (text "locktime", fun tx => word32 tx.locktime)]

/-- The refusal of a name that is no component. -/
def unknownComponent (name : Bytes) : Fault :=
  ⟨.capabilityError, text "unknown signing serialization component " ++ quoted name⟩

/-- A component that reads the bytecode of the locking script. -/
def coveredComponent (tx : Transaction) (name covered : Bytes) : Except Fault Bytes :=
  if name = text "covered_bytecode" then .ok covered
  else if name = text "covered_bytecode_length" then .ok (compactSize covered.length)
  else match Algorithm.ofName? (name.drop fullMark.length) with
    | some alg => .ok (serialize tx covered alg)
    | none => .error (unknownComponent name)

/-- The bytes of a component. -/
def component (tx : Transaction) (name : Bytes) (covered : Option Bytes) : Except Fault Bytes :=
  match fields.find? fun field => field.1 = name with
  | some field => .ok (field.2 tx)
  | none =>
    if name = text "corresponding_output" then
      match tx.correspondingOutput with
      | some output => .ok output
      | none => .error ⟨.capabilityMissingData,
          text "transaction has no output corresponding to the input being signed"⟩
    else if readsCovered name then
      match covered with
      | some b => coveredComponent tx name b
      | none => .error ⟨.capabilityMissingData, text "no covered bytecode for " ++ quoted name⟩
    else .error (unknownComponent name)

end Signing

end AuthScript
