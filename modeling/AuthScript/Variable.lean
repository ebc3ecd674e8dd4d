import AuthScript.Bytes

/-!
# Variables

A variable has a type, which decides what its identifiers stand for, and a name and
description for people.
-/

namespace AuthScript

namespace Variable

/-- What the identifiers of a variable stand for. -/
inductive Kind where
  | key
  | walletData
  | addressData
  | currentBlockHeight
  | currentBlockTime
deriving DecidableEq

namespace Kind

/-- All types of variables. -/
def all : List Kind := [key, walletData, addressData, currentBlockHeight, currentBlockTime]

/-- The name of a type. -/
def name : Kind → Bytes
  | key => text "Key"
  | walletData => text "WalletData"
  | addressData => text "AddressData"
  | currentBlockHeight => text "CurrentBlockHeight"
  | currentBlockTime => text "CurrentBlockTime"

/-- The type with a name. -/
def ofName? (name : Bytes) : Option Kind := all.find? fun k => k.name = name

end Kind

end Variable

/-- The definition of a variable. -/
structure Variable where
  kind : Variable.Kind := .walletData
  name : Bytes := []
  description : Bytes := []
deriving DecidableEq

end AuthScript
