import XrpLedger.Error

/-!
# Transaction types

The closed set of supported transactions, with their codes on the wire and their names.
-/

set_option autoImplicit false

namespace XrpLedger

/-- What a transaction does. -/
inductive TransactionType
  | payment
  | accountSet
  | setRegularKey
  | offerCreate
  | offerCancel
  | signerListSet
  | trustSet
  | accountDelete
deriving DecidableEq

namespace TransactionType

/-- All types. -/
def all : List TransactionType :=
  [payment, accountSet, setRegularKey, offerCreate, offerCancel, signerListSet, trustSet,
    accountDelete]

/-- The code of a type on the wire. -/
def code : TransactionType → UInt16
  | payment => 0
  | accountSet => 3
  | setRegularKey => 5
  | offerCreate => 7
  | offerCancel => 8
  | signerListSet => 12
  | trustSet => 20
  | accountDelete => 21

/-- The name of a type. -/
def name : TransactionType → String
  | payment => "Payment"
  | accountSet => "AccountSet"
  | setRegularKey => "SetRegularKey"
  | offerCreate => "OfferCreate"
  | offerCancel => "OfferCancel"
  | signerListSet => "SignerListSet"
  | trustSet => "TrustSet"
  | accountDelete => "AccountDelete"

/-- The type with this code. -/
def ofCode (code : UInt16) : Except CodecError TransactionType :=
  match all.find? fun type => type.code = code with
  | some type => .ok type
  | none => .error (.mismatch (.transactionCode code))

/-- The type with this name. -/
def parse (name : String) : Except CodecError TransactionType :=
  match all.find? fun type => type.name = name with
  | some type => .ok type
  | none => .error (.mismatch (.transactionName name))

end TransactionType

end XrpLedger
