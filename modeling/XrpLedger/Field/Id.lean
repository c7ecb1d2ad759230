/-!
# Field ids

A field of a serialized object is named by a type code, which says how its value is written, and a
field code that tells fields of one type apart. Fields stand on the wire in the order of these
pairs, which `FieldId.rank` turns into one number.

`FieldId.known` lists the fields that have a name.
-/

set_option autoImplicit false

namespace XrpLedger

/-- How the value of a field is written. -/
inductive TypeCode
  /-- Numbers of 16 bits. -/
  | uint16
  /-- Numbers of 32 bits. -/
  | uint32
  /-- Numbers of 64 bits. -/
  | uint64
  /-- Digests of 128 bits. -/
  | hash128
  /-- Digests of 256 bits. -/
  | hash256
  /-- XRP or issued amounts. -/
  | amount
  /-- Byte strings behind a length. -/
  | blob
  /-- Accounts, behind a length. -/
  | accountId
  /-- Inner objects, closed by an end marker. -/
  | object
  /-- Arrays of wrapped objects, closed by an end marker. -/
  | array
  /-- Numbers of 8 bits. -/
  | uint8
  /-- Digests of 160 bits. -/
  | hash160
  /-- Payment paths. -/
  | pathSet
  /-- Lists of 256-bit digests, behind a length. -/
  | vector256
deriving DecidableEq

namespace TypeCode

/-- The number of the type on the wire. -/
def code : TypeCode → UInt8
  | .uint16 => 1
  | .uint32 => 2
  | .uint64 => 3
  | .hash128 => 4
  | .hash256 => 5
  | .amount => 6
  | .blob => 7
  | .accountId => 8
  | .object => 14
  | .array => 15
  | .uint8 => 16
  | .hash160 => 17
  | .pathSet => 18
  | .vector256 => 19

/-- The type with this number. -/
def ofCode? (code : UInt8) : Option TypeCode :=
  match code.toNat with
  | 1 => some .uint16
  | 2 => some .uint32
  | 3 => some .uint64
  | 4 => some .hash128
  | 5 => some .hash256
  | 6 => some .amount
  | 7 => some .blob
  | 8 => some .accountId
  | 14 => some .object
  | 15 => some .array
  | 16 => some .uint8
  | 17 => some .hash160
  | 18 => some .pathSet
  | 19 => some .vector256
  | _ => none

/-- The name of the type. -/
def name : TypeCode → String
  | .uint16 => "UInt16"
  | .uint32 => "UInt32"
  | .uint64 => "UInt64"
  | .hash128 => "Hash128"
  | .hash256 => "Hash256"
  | .amount => "Amount"
  | .blob => "Blob"
  | .accountId => "AccountId"
  | .object => "Object"
  | .array => "Array"
  | .uint8 => "UInt8"
  | .hash160 => "Hash160"
  | .pathSet => "PathSet"
  | .vector256 => "Vector256"

end TypeCode

/-- The two kinds of field that hold other fields. -/
inductive Container
  | object
  | array
deriving DecidableEq

/-- The type code of a container. -/
def Container.typeCode : Container → TypeCode
  | .object => .object
  | .array => .array

/-- A type code and a field code. -/
structure FieldId where
  /-- How the value is written. -/
  typeCode : TypeCode
  /-- Which field of that type it is. -/
  fieldCode : UInt8
deriving DecidableEq

namespace FieldId

/-! ### The fields with a name, by type and code -/

def transactionType : FieldId := ⟨.uint16, 2⟩
def signerWeight : FieldId := ⟨.uint16, 3⟩
def networkId : FieldId := ⟨.uint32, 1⟩
def flags : FieldId := ⟨.uint32, 2⟩
def sourceTag : FieldId := ⟨.uint32, 3⟩
def sequence : FieldId := ⟨.uint32, 4⟩
def expiration : FieldId := ⟨.uint32, 10⟩
def transferRate : FieldId := ⟨.uint32, 11⟩
def destinationTag : FieldId := ⟨.uint32, 14⟩
def qualityIn : FieldId := ⟨.uint32, 20⟩
def qualityOut : FieldId := ⟨.uint32, 21⟩
def offerSequence : FieldId := ⟨.uint32, 25⟩
def lastLedgerSequence : FieldId := ⟨.uint32, 27⟩
def setFlag : FieldId := ⟨.uint32, 33⟩
def clearFlag : FieldId := ⟨.uint32, 34⟩
def signerQuorum : FieldId := ⟨.uint32, 35⟩
def emailHash : FieldId := ⟨.hash128, 1⟩
def accountTxnId : FieldId := ⟨.hash256, 9⟩
def nfTokenId : FieldId := ⟨.hash256, 10⟩
def invoiceId : FieldId := ⟨.hash256, 17⟩
def amount : FieldId := ⟨.amount, 1⟩
def limitAmount : FieldId := ⟨.amount, 3⟩
def takerPays : FieldId := ⟨.amount, 4⟩
def takerGets : FieldId := ⟨.amount, 5⟩
def fee : FieldId := ⟨.amount, 8⟩
def sendMax : FieldId := ⟨.amount, 9⟩
def deliverMin : FieldId := ⟨.amount, 10⟩
def messageKey : FieldId := ⟨.blob, 2⟩
def signingPubKey : FieldId := ⟨.blob, 3⟩
def txnSignature : FieldId := ⟨.blob, 4⟩
def uri : FieldId := ⟨.blob, 5⟩
def domain : FieldId := ⟨.blob, 7⟩
def memoType : FieldId := ⟨.blob, 12⟩
def memoData : FieldId := ⟨.blob, 13⟩
def memoFormat : FieldId := ⟨.blob, 14⟩
def account : FieldId := ⟨.accountId, 1⟩
def destination : FieldId := ⟨.accountId, 3⟩
def regularKey : FieldId := ⟨.accountId, 8⟩
/-- Closes an inner object. -/
def objectEnd : FieldId := ⟨.object, 1⟩
def memo : FieldId := ⟨.object, 10⟩
def signerEntry : FieldId := ⟨.object, 11⟩
def nfToken : FieldId := ⟨.object, 12⟩
def signer : FieldId := ⟨.object, 16⟩
/-- Closes an array. -/
def arrayEnd : FieldId := ⟨.array, 1⟩
def signers : FieldId := ⟨.array, 3⟩
def signerEntries : FieldId := ⟨.array, 4⟩
def memos : FieldId := ⟨.array, 9⟩
def tickSize : FieldId := ⟨.uint8, 16⟩
def amendments : FieldId := ⟨.vector256, 3⟩

/-- The fields that have a name, in canonical order. -/
def known : List (FieldId × String) := [
  (transactionType, "TransactionType"),
  (signerWeight, "SignerWeight"),
  (networkId, "NetworkID"),
  (flags, "Flags"),
  (sourceTag, "SourceTag"),
  (sequence, "Sequence"),
  (expiration, "Expiration"),
  (transferRate, "TransferRate"),
  (destinationTag, "DestinationTag"),
  (qualityIn, "QualityIn"),
  (qualityOut, "QualityOut"),
  (offerSequence, "OfferSequence"),
  (lastLedgerSequence, "LastLedgerSequence"),
  (setFlag, "SetFlag"),
  (clearFlag, "ClearFlag"),
  (signerQuorum, "SignerQuorum"),
  (emailHash, "EmailHash"),
  (accountTxnId, "AccountTxnID"),
  (nfTokenId, "NFTokenID"),
  (invoiceId, "InvoiceID"),
  (amount, "Amount"),
  (limitAmount, "LimitAmount"),
  (takerPays, "TakerPays"),
  (takerGets, "TakerGets"),
  (fee, "Fee"),
  (sendMax, "SendMax"),
  (deliverMin, "DeliverMin"),
  (messageKey, "MessageKey"),
  (signingPubKey, "SigningPubKey"),
  (txnSignature, "TxnSignature"),
  (uri, "URI"),
  (domain, "Domain"),
  (memoType, "MemoType"),
  (memoData, "MemoData"),
  (memoFormat, "MemoFormat"),
  (account, "Account"),
  (destination, "Destination"),
  (regularKey, "RegularKey"),
  (objectEnd, "ObjectEndMarker"),
  (memo, "Memo"),
  (signerEntry, "SignerEntry"),
  (nfToken, "NFToken"),
  (signer, "Signer"),
  (arrayEnd, "ArrayEndMarker"),
  (signers, "Signers"),
  (signerEntries, "SignerEntries"),
  (memos, "Memos"),
  (tickSize, "TickSize"),
  (amendments, "Amendments")]

/-- The place of a field in canonical order: by type code, then by field code. -/
def rank (field : FieldId) : Nat :=
  field.typeCode.code.toNat * 256 + field.fieldCode.toNat

instance : Ord FieldId :=
  ⟨fun a b => compare a.rank b.rank⟩

/-- The name of a known field. -/
def name? (field : FieldId) : Option String :=
  (known.find? fun entry => entry.1 = field).map (·.2)

/-- The known field with this name. -/
def ofName? (name : String) : Option FieldId :=
  (known.find? fun entry => entry.2 = name).map (·.1)

/-- The name of a field, or its type and number if it has none. -/
def text (field : FieldId) : String :=
  field.name?.getD s!"{field.typeCode.name}#{field.fieldCode.toNat}"

/-- The name with both codes, for diagnostics. -/
def debug (field : FieldId) : String :=
  s!"FieldId({field.text}, {field.typeCode.code.toNat}:{field.fieldCode.toNat})"

/-- Whether the value stands behind its length. -/
def isLengthPrefixed (field : FieldId) : Bool :=
  field.typeCode = .blob || field.typeCode = .accountId || field.typeCode = .vector256

/-- Whether a signature covers the field: all but the signatures themselves. -/
def isSigningField (field : FieldId) : Bool :=
  field ≠ txnSignature && field ≠ signers

/-- Whether the field only closes a container. -/
def isEndMarker (field : FieldId) : Bool :=
  field = objectEnd || field = arrayEnd

end FieldId

end XrpLedger
