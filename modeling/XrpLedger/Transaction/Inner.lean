import XrpLedger.Json.Fields
import XrpLedger.Object.Reader
import XrpLedger.Object.Slot
import XrpLedger.Object.Writer

/-!
# Objects inside transactions

Memos, signers and the members of signer lists. Each stands in an array, wrapped in an object of its
own field, and has a JSON form that is wrapped in an object of one key.
-/

set_option autoImplicit false

namespace XrpLedger

/-- Fails unless the entry of an array is wrapped in the field it should be. -/
def checkWrapper (found expected : FieldId) : Except CodecError Unit :=
  if found = expected then .ok () else .error (.mismatch (.wrapper expected found))

/-- Arbitrary data attached to a transaction. -/
structure Memo where
  memoType : Option Bytes
  memoData : Option Bytes
  memoFormat : Option Bytes
deriving DecidableEq

namespace Memo

/-- The fields of a memo in the order in which they stand on the wire. -/
def slots (memo : Memo) : List Slot := [
  .optional .memoType .blob memo.memoType,
  .optional .memoData .blob memo.memoData,
  .optional .memoFormat .blob memo.memoFormat]

/-- The entry of an array that holds the memo. -/
def toEntry (memo : Memo) : FieldId × List (FieldId × Value) :=
  (.memo, Slot.written memo.slots)

/-- The memo that an entry of an array holds. -/
def ofEntry (entry : FieldId × List (FieldId × Value)) : Except CodecError Memo := do
  checkWrapper entry.1 .memo
  Taking.runOn ⟨entry.2⟩ do
    let memoType ← Taking.scalar Scalar.blob? .memoType
    let memoData ← Taking.scalar Scalar.blob? .memoData
    let memoFormat ← Taking.scalar Scalar.blob? .memoFormat
    Taking.finish "Memo"
    return { memoType, memoData, memoFormat }

/-- The wrapped JSON form of a memo. -/
def toJson (memo : Memo) : Json :=
  .object [("Memo", .object (
    Json.optionalEntry "MemoType" (memo.memoType.map .ofBytes)
      ++ Json.optionalEntry "MemoData" (memo.memoData.map .ofBytes)
      ++ Json.optionalEntry "MemoFormat" (memo.memoFormat.map .ofBytes)))]

/-- The memo of an inner JSON object. -/
def ofJson (json : Json) : Except CodecError Memo := do
  let fields ← JsonFields.ofJson "Memo" json
  let memoType ← fields.bytes "MemoType"
  let memoData ← fields.bytes "MemoData"
  let memoFormat ← fields.bytes "MemoFormat"
  return { memoType, memoData, memoFormat }

end Memo

/-- One signature of a multi-signed transaction. -/
structure Signer where
  account : AccountId
  signingPubKey : Bytes
  txnSignature : Bytes
deriving DecidableEq

namespace Signer

/-- The fields of a signer in the order in which they stand on the wire. -/
def slots (signer : Signer) : List Slot := [
  .always .signingPubKey (.blob signer.signingPubKey),
  .always .txnSignature (.blob signer.txnSignature),
  .always .account (.account signer.account)]

/-- The entry of an array that holds the signer. -/
def toEntry (signer : Signer) : FieldId × List (FieldId × Value) :=
  (.signer, Slot.written signer.slots)

/-- The signer that an entry of an array holds. -/
def ofEntry (entry : FieldId × List (FieldId × Value)) : Except CodecError Signer := do
  checkWrapper entry.1 .signer
  Taking.runOn ⟨entry.2⟩ do
    let signingPubKey ← Taking.requiredScalar Scalar.blob? .signingPubKey
    let txnSignature ← Taking.requiredScalar Scalar.blob? .txnSignature
    let account ← Taking.requiredScalar Scalar.account? .account
    Taking.finish "Signer"
    return { account, signingPubKey, txnSignature }

/-- The wrapped JSON form of a signer. -/
def toJson (signer : Signer) : Json :=
  .object [("Signer", .object [
    ("Account", .string signer.account.address),
    ("SigningPubKey", .ofBytes signer.signingPubKey),
    ("TxnSignature", .ofBytes signer.txnSignature)])]

/-- The signer of an inner JSON object. -/
def ofJson (json : Json) : Except CodecError Signer := do
  let fields ← JsonFields.ofJson "Signer" json
  let account ← fields.require "Account" (← fields.parsed "Account" AccountId.parse)
  let signingPubKey ← fields.require "SigningPubKey" (← fields.bytes "SigningPubKey")
  let txnSignature ← fields.require "TxnSignature" (← fields.bytes "TxnSignature")
  return { account, signingPubKey, txnSignature }

end Signer

/-- A member of a signer list and the weight of its signature. -/
structure SignerEntry where
  account : AccountId
  signerWeight : UInt16
deriving DecidableEq

namespace SignerEntry

/-- The fields of a member in the order in which they stand on the wire. -/
def slots (member : SignerEntry) : List Slot := [
  .always .signerWeight (.uint16 member.signerWeight),
  .always .account (.account member.account)]

/-- The entry of an array that holds the member. -/
def toEntry (member : SignerEntry) : FieldId × List (FieldId × Value) :=
  (.signerEntry, Slot.written member.slots)

/-- The member that an entry of an array holds. -/
def ofEntry (entry : FieldId × List (FieldId × Value)) : Except CodecError SignerEntry := do
  checkWrapper entry.1 .signerEntry
  Taking.runOn ⟨entry.2⟩ do
    let signerWeight ← Taking.requiredScalar Scalar.uint16? .signerWeight
    let account ← Taking.requiredScalar Scalar.account? .account
    Taking.finish "SignerEntry"
    return { account, signerWeight }

/-- The wrapped JSON form of a member. -/
def toJson (member : SignerEntry) : Json :=
  .object [("SignerEntry", .object [
    ("Account", .string member.account.address),
    ("SignerWeight", .ofNat member.signerWeight.toNat)])]

/-- The member of an inner JSON object. -/
def ofJson (json : Json) : Except CodecError SignerEntry := do
  let fields ← JsonFields.ofJson "SignerEntry" json
  let account ← fields.require "Account" (← fields.parsed "Account" AccountId.parse)
  let signerWeight ← fields.require "SignerWeight" (← fields.uint16 "SignerWeight")
  return { account, signerWeight }

end SignerEntry

end XrpLedger
