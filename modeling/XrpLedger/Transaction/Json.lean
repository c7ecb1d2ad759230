import XrpLedger.Transaction.Basic

/-!
# Transactions in JSON

The JSON form of a transaction is one object with the keys of its common part and of its details. A
key is written only if its field is set; when a transaction is read, keys that its type does not
have are not looked at.
-/

set_option autoImplicit false

namespace XrpLedger

namespace Transaction

/-- A number of 32 bits in JSON. -/
def jsonUInt32 (n : UInt32) : Json :=
  .ofNat n.toNat

/-- A digest in JSON. -/
def jsonDigest {n : Nat} (digest : FixedBytes n) : Json :=
  .string (Digest.text digest)

/-- An entry with a list, unless the list is empty. -/
def jsonList {α : Type} (key : String) (toJson : α → Json) (items : List α) :
    List (String × Json) :=
  if items.isEmpty then [] else [(key, .array (items.map toJson))]

/-- The entries of the common part. -/
def Common.entries (common : Common) : List (String × Json) :=
  ("Account", .string common.account.address)
    :: (Json.optionalEntry "Fee" (common.fee.map fun fee => (Amount.xrp fee).toJson)
      ++ Json.optionalEntry "Sequence" (common.sequence.map jsonUInt32)
      ++ Json.optionalEntry "NetworkID" (common.networkId.map jsonUInt32)
      ++ Json.optionalEntry "Flags" (common.flags.map jsonUInt32)
      ++ Json.optionalEntry "SourceTag" (common.sourceTag.map jsonUInt32)
      ++ Json.optionalEntry "LastLedgerSequence" (common.lastLedgerSequence.map jsonUInt32)
      ++ Json.optionalEntry "AccountTxnID" (common.accountTxnId.map jsonDigest)
      ++ ("SigningPubKey", .ofBytes common.signingPubKey)
        :: (Json.optionalEntry "TxnSignature" (common.txnSignature.map .ofBytes)
          ++ jsonList "Memos" Memo.toJson common.memos
          ++ jsonList "Signers" Signer.toJson common.signers))

/-- The entries of the details. -/
def Details.entries : Details → List (String × Json)
  | .payment d =>
    ("Destination", .string d.destination.address)
      :: ("Amount", d.amount.toJson)
      :: (Json.optionalEntry "DestinationTag" (d.destinationTag.map jsonUInt32)
        ++ Json.optionalEntry "InvoiceID" (d.invoiceId.map jsonDigest)
        ++ Json.optionalEntry "SendMax" (d.sendMax.map Amount.toJson)
        ++ Json.optionalEntry "DeliverMin" (d.deliverMin.map Amount.toJson))
  | .accountSet d =>
    Json.optionalEntry "ClearFlag" (d.clearFlag.map jsonUInt32)
      ++ Json.optionalEntry "SetFlag" (d.setFlag.map jsonUInt32)
      ++ Json.optionalEntry "TransferRate" (d.transferRate.map jsonUInt32)
      ++ Json.optionalEntry "EmailHash" (d.emailHash.map jsonDigest)
      ++ Json.optionalEntry "MessageKey" (d.messageKey.map .ofBytes)
      ++ Json.optionalEntry "Domain" (d.domain.map .ofBytes)
      ++ Json.optionalEntry "TickSize" (d.tickSize.map fun n => .ofNat n.toNat)
  | .setRegularKey d =>
    Json.optionalEntry "RegularKey" (d.regularKey.map fun account => .string account.address)
  | .offerCreate d =>
    ("TakerPays", d.takerPays.toJson)
      :: ("TakerGets", d.takerGets.toJson)
      :: (Json.optionalEntry "Expiration" (d.expiration.map jsonUInt32)
        ++ Json.optionalEntry "OfferSequence" (d.offerSequence.map jsonUInt32))
  | .offerCancel d => [("OfferSequence", jsonUInt32 d.offerSequence)]
  | .signerListSet d =>
    ("SignerQuorum", jsonUInt32 d.signerQuorum)
      :: jsonList "SignerEntries" SignerEntry.toJson d.signerEntries
  | .trustSet d =>
    ("LimitAmount", d.limitAmount.toJson)
      :: (Json.optionalEntry "QualityIn" (d.qualityIn.map jsonUInt32)
        ++ Json.optionalEntry "QualityOut" (d.qualityOut.map jsonUInt32))
  | .accountDelete d =>
    ("Destination", .string d.destination.address)
      :: Json.optionalEntry "DestinationTag" (d.destinationTag.map jsonUInt32)

/-- The JSON form of a transaction. -/
def toJson (tx : Transaction) : Json :=
  .object (("TransactionType", .string tx.type.name)
    :: (tx.common.entries ++ tx.details.entries))

/-- The fee of a JSON object, which must be in XRP. -/
def Common.feeOfFields (fields : JsonFields) : Except CodecError (Option XrpAmount) := do
  match ← fields.amount "Fee" with
  | none => return none
  | some amount => return some (← amount.toXrp)

/-- The common part of a JSON object. -/
def Common.ofFields (fields : JsonFields) : Except CodecError Common := do
  let fee ← feeOfFields fields
  let memos ← (← fields.wrapped "Memos" "Memo").mapM Memo.ofJson
  let signers ← (← fields.wrapped "Signers" "Signer").mapM Signer.ofJson
  let account ← fields.require "Account" (← fields.parsed "Account" AccountId.parse)
  let sequence ← fields.uint32 "Sequence"
  let networkId ← fields.uint32 "NetworkID"
  let flags ← fields.uint32 "Flags"
  let sourceTag ← fields.uint32 "SourceTag"
  let lastLedgerSequence ← fields.uint32 "LastLedgerSequence"
  let accountTxnId ← fields.parsed "AccountTxnID" (Digest.parse 32)
  let signingPubKey ← fields.bytes "SigningPubKey"
  let txnSignature ← fields.bytes "TxnSignature"
  return ⟨account, fee, sequence, networkId, flags, sourceTag, lastLedgerSequence, accountTxnId,
    signingPubKey.getD [], txnSignature, memos, signers⟩

/-- The details of a type from a JSON object. -/
def Details.ofFields (fields : JsonFields) : TransactionType → Except CodecError Details
  | .payment => do
    let destination ← fields.require "Destination" (← fields.parsed "Destination" AccountId.parse)
    let amount ← fields.require "Amount" (← fields.amount "Amount")
    let destinationTag ← fields.uint32 "DestinationTag"
    let invoiceId ← fields.parsed "InvoiceID" (Digest.parse 32)
    let sendMax ← fields.amount "SendMax"
    let deliverMin ← fields.amount "DeliverMin"
    return .payment { destination, amount, destinationTag, invoiceId, sendMax, deliverMin }
  | .accountSet => do
    let clearFlag ← fields.uint32 "ClearFlag"
    let setFlag ← fields.uint32 "SetFlag"
    let transferRate ← fields.uint32 "TransferRate"
    let emailHash ← fields.parsed "EmailHash" (Digest.parse 16)
    let messageKey ← fields.bytes "MessageKey"
    let domain ← fields.bytes "Domain"
    let tickSize ← fields.uint8 "TickSize"
    return .accountSet
      { clearFlag, setFlag, transferRate, emailHash, messageKey, domain, tickSize }
  | .setRegularKey => do
    let regularKey ← fields.parsed "RegularKey" AccountId.parse
    return .setRegularKey { regularKey }
  | .offerCreate => do
    let takerPays ← fields.require "TakerPays" (← fields.amount "TakerPays")
    let takerGets ← fields.require "TakerGets" (← fields.amount "TakerGets")
    let expiration ← fields.uint32 "Expiration"
    let offerSequence ← fields.uint32 "OfferSequence"
    return .offerCreate { takerPays, takerGets, expiration, offerSequence }
  | .offerCancel => do
    let offerSequence ← fields.require "OfferSequence" (← fields.uint32 "OfferSequence")
    return .offerCancel { offerSequence }
  | .signerListSet => do
    let signerQuorum ← fields.require "SignerQuorum" (← fields.uint32 "SignerQuorum")
    let signerEntries ← (← fields.wrapped "SignerEntries" "SignerEntry").mapM SignerEntry.ofJson
    return .signerListSet { signerQuorum, signerEntries }
  | .trustSet => do
    match ← fields.require "LimitAmount" (← fields.amount "LimitAmount") with
    | .xrp _ => throw (.format .limitNotIssued)
    | .issued limitAmount =>
      let qualityIn ← fields.uint32 "QualityIn"
      let qualityOut ← fields.uint32 "QualityOut"
      return .trustSet { limitAmount, qualityIn, qualityOut }
  | .accountDelete => do
    let destination ← fields.require "Destination" (← fields.parsed "Destination" AccountId.parse)
    let destinationTag ← fields.uint32 "DestinationTag"
    return .accountDelete { destination, destinationTag }

/-- The transaction of a JSON object. -/
def ofJson (json : Json) : Except CodecError Transaction := do
  let fields ← JsonFields.ofJson "transaction" json
  let type ← fields.require "TransactionType"
    (← fields.parsed "TransactionType" TransactionType.parse)
  let common ← Common.ofFields fields
  let details ← Details.ofFields fields type
  return { common, details }

end Transaction

end XrpLedger
