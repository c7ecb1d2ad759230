import XrpLedger.Transaction.Basic

/-!
# Transactions as objects

A transaction becomes an object: the fields of its common part and of its details, in the order that
the layout of its type spells out. For signing, the signatures and the signers are left out. The
bytes of the object are the blob of the transaction.

In the other direction the fields are taken out of an object one by one, and none may be left.
-/

set_option autoImplicit false

namespace XrpLedger

namespace TransactionType

/-- The fields that every transaction starts with. -/
def leading : List FieldId := [.transactionType, .networkId, .flags, .sourceTag, .sequence]

/-- The key of a single signature and the signature. -/
def signature : List FieldId := [.signingPubKey, .txnSignature]

/-- The fields behind the leading ones, in the order in which they stand on the wire. -/
def body : TransactionType → List FieldId
  | payment =>
    [.destinationTag, .lastLedgerSequence, .accountTxnId, .invoiceId, .amount, .fee, .sendMax,
      .deliverMin] ++ signature ++ [.account, .destination, .signers, .memos]
  | accountSet =>
    [.transferRate, .lastLedgerSequence, .setFlag, .clearFlag, .emailHash, .accountTxnId, .fee,
      .messageKey] ++ signature ++ [.domain, .account, .signers, .memos, .tickSize]
  | setRegularKey =>
    [.lastLedgerSequence, .accountTxnId, .fee] ++ signature
      ++ [.account, .regularKey, .signers, .memos]
  | offerCreate =>
    [.expiration, .offerSequence, .lastLedgerSequence, .accountTxnId, .takerPays, .takerGets, .fee]
      ++ signature ++ [.account, .signers, .memos]
  | offerCancel =>
    [.offerSequence, .lastLedgerSequence, .accountTxnId, .fee] ++ signature
      ++ [.account, .signers, .memos]
  | signerListSet =>
    [.lastLedgerSequence, .signerQuorum, .accountTxnId, .fee] ++ signature
      ++ [.account, .signers, .signerEntries, .memos]
  | trustSet =>
    [.qualityIn, .qualityOut, .lastLedgerSequence, .accountTxnId, .limitAmount, .fee] ++ signature
      ++ [.account, .signers, .memos]
  | accountDelete =>
    [.destinationTag, .lastLedgerSequence, .accountTxnId, .fee] ++ signature
      ++ [.account, .destination, .signers, .memos]

/-- The fields that a transaction of a type may have, in the order in which they stand on the wire.
-/
def layout (type : TransactionType) : List FieldId :=
  leading ++ type.body

end TransactionType

namespace Transaction

/-- The fields of the common part; for signing, the signatures and the signers are missing. -/
def Common.slots (common : Common) (type : TransactionType) (sequence : UInt32) (fee : XrpAmount)
    (forSigning : Bool) : List Slot := [
  .always .transactionType (.uint16 type.code),
  .optional .networkId .uint32 common.networkId,
  .optional .flags .uint32 common.flags,
  .optional .sourceTag .uint32 common.sourceTag,
  .always .sequence (.uint32 sequence),
  .optional .lastLedgerSequence .uint32 common.lastLedgerSequence,
  .optional .accountTxnId .hash256 common.accountTxnId,
  .always .fee (.amount (.xrp fee)),
  .always .signingPubKey (.blob common.signingPubKey),
  .optional .txnSignature .blob (if forSigning then none else common.txnSignature),
  .always .account (.account common.account),
  .entries .signers (if forSigning then [] else common.signers.map Signer.toEntry),
  .entries .memos (common.memos.map Memo.toEntry)]

/-- The fields of the details. -/
def Details.slots : Details → List Slot
  | .payment d => [
    .optional .destinationTag .uint32 d.destinationTag,
    .optional .invoiceId .hash256 d.invoiceId,
    .always .amount (.amount d.amount),
    .optional .sendMax .amount d.sendMax,
    .optional .deliverMin .amount d.deliverMin,
    .always .destination (.account d.destination)]
  | .accountSet d => [
    .optional .transferRate .uint32 d.transferRate,
    .optional .setFlag .uint32 d.setFlag,
    .optional .clearFlag .uint32 d.clearFlag,
    .optional .emailHash .hash128 d.emailHash,
    .optional .messageKey .blob d.messageKey,
    .optional .domain .blob d.domain,
    .optional .tickSize .uint8 d.tickSize]
  | .setRegularKey d => [
    .optional .regularKey .account d.regularKey]
  | .offerCreate d => [
    .optional .expiration .uint32 d.expiration,
    .optional .offerSequence .uint32 d.offerSequence,
    .always .takerPays (.amount d.takerPays),
    .always .takerGets (.amount d.takerGets)]
  | .offerCancel d => [
    .always .offerSequence (.uint32 d.offerSequence)]
  | .signerListSet d => [
    .always .signerQuorum (.uint32 d.signerQuorum),
    .entries .signerEntries (d.signerEntries.map SignerEntry.toEntry)]
  | .trustSet d => [
    .optional .qualityIn .uint32 d.qualityIn,
    .optional .qualityOut .uint32 d.qualityOut,
    .always .limitAmount (.amount (.issued d.limitAmount))]
  | .accountDelete d => [
    .optional .destinationTag .uint32 d.destinationTag,
    .always .destination (.account d.destination)]

/-- The fields of a transaction with this sequence and this fee. -/
def slots (tx : Transaction) (sequence : UInt32) (fee : XrpAmount) (forSigning : Bool) :
    List Slot :=
  tx.common.slots tx.type sequence fee forSigning ++ tx.details.slots

/-- The object of a transaction, for signing or whole; sequence and fee must be set. -/
def toObject (tx : Transaction) (forSigning : Bool) : Except CodecError Object := do
  let sequence ← Taking.required .sequence tx.common.sequence
  let fee ← Taking.required .fee tx.common.fee
  return ⟨Slot.written (Slot.arrange tx.type.layout (tx.slots sequence fee forSigning))⟩

/-- The bytes of a transaction, for signing or whole. -/
def serialize (tx : Transaction) (forSigning : Bool) : Except CodecError Bytes := do
  (← tx.toObject forSigning).toBytes

/-- The blob of a transaction. -/
def toBytes (tx : Transaction) : Except CodecError Bytes :=
  tx.serialize false

/-- Takes the entries of an array, each read by `ofEntry`; none if the field is absent. -/
def takeEntries {α : Type} (ofEntry : FieldId × List (FieldId × Value) → Except CodecError α)
    (field : FieldId) : Taking (List α) := do
  let entries ← Taking.viewed Value.array? field
  liftExcept ((entries.getD []).mapM ofEntry)

/-- Takes an amount that must be there and must be one of XRP. -/
def takeXrp (field : FieldId) : Taking XrpAmount := do
  match ← Taking.scalar Scalar.amount? field with
  | none => throw (.mismatch (.missing field))
  | some amount => liftExcept amount.toXrp

/-- Takes the fields of the common part. -/
def takeCommon : Taking Common := do
  let memos ← takeEntries Memo.ofEntry .memos
  let signers ← takeEntries Signer.ofEntry .signers
  let account ← Taking.requiredScalar Scalar.account? .account
  let fee ← takeXrp .fee
  let sequence ← Taking.requiredScalar Scalar.uint32? .sequence
  let networkId ← Taking.scalar Scalar.uint32? .networkId
  let flags ← Taking.scalar Scalar.uint32? .flags
  let sourceTag ← Taking.scalar Scalar.uint32? .sourceTag
  let lastLedgerSequence ← Taking.scalar Scalar.uint32? .lastLedgerSequence
  let accountTxnId ← Taking.scalar Scalar.hash256? .accountTxnId
  let signingPubKey ← Taking.requiredScalar Scalar.blob? .signingPubKey
  let txnSignature ← Taking.scalar Scalar.blob? .txnSignature
  return ⟨account, some fee, some sequence, networkId, flags, sourceTag, lastLedgerSequence,
    accountTxnId, signingPubKey, txnSignature, memos, signers⟩

/-- Takes the fields of the details of a type. -/
def takeDetails : TransactionType → Taking Details
  | .payment => do
    let destination ← Taking.requiredScalar Scalar.account? .destination
    let amount ← Taking.requiredScalar Scalar.amount? .amount
    let destinationTag ← Taking.scalar Scalar.uint32? .destinationTag
    let invoiceId ← Taking.scalar Scalar.hash256? .invoiceId
    let sendMax ← Taking.scalar Scalar.amount? .sendMax
    let deliverMin ← Taking.scalar Scalar.amount? .deliverMin
    return .payment { destination, amount, destinationTag, invoiceId, sendMax, deliverMin }
  | .accountSet => do
    let clearFlag ← Taking.scalar Scalar.uint32? .clearFlag
    let setFlag ← Taking.scalar Scalar.uint32? .setFlag
    let transferRate ← Taking.scalar Scalar.uint32? .transferRate
    let emailHash ← Taking.scalar Scalar.hash128? .emailHash
    let messageKey ← Taking.scalar Scalar.blob? .messageKey
    let domain ← Taking.scalar Scalar.blob? .domain
    let tickSize ← Taking.scalar Scalar.uint8? .tickSize
    return .accountSet
      { clearFlag, setFlag, transferRate, emailHash, messageKey, domain, tickSize }
  | .setRegularKey => do
    let regularKey ← Taking.scalar Scalar.account? .regularKey
    return .setRegularKey { regularKey }
  | .offerCreate => do
    let takerPays ← Taking.requiredScalar Scalar.amount? .takerPays
    let takerGets ← Taking.requiredScalar Scalar.amount? .takerGets
    let expiration ← Taking.scalar Scalar.uint32? .expiration
    let offerSequence ← Taking.scalar Scalar.uint32? .offerSequence
    return .offerCreate { takerPays, takerGets, expiration, offerSequence }
  | .offerCancel => do
    let offerSequence ← Taking.requiredScalar Scalar.uint32? .offerSequence
    return .offerCancel { offerSequence }
  | .signerListSet => do
    let signerQuorum ← Taking.requiredScalar Scalar.uint32? .signerQuorum
    let signerEntries ← takeEntries SignerEntry.ofEntry .signerEntries
    return .signerListSet { signerQuorum, signerEntries }
  | .trustSet => do
    match ← Taking.requiredScalar Scalar.amount? .limitAmount with
    | .xrp _ => throw (.mismatch .limitNotIssued)
    | .issued limitAmount =>
      let qualityIn ← Taking.scalar Scalar.uint32? .qualityIn
      let qualityOut ← Taking.scalar Scalar.uint32? .qualityOut
      return .trustSet { limitAmount, qualityIn, qualityOut }
  | .accountDelete => do
    let destination ← Taking.requiredScalar Scalar.account? .destination
    let destinationTag ← Taking.scalar Scalar.uint32? .destinationTag
    return .accountDelete { destination, destinationTag }

/-- Takes a whole transaction. -/
def takeTransaction : Taking Transaction := do
  let code ← Taking.requiredScalar Scalar.uint16? .transactionType
  let type ← liftExcept (TransactionType.ofCode code)
  let common ← takeCommon
  let details ← takeDetails type
  Taking.finish type.name
  return { common, details }

/-- The transaction that an object is. -/
def ofObject (object : Object) : Except CodecError Transaction :=
  Taking.runOn object takeTransaction

/-- The transaction of a blob. -/
def ofBytes (bytes : Bytes) : Except CodecError Transaction := do
  ofObject (← Object.ofBytes bytes)

end Transaction

end XrpLedger
