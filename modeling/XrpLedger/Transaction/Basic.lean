import XrpLedger.Transaction.Inner
import XrpLedger.Transaction.Type

/-!
# Transactions

A transaction is its common part, which every type has, and the details of its type. Fee and
sequence may be unset until it is written. An unsigned transaction has an empty public key; so has a
multi-signed one, which carries its signers instead.
-/

set_option autoImplicit false

namespace XrpLedger

namespace Transaction

/-- What every transaction has. -/
structure Common where
  account : AccountId
  fee : Option XrpAmount
  sequence : Option UInt32
  networkId : Option UInt32
  flags : Option UInt32
  sourceTag : Option UInt32
  lastLedgerSequence : Option UInt32
  accountTxnId : Option Hash256
  signingPubKey : Bytes
  txnSignature : Option Bytes
  memos : List Memo
  signers : List Signer
deriving DecidableEq

/-- The common part of a transaction of which only the sender is known. -/
def Common.ofAccount (account : AccountId) : Common where
  account := account
  fee := none
  sequence := none
  networkId := none
  flags := none
  sourceTag := none
  lastLedgerSequence := none
  accountTxnId := none
  signingPubKey := []
  txnSignature := none
  memos := []
  signers := []

/-- Sends an amount to an account. -/
structure Payment where
  destination : AccountId
  amount : Amount
  destinationTag : Option UInt32
  invoiceId : Option Hash256
  sendMax : Option Amount
  deliverMin : Option Amount
deriving DecidableEq

/-- The payment of an amount without any options. -/
def Payment.plain (destination : AccountId) (amount : Amount) : Payment :=
  ⟨destination, amount, none, none, none, none⟩

/-- Changes the settings of the sender. -/
structure AccountSet where
  clearFlag : Option UInt32
  setFlag : Option UInt32
  transferRate : Option UInt32
  emailHash : Option Hash128
  messageKey : Option Bytes
  domain : Option Bytes
  tickSize : Option UInt8
deriving DecidableEq

/-- Assigns the sender's regular key, or removes it. -/
structure SetRegularKey where
  regularKey : Option AccountId
deriving DecidableEq

/-- Offers an exchange. -/
structure OfferCreate where
  takerPays : Amount
  takerGets : Amount
  expiration : Option UInt32
  offerSequence : Option UInt32
deriving DecidableEq

/-- Withdraws an offer. -/
structure OfferCancel where
  offerSequence : UInt32
deriving DecidableEq

/-- Sets the accounts that may sign for the sender together. -/
structure SignerListSet where
  signerQuorum : UInt32
  signerEntries : List SignerEntry
deriving DecidableEq

/-- Limits the balance the sender may hold of an issued currency. -/
structure TrustSet where
  limitAmount : IssuedAmount
  qualityIn : Option UInt32
  qualityOut : Option UInt32
deriving DecidableEq

/-- Deletes the sender and sends what it owns to another account. -/
structure AccountDelete where
  destination : AccountId
  destinationTag : Option UInt32
deriving DecidableEq

/-- What a transaction has besides its common part. -/
inductive Details
  | payment (details : Payment)
  | accountSet (details : AccountSet)
  | setRegularKey (details : SetRegularKey)
  | offerCreate (details : OfferCreate)
  | offerCancel (details : OfferCancel)
  | signerListSet (details : SignerListSet)
  | trustSet (details : TrustSet)
  | accountDelete (details : AccountDelete)
deriving DecidableEq

/-- The type of transactions with such details. -/
def Details.type : Details → TransactionType
  | payment _ => .payment
  | accountSet _ => .accountSet
  | setRegularKey _ => .setRegularKey
  | offerCreate _ => .offerCreate
  | offerCancel _ => .offerCancel
  | signerListSet _ => .signerListSet
  | trustSet _ => .trustSet
  | accountDelete _ => .accountDelete

end Transaction

/-- A transaction. -/
structure Transaction where
  common : Transaction.Common
  details : Transaction.Details
deriving DecidableEq

namespace Transaction

/-- The type of a transaction. -/
def type (tx : Transaction) : TransactionType :=
  tx.details.type

/-- Whether the transaction carries a signature or signers. -/
def isSigned (tx : Transaction) : Bool :=
  tx.common.txnSignature.isSome || !tx.common.signers.isEmpty

end Transaction

end XrpLedger
