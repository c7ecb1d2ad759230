import XrpLedger.Key.Pair
import XrpLedger.Transaction.Wire

/-!
# Signing transactions

A single signature covers the transaction without its signatures behind the mark `STX`; the
signature of one of several signers covers it with an empty public key behind the mark `SMT` and is
followed by the signer's account. The id of a transaction is the half digest of its blob behind the
mark `TXN`.

The signature scheme is a parameter: `SignatureScheme` says what is needed of it, and
`KeyPair.scheme` is the one of the ledger. Signing changes the transaction only when it succeeds.
-/

set_option autoImplicit false

namespace XrpLedger

/-- A way to sign with keys of type `Key`. -/
structure SignatureScheme (Key : Type) where
  /-- The canonical public key of a key. -/
  publicKey : Key → Bytes
  /-- It is not empty: an empty public key stands for no single signature. -/
  publicKey_ne_nil : ∀ key, publicKey key ≠ []
  /-- The signature of a message, if the key can give one. -/
  sign : Key → Bytes → Except CodecError Bytes
  /-- Whether a signature is one of a message by a public key. -/
  verify : (publicKey message signature : Bytes) → Except CodecError Bool

/-- Signing with key pairs of either scheme, which always succeeds. -/
def KeyPair.scheme : SignatureScheme KeyPair where
  publicKey := KeyPair.publicKey
  publicKey_ne_nil := KeyPair.publicKey_ne_nil
  sign pair message := .ok (pair.sign message)
  verify := KeyPair.verifyWith

/-- A blob that is ready for the network, with the id of the transaction. -/
structure SignedBlob where
  blob : Bytes
  hash : Hash256
deriving DecidableEq

namespace Transaction

/-- The mark in front of a blob whose digest is the id of the transaction. -/
def idMark : Bytes := [0x54, 0x58, 0x4E, 0x00]

/-- The mark in front of what a single signature covers. -/
def signMark : Bytes := [0x53, 0x54, 0x58, 0x00]

/-- The mark in front of what one of several signatures covers. -/
def multisignMark : Bytes := [0x53, 0x4D, 0x54, 0x00]

/-- The id of the transaction with this blob. -/
def idOfBlob (blob : Bytes) : Hash256 :=
  Sha512.half (idMark ++ blob)

/-- The id of a transaction. -/
def hash (tx : Transaction) : Except CodecError Hash256 := do
  return idOfBlob (← tx.toBytes)

/-- The transaction with these signature fields. -/
def withSignature (tx : Transaction) (signingPubKey : Bytes) (txnSignature : Option Bytes)
    (signers : List Signer) : Transaction :=
  { tx with common := { tx.common with signingPubKey, txnSignature, signers } }

/-- What a single signature covers. -/
def signingData (tx : Transaction) : Except CodecError Bytes := do
  return signMark ++ (← tx.serialize true)

/-- What the signature of one of several signers covers. -/
def multisigningData (tx : Transaction) (signer : AccountId) : Except CodecError Bytes := do
  return multisignMark ++ (← (tx.withSignature [] none []).serialize true) ++ signer.bytes.toList

/-- The blob of a transaction with its id. -/
def signedBlob (tx : Transaction) : Except CodecError SignedBlob := do
  let blob ← tx.toBytes
  return ⟨blob, idOfBlob blob⟩

/-- A computation that may change a transaction. -/
abbrev Signing := ExceptT CodecError (StateM Transaction)

variable {Key : Type} (scheme : SignatureScheme Key)

/-- Signs with a single key and fills in the public key and the signature. -/
def sign (key : Key) : Signing SignedBlob := do
  let tx ← get
  if !tx.common.signers.isEmpty then throw (.mismatch .multiSigned)
  else
    let unsigned := tx.withSignature (scheme.publicKey key) none tx.common.signers
    let signature ← liftExcept (scheme.sign key (← liftExcept unsigned.signingData))
    let signed := tx.withSignature (scheme.publicKey key) (some signature) tx.common.signers
    let result ← liftExcept signed.signedBlob
    set signed
    return result

/-- The contribution of one of several signers, whose key signs for an account. -/
def multisign (tx : Transaction) (key : Key) (account : AccountId) : Except CodecError Signer := do
  let signature ← scheme.sign key (← tx.multisigningData account)
  return ⟨account, scheme.publicKey key, signature⟩

/-- Signers in ascending order of their accounts. -/
def sortSigners (signers : List Signer) : List Signer :=
  signers.mergeSort fun a b => a.account.bytes.toNat ≤ b.account.bytes.toNat

/-- The first account of sorted signers that is the account of two. -/
def repeatedAccount? : List Signer → Option AccountId
  | a :: b :: rest =>
    if a.account = b.account then some a.account else repeatedAccount? (b :: rest)
  | _ => none

/-- Fills in the signers, in order, in place of a single signature. -/
def combineSigners (signers : List Signer) : Signing SignedBlob := do
  if signers.isEmpty then throw (.mismatch .noSigners)
  else
    let sorted := sortSigners signers
    match repeatedAccount? sorted with
    | some account => throw (.mismatch (.signedTwice account.address))
    | none =>
      let combined := (← get).withSignature [] none sorted
      let result ← liftExcept combined.signedBlob
      set combined
      return result

/-- Whether the signatures of all signers are ones of the transaction. -/
def verifySigners (tx : Transaction) : List Signer → Except CodecError Bool
  | [] => .ok true
  | signer :: rest => do
    let data ← tx.multisigningData signer.account
    if ← scheme.verify signer.signingPubKey data signer.txnSignature then verifySigners tx rest
    else return false

/-- Whether the single signature, or that of every signer, is one of the transaction. -/
def verifySignature (tx : Transaction) : Except CodecError Bool := do
  if tx.common.signers.isEmpty then
    match tx.common.txnSignature with
    | none => return false
    | some signature =>
      if tx.common.signingPubKey.isEmpty then return false
      else scheme.verify tx.common.signingPubKey (← tx.signingData) signature
  else verifySigners scheme tx tx.common.signers

end Transaction

end XrpLedger
