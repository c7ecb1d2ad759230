import XrpLedger.Address.Base58Check
import XrpLedger.Hash.Digest

/-!
# Accounts

An account is named by twenty bytes, the digest of its owner's public key, and written as an
address: Base58 with a checksum behind a zero version byte. Accounts are ordered as big-endian
numbers, which is the order in which signers stand in a transaction.
-/

set_option autoImplicit false

namespace XrpLedger

/-- The identifier of an account. -/
structure AccountId where
  /-- The twenty bytes. -/
  bytes : FixedBytes 20
deriving DecidableEq

namespace AccountId

/-- The version byte of an address. -/
def version : Bytes := [0x00]

instance : Ord AccountId :=
  ⟨fun a b => compare a.bytes b.bytes⟩

/-- The account with these bytes. -/
def ofBytes (bytes : Bytes) : Except CodecError AccountId :=
  match FixedBytes.ofList? 20 bytes with
  | some fixed => .ok ⟨fixed⟩
  | none => .error (.format (.accountLength bytes.length))

/-- The account that a public key owns. -/
def ofPublicKey (publicKey : Bytes) : AccountId :=
  ⟨Digest.hash160 publicKey⟩

/-- The address of an account under the digest that checksums are taken with. -/
def addressWith (hash : Bytes → FixedBytes 32) (account : AccountId) : String :=
  Base58Check.encodeVersioned hash version account.bytes.toList

/-- The address of an account. -/
def address (account : AccountId) : String :=
  account.addressWith Sha256.digest

/-- The account with this address under the digest that checksums are taken with. -/
def parseWith (hash : Bytes → FixedBytes 32) (text : String) : Except CodecError AccountId := do
  ofBytes (← Base58Check.decodeVersioned hash text version 20)

/-- The account with this address. -/
def parse (text : String) : Except CodecError AccountId :=
  parseWith Sha256.digest text

/-- The address with the name of the type, for diagnostics. -/
def debug (account : AccountId) : String :=
  s!"AccountId({account.address})"

end AccountId

end XrpLedger
