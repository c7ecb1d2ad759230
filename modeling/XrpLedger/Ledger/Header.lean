import XrpLedger.Hash.Digest
import XrpLedger.Ledger.Time

/-!
# Ledger headers

The header of a closed ledger: 118 bytes in a fixed order, whose half digest behind the mark `LWR`
is the digest of the ledger.
-/

set_option autoImplicit false

namespace XrpLedger

/-- The header of a closed ledger. -/
structure LedgerHeader where
  sequence : UInt32
  /-- The XRP there is, in drops. -/
  totalCoins : UInt64
  parentHash : Hash256
  transactionHash : Hash256
  accountHash : Hash256
  parentCloseTime : UInt32
  closeTime : UInt32
  closeTimeResolution : UInt8
  closeFlags : UInt8
deriving DecidableEq

namespace LedgerHeader

/-- The mark in front of a header whose digest is taken. -/
def mark : Bytes := [0x4C, 0x57, 0x52, 0x00]

/-- The bytes of a header. -/
def toBytes (header : LedgerHeader) : Bytes :=
  BigEndian.encode 4 header.sequence.toNat ++ BigEndian.encode 8 header.totalCoins.toNat
    ++ header.parentHash.toList ++ header.transactionHash.toList ++ header.accountHash.toList
    ++ BigEndian.encode 4 header.parentCloseTime.toNat ++ BigEndian.encode 4 header.closeTime.toNat
    ++ [header.closeTimeResolution, header.closeFlags]

/-- The `count` bytes from `start` on. -/
def slice (bytes : Bytes) (start count : Nat) : Bytes :=
  (bytes.drop start).take count

/-- The header that a byte string is. -/
def ofBytes (bytes : Bytes) : Except CodecError LedgerHeader := do
  if bytes.length ≠ 118 then throw (.format (.ledgerHeaderLength bytes.length))
  else
    let number (start count : Nat) : Nat := BigEndian.value (slice bytes start count)
    let parentHash ← Digest.ofBytes 32 (slice bytes 12 32)
    let transactionHash ← Digest.ofBytes 32 (slice bytes 44 32)
    let accountHash ← Digest.ofBytes 32 (slice bytes 76 32)
    return ⟨UInt32.ofNat (number 0 4), UInt64.ofNat (number 4 8), parentHash, transactionHash,
      accountHash, UInt32.ofNat (number 108 4), UInt32.ofNat (number 112 4),
      UInt8.ofNat (number 116 1), UInt8.ofNat (number 117 1)⟩

/-- The digest of the ledger. -/
def hash (header : LedgerHeader) : Hash256 :=
  Sha512.half (mark ++ header.toBytes)

/-- The closing time in seconds since the Unix epoch. -/
def closeTimeUnix (header : LedgerHeader) : Nat :=
  LedgerTime.toUnix header.closeTime

/-- The parent's closing time in seconds since the Unix epoch. -/
def parentCloseTimeUnix (header : LedgerHeader) : Nat :=
  LedgerTime.toUnix header.parentCloseTime

end LedgerHeader

end XrpLedger
