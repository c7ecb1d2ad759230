import XrpLedger.Amount.Basic
import XrpLedger.Field.Header
import XrpLedger.Hash.Digest

/-!
# Scalar values

The values of fields that hold no other fields. Each has a type code, which names how it is written,
and a kind, which names it in diagnostics. Byte strings and lists of digests stand behind their
length, which is the only thing that can keep a scalar from being written.
-/

set_option autoImplicit false

namespace XrpLedger

/-- A value that holds no fields. -/
inductive Scalar
  | uint8 (value : UInt8)
  | uint16 (value : UInt16)
  | uint32 (value : UInt32)
  | uint64 (value : UInt64)
  | hash128 (value : Hash128)
  | hash160 (value : Hash160)
  | hash256 (value : Hash256)
  | amount (value : Amount)
  | blob (value : Bytes)
  | account (value : AccountId)
  | vector256 (value : List Hash256)
deriving DecidableEq

namespace Scalar

/-- The type of the fields that hold such a value. -/
def typeCode : Scalar → TypeCode
  | uint8 _ => .uint8
  | uint16 _ => .uint16
  | uint32 _ => .uint32
  | uint64 _ => .uint64
  | hash128 _ => .hash128
  | hash160 _ => .hash160
  | hash256 _ => .hash256
  | amount _ => .amount
  | blob _ => .blob
  | account _ => .accountId
  | vector256 _ => .vector256

/-- The kind of the value, for diagnostics. -/
def kind : Scalar → String
  | uint8 _ => "UInt8"
  | uint16 _ => "UInt16"
  | uint32 _ => "UInt32"
  | uint64 _ => "UInt64"
  | hash128 _ => "Hash128"
  | hash160 _ => "Hash160"
  | hash256 _ => "Hash256"
  | amount _ => "Amount"
  | blob _ => "Blob"
  | account _ => "AccountID"
  | vector256 _ => "Vector256"

/-- Bytes behind the marker of their length. -/
def withLength (bytes : Bytes) : Except CodecError Bytes :=
  (LengthMarker.encode bytes.length).map (· ++ bytes)

/-- The bytes of a value as they follow the header of its field. -/
def encode : Scalar → Except CodecError Bytes
  | uint8 value => .ok [value]
  | uint16 value => .ok (BigEndian.encode 2 value.toNat)
  | uint32 value => .ok (BigEndian.encode 4 value.toNat)
  | uint64 value => .ok (BigEndian.encode 8 value.toNat)
  | hash128 value => .ok value.toList
  | hash160 value => .ok value.toList
  | hash256 value => .ok value.toList
  | amount value => .ok value.toBytes
  | blob value => withLength value
  | account value => withLength value.bytes.toList
  | vector256 value => withLength (value.flatMap (·.toList))

/-- The number of a value of this kind. -/
def uint8? : Scalar → Option UInt8
  | uint8 value => some value
  | _ => none

/-- The number of a value of this kind. -/
def uint16? : Scalar → Option UInt16
  | uint16 value => some value
  | _ => none

/-- The number of a value of this kind. -/
def uint32? : Scalar → Option UInt32
  | uint32 value => some value
  | _ => none

/-- The number of a value of this kind. -/
def uint64? : Scalar → Option UInt64
  | uint64 value => some value
  | _ => none

/-- The digest of a value of this kind. -/
def hash128? : Scalar → Option Hash128
  | hash128 value => some value
  | _ => none

/-- The digest of a value of this kind. -/
def hash160? : Scalar → Option Hash160
  | hash160 value => some value
  | _ => none

/-- The digest of a value of this kind. -/
def hash256? : Scalar → Option Hash256
  | hash256 value => some value
  | _ => none

/-- The amount of a value of this kind. -/
def amount? : Scalar → Option Amount
  | amount value => some value
  | _ => none

/-- The bytes of a value of this kind. -/
def blob? : Scalar → Option Bytes
  | blob value => some value
  | _ => none

/-- The account of a value of this kind. -/
def account? : Scalar → Option AccountId
  | account value => some value
  | _ => none

/-- The digests of a value of this kind. -/
def vector256? : Scalar → Option (List Hash256)
  | vector256 value => some value
  | _ => none

end Scalar

end XrpLedger
