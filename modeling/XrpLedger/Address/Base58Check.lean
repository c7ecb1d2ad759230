import XrpLedger.Address.Base58

/-!
# Base58 with a checksum

A payload is followed by the first four bytes of its twice-taken digest before it is written in
Base58, and a version may stand in front of it. The digest is a parameter; addresses and seeds use
SHA-256.
-/

set_option autoImplicit false

namespace XrpLedger.Base58Check

/-- The bytes of a checksum. -/
def checksumLength : Nat := 4

/-- The first bytes of the digest of the digest of a payload. -/
def checksum (hash : Bytes → FixedBytes 32) (payload : Bytes) : Bytes :=
  (hash (hash payload).toList).toList.take checksumLength

/-- A payload and its checksum in Base58. -/
def encode (hash : Bytes → FixedBytes 32) (payload : Bytes) : String :=
  Base58.encode (payload ++ checksum hash payload)

/-- A version, a payload and the checksum of both in Base58. -/
def encodeVersioned (hash : Bytes → FixedBytes 32) (version payload : Bytes) : String :=
  encode hash (version ++ payload)

/-- The payload of a text, of any length, once its checksum agrees. -/
def decode (hash : Bytes → FixedBytes 32) (text : String) : Except CodecError Bytes :=
  match Base58.decode text with
  | .error cause => .error (.format (.base58 cause))
  | .ok bytes =>
    if bytes.length < checksumLength then .error (.format (.checksumMissing text))
    else
      let payload := bytes.take (bytes.length - checksumLength)
      if checksum hash payload = bytes.drop (bytes.length - checksumLength) then .ok payload
      else .error (.format (.checksumMismatch text))

/-- The payload of a text, which must have `length` bytes. -/
def decodeSized (hash : Bytes → FixedBytes 32) (text : String) (length : Nat) :
    Except CodecError Bytes := do
  let payload ← decode hash text
  if payload.length = length then return payload
  else throw (.format (.payloadLength text payload.length length))

/-- The payload of `length` bytes behind a version. -/
def decodeVersioned (hash : Bytes → FixedBytes 32) (text : String) (version : Bytes)
    (length : Nat) : Except CodecError Bytes := do
  let payload ← decodeSized hash text (version.length + length)
  if version.isPrefixOf payload then return payload.drop version.length
  else throw (.format (.payloadVersion text version))

end XrpLedger.Base58Check
