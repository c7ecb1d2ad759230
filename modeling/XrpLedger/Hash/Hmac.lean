import XrpLedger.Hash.Sha256

/-!
# HMAC with SHA-256

The keyed digest from which deterministic signatures draw their secret scalars.
-/

set_option autoImplicit false

namespace XrpLedger.Hmac

/-- The key at block length: a longer key is replaced by its digest, a shorter one padded with
zeros. -/
def blockKey (key : Bytes) : Bytes :=
  let short := if key.length > 64 then (Sha256.digest key).toList else key
  short ++ List.replicate (64 - short.length) 0

/-- The keyed digest of a message. -/
def sha256 (key message : Bytes) : FixedBytes 32 :=
  let block := blockKey key
  let inner := Sha256.digest (block.map (· ^^^ 0x36) ++ message)
  Sha256.digest (block.map (· ^^^ 0x5c) ++ inner.toList)

end XrpLedger.Hmac
