import XrpLedger.Error
import XrpLedger.Hash.Ripemd160
import XrpLedger.Hash.Sha256
import XrpLedger.Hash.Sha512

/-!
# Digests as values

Opaque digests of 128, 160 and 256 bits: fixed-width byte strings that are written as hexadecimal
text.
-/

set_option autoImplicit false

namespace XrpLedger

/-- A digest of 128 bits, such as the digest of an e-mail address. -/
abbrev Hash128 := FixedBytes 16

/-- A digest of 160 bits. -/
abbrev Hash160 := FixedBytes 20

/-- A digest of 256 bits: transaction ids, ledger digests, ids of objects. -/
abbrev Hash256 := FixedBytes 32

namespace Digest

/-- The 160-bit digest of a byte string: RIPEMD-160 of its SHA-256 digest. -/
def hash160 (bytes : Bytes) : Hash160 :=
  Ripemd160.digest (Sha256.digest bytes).toList

/-- The digest of `n` bytes with these bytes. -/
def ofBytes (n : Nat) (bytes : Bytes) : Except CodecError (FixedBytes n) :=
  match FixedBytes.ofList? n bytes with
  | some fixed => .ok fixed
  | none => .error (.format (.digestLength (n * 8) bytes.length))

/-- The digest of `n` bytes that a hexadecimal text spells; the text's length is looked at first. -/
def parse (n : Nat) (text : String) : Except CodecError (FixedBytes n) := do
  if text.utf8ByteSize = n * 2 then ofBytes n (← Hex.parse text)
  else throw (.format (.digestTextLength (n * 8) text.utf8ByteSize))

variable {n : Nat}

/-- A digest in upper-case hexadecimal. -/
def text (digest : FixedBytes n) : String :=
  Hex.encode digest.toList

/-- The text with the name of the type, for diagnostics. -/
def debug (digest : FixedBytes n) : String :=
  s!"Hash{n * 8}({text digest})"

end Digest

end XrpLedger
