import XrpLedger.Address.Base58Check
import XrpLedger.Hash.Sha256
import XrpLedger.Hash.Sha512

/-!
# Seeds

A seed is sixteen bytes of entropy and the signature scheme its keys belong to. It is written in
Base58 with a checksum, behind a version that tells the scheme.
-/

set_option autoImplicit false

namespace XrpLedger

/-- A signature scheme. -/
inductive KeyType
  | secp256k1
  | ed25519
deriving DecidableEq

namespace KeyType

/-- The version in front of a seed of the scheme. -/
def seedVersion : KeyType → Bytes
  | secp256k1 => [0x21]
  | ed25519 => [0x01, 0xE1, 0x4B]

/-- The name of the scheme. -/
def text : KeyType → String
  | secp256k1 => "secp256k1"
  | ed25519 => "ed25519"

/-- The name of the scheme in diagnostics. -/
def debug : KeyType → String
  | secp256k1 => "Secp256k1"
  | ed25519 => "Ed25519"

/-- The scheme with this name, in letters of either case. -/
def parse (text : String) : Except CodecError KeyType :=
  let name := text.toLower
  if name = "secp256k1" then .ok secp256k1
  else if name = "ed25519" then .ok ed25519
  else .error (.format (.keyType text))

end KeyType

/-- What the keys of an account are derived from. -/
structure Seed where
  entropy : FixedBytes 16
  keyType : KeyType
deriving DecidableEq

namespace Seed

/-- The seed with these bytes. -/
def ofBytes (entropy : Bytes) (keyType : KeyType) : Except CodecError Seed :=
  match FixedBytes.ofList? 16 entropy with
  | some fixed => .ok ⟨fixed, keyType⟩
  | none => .error (.format (.seedLength entropy.length))

/-- The seed of a passphrase: the first bytes of its digest. -/
def ofPassphrase (passphrase : String) (keyType : KeyType) : Seed :=
  ⟨(Sha512.half (utf8 passphrase)).first 16 (by decide), keyType⟩

/-- A seed as text under the digest that checksums are taken with. -/
def textWith (hash : Bytes → FixedBytes 32) (seed : Seed) : String :=
  Base58Check.encodeVersioned hash seed.keyType.seedVersion seed.entropy.toList

/-- A seed as text. -/
def text (seed : Seed) : String :=
  seed.textWith Sha256.digest

/-- The entropy of a payload that is a seed of this scheme. -/
def entropy? (payload : Bytes) (keyType : KeyType) : Option Seed :=
  let version := keyType.seedVersion
  if version.isPrefixOf payload then
    (FixedBytes.ofList? 16 (payload.drop version.length)).map fun entropy => ⟨entropy, keyType⟩
  else none

/-- The seed that a text spells under the digest that checksums are taken with. -/
def parseWith (hash : Bytes → FixedBytes 32) (text : String) : Except CodecError Seed := do
  let payload ← Base58Check.decode hash text
  match (entropy? payload .ed25519).orElse fun _ => entropy? payload .secp256k1 with
  | some seed => return seed
  | none => throw (.format .seedText)

/-- The seed that a text spells. -/
def parse (text : String) : Except CodecError Seed :=
  parseWith Sha256.digest text

/-- The scheme of a seed, for diagnostics; the entropy is not shown. -/
def debug (seed : Seed) : String :=
  "Seed \x7b key_type: " ++ seed.keyType.debug ++ ", entropy: \"<redacted>\" \x7d"

end Seed

end XrpLedger
