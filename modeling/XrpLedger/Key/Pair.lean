import XrpLedger.Address.AccountId
import XrpLedger.Curve.Ecdsa
import XrpLedger.Curve.Ed25519
import XrpLedger.Key.Derivation
import XrpLedger.Key.Seed

/-!
# Key pairs

The key pairs of the two signature schemes. A canonical public key has 33 bytes: the compressed
point of a secp256k1 key, or the byte 0xED and the 32 bytes of an Ed25519 key; its first byte tells
the scheme. A secp256k1 key signs the half digest of a message, an Ed25519 key the message itself.
-/

set_option autoImplicit false

namespace XrpLedger

/-- A private key and its public key. -/
inductive KeyPair
  | secp256k1 (key : CurveKey Secp256k1.Point)
  | ed25519 (privateKey : FixedBytes 32)

/-- The curve of secp256k1 keys. -/
def Secp256k1.keyCurve : KeyCurve Secp256k1.Point where
  order := Secp256k1.order
  publicKey := Secp256k1.publicPoint
  combine a b :=
    match Secp256k1.Point.add a b with
    | .infinity => none
    | sum => some sum
  encode := Secp256k1.Point.encode

namespace KeyPair

/-- The first byte of the public key of an Ed25519 pair. -/
def ed25519Mark : UInt8 := 0xED

/-- The scheme of a pair. -/
def keyType : KeyPair → KeyType
  | secp256k1 _ => .secp256k1
  | ed25519 _ => .ed25519

/-- The canonical public key. -/
def publicKey : KeyPair → Bytes
  | secp256k1 key => key.publicKey.encode.toList
  | ed25519 privateKey => ed25519Mark :: (Ed25519.publicKey privateKey).toList

/-- A canonical public key is not empty. -/
theorem publicKey_ne_nil (pair : KeyPair) : pair.publicKey ≠ [] := by
  cases pair with
  | secp256k1 key =>
    intro h
    have hlength := key.publicKey.encode.length_toList
    rw [show key.publicKey.encode.toList = [] from h] at hlength
    cases hlength
  | ed25519 privateKey => exact List.cons_ne_nil _ _

/-- The private key. -/
def privateKey : KeyPair → FixedBytes 32
  | secp256k1 key => FixedBytes.ofNat 32 key.secret
  | ed25519 privateKey => privateKey

/-- The account that the public key owns. -/
def account (pair : KeyPair) : AccountId :=
  .ofPublicKey pair.publicKey

/-- The signature of a message: DER for secp256k1, 64 bytes for Ed25519. -/
def sign (pair : KeyPair) (message : Bytes) : Bytes :=
  match pair with
  | secp256k1 key => (Ecdsa.sign key.secret (Sha512.half message)).encode
  | ed25519 privateKey => Ed25519.sign privateKey message

/-- Whether a signature is one of a message by a canonical public key. -/
def verifyWith (publicKey message signature : Bytes) : Except CodecError Bool :=
  match publicKey with
  | mark :: key =>
    if mark = ed25519Mark ∧ key.length = 32 then .ok (Ed25519.verify key message signature)
    else if (mark = 2 ∨ mark = 3) ∧ key.length = 32 then
      match Secp256k1.Point.decode? publicKey with
      | none => .error (.format .publicKeyPoint)
      | some point =>
        match Ecdsa.Signature.decode? signature with
        | none => .ok false
        | some signature => .ok (Ecdsa.verify point (Sha512.half message) signature)
    else .error (.format (.publicKeyForm publicKey))
  | [] => .error (.format (.publicKeyForm []))

/-- Whether a signature is one of a message by this pair. -/
def verify (pair : KeyPair) (message signature : Bytes) : Bool :=
  match verifyWith pair.publicKey message signature with
  | .ok valid => valid
  | .error _ => false

/-- The scheme and the public key, for diagnostics. -/
def debug (pair : KeyPair) : String :=
  "KeyPair \x7b key_type: " ++ pair.keyType.debug ++ ", public_key: "
    ++ Quoted.text (Hex.encode pair.publicKey) ++ " \x7d"

end KeyPair

/-- The pairs of a seed; only a secp256k1 seed has a root pair. -/
structure SeedKeys where
  root : Option KeyPair
  master : KeyPair

namespace Seed

/-- All pairs of a seed. -/
def keys (seed : Seed) : Except CodecError SeedKeys :=
  match seed.keyType with
  | .ed25519 => .ok ⟨none, .ed25519 (Sha512.half seed.entropy.toList)⟩
  | .secp256k1 => do
    let (root, master) ← Secp256k1.keyCurve.derive Sha512.half seed.entropy
    return ⟨some (.secp256k1 root), .secp256k1 master⟩

/-- The pair that signs. -/
def keyPair (seed : Seed) : Except CodecError KeyPair := do
  return (← seed.keys).master

end Seed

/-- The signing pair of a seed given as text. -/
def KeyPair.ofSecret (secret : String) : Except CodecError KeyPair := do
  (← Seed.parse secret).keyPair

end XrpLedger
