import XrpLedger.Error

/-!
# Deriving family keys

The keys of a seed on an elliptic curve. A scalar is searched for among the digests of an input and
a running index; the root secret comes from the entropy, an intermediate secret from the root's
public key, and the master secret is their sum. The master's public key is the sum of the two public
keys, so that it can be computed without a secret.

The curve and the digest are parameters. `KeyCurve` says what is needed of a curve.
-/

set_option autoImplicit false

namespace XrpLedger

/-- A group of points with one multiple for each secret scalar. -/
structure KeyCurve (Point : Type) where
  /-- The scalars are the numbers strictly between zero and this. -/
  order : Nat
  /-- The public key of a secret scalar. -/
  publicKey : Nat → Point
  /-- The sum of two public keys, if it is one. -/
  combine : Point → Point → Option Point
  /-- The canonical bytes of a public key. -/
  encode : Point → FixedBytes 33

/-- A secret scalar with its public key. -/
structure CurveKey (Point : Type) where
  secret : Nat
  publicKey : Point

namespace KeyCurve

/-- The number of candidates that are tried for a scalar. -/
def candidates : Nat := 4294967296

/-- The bytes whose digest is the candidate of an index. -/
def candidateInput (input : Bytes) (family : Option UInt32) (index : Nat) : Bytes :=
  let familyBytes := match family with
    | some family => BigEndian.encode 4 family.toNat
    | none => []
  input ++ familyBytes ++ BigEndian.encode 4 index

/-- The first candidate from `index` on that is a scalar, with its index. -/
def searchScalar (hash : Bytes → FixedBytes 32) (order : Nat) (input : Bytes)
    (family : Option UInt32) : (left : Nat) → (index : Nat) → Option (Nat × Nat)
  | 0, _ => none
  | left + 1, index =>
    let scalar := (hash (candidateInput input family index)).toNat
    if 0 < scalar ∧ scalar < order then some (scalar, index)
    else searchScalar hash order input family left (index + 1)

/-- The scalar of an input and an optional family number, with the index it was found at. -/
def deriveScalar (hash : Bytes → FixedBytes 32) (order : Nat) (input : Bytes)
    (family : Option UInt32) : Except CodecError (Nat × Nat) :=
  match searchScalar hash order input family candidates 0 with
  | some found => .ok found
  | none => .error (.derivation .noScalar)

/-- The root and the master key of an entropy. -/
def derive {Point : Type} (curve : KeyCurve Point) (hash : Bytes → FixedBytes 32)
    (entropy : FixedBytes 16) : Except CodecError (CurveKey Point × CurveKey Point) := do
  let (rootSecret, _) ← deriveScalar hash curve.order entropy.toList none
  let rootPublic := curve.publicKey rootSecret
  let (intermediate, _) ← deriveScalar hash curve.order (curve.encode rootPublic).toList (some 0)
  let masterSecret := (rootSecret + intermediate) % curve.order
  if masterSecret = 0 then throw (.derivation .secretSum)
  else match curve.combine rootPublic (curve.publicKey intermediate) with
    | none => throw (.derivation .publicSum)
    | some masterPublic => return (⟨rootSecret, rootPublic⟩, ⟨masterSecret, masterPublic⟩)

end KeyCurve

end XrpLedger
