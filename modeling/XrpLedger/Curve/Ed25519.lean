import XrpLedger.Curve.Modular
import XrpLedger.Hash.Sha512

/-!
# Ed25519

Signatures over the twisted Edwards curve `-x² + y² = 1 + d x² y²`. Points are kept as `(x, y, z,
t)`, which stands for `(x / z, y / z)` with `t = x y / z`; they are written as `y` in 32 bytes,
least significant byte first, with the parity of `x` in the top bit.

A public key may hold a `y` that is not reduced, which is taken modulo the prime; the `r` of a
signature is compared as bytes with the written form of the point that it must be.
-/

set_option autoImplicit false

namespace XrpLedger.Ed25519

/-- The prime of the field. -/
def fieldPrime : Nat := 2 ^ 255 - 19

/-- The order of the base point. -/
def order : Nat := 2 ^ 252 + 27742317777372353535851937790883648493

/-- The constant of the curve's equation. -/
def d : Nat := 37095705934669439343138083508754565189542113879843219016388785533085940283555

/-- A square root of minus one. -/
def rootOfMinusOne : Nat := Modular.power fieldPrime 2 ((fieldPrime - 1) / 4)

/-- A point in extended coordinates. -/
structure Point where
  x : Nat
  y : Nat
  z : Nat
  t : Nat

namespace Point

/-- The neutral point. -/
def zero : Point := ⟨0, 1, 1, 0⟩

/-- The point with these affine coordinates. -/
def affine (x y : Nat) : Point := ⟨x, y, 1, x * y % fieldPrime⟩

/-- The sum of two points. -/
def add (a b : Point) : Point :=
  let m := Modular.sub fieldPrime a.y a.x * Modular.sub fieldPrime b.y b.x % fieldPrime
  let n := (a.y + a.x) * (b.y + b.x) % fieldPrime
  let c := 2 * d * a.t % fieldPrime * b.t % fieldPrime
  let w := 2 * a.z * b.z % fieldPrime
  let e := Modular.sub fieldPrime n m
  let f := Modular.sub fieldPrime w c
  let g := w + c
  let h := n + m
  ⟨e * f % fieldPrime, g * h % fieldPrime, f * g % fieldPrime, e * h % fieldPrime⟩

/-- The point that adds up to zero with this one. -/
def negate (a : Point) : Point :=
  ⟨Modular.negate fieldPrime a.x, a.y, a.z, Modular.negate fieldPrime a.t⟩

/-- A multiple of a point, by doubling along the binary digits of the factor. -/
def multiple (k : Nat) (a : Point) : Point :=
  (Radix.digits 2 k).foldl (fun r bit =>
    let twice := add r r
    if bit = 1 then add twice a else twice) zero

/-- The written form of a point. -/
def encode (a : Point) : FixedBytes 32 :=
  let i := Modular.inverse fieldPrime a.z
  let x := a.x * i % fieldPrime
  let y := a.y * i % fieldPrime
  let bytes := FixedBytes.ofNat 32 (x % 2 * 2 ^ 255 + y)
  ⟨bytes.toList.reverse, by rw [List.length_reverse, bytes.length_toList]⟩

/-- The `x` of a point with this `y`, if there is one. -/
def recoverX? (y : Nat) : Option Nat :=
  let y2 := y * y % fieldPrime
  let u := Modular.sub fieldPrime y2 1
  let v := (d * y2 + 1) % fieldPrime
  let v3 := v * v % fieldPrime * v % fieldPrime
  let v7 := v3 * v3 % fieldPrime * v % fieldPrime
  let root := Modular.power fieldPrime (u * v7 % fieldPrime) ((fieldPrime - 5) / 8)
  let x := u * v3 % fieldPrime * root % fieldPrime
  let check := v * (x * x % fieldPrime) % fieldPrime
  if check = u then some x
  else if check = Modular.negate fieldPrime u then some (x * rootOfMinusOne % fieldPrime)
  else none

/-- The point with this written form, whose `y` need not be reduced. -/
def decode? (bytes : Bytes) : Option Point :=
  let n := BigEndian.value bytes.reverse
  let y := n % 2 ^ 255 % fieldPrime
  (recoverX? y).map fun x =>
    affine (if x % 2 = n / 2 ^ 255 then x else Modular.negate fieldPrime x) y

/-- The point whose multiples are the public keys. -/
def base : Point :=
  affine 15112221349535400772501151409588531511454012693041857206046113283949847762202
    46316835694926478169428394003475163141307993866256225615783033603165251855960

end Point

/-- The digest of a message as a scalar, least significant byte first. -/
def scalarDigest (message : Bytes) : Nat :=
  BigEndian.value (Sha512.digest message).toList.reverse % order

/-- The secret scalar and the nonce key of a private key. -/
def expand (privateKey : FixedBytes 32) : Nat × Bytes :=
  let h := (Sha512.digest privateKey.toList).toList
  let n := BigEndian.value (h.take 32).reverse
  -- the three lowest bits and the highest are cleared, the one below that is set
  (n % 2 ^ 254 / 8 * 8 + 2 ^ 254, h.drop 32)

/-- The public key of a private key. -/
def publicKey (privateKey : FixedBytes 32) : FixedBytes 32 :=
  (Point.multiple (expand privateKey).1 Point.base).encode

/-- The signature of a message: the written form of a point, then a scalar. -/
def sign (privateKey : FixedBytes 32) (message : Bytes) : Bytes :=
  let (secret, nonceKey) := expand privateKey
  let key := publicKey privateKey
  let nonce := scalarDigest (nonceKey ++ message)
  let r := (Point.multiple nonce Point.base).encode
  let k := scalarDigest (r.toList ++ key.toList ++ message)
  r.toList ++ (BigEndian.encode 32 ((nonce + k * secret) % order)).reverse

/-- Whether a signature is one of a message by a public key of 32 bytes. -/
def verify (key message signature : Bytes) : Bool :=
  let r := signature.take 32
  let s := BigEndian.value (signature.drop 32).reverse
  if signature.length ≠ 64 ∨ order ≤ s then false
  else match Point.decode? key with
    | none => false
    | some a =>
      let k := scalarDigest (r ++ key ++ message)
      let sum := Point.add (.multiple s .base) (.multiple k a.negate)
      sum.encode.toList = r

end XrpLedger.Ed25519
