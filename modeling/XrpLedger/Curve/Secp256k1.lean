import XrpLedger.Bytes
import XrpLedger.Curve.Modular

/-!
# The curve secp256k1

Points of `y² = x³ + 7` over a prime field, their sums and multiples, and their compressed form: a
byte that tells whether `y` is odd, then `x`. Sums are computed in Jacobian coordinates, where `(x,
y, z)` stands for the point `(x / z², y / z³)` and `z = 0` for the point at infinity.
-/

set_option autoImplicit false

namespace XrpLedger.Secp256k1

/-- The prime of the field. -/
def fieldPrime : Nat := 0xfffffffffffffffffffffffffffffffffffffffffffffffffffffffefffffc2f

/-- The order of the base point. -/
def order : Nat := 0xfffffffffffffffffffffffffffffffebaaedce6af48a03bbfd25e8cd0364141

/-- A point of the curve. -/
inductive Point
  | infinity
  | affine (x y : Nat)
deriving DecidableEq

/-- The point whose multiples are the public keys. -/
def basePoint : Point :=
  .affine 0x79be667ef9dcbbac55a06295ce870b07029bfcdb2dce28d959f2815b16f81798
    0x483ada7726a3c4655da4fbfc0e1108a8fd17b448a68554199c47d08ffb10d4b8

/-- A point in Jacobian coordinates. -/
structure Jacobian where
  x : Nat
  y : Nat
  z : Nat

namespace Jacobian

/-- The point at infinity. -/
def infinity : Jacobian := ⟨1, 1, 0⟩

/-- A point in Jacobian coordinates. -/
def ofPoint : Point → Jacobian
  | .infinity => infinity
  | .affine x y => ⟨x, y, 1⟩

/-- The point of Jacobian coordinates. -/
def toPoint (a : Jacobian) : Point :=
  if a.z = 0 then .infinity
  else
    let i := Modular.inverse fieldPrime a.z
    let i2 := i * i % fieldPrime
    .affine (a.x * i2 % fieldPrime) (a.y * i2 % fieldPrime * i % fieldPrime)

/-- Twice a point. -/
def double (a : Jacobian) : Jacobian :=
  if a.z = 0 ∨ a.y = 0 then infinity
  else
    let y2 := a.y * a.y % fieldPrime
    let s := 4 * a.x * y2 % fieldPrime
    let m := 3 * a.x * a.x % fieldPrime
    let x := Modular.sub fieldPrime (m * m) (2 * s)
    let y := Modular.sub fieldPrime (m * Modular.sub fieldPrime s x) (8 * y2 * y2)
    ⟨x, y, 2 * a.y * a.z % fieldPrime⟩

/-- The sum of two points. -/
def add (a b : Jacobian) : Jacobian :=
  if a.z = 0 then b
  else if b.z = 0 then a
  else
    let za2 := a.z * a.z % fieldPrime
    let zb2 := b.z * b.z % fieldPrime
    let u1 := a.x * zb2 % fieldPrime
    let u2 := b.x * za2 % fieldPrime
    let s1 := a.y * zb2 % fieldPrime * b.z % fieldPrime
    let s2 := b.y * za2 % fieldPrime * a.z % fieldPrime
    if u1 = u2 then
      if s1 = s2 then double a else infinity
    else
      let h := Modular.sub fieldPrime u2 u1
      let r := Modular.sub fieldPrime s2 s1
      let h2 := h * h % fieldPrime
      let h3 := h * h2 % fieldPrime
      let v := u1 * h2 % fieldPrime
      let x := Modular.sub fieldPrime (r * r) (h3 + 2 * v)
      let y := Modular.sub fieldPrime (r * Modular.sub fieldPrime v x) (s1 * h3)
      ⟨x, y, h * a.z % fieldPrime * b.z % fieldPrime⟩

/-- A multiple of a point, by doubling along the binary digits of the factor. -/
def multiple (k : Nat) (a : Jacobian) : Jacobian :=
  (Radix.digits 2 k).foldl (fun r bit => if bit = 1 then add (double r) a else double r) infinity

end Jacobian

namespace Point

/-- The sum of two points. -/
def add (a b : Point) : Point :=
  (Jacobian.add (.ofPoint a) (.ofPoint b)).toPoint

/-- A multiple of a point. -/
def multiple (k : Nat) (a : Point) : Point :=
  (Jacobian.multiple k (.ofPoint a)).toPoint

/-- The compressed form of a point; the point at infinity has none and gives zeros. -/
def encode : Point → FixedBytes 33
  | .infinity => FixedBytes.zero 33
  | .affine x y => FixedBytes.ofNat 33 ((2 + y % 2) * 256 ^ 32 + x)

/-- The point with this compressed form. -/
def decode? (bytes : Bytes) : Option Point :=
  match bytes with
  | parity :: rest =>
    let x := BigEndian.value rest
    if rest.length = 32 ∧ (parity = 2 ∨ parity = 3) ∧ x < fieldPrime then
      let square := (x * x % fieldPrime * x + 7) % fieldPrime
      let y := Modular.power fieldPrime square ((fieldPrime + 1) / 4)
      if y * y % fieldPrime = square then
        some (.affine x (if y % 2 = parity.toNat % 2 then y else Modular.negate fieldPrime y))
      else none
    else none
  | [] => none

end Point

/-- The public key of a secret scalar. -/
def publicPoint (secret : Nat) : Point :=
  Point.multiple secret basePoint

end XrpLedger.Secp256k1
