import XrpLedger.Text.Radix

/-!
# Arithmetic modulo a prime

Powers, inverses and differences of residues, which are numbers below the modulus.
-/

set_option autoImplicit false

namespace XrpLedger.Modular

/-- The power of a residue, by squaring along the binary digits of the exponent. -/
def power (modulus base exponent : Nat) : Nat :=
  (Radix.digits 2 exponent).foldl (fun r bit =>
    let square := r * r % modulus
    if bit = 1 then square * base % modulus else square) (1 % modulus)

/-- The inverse modulo a prime; zero has none and gives zero. -/
def inverse (modulus a : Nat) : Nat :=
  power modulus (a % modulus) (modulus - 2)

/-- The difference of two residues. -/
def sub (modulus a b : Nat) : Nat :=
  (a + modulus - b % modulus) % modulus

/-- The residue that adds up to zero with this one. -/
def negate (modulus a : Nat) : Nat :=
  (modulus - a % modulus) % modulus

end XrpLedger.Modular
