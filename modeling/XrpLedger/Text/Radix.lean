import XrpLedger.Bytes

/-!
# Positional digits

A number as its digits in a base, most significant first and without leading zeros, and the number
that digits spell. Decimal text, Base58 and bytes are all read off these.
-/

set_option autoImplicit false

namespace XrpLedger.Radix

/-- The digits of `n` in front of the digits `tail`. -/
def digitsOnto (base n : Nat) (tail : List Nat) : List Nat :=
  if _h : base < 2 ∨ n = 0 then tail
  else digitsOnto base (n / base) (n % base :: tail)
termination_by n
decreasing_by exact Nat.div_lt_self (by omega) (by omega)

/-- The digits of a number, most significant first; zero has none. -/
def digits (base n : Nat) : List Nat :=
  digitsOnto base n []

/-- The number that digits spell. -/
def value (base : Nat) (digits : List Nat) : Nat :=
  digits.foldl (fun n d => n * base + d) 0

/-- The character of a decimal digit. -/
def decimalChar (d : Nat) : Char :=
  Char.ofNat (48 + d)

/-- A number in decimal characters; zero is one zero. -/
def decimal (n : Nat) : List Char :=
  if n = 0 then ['0'] else (digits 10 n).map decimalChar

/-- An integer in decimal characters. -/
def signedDecimal (n : Int) : List Char :=
  if n < 0 then '-' :: decimal n.natAbs else decimal n.natAbs

/-- Characters without the zeros at their end. -/
def trimZeros (cs : List Char) : List Char :=
  (cs.reverse.dropWhile (· = '0')).reverse

end XrpLedger.Radix
