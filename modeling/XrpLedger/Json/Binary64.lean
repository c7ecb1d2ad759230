import XrpLedger.Text.Radix

/-!
# Binary floating-point numbers in decimal

JSON numbers that are no integers have the precision of binary64. Such a number is kept as the
shortest decimal that identifies it: `Binary64.nearest` rounds a fraction to a multiple of a power
of two, ties to the even neighbour, and `Binary64.shortest` looks, for one digit, two digits and so
on, at the two decimal neighbours of the value and takes the first count for which one of them
rounds back to it. If both do, the nearer one is taken, and of two equally near ones the even one.

All arithmetic is exact.
-/

set_option autoImplicit false

namespace XrpLedger

/-- A decimal `±digits × 10^exponent`. -/
structure Decimal where
  negative : Bool
  digits : Nat
  exponent : Int
deriving DecidableEq

/-- The number `mantissa × 2^exponent`. -/
structure Binary64 where
  mantissa : Nat
  exponent : Int

namespace Binary64

/-- The fraction `n × base^e` as numerator and denominator. -/
def scaled (n : Nat) (base : Nat) (e : Int) : Nat × Nat :=
  if 0 ≤ e then (n * base ^ e.toNat, 1) else (n, base ^ (-e).toNat)

/-- The quotient rounded to the nearest integer, ties to even. -/
def divideEven (n d : Nat) : Nat :=
  let q := n / d
  let r := n % d
  if 2 * r < d then q else if d < 2 * r then q + 1 else q + q % 2

/-- The fraction `n / d` as a multiple of `2^e`, rounded. -/
def roundTo (n d : Nat) (e : Int) : Nat :=
  if 0 ≤ e then divideEven n (d * 2 ^ e.toNat) else divideEven (n * 2 ^ (-e).toNat) d

/-- The nearest number to the fraction `n / d`, of 53 significant bits or as fine as subnormals are.
-/
def nearest (n d : Nat) : Binary64 :=
  if n = 0 then ⟨0, 0⟩
  else
    let guess : Int := (Nat.log2 n : Int) - (Nat.log2 d : Int) - 53
    let least : Int := -1074
    let fine := if guess < least then least else guess
    let m := roundTo n d fine
    let e := if m < 2 ^ 53 then fine else fine + 1
    let m := if m < 2 ^ 53 then m else roundTo n d e
    if m < 2 ^ 53 then ⟨m, e⟩ else ⟨m / 2, e + 1⟩

/-- The value as numerator and denominator. -/
def fraction (x : Binary64) : Nat × Nat :=
  scaled x.mantissa 2 x.exponent

/-- Whether the number is beyond the largest finite one. -/
def isInfinite (x : Binary64) : Bool :=
  let (n, d) := x.fraction
  2 ^ 1024 * d ≤ n

/-- The product with a power of ten that is itself rounded first. -/
def timesPowerOfTen (x : Binary64) (e : Int) : Binary64 :=
  let (n, d) := x.fraction
  let (pn, pd) := (nearest (10 ^ e.natAbs) 1).fraction
  if 0 ≤ e then nearest (n * pn) (d * pd) else nearest (n * pd) (d * pn)

/-- The number that a significand and a decimal exponent give: the significand is rounded, then
multiplied by a rounded power of ten; an exponent below -308 is taken in steps of 308. Nothing if it
is too large. -/
def ofDecimal? (steps : Nat) (x : Binary64) (e : Int) : Option Binary64 :=
  if x.mantissa = 0 then some x
  else if 308 < e then none
  else if -308 ≤ e then
    let y := timesPowerOfTen x e
    if y.isInfinite then none else some y
  else match steps with
    | 0 => some ⟨0, 0⟩
    | steps + 1 => ofDecimal? steps (timesPowerOfTen x (-308)) (e + 308)

/-- The least `k ≤ 400` from `k` on with `n < d × 10^k`. -/
def digitsBefore (n d : Nat) : (steps k : Nat) → Nat
  | 0, k => k
  | steps + 1, k => if n < d * 10 ^ k then k else digitsBefore n d steps (k + 1)

/-- The zeros between the point and the first digit of the fraction `n / d` below one, from `k` on.
-/
def zerosAfterPoint (n d : Nat) : (steps k : Nat) → Nat
  | 0, k => k
  | steps + 1, k => if d ≤ n * 10 ^ (k + 1) then k else zerosAfterPoint n d steps (k + 1)

/-- The exponent `p` for which `10^(p-1) ≤ n / d < 10^p`, for a positive fraction. -/
def pointPosition (n d : Nat) : Int :=
  if n < d then -(zerosAfterPoint n d 400 0 : Int) else digitsBefore n d 400 0

/-- Takes away the zeros at the end. -/
def stripZeros : (steps : Nat) → Nat → Int → Nat × Int
  | 0, n, e => (n, e)
  | steps + 1, n, e => if n % 10 = 0 then stripZeros steps (n / 10) (e + 1) else (n, e)

/-- The decimal of `count` digits next to the number, if one of them rounds back to it: the nearer
one if both do, ties to even. -/
def neighbour? (x : Binary64) (point : Int) (count : Nat) : Option (Nat × Int) :=
  let e := point - count
  -- everything is counted in quarters of the last binary place
  let (n, d) := scaled 1 2 (x.exponent - 2)
  let (tn, td) := scaled 1 10 e
  let width := if x.mantissa = 2 ^ 52 ∧ -1074 < x.exponent then 1 else 2
  let low := (4 * x.mantissa - width) * n * td
  let high := (4 * x.mantissa + 2) * n * td
  let value := 4 * x.mantissa * n * td
  let unit := d * tn
  let inside (c : Nat) : Bool :=
    if x.mantissa % 2 = 0 then low ≤ c * unit && c * unit ≤ high
    else low < c * unit && c * unit < high
  let below := value / unit
  let above := below + 1
  match inside below, inside above with
  | true, true => some (divideEven value unit, e)
  | true, false => some (below, e)
  | false, true => some (above, e)
  | false, false => none

/-- The shortest decimal that rounds to the number, with the given sign. -/
def shortest (negative : Bool) (x : Binary64) : Decimal :=
  if x.mantissa = 0 then ⟨negative, 0, 0⟩
  else
    let (n, d) := x.fraction
    let point := pointPosition n d
    match (List.range 17).findSome? fun i => neighbour? x point (i + 1) with
    | some (digits, e) =>
      let (digits, e) := stripZeros 20 digits e
      ⟨negative, digits, e⟩
    | none => ⟨negative, 0, 0⟩

end Binary64

namespace Decimal

/-- The digits and the point after `point` of them, with zeros where none are left. -/
def positional (digits : List Char) (point : Int) : List Char :=
  if point ≤ 0 then '0' :: '.' :: (List.replicate (-point).toNat '0' ++ digits)
  else
    let whole := digits.take point.toNat
    let padding := List.replicate (point.toNat - digits.length) '0'
    let rest := digits.drop point.toNat
    whole ++ padding ++ '.' :: (if rest.isEmpty then ['0'] else rest)

/-- An exponent, always with its sign. -/
def exponentText (exponent : Int) : List Char :=
  (if exponent < 0 then '-' else '+') :: Radix.decimal exponent.natAbs

/-- JSON text: positional from 10^-5 up to 10^16, else with one digit before the point and an
exponent. -/
def jsonText (x : Decimal) : String :=
  let sign := if x.negative then ['-'] else []
  let digits := Radix.decimal x.digits
  let point := digits.length + x.exponent
  let body :=
    if x.digits = 0 then ['0', '.', '0']
    else if -5 < point ∧ point ≤ 16 then positional digits point
    else
      let mantissa := match digits with
        | d :: e :: rest => d :: '.' :: e :: rest
        | short => short
      mantissa ++ 'e' :: exponentText (point - 1)
  String.ofList (sign ++ body)

end Decimal

end XrpLedger
