import XrpLedger.Error
import XrpLedger.Text.Radix

/-!
# Issued values

The value of an issued amount is a decimal with sixteen significant digits: a sign, a mantissa from
10^15 up to 10^16 and an exponent from -96 to 80, or zero. A value has one such form, so equal
values are equal as data.

`IssuedValue.ofParts` brings a number into this form and never loses a digit, `parse` and `text`
read and write decimal text, `toBits` and `ofBits` the 64-bit word on the wire.
-/

set_option autoImplicit false

namespace XrpLedger

/-- The value of an issued amount. -/
structure IssuedValue where
  negative : Bool
  mantissa : Nat
  exponent : Int
  /-- The parts are those of zero or have sixteen digits and an exponent in bounds. -/
  isNormal : (negative = false ∧ mantissa = 0 ∧ exponent = 0) ∨
    (10 ^ 15 ≤ mantissa ∧ mantissa < 10 ^ 16 ∧ -96 ≤ exponent ∧ exponent ≤ 80)
deriving DecidableEq

namespace IssuedValue

/-- Zero. -/
def zero : IssuedValue :=
  ⟨false, 0, 0, .inl ⟨rfl, rfl, rfl⟩⟩

/-- Whether the value is zero. -/
def isZero (value : IssuedValue) : Bool :=
  value.mantissa = 0

/-- An exponent held within 32 bits. -/
def saturate (exponent : Int) : Int :=
  if exponent < -2 ^ 31 then -2 ^ 31 else if 2 ^ 31 ≤ exponent then 2 ^ 31 - 1 else exponent

/-- Multiplies a mantissa by ten until it has sixteen digits. -/
def scaleUp (mantissa : Nat) (exponent : Int) : Nat × Int :=
  if mantissa = 0 ∨ 10 ^ 15 ≤ mantissa then (mantissa, exponent)
  else scaleUp (mantissa * 10) (saturate (exponent - 1))
termination_by 10 ^ 15 - mantissa

/-- Divides a mantissa by ten until it has at most sixteen digits; a digit that is not zero stays.
-/
def scaleDown (mantissa : Nat) (exponent : Int) : Except CodecError (Nat × Int) :=
  if mantissa < 10 ^ 16 then .ok (mantissa, exponent)
  else if mantissa % 10 ≠ 0 then .error (.range .precision)
  else scaleDown (mantissa / 10) (saturate (exponent + 1))
termination_by mantissa

/-- The value `±mantissa × 10^exponent`, for a mantissa of 64 bits and an exponent of 32. -/
def ofParts (negative : Bool) (mantissa : Nat) (exponent : Int) :
    Except CodecError IssuedValue := do
  if mantissa = 0 then return zero
  else
    let (m, e) := scaleUp mantissa exponent
    let (m, e) ← scaleDown m e
    if normal : 10 ^ 15 ≤ m ∧ m < 10 ^ 16 ∧ -96 ≤ e ∧ e ≤ 80 then
      return ⟨negative, m, e, .inr normal⟩
    else throw (.range (.exponent e))

/-- The word on the wire: a set bit, the sign, the exponent raised by 97 and the mantissa. -/
def toBits (value : IssuedValue) : Nat :=
  if value.isZero then 2 ^ 63
  else 2 ^ 63 + (if value.negative then 0 else 2 ^ 62) + (value.exponent + 97).toNat * 2 ^ 54
    + value.mantissa

/-- The value of a word on the wire, which must hold it in its one form. -/
def ofBits (bits : Nat) : Except CodecError IssuedValue :=
  if bits / 2 ^ 63 % 2 = 0 then .error (.mismatch .xrpForIssued)
  else if bits = 2 ^ 63 then .ok zero
  else
    let mantissa := bits % 2 ^ 54
    if 10 ^ 15 ≤ mantissa ∧ mantissa < 10 ^ 16 then
      ofParts (bits / 2 ^ 62 % 2 = 0) mantissa ((bits / 2 ^ 54 % 256 : Nat) - 97)
    else .error (.range (.mantissa mantissa))

/-- A mantissa and an exponent while the digits of a text are read. -/
structure Digits where
  mantissa : Nat
  exponent : Int

/-- Takes one more digit. Up to eighteen digits go into the mantissa; later ones must be zero. -/
def Digits.push (fractional : Bool) (sofar : Digits) (digit : Nat) : Except CodecError Digits :=
  if sofar.mantissa < 10 ^ 18 then
    .ok ⟨sofar.mantissa * 10 + digit,
      if fractional then saturate (sofar.exponent - 1) else sofar.exponent⟩
  else if digit = 0 then
    .ok ⟨sofar.mantissa, if fractional then sofar.exponent else saturate (sofar.exponent + 1)⟩
  else .error (.range .precision)

/-- The parts of a text: sign, digits before and after the point, exponent. -/
structure Parts where
  negative : Bool
  whole : List Nat
  fraction : List Nat
  exponent : Int

/-- Splits a text into its parts, if it has the form of a decimal number. -/
def parts? (cs : List Char) : Option Parts := do
  let (negative, body) := match cs with
    | '-' :: rest => (true, rest)
    | '+' :: rest => (false, rest)
    | rest => (false, rest)
  let (number, mark) := body.span fun c => c ≠ 'e' && c ≠ 'E'
  let exponent ← match mark with
    | [] => some 0
    | _ :: digits => (Integer.parseInt32 (String.ofList digits)).toOption
  let (whole, point) := number.span fun c => c ≠ '.'
  let fraction := point.drop 1
  if whole.isEmpty ∧ fraction.isEmpty then none
  else return ⟨negative, ← Integer.digitValues? whole, ← Integer.digitValues? fraction, exponent⟩

/-- The value that a text spells, exactly. -/
def parse (text : String) : Except CodecError IssuedValue := do
  match parts? text.toList with
  | none => throw (.format (.decimalText text))
  | some parts =>
    let digits ← parts.whole.foldlM (Digits.push false) ⟨0, parts.exponent⟩
    let digits ← parts.fraction.foldlM (Digits.push true) digits
    ofParts parts.negative digits.mantissa digits.exponent

/-- Moves the zeros at the end of a mantissa into its exponent. -/
def foldZeros (mantissa : Nat) (exponent : Int) : Nat × Int :=
  if mantissa = 0 ∨ mantissa % 10 ≠ 0 then (mantissa, exponent)
  else foldZeros (mantissa / 10) (exponent + 1)
termination_by mantissa
decreasing_by exact Nat.div_lt_self (by omega) (by omega)

/-- A mantissa of sixteen digits with the point where the exponent puts it. -/
def positional (mantissa : Nat) (exponent : Int) : List Char :=
  let digits := Radix.decimal mantissa
  let point := 16 + exponent
  let (whole, fraction) :=
    if 0 < point then (digits.take point.toNat, digits.drop point.toNat)
    else (['0'], List.replicate (-point).toNat '0' ++ digits)
  match Radix.trimZeros fraction with
  | [] => whole
  | fraction => whole ++ '.' :: fraction

/-- The digits of a value without its sign: positional near one, else with an exponent. -/
def magnitudeText (value : IssuedValue) : List Char :=
  if value.exponent ≠ 0 ∧ (value.exponent < -25 ∨ -5 < value.exponent) then
    let (m, e) := foldZeros value.mantissa value.exponent
    Radix.decimal m ++ 'e' :: Radix.signedDecimal e
  else positional value.mantissa value.exponent

/-- A value as decimal text. -/
def text (value : IssuedValue) : String :=
  if value.isZero then "0"
  else String.ofList (if value.negative then '-' :: value.magnitudeText else value.magnitudeText)

/-- The text with the name of the type, for diagnostics. -/
def debug (value : IssuedValue) : String :=
  s!"Currency({value.text})"

end IssuedValue

end XrpLedger
