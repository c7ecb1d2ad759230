import XrpLedger.Bytes

/-!
# Integers as text

An optional sign and decimal digits, read from the left into a range of integers. A minus sign
belongs to ranges that hold negative numbers only; a plus sign is always allowed. Reading stops at
the first fault: at each character a foreign character is seen before a value that leaves the range.
-/

set_option autoImplicit false

namespace XrpLedger

/-- Why a text is not an integer of the range. -/
inductive IntegerError
  | empty
  | invalidDigit
  | tooLarge
  | tooSmall
deriving DecidableEq

/-- What the error says. -/
def IntegerError.message : IntegerError → String
  | .empty => "cannot parse integer from empty string"
  | .invalidDigit => "invalid digit found in string"
  | .tooLarge => "number too large to fit in target type"
  | .tooSmall => "number too small to fit in target type"

namespace Integer

/-- The value of an ASCII decimal digit. -/
def digitValue? (c : Char) : Option Nat :=
  if '0' ≤ c ∧ c ≤ '9' then some (c.toNat - 48) else none

/-- The values of decimal characters, if there are no others. -/
def digitValues? (cs : List Char) : Option (List Nat) :=
  cs.mapM digitValue?

/-- The digits, read from the left into a number of at most `limit`. -/
def magnitude (limit : Nat) (overflow : IntegerError) : (sofar : Nat) → List Char →
    Except IntegerError Nat
  | n, [] => .ok n
  | n, c :: rest =>
    match digitValue? c with
    | none => .error .invalidDigit
    | some d =>
      if n * 10 + d ≤ limit then magnitude limit overflow (n * 10 + d) rest else .error overflow

/-- The integer between `low` and `high` that the text spells. -/
def parse (low high : Int) (text : String) : Except IntegerError Int :=
  match text.toList with
  | [] => .error .empty
  | ['+'] | ['-'] => .error .invalidDigit
  | '+' :: digits => (magnitude high.toNat .tooLarge 0 digits).map Int.ofNat
  | '-' :: digits =>
    if low < 0 then (magnitude (-low).toNat .tooSmall 0 digits).map fun n => -(n : Int)
    else .error .invalidDigit
  | digits => (magnitude high.toNat .tooLarge 0 digits).map Int.ofNat

/-- A number of 16 bits without sign. -/
def parseUInt16 (text : String) : Except IntegerError UInt16 :=
  (parse 0 (2 ^ 16 - 1) text).map fun n => UInt16.ofNat n.toNat

/-- A number of 32 bits without sign. -/
def parseUInt32 (text : String) : Except IntegerError UInt32 :=
  (parse 0 (2 ^ 32 - 1) text).map fun n => UInt32.ofNat n.toNat

/-- A number of 64 bits without sign. -/
def parseUInt64 (text : String) : Except IntegerError Nat :=
  (parse 0 (2 ^ 64 - 1) text).map Int.toNat

/-- A number of 32 bits with sign. -/
def parseInt32 (text : String) : Except IntegerError Int :=
  parse (-2 ^ 31) (2 ^ 31 - 1) text

/-- A number of 64 bits with sign. -/
def parseInt64 (text : String) : Except IntegerError Int :=
  parse (-2 ^ 63) (2 ^ 63 - 1) text

end Integer

end XrpLedger
