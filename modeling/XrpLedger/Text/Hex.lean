import XrpLedger.Bytes

/-!
# Hexadecimal text

Bytes as pairs of hexadecimal digits: written in upper case, read in either case. Reading looks at
the UTF-8 bytes of the text, so that positions in errors count bytes.
-/

set_option autoImplicit false

namespace XrpLedger

/-- Why a text is not hexadecimal. -/
inductive HexError
  /-- The text has an odd number of bytes. -/
  | oddLength
  /-- The byte at this position is no hexadecimal digit. -/
  | invalidDigit (byte : UInt8) (position : Nat)
deriving DecidableEq

namespace Hex

/-- The upper-case digit of a number below sixteen. -/
def digit (n : Nat) : Char :=
  if n < 10 then Char.ofNat (48 + n) else Char.ofNat (55 + n)

/-- The number that a hexadecimal digit, given by its byte, stands for. -/
def digitValue? (byte : UInt8) : Option Nat :=
  if 48 ≤ byte ∧ byte ≤ 57 then some (byte.toNat - 48)
  else if 65 ≤ byte ∧ byte ≤ 70 then some (byte.toNat - 55)
  else if 97 ≤ byte ∧ byte ≤ 102 then some (byte.toNat - 87)
  else none

/-- Two upper-case digits for each byte. -/
def encode (bytes : Bytes) : String :=
  String.ofList (bytes.flatMap fun byte => [digit (byte.toNat / 16), digit (byte.toNat % 16)])

/-- Reads pairs of digits from `position` on, after the bytes `done` in reverse. -/
def decodePairs (done : Bytes) (position : Nat) : Bytes → Except HexError Bytes
  | high :: low :: rest =>
    match digitValue? high, digitValue? low with
    | none, _ => .error (.invalidDigit high position)
    | some _, none => .error (.invalidDigit low (position + 1))
    | some h, some l => decodePairs (UInt8.ofNat (h * 16 + l) :: done) (position + 2) rest
  | _ => .ok done.reverse

/-- The bytes that a hexadecimal text spells. -/
def decode (text : String) : Except HexError Bytes :=
  let bytes := utf8 text
  if bytes.length % 2 = 1 then .error .oddLength else decodePairs [] 0 bytes

end Hex

end XrpLedger
