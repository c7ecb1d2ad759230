import XrpLedger.Text.Radix
import XrpLedger.Error

/-!
# Base58

Bytes as a number in base 58, written in the ledger's own alphabet. Each leading zero byte becomes
one leading `r`, so that the length of the bytes is not lost.
-/

set_option autoImplicit false

namespace XrpLedger.Base58

/-- The digits from zero to 57. -/
def alphabet : List Char :=
  "rpshnaf39wBUDNEGHJKLM4PQRST7VWXYZ2bcdeCg65jkm8oFqi1tuvAxyz".toList

/-- The character of a digit. -/
def char (digit : Nat) : Char :=
  alphabet.getD digit 'r'

/-- Bytes in Base58. -/
def encode (bytes : Bytes) : String :=
  let zeros := bytes.takeWhile (· = 0)
  String.ofList (zeros.map (fun _ => char 0) ++ (Radix.digits 58 (BigEndian.value bytes)).map char)

/-- The digits of a text from `position` on, after the digits `done` in reverse. -/
def digits (done : List Nat) (position : Nat) : List Char → Except Base58Error (List Nat)
  | [] => .ok done.reverse
  | c :: rest =>
    if c.toNat > 127 then .error (.nonAscii position)
    else match alphabet.idxOf? c with
      | none => .error (.invalidCharacter c position)
      | some d => digits (d :: done) (position + 1) rest

/-- The bytes that Base58 digits spell. -/
def bytesOfDigits (digits : List Nat) : Bytes :=
  let zeros := digits.takeWhile (· = 0)
  zeros.map (fun _ => 0) ++ (Radix.digits 256 (Radix.value 58 digits)).map UInt8.ofNat

/-- The bytes that a text in Base58 spells. -/
def decode (text : String) : Except Base58Error Bytes :=
  (digits [] 0 text.toList).map bytesOfDigits

end XrpLedger.Base58
