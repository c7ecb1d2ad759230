/-!
# Quoted text

Characters and texts between quotation marks, as diagnostics show them. Control characters are named
by a short escape or by their code point, the quotation mark in use and the backslash by a backslash
before them. Printable is read off the first 256 code points, which are all that diagnostics quote:
the controls, the no-break space and the soft hyphen are not printable.
-/

set_option autoImplicit false

namespace XrpLedger.Quoted

/-- The lower-case hexadecimal digits of a number. -/
def hexDigits (n : Nat) : String :=
  String.ofList (Nat.toDigits 16 n)

/-- Whether a character stands for itself. -/
def isPrintable (c : Char) : Bool :=
  let n := c.toNat
  (32 ≤ n && n < 127) || (160 < n && n ≠ 173)

/-- A character inside quotation marks of the kind `mark`. -/
def escape (mark : Char) (c : Char) : String :=
  if c = mark ∨ c = '\\' then String.ofList ['\\', c]
  else if c = '\x00' then "\\0"
  else if c = '\t' then "\\t"
  else if c = '\n' then "\\n"
  else if c = '\r' then "\\r"
  else if isPrintable c then String.singleton c
  else "\\u\x7b" ++ hexDigits c.toNat ++ "\x7d"

/-- A character between apostrophes. -/
def char (c : Char) : String :=
  "'" ++ escape '\'' c ++ "'"

/-- A text between double quotation marks. -/
def text (s : String) : String :=
  "\"" ++ String.join (s.toList.map (escape '"')) ++ "\""

end XrpLedger.Quoted
