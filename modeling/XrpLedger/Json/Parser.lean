import XrpLedger.Json.Basic

/-!
# Reading JSON

A JSON text is read from the left by recursive descent; the recursion is bounded by the length of
the text. Of a repeated key the last value counts.
-/

set_option autoImplicit false

namespace XrpLedger.Json

/-- What follows the blanks. -/
def skipBlanks (cs : List Char) : List Char :=
  cs.dropWhile fun c => c = ' ' || c = '\n' || c = '\r' || c = '\t'

/-- The value of a hexadecimal digit. -/
def hexValue? (c : Char) : Option Nat :=
  if '0' ≤ c ∧ c ≤ '9' then some (c.toNat - 48)
  else if 'a' ≤ c ∧ c ≤ 'f' then some (c.toNat - 87)
  else if 'A' ≤ c ∧ c ≤ 'F' then some (c.toNat - 55)
  else none

/-- The code unit that four hexadecimal digits name, and what follows. -/
def codeUnit? : List Char → Option (Nat × List Char)
  | a :: b :: c :: d :: rest => do
    return ((← hexValue? a) * 4096 + (← hexValue? b) * 256 + (← hexValue? c) * 16 + (← hexValue? d),
      rest)
  | _ => none

/-- The character behind `\u`: one code unit, or two that form a surrogate pair. -/
def escaped? (cs : List Char) : Option (Char × List Char) := do
  let (high, rest) ← codeUnit? cs
  if 0xD800 ≤ high ∧ high < 0xDC00 then
    match rest with
    | '\\' :: 'u' :: rest =>
      let (low, rest) ← codeUnit? rest
      if 0xDC00 ≤ low ∧ low < 0xE000 then
        return (Char.ofNat (0x10000 + (high - 0xD800) * 1024 + (low - 0xDC00)), rest)
      else none
    | _ => none
  else if 0xDC00 ≤ high ∧ high < 0xE000 then none
  else return (Char.ofNat high, rest)

/-- The text of a string up to its closing mark, after the characters `done` in reverse. -/
def stringTail? : (fuel : Nat) → (done : List Char) → List Char → Option (String × List Char)
  | 0, _, _ => none
  | fuel + 1, done, cs =>
    match cs with
    | [] => none
    | '"' :: rest => some (String.ofList done.reverse, rest)
    | '\\' :: 'u' :: rest =>
      match escaped? rest with
      | some (c, rest) => stringTail? fuel (c :: done) rest
      | none => none
    | '\\' :: 'n' :: rest => stringTail? fuel ('\n' :: done) rest
    | '\\' :: 't' :: rest => stringTail? fuel ('\t' :: done) rest
    | '\\' :: 'r' :: rest => stringTail? fuel ('\r' :: done) rest
    | '\\' :: 'b' :: rest => stringTail? fuel ('\x08' :: done) rest
    | '\\' :: 'f' :: rest => stringTail? fuel ('\x0c' :: done) rest
    | '\\' :: c :: rest =>
      if c = '"' ∨ c = '\\' ∨ c = '/' then stringTail? fuel (c :: done) rest else none
    | c :: rest => if c.toNat < 32 then none else stringTail? fuel (c :: done) rest

/-- The value of decimal digits. -/
def digitsValue (digits : List Char) : Nat :=
  digits.foldl (fun n c => n * 10 + (c.toNat - 48)) 0

/-- The digits up to the first that does not fit 64 bits, as a number, and how many are left out. -/
def significand (start : Nat) (digits : List Char) : Nat × Nat :=
  digits.foldl (fun (n, dropped) c =>
    let next := n * 10 + (c.toNat - 48)
    if dropped = 0 ∧ next < 2 ^ 64 then (next, 0) else (n, dropped + 1)) (start, 0)

/-- A number with point or exponent, or too large for an integer. The digits before and after the
point are each taken up to the first that does not fit. -/
def realOf? (negative : Bool) (whole fraction : List Char) (exponent : Int) : Option Json :=
  let (n, dropped) := significand 0 whole
  let (m, lost) := significand n fraction
  let e := exponent + dropped - (fraction.length - lost : Nat)
  (Binary64.ofDecimal? 4 (Binary64.nearest m 1) e).map fun x => .real (x.shortest negative)

/-- An exponent and what follows. -/
def exponent? (cs : List Char) : Option (Option Int × List Char) :=
  match cs with
  | c :: rest =>
    if c = 'e' ∨ c = 'E' then
      let (negative, rest) := match rest with
        | '+' :: rest => (false, rest)
        | '-' :: rest => (true, rest)
        | rest => (false, rest)
      let (digits, rest) := rest.span Char.isDigit
      if digits.isEmpty then none
      else
        let n : Int := digitsValue digits
        some (some (if negative then -n else n), rest)
    else some (none, cs)
  | [] => some (none, [])

/-- A number and what follows. -/
def number? (cs : List Char) : Option (Json × List Char) := do
  let (negative, cs) := match cs with
    | '-' :: rest => (true, rest)
    | cs => (false, cs)
  let (whole, cs) := cs.span Char.isDigit
  if whole.isEmpty ∨ (whole.length > 1 ∧ whole.head? = some '0') then none
  else
    let (fraction, cs) ← match cs with
      | '.' :: rest =>
        let (digits, rest) := rest.span Char.isDigit
        if digits.isEmpty then none else some (some digits, rest)
      | cs => some (none, cs)
    let (exponent, cs) ← exponent? cs
    let n := digitsValue whole
    match fraction, exponent with
    | none, none =>
      if negative = false ∧ n < 2 ^ 64 then return (.integer n, cs)
      else if negative ∧ 0 < n ∧ n ≤ 2 ^ 63 then return (.integer (-n), cs)
      else return (← realOf? negative whole [] 0, cs)
    | _, _ => return (← realOf? negative whole (fraction.getD []) (exponent.getD 0), cs)

/-- The entries with a key set, an earlier value of the key being replaced. -/
def setEntry (entries : List (String × Json)) (key : String) (value : Json) :
    List (String × Json) :=
  (entries.filter fun entry => entry.1 ≠ key) ++ [(key, value)]

mutual

/-- A value and what follows. -/
def value? : (fuel : Nat) → List Char → Option (Json × List Char)
  | 0, _ => none
  | fuel + 1, cs =>
    match skipBlanks cs with
    | 'n' :: 'u' :: 'l' :: 'l' :: rest => some (.null, rest)
    | 't' :: 'r' :: 'u' :: 'e' :: rest => some (.bool true, rest)
    | 'f' :: 'a' :: 'l' :: 's' :: 'e' :: rest => some (.bool false, rest)
    | '"' :: rest => (stringTail? (rest.length + 1) [] rest).map fun (s, rest) => (.string s, rest)
    | '[' :: rest =>
      match skipBlanks rest with
      | ']' :: rest => some (.array [], rest)
      | _ => items? fuel [] rest
    | '\x7b' :: rest =>
      match skipBlanks rest with
      | '\x7d' :: rest => some (.object [], rest)
      | rest => entries? fuel [] rest
    | rest => number? rest

/-- The items of an array up to its closing bracket, after the items `done` in reverse. -/
def items? : (fuel : Nat) → (done : List Json) → List Char → Option (Json × List Char)
  | 0, _, _ => none
  | fuel + 1, done, cs =>
    match value? fuel cs with
    | none => none
    | some (item, rest) =>
      match skipBlanks rest with
      | ',' :: rest => items? fuel (item :: done) rest
      | ']' :: rest => some (.array (item :: done).reverse, rest)
      | _ => none

/-- The entries of an object up to its closing brace, after the entries `done`. -/
def entries? : (fuel : Nat) → (done : List (String × Json)) → List Char → Option (Json × List Char)
  | 0, _, _ => none
  | fuel + 1, done, cs =>
    match skipBlanks cs with
    | '"' :: rest =>
      match stringTail? (rest.length + 1) [] rest with
      | none => none
      | some (key, rest) =>
        match skipBlanks rest with
        | ':' :: rest =>
          match value? fuel rest with
          | none => none
          | some (value, rest) =>
            match skipBlanks rest with
            | ',' :: rest => entries? fuel (setEntry done key value) rest
            | '\x7d' :: rest => some (.object (setEntry done key value), rest)
            | _ => none
        | _ => none
    | _ => none

end

/-- The value that a text spells, with nothing after it. -/
def parse? (text : String) : Option Json := do
  let cs := text.toList
  let (value, rest) ← value? (cs.length + 1) cs
  if (skipBlanks rest).isEmpty then return value else none

end XrpLedger.Json
