import XrpLedger.Amount.IssuedValue

/-!
# Amounts of XRP

An amount of XRP is a count of drops, a millionth of an XRP each, of either sign and never beyond
all XRP there is. It is read from a count of drops or from a text in XRP, and written in eight bytes
whose second-highest bit is set unless the amount is negative.
-/

set_option autoImplicit false

namespace XrpLedger

/-- All XRP there is, in drops. -/
def maxDrops : Nat := 100000000000000000

/-- The drops in one XRP. -/
def dropsPerXrp : Nat := 1000000

/-- A count of drops. -/
structure XrpAmount where
  drops : Int
  /-- The count is not beyond all XRP there is. -/
  bounded : drops.natAbs ≤ maxDrops
deriving DecidableEq

namespace XrpAmount

instance : Ord XrpAmount :=
  ⟨fun a b => compare a.drops b.drops⟩

/-- The amount of this many drops. -/
def ofDrops (drops : Int) : Except CodecError XrpAmount :=
  if bounded : drops.natAbs ≤ maxDrops then .ok ⟨drops, bounded⟩
  else .error (.range (.drops drops maxDrops))

/-- Whether the amount is below zero. -/
def isNegative (amount : XrpAmount) : Bool :=
  amount.drops < 0

/-- The word on the wire. -/
def toBits (amount : XrpAmount) : Nat :=
  amount.drops.natAbs + (if amount.isNegative then 0 else 2 ^ 62)

/-- The amount of a word on the wire; zero is written as a positive amount only. -/
def ofBits (bits : Nat) : Except CodecError XrpAmount :=
  if bits / 2 ^ 63 % 2 = 1 then .error (.mismatch .issuedForXrp)
  else
    let magnitude := bits % 2 ^ 62
    let positive : Bool := bits / 2 ^ 62 % 2 = 1
    if maxDrops < magnitude then .error (.range (.drops magnitude maxDrops))
    else if magnitude = 0 ∧ positive = false then .error (.format .negativeZero)
    else ofDrops (if positive then magnitude else -magnitude)

/-- The eight bytes on the wire. -/
def toBytes (amount : XrpAmount) : Bytes :=
  BigEndian.encode 8 amount.toBits

/-- The characters before the unit of a text in XRP, if it ends in that unit. -/
def inXrp? (cs : List Char) : Option (List Char) :=
  let unit := " XRP".toList
  if unit.isSuffixOf cs then some (cs.take (cs.length - unit.length)) else none

/-- The drops of at most six decimals. -/
def fractionDrops (digits : List Nat) : Nat :=
  Radix.value 10 (digits ++ List.replicate (6 - digits.length) 0)

/-- The amount of a value in XRP, where `text` is the whole text. -/
def parseXrp (text : String) (cs : List Char) : Except CodecError XrpAmount := do
  let (negative, cs) := match cs with
    | '-' :: rest => (true, rest)
    | rest => (false, rest)
  let (whole, point) := cs.span fun c => c ≠ '.'
  match Integer.digitValues? (point.drop 1) with
  | none => throw (.format (.xrpText text))
  | some fraction =>
    if 6 < fraction.length then throw (.format (.xrpText text))
    else
      let xrp ← (Integer.parseUInt64 (String.ofList whole)).mapError fun cause =>
        CodecError.format (.integer cause)
      let drops := xrp * dropsPerXrp + fractionDrops fraction
      if drops ≤ maxDrops then ofDrops (if negative then -drops else drops)
      else throw (.range (.supply text))

/-- The amount of a count of drops given as text. -/
def parseDrops (text : String) : Except CodecError XrpAmount := do
  ofDrops (← (Integer.parseInt64 text).mapError fun cause => CodecError.format (.integer cause))

/-- The amount that a text names, in XRP or in drops. -/
def parse (text : String) : Except CodecError XrpAmount :=
  match inXrp? text.toList with
  | some cs => parseXrp text cs
  | none => parseDrops text

/-- An amount in XRP, without zeros at the end of its decimals. -/
def text (amount : XrpAmount) : String :=
  let magnitude := amount.drops.natAbs
  let fraction := magnitude % dropsPerXrp
  let whole := Radix.decimal (magnitude / dropsPerXrp)
  let digits := Radix.decimal fraction
  let decimals := Radix.trimZeros (List.replicate (6 - digits.length) '0' ++ digits)
  String.ofList ((if amount.isNegative then ['-'] else []) ++ whole
    ++ (if fraction = 0 then [] else '.' :: decimals) ++ " XRP".toList)

/-- The count of drops with the name of the type, for diagnostics. -/
def debug (amount : XrpAmount) : String :=
  s!"XrpAmount({amount.drops} drops)"

end XrpAmount

end XrpLedger
