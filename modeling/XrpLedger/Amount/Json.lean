import XrpLedger.Amount.Basic
import XrpLedger.Json.Printer

/-!
# Amounts in JSON

An amount of XRP is a string that counts drops, or a number when it is read; an issued amount is an
object of three strings.
-/

set_option autoImplicit false

namespace XrpLedger

namespace IssuedAmount

/-- The JSON form of a balance. -/
def toJson (amount : IssuedAmount) : Json :=
  .object [
    ("currency", .string amount.currency.text),
    ("issuer", .string amount.issuer.address),
    ("value", .string amount.value.text)]

/-- The text of a key that must hold a string. -/
def textOf (json : Json) (key : String) : Except CodecError String :=
  match (json.get? key).bind Json.string? with
  | some text => .ok text
  | none => .error (.format (.issuedAmountKey key))

/-- The balance of a JSON object: value, currency and issuer, read in this order. -/
def ofJson (json : Json) : Except CodecError IssuedAmount := do
  let value ← IssuedValue.parse (← textOf json "value")
  let currency ← CurrencyCode.parse (← textOf json "currency")
  let issuer ← AccountId.parse (← textOf json "issuer")
  ofParts value currency issuer

end IssuedAmount

namespace Amount

/-- The JSON form of an amount. -/
def toJson : Amount → Json
  | .xrp amount => .string (String.ofList (Radix.signedDecimal amount.drops))
  | .issued amount => amount.toJson

/-- The amount that a JSON value holds. -/
def ofJson (json : Json) : Except CodecError Amount :=
  match json with
  | .string text => (XrpAmount.parseDrops text).map .xrp
  | .integer _ | .real _ =>
    match json.signed? with
    | some drops => (XrpAmount.ofDrops drops).map .xrp
    | none => .error (.format (.dropsNumber json.compact))
  | .object _ => (IssuedAmount.ofJson json).map .issued
  | _ => .error (.format (.amountShape json.compact))

end Amount

end XrpLedger
