import XrpLedger.Address.AccountId
import XrpLedger.Amount.CurrencyCode
import XrpLedger.Amount.XrpAmount

/-!
# Amounts

An amount is one of XRP or one of a currency that an account issues. The first takes eight bytes on
the wire, the second 48: the value, the currency and the issuer. The highest bit tells them apart.
-/

set_option autoImplicit false

namespace XrpLedger

/-- A balance of a currency issued by an account. -/
structure IssuedAmount where
  value : IssuedValue
  currency : CurrencyCode
  issuer : AccountId
  /-- Nobody issues XRP. -/
  notXrp : currency.isXrp = false
deriving DecidableEq

namespace IssuedAmount

/-- The balance of these parts. -/
def ofParts (value : IssuedValue) (currency : CurrencyCode) (issuer : AccountId) :
    Except CodecError IssuedAmount :=
  if notXrp : currency.isXrp = false then .ok ⟨value, currency, issuer, notXrp⟩
  else .error (.format .issuedXrp)

/-- The balance of three texts, read in the order of the parts. -/
def parse (value currency issuer : String) : Except CodecError IssuedAmount := do
  ofParts (← IssuedValue.parse value) (← CurrencyCode.parse currency) (← AccountId.parse issuer)

/-- The bytes on the wire. -/
def toBytes (amount : IssuedAmount) : Bytes :=
  BigEndian.encode 8 amount.value.toBits ++ amount.currency.bytes.toList
    ++ amount.issuer.bytes.toList

/-- The balance that 48 bytes hold. -/
def ofBytes (bytes : Bytes) : Except CodecError IssuedAmount := do
  if bytes.length ≠ 48 then throw (.format (.issuedAmountLength bytes.length))
  else
    let value ← IssuedValue.ofBits (BigEndian.value (bytes.take 8))
    let currency ← CurrencyCode.ofBytes ((bytes.drop 8).take 20)
    let issuer ← AccountId.ofBytes (bytes.drop 28)
    ofParts value currency issuer

/-- A balance as text. -/
def text (amount : IssuedAmount) : String :=
  s!"{amount.value.text} {amount.currency.text}({amount.issuer.address})"

/-- The text with the name of the type, for diagnostics. -/
def debug (amount : IssuedAmount) : String :=
  s!"IssuedAmount({amount.text})"

end IssuedAmount

/-- XRP or an issued currency. -/
inductive Amount
  | xrp (amount : XrpAmount)
  | issued (amount : IssuedAmount)
deriving DecidableEq

namespace Amount

/-- Whether a first word announces an issued amount. -/
def isIssuedWord (bits : Nat) : Bool :=
  bits / 2 ^ 63 % 2 = 1

/-- Whether the amount is one of XRP. -/
def isXrp : Amount → Bool
  | .xrp _ => true
  | .issued _ => false

/-- The amount of XRP, if it is one. -/
def xrp? : Amount → Option XrpAmount
  | .xrp amount => some amount
  | .issued _ => none

/-- The balance of an issued currency, if it is one. -/
def issued? : Amount → Option IssuedAmount
  | .xrp _ => none
  | .issued amount => some amount

/-- The bytes on the wire. -/
def toBytes : Amount → Bytes
  | .xrp amount => amount.toBytes
  | .issued amount => amount.toBytes

/-- The bytes written before, and behind them those of the amount. -/
def appendTo (amount : Amount) (written : Bytes) : Bytes :=
  match amount with
  | .xrp amount => written ++ BigEndian.encode 8 amount.toBits
  | .issued amount => written ++ amount.toBytes

/-- The amount that a whole byte string holds. -/
def ofBytes (bytes : Bytes) : Except CodecError Amount :=
  if bytes.length < 8 then .error (.truncated 8 bytes.length)
  else
    let word := BigEndian.value (bytes.take 8)
    if isIssuedWord word then (IssuedAmount.ofBytes bytes).map .issued
    else if bytes.length = 8 then (XrpAmount.ofBits word).map .xrp
    else .error (.format (.xrpAmountLength bytes.length))

/-- An amount as text. -/
def text : Amount → String
  | .xrp amount => amount.text
  | .issued amount => amount.text

/-- The kind and the text, for diagnostics. -/
def debug : Amount → String
  | .xrp amount => s!"Xrp({amount.debug})"
  | .issued amount => s!"Issued({amount.debug})"

/-- The amount as one of XRP. -/
def toXrp : Amount → Except CodecError XrpAmount
  | .xrp amount => .ok amount
  | .issued amount => .error (.mismatch (.notXrp amount.text))

end Amount

end XrpLedger
