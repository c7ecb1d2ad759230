import XrpLedger.Error

/-!
# Currency codes

A currency is named by twenty bytes. All zero is XRP; a standard code has three characters in bytes
12 to 14 and zeros elsewhere; any other code starts with a byte that is not zero. No other byte
strings are codes, and no standard code spells XRP.

Standard codes are written as their three characters, the others in hexadecimal.
-/

set_option autoImplicit false

namespace XrpLedger

namespace CurrencyCode

/-- Whether a byte is a letter, a digit or one of the marks that standard codes may hold. -/
def isStandardCharacter (byte : UInt8) : Bool :=
  let n := byte.toNat
  n = 33 || (35 ≤ n && n ≤ 38) || (40 ≤ n && n ≤ 42) || (48 ≤ n && n ≤ 57) || n = 60
    || (62 ≤ n && n ≤ 91) || n = 93 || n = 94 || (97 ≤ n && n ≤ 125)

/-- The three bytes that hold the characters of a standard code. -/
def characters (bytes : Bytes) : Bytes :=
  (bytes.drop 12).take 3

/-- Whether the bytes are three standard characters among zeros. -/
def hasStandardLayout (bytes : Bytes) : Bool :=
  (bytes.take 12).all (· = 0) && (bytes.drop 15).all (· = 0)
    && (characters bytes).all isStandardCharacter

/-- The bytes of the text XRP. -/
def xrpCharacters : Bytes := [0x58, 0x52, 0x50]

/-- Whether the bytes name a currency. -/
def IsCode (bytes : FixedBytes 20) : Prop :=
  bytes = FixedBytes.zero 20 ∨ bytes.toList.head? ≠ some 0
    ∨ (hasStandardLayout bytes.toList = true ∧ characters bytes.toList ≠ xrpCharacters)

end CurrencyCode

/-- The name of a currency. -/
structure CurrencyCode where
  /-- The twenty bytes. -/
  bytes : FixedBytes 20
  /-- They have one of the three forms. -/
  isCode : CurrencyCode.IsCode bytes
deriving DecidableEq

namespace CurrencyCode

instance : Ord CurrencyCode :=
  ⟨fun a b => compare a.bytes b.bytes⟩

/-- The code of XRP. -/
def xrp : CurrencyCode :=
  ⟨FixedBytes.zero 20, .inl rfl⟩

/-- Whether the code is that of XRP. -/
def isXrp (code : CurrencyCode) : Bool :=
  code = xrp

/-- Whether the code starts with a zero byte, as standard codes and XRP do. -/
def isStandard (code : CurrencyCode) : Bool :=
  code.bytes.toList.head? = some 0

/-- The code with these twenty bytes. -/
def ofFixed (bytes : FixedBytes 20) : Except CodecError CurrencyCode :=
  if zero : bytes = FixedBytes.zero 20 then .ok ⟨bytes, .inl zero⟩
  else if head : bytes.toList.head? ≠ some 0 then .ok ⟨bytes, .inr (.inl head)⟩
  else if layout : hasStandardLayout bytes.toList = true then
    if spelling : characters bytes.toList ≠ xrpCharacters then
      .ok ⟨bytes, .inr (.inr ⟨layout, spelling⟩)⟩
    else .error (.format .currencyCodeSpellsXrp)
  else .error (.format (.currencyCodeLayout bytes.toList))

/-- The code with these bytes. -/
def ofBytes (bytes : Bytes) : Except CodecError CurrencyCode :=
  match FixedBytes.ofList? 20 bytes with
  | some fixed => ofFixed fixed
  | none => .error (.format (.currencyCodeLength bytes.length))

/-- The code that a text names, by three characters or forty hexadecimal digits. -/
def parse (text : String) : Except CodecError CurrencyCode := do
  let bytes := utf8 text
  if bytes.length = 3 then
    if text = "XRP" then return xrp
    else match bytes.find? fun byte => !isStandardCharacter byte with
      | some byte => throw (.format (.currencyCodeCharacter (Char.ofNat byte.toNat)))
      | none => ofBytes (List.replicate 12 0 ++ bytes ++ List.replicate 5 0)
  else if bytes.length = 40 then
    let code ← Hex.parse text
    if code.head? = some 0 then throw (.format .currencyCodeZeroByte)
    else ofBytes code
  else throw (.format (.currencyCodeText text))

/-- The text that names a code. -/
def text (code : CurrencyCode) : String :=
  if code.isXrp then "XRP"
  else if code.isStandard then
    String.ofList ((characters code.bytes.toList).map fun byte => Char.ofNat byte.toNat)
  else Hex.encode code.bytes.toList

/-- The text with the name of the type, for diagnostics. -/
def debug (code : CurrencyCode) : String :=
  s!"CurrencyCode({code.text})"

end CurrencyCode

end XrpLedger
