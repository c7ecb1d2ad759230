import XrpLedger.Bytes
import XrpLedger.Text.Hex
import XrpLedger.Text.Integer
import XrpLedger.Text.Quoted
import XrpLedger.Field.Id

/-!
# Errors

Every failure of the library is a `CodecError`: one of six kinds, with its cause. A cause is a
constructor that carries what the failing check saw; its wording is in one `message` function per
kind. Only a buffer that ends too early can be mended by more input, so only `truncated` is
recoverable.
-/

set_option autoImplicit false

namespace XrpLedger

/-- Why a text is not Base58. -/
inductive Base58Error
  /-- The character at this position is not in the alphabet. -/
  | invalidCharacter (c : Char) (position : Nat)
  /-- A character outside ASCII starts at this byte. -/
  | nonAscii (position : Nat)
deriving DecidableEq

/-- What the error says. -/
def Base58Error.message : Base58Error → String
  | .invalidCharacter c position =>
    "provided string contained invalid character " ++ Quoted.char c ++ s!" at byte {position}"
  | .nonAscii position =>
    s!"provided string contained non-ascii character starting at byte {position}"

/-- What the error says; the byte is shown as the character of that code point. -/
def HexError.message : HexError → String
  | .oddLength => "Odd number of digits"
  | .invalidDigit byte position =>
    "Invalid character " ++ Quoted.char (Char.ofNat byte.toNat) ++ s!" at position {position}"

/-- Malformed texts and byte strings. -/
inductive FormatError
  | base58 (cause : Base58Error)
  | hex (cause : HexError)
  | integer (cause : IntegerError)
  /-- Base58 text of fewer bytes than a checksum has. -/
  | checksumMissing (text : String)
  | checksumMismatch (text : String)
  /-- Base58 text whose payload has the wrong length. -/
  | payloadLength (text : String) (found expected : Nat)
  /-- Base58 text whose payload starts with another version. -/
  | payloadVersion (text : String) (version : Bytes)
  /-- A digest of `bits` bits given by `found` bytes. -/
  | digestLength (bits found : Nat)
  /-- A digest of `bits` bits given by `found` characters. -/
  | digestTextLength (bits found : Nat)
  | accountLength (found : Nat)
  | currencyCodeLength (found : Nat)
  /-- A currency code with zero first byte that does not have the standard layout. -/
  | currencyCodeLayout (bytes : Bytes)
  /-- A standard currency code that spells XRP. -/
  | currencyCodeSpellsXrp
  | currencyCodeCharacter (c : Char)
  /-- A currency code in hex that starts with a zero byte. -/
  | currencyCodeZeroByte
  | currencyCodeText (text : String)
  | decimalText (text : String)
  | negativeZero
  /-- A text in XRP that is not a value with at most six decimals. -/
  | xrpText (text : String)
  /-- XRP as the currency of an issued amount. -/
  | issuedXrp
  | issuedAmountLength (found : Nat)
  | xrpAmountLength (found : Nat)
  /-- A JSON number, shown as text, that is no count of drops. -/
  | dropsNumber (json : String)
  | issuedAmountKey (key : String)
  /-- A JSON value, shown as text, that is no amount. -/
  | amountShape (json : String)
  /-- A type or field code below sixteen in the long header form. -/
  | headerForm (what : String) (code : UInt8)
  /-- The byte 0xFF where a length stands. -/
  | lengthMarker
  | lengthLimit (length limit : Nat)
  /-- An account behind another length than twenty. -/
  | accountField (length : Nat)
  /-- A list of digests behind a length that is no multiple of 32. -/
  | vectorLength (length : Nat)
  | notObject (context : String)
  | fieldShape (context key expected : String)
  | keyMissing (context key : String)
  /-- A trust limit in XRP. -/
  | limitNotIssued
  | keyType (text : String)
  | seedLength (found : Nat)
  | seedText
  /-- A public key that is no point of the curve. -/
  | publicKeyPoint
  /-- A public key in neither canonical form. -/
  | publicKeyForm (bytes : Bytes)
  | ledgerHeaderLength (found : Nat)
  /-- A setting that is given but can not be read, with the reason. -/
  | setting (name reason : String)
  | settingMissing (name : String)
deriving DecidableEq

/-- The wording of a format error. -/
def FormatError.message : FormatError → String
  | .base58 cause => "base58: " ++ cause.message
  | .hex cause => "hex: " ++ cause.message
  | .integer cause => "integer: " ++ cause.message
  | .checksumMissing text => s!"'{text}' is too short to carry a checksum"
  | .checksumMismatch text => s!"'{text}' has an invalid checksum"
  | .payloadLength text found expected =>
    s!"'{text}' decodes to {found} bytes, expected exactly {expected}"
  | .payloadVersion text version =>
    s!"'{text}' does not start with version prefix {Hex.encode version}"
  | .digestLength bits found => s!"Hash{bits} expects exactly {bits / 8} bytes, got {found}"
  | .digestTextLength bits found =>
    s!"Hash{bits} expects {bits / 4} hex characters, got {found}"
  | .accountLength found => s!"expected exactly 20 bytes, got {found}"
  | .currencyCodeLength found => s!"currency code expects 20 bytes, got {found}"
  | .currencyCodeLayout bytes => Hex.encode bytes ++ " is not a valid standard currency code"
  | .currencyCodeSpellsXrp => "XRP can not be used as a standard currency code"
  | .currencyCodeCharacter c =>
    "'" ++ String.singleton c ++ "' is not a valid standard currency code character"
  | .currencyCodeZeroByte => "hex currency code first byte can not be zero"
  | .currencyCodeText text =>
    s!"'{text}' is neither a 3 character standard code nor a 40 character hex code"
  | .decimalText text => s!"'{text}' is not a decimal number"
  | .negativeZero => "negative zero is not a canonical XRP amount"
  | .xrpText text => s!"'{text}' is not an XRP value with at most 6 decimals"
  | .issuedXrp => "XRP can not be used as an issued currency code"
  | .issuedAmountLength found => s!"issued amount expects 48 bytes, got {found}"
  | .xrpAmountLength found => s!"XRP amount expects 8 bytes, got {found}"
  | .dropsNumber json => s!"{json} is not an integral drop count"
  | .issuedAmountKey key => s!"issued amount is missing '{key}'"
  | .amountShape json => s!"amount must be a drops string or an object, got {json}"
  | .headerForm what code => s!"{what} code {code.toNat} must use the short header form"
  | .lengthMarker => "0xFF is not a valid length prefix"
  | .lengthLimit length limit => s!"length prefix declares {length} bytes, more than {limit}"
  | .accountField length => s!"account field declares {length} bytes, expected 20"
  | .vectorLength length => s!"Vector256 length {length} is not a multiple of 32"
  | .notObject context => s!"{context} must be a JSON object"
  | .fieldShape context key expected => s!"{context}.{key} must be {expected}"
  | .keyMissing context key => s!"{context} is missing required '{key}'"
  | .limitNotIssued => "TrustSet LimitAmount must be an issued amount"
  | .keyType text => s!"unknown key type '{text}'"
  | .seedLength found => s!"seed expects 16 bytes, got {found}"
  | .seedText => "text is not an encoded secp256k1 or ed25519 seed"
  | .publicKeyPoint => "secp256k1 public key: malformed public key"
  | .publicKeyForm bytes => s!"'{Hex.encode bytes}' is not a canonical public key"
  | .ledgerHeaderLength found => s!"ledger header is 118 bytes, got {found}"
  | .setting name reason => s!"{name}: {reason}"
  | .settingMissing name => s!"{name} must be set"

/-- Values outside the bounds of the protocol. -/
inductive RangeError
  /-- A count of drops beyond all XRP there is. -/
  | drops (drops : Int) (limit : Nat)
  /-- A text in XRP beyond all XRP there is. -/
  | supply (text : String)
  /-- More than sixteen significant digits. -/
  | precision
  | exponent (exponent : Int)
  /-- A mantissa on the wire without sixteen digits. -/
  | mantissa (mantissa : Nat)
  | length (length limit : Nat)
  | unixTime (time : Nat)
deriving DecidableEq

/-- The wording of a range error. -/
def RangeError.message : RangeError → String
  | .drops count limit => s!"{count} drops exceeds the {limit} drop limit"
  | .supply text => s!"'{text}' exceeds the XRP supply"
  | .precision => "issued value has more than 16 significant digits"
  | .exponent n => s!"issued value exponent {n} is outside -96..=80"
  | .mantissa n => s!"issued value mantissa {n} is not normalised"
  | .length n limit => s!"length {n} exceeds {limit} bytes"
  | .unixTime time => s!"unix time {time} is outside the Ripple epoch range"

/-- Data of another shape than the protocol asks for at its place. -/
inductive MismatchError
  | issuedForXrp
  | xrpForIssued
  /-- An amount, shown as text, that is not in XRP. -/
  | notXrp (amount : String)
  | typeCode (code : UInt8)
  | endMarker (field : FieldId)
  | pathSet (field : FieldId)
  | depth (limit : Nat)
  /-- A field read after one that does not come before it. -/
  | readOrder (field last : FieldId)
  | arrayEndInObject
  /-- A field read inside an array that is no object. -/
  | arrayEntry (field : FieldId)
  /-- A field that holds a value of another kind. -/
  | valueKind (field : FieldId) (kind : String)
  | leftover (field : FieldId) (context : String)
  | missing (field : FieldId)
  /-- A value of type `given` written to a field of another type. -/
  | fieldType (field : FieldId) (given : TypeCode)
  /-- A field written inside an array that is no object. -/
  | arrayHolds (array field : FieldId)
  /-- A field written after one that does not come before it. -/
  | writeOrder (field last : FieldId)
  /-- A container closed while one of the other kind is open. -/
  | closing (container opened : Container) (field : FieldId)
  | nothingOpen (container : Container)
  | neverClosed (container : Container) (field : FieldId)
  | transactionCode (code : UInt16)
  | transactionName (name : String)
  | wrapper (expected found : FieldId)
  /-- A single signature for a transaction that carries signers. -/
  | multiSigned
  | noSigners
  /-- An account, by its address, that signs twice. -/
  | signedTwice (address : String)
  | limitNotIssued
  | trailing (count : Nat)
  | notNFToken (field : FieldId)
  | nfTokenFields
deriving DecidableEq

/-- The wording of a mismatch. -/
def MismatchError.message : MismatchError → String
  | .issuedForXrp => "expected an XRP amount but found an issued amount"
  | .xrpForIssued => "expected an issued amount but found an XRP amount"
  | .notXrp amount => s!"{amount} is not an XRP amount"
  | .typeCode code => s!"unknown type code {code.toNat}"
  | .endMarker field => s!"unexpected {field.text} outside a container"
  | .pathSet field => s!"{field.text} is a PathSet, which is not supported"
  | .depth limit => s!"containers nested deeper than {limit}"
  | .readOrder field last =>
    s!"{field.text} follows {last.text}, fields are not in canonical order"
  | .arrayEndInObject => "array end marker inside an object"
  | .arrayEntry field => s!"array entries must be objects, got {field.text}"
  | .valueKind field kind => s!"{field.text} holds a {kind} value"
  | .leftover field context => s!"unexpected field {field.text} in {context}"
  | .missing field => s!"missing required field {field.text}"
  | .fieldType field given =>
    s!"{field.text} is a {field.typeCode.name} field, not {given.name}"
  | .arrayHolds array field => s!"array {array.text} can only hold objects, got {field.text}"
  | .writeOrder field last =>
    s!"{field.text} written after {last.text}, fields must be in ascending canonical order"
  | .closing container opened field =>
    s!"can not close {container.typeCode.name} while {opened.typeCode.name} {field.text} is open"
  | .nothingOpen container => s!"no {container.typeCode.name} is open"
  | .neverClosed container field => s!"{container.typeCode.name} {field.text} was never closed"
  | .transactionCode code => s!"unsupported transaction type code {code.toNat}"
  | .transactionName name => s!"unsupported TransactionType '{name}'"
  | .wrapper expected found => s!"expected a {expected.text} entry, found {found.text}"
  | .multiSigned => "a multi-signed transaction can not also be single signed"
  | .noSigners => "at least one signer is required"
  | .signedTwice address => s!"{address} signed more than once"
  | .limitNotIssued => "TrustSet LimitAmount must be an issued amount"
  | .trailing count => s!"{count} trailing bytes after NFToken"
  | .notNFToken field => s!"expected NFToken, got {field.text}"
  | .nfTokenFields => "NFToken must hold exactly NFTokenID then URI"

/-- Seeds that yield no key. -/
inductive DerivationError
  /-- No candidate index yields a scalar of the curve. -/
  | noScalar
  /-- The two secrets add up to zero. -/
  | secretSum
  /-- The two public keys add up to no point. -/
  | publicSum
deriving DecidableEq

/-- The wording of a derivation error. -/
def DerivationError.message : DerivationError → String
  | .noScalar => "no valid secp256k1 scalar within the index range"
  | .secretSum => "master private key: bad tweak"
  | .publicSum =>
    "master public key: the sum of public keys was invalid "
      ++ "or the input vector lengths was less than 1"

/-- Everything that can go wrong. -/
inductive CodecError
  | format (cause : FormatError)
  | range (cause : RangeError)
  /-- The buffer ends before the value that is read does. -/
  | truncated (needed available : Nat)
  | mismatch (cause : MismatchError)
  | derivation (cause : DerivationError)
deriving DecidableEq

namespace CodecError

/-- The name of the kind of an error. -/
def kind : CodecError → String
  | .format _ => "Format"
  | .range _ => "Range"
  | .truncated _ _ => "TruncatedData"
  | .mismatch _ => "ProtocolMismatch"
  | .derivation _ => "Derivation"

/-- What an error says. -/
def message : CodecError → String
  | .format cause => "Invalid format: " ++ cause.message
  | .range cause => "Value out of range: " ++ cause.message
  | .truncated needed available =>
    s!"Truncated data: needed {needed} bytes but only {available} available"
  | .mismatch cause => "Protocol mismatch: " ++ cause.message
  | .derivation cause => "Key derivation failed: " ++ cause.message

/-- The error as a diagnostic shows it: its kind and its quoted cause. -/
def debug : CodecError → String
  | .format cause => "Format(" ++ Quoted.text cause.message ++ ")"
  | .range cause => "Range(" ++ Quoted.text cause.message ++ ")"
  | .truncated needed available =>
    "TruncatedData \x7b needed: " ++ toString needed ++ ", available: " ++ toString available
      ++ " \x7d"
  | .mismatch cause => "ProtocolMismatch(" ++ Quoted.text cause.message ++ ")"
  | .derivation cause => "Derivation(" ++ Quoted.text cause.message ++ ")"

/-- Whether more input could turn the failure into a success. -/
def isRecoverable : CodecError → Bool
  | .truncated _ _ => true
  | _ => false

end CodecError

/-- A hexadecimal text, with its errors among the library's. -/
def Hex.parse (text : String) : Except CodecError Bytes :=
  (Hex.decode text).mapError fun cause => .format (.hex cause)

end XrpLedger
