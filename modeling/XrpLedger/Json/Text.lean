import XrpLedger.Json.Basic

/-!
# Types with a text form in JSON

A type that has a text form stands in JSON as a string of that text. Any other JSON value is
refused, and the refusal says what the value is.
-/

set_option autoImplicit false

namespace XrpLedger.Json

/-- What a value is, as a refusal names it. -/
def described : Json → String
  | .null => "null"
  | .bool value => "boolean `" ++ toString value ++ "`"
  | .integer value => "integer `" ++ toString value ++ "`"
  | .real value => "floating point `" ++ value.jsonText ++ "`"
  | .string value => "string " ++ Quoted.text value
  | .array _ => "sequence"
  | .object _ => "map"

/-- The value that a string spells, or the words of a refusal. -/
def readText {α : Type} (parse : String → Except CodecError α) : Json → Except String α
  | .string text => (parse text).mapError CodecError.message
  | other => .error ("invalid type: " ++ other.described ++ ", expected a string")

end XrpLedger.Json
