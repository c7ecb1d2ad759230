import XrpLedger.Json.Binary64
import XrpLedger.Error

/-!
# JSON values

The JSON form of amounts and transactions. A number is an integer if it is written as one and fits
64 bits, else a binary64 number kept as a decimal. An object is a list of entries without repeated
keys.

`Json.get?` is the view of an object through which everything reads it; the order of entries is
settled only when a value is printed.
-/

set_option autoImplicit false

namespace XrpLedger

/-- A JSON value. -/
inductive Json
  | null
  | bool (value : Bool)
  | integer (value : Int)
  | real (value : Decimal)
  | string (value : String)
  | array (items : List Json)
  | object (entries : List (String × Json))
deriving Inhabited

namespace Json

/-- The value of a key, for an object that has it. -/
def get? : Json → String → Option Json
  | .object entries, key => (entries.find? fun entry => entry.1 = key).map (·.2)
  | _, _ => none

/-- The text of a string. -/
def string? : Json → Option String
  | .string value => some value
  | _ => none

/-- The items of an array. -/
def array? : Json → Option (List Json)
  | .array items => some items
  | _ => none

/-- The number, if it is an integer of 64 bits without sign. -/
def unsigned? : Json → Option Nat
  | .integer value => if 0 ≤ value then some value.toNat else none
  | _ => none

/-- The number, if it is an integer of 64 bits with sign. -/
def signed? : Json → Option Int
  | .integer value => if value < 2 ^ 63 then some value else none
  | _ => none

/-- Whether the value is an object. -/
def isObject : Json → Bool
  | .object _ => true
  | _ => false

/-- The entry of a key, unless it has no value. -/
def optionalEntry (key : String) (value : Option Json) : List (String × Json) :=
  match value with
  | some value => [(key, value)]
  | none => []

/-- A number without sign. -/
def ofNat (n : Nat) : Json :=
  .integer n

/-- A string that spells bytes in hexadecimal. -/
def ofBytes (bytes : Bytes) : Json :=
  .string (Hex.encode bytes)

end Json

end XrpLedger
