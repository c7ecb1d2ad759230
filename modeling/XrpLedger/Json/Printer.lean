import XrpLedger.Json.Basic

/-!
# JSON as text

Values are printed with the keys of every object in ascending order, either without any blank or
with one entry a line. Quotation marks, backslashes and control characters are escaped, all else is
written as it is.
-/

set_option autoImplicit false

namespace XrpLedger.Json

/-- A character inside a string. -/
def escape (c : Char) : String :=
  if c = '"' then "\\\""
  else if c = '\\' then "\\\\"
  else if c = '\n' then "\\n"
  else if c = '\r' then "\\r"
  else if c = '\t' then "\\t"
  else if c = '\x08' then "\\b"
  else if c = '\x0c' then "\\f"
  else if c.toNat < 32 then
    "\\u00" ++ String.ofList [Nat.digitChar (c.toNat / 16), Nat.digitChar (c.toNat % 16)]
  else String.singleton c

/-- A text as a string. -/
def quote (text : String) : String :=
  "\"" ++ String.join (text.toList.map escape) ++ "\""

/-- Printed entries in ascending order of their keys. -/
def sortEntries (entries : List (String × String)) : List (String × String) :=
  entries.mergeSort fun a b => !decide (b.1 < a.1)

/-- Texts with a separator between each two. -/
def joinWith (separator : String) (texts : List String) : String :=
  String.join (texts.intersperse separator)

mutual

/-- A value without blanks. -/
def compact : Json → String
  | .null => "null"
  | .bool true => "true"
  | .bool false => "false"
  | .integer value => toString value
  | .real value => value.jsonText
  | .string value => quote value
  | .array items => "[" ++ joinWith "," (compactItems items) ++ "]"
  | .object entries =>
    let printed := (sortEntries (compactEntries entries)).map fun entry =>
      quote entry.1 ++ ":" ++ entry.2
    "\x7b" ++ joinWith "," printed ++ "\x7d"

/-- The items of an array, each without blanks. -/
def compactItems : List Json → List String
  | [] => []
  | item :: rest => compact item :: compactItems rest

/-- The entries of an object, each value without blanks. -/
def compactEntries : List (String × Json) → List (String × String)
  | [] => []
  | (key, value) :: rest => (key, compact value) :: compactEntries rest

end

/-- The lines of a container: brackets around items that are set in by two more blanks. -/
def block (opening closing : String) (indent : Nat) (items : List String) : String :=
  if items.isEmpty then opening ++ closing
  else
    let outer := "\n" ++ String.ofList (List.replicate indent ' ')
    let inner := outer ++ "  "
    opening ++ inner ++ joinWith ("," ++ inner) items ++ outer ++ closing

mutual

/-- A value with one item or entry a line, inside a line set in by `indent` blanks. -/
def pretty (indent : Nat) : Json → String
  | .array items => block "[" "]" indent (prettyItems (indent + 2) items)
  | .object entries =>
    let printed := (sortEntries (prettyEntries (indent + 2) entries)).map fun entry =>
      quote entry.1 ++ ": " ++ entry.2
    block "\x7b" "\x7d" indent printed
  | .null => "null"
  | .bool true => "true"
  | .bool false => "false"
  | .integer value => toString value
  | .real value => value.jsonText
  | .string value => quote value

/-- The items of an array, each on lines of its own. -/
def prettyItems (indent : Nat) : List Json → List String
  | [] => []
  | item :: rest => pretty indent item :: prettyItems indent rest

/-- The entries of an object, each value on lines of its own. -/
def prettyEntries (indent : Nat) : List (String × Json) → List (String × String)
  | [] => []
  | (key, value) :: rest => (key, pretty indent value) :: prettyEntries indent rest

end

end XrpLedger.Json
