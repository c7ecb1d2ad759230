import XrpLedger.Amount.Json

/-!
# Typed access to JSON objects

The entries of a JSON object read as texts, numbers, bytes, amounts and lists of wrapped objects. An
absent key gives nothing; a key whose value has another shape is an error that names the object and
the key.
-/

set_option autoImplicit false

namespace XrpLedger

/-- A JSON object and what it is called in errors. -/
structure JsonFields where
  context : String
  json : Json

namespace JsonFields

/-- The entries of a JSON value, which must be an object. -/
def ofJson (context : String) (json : Json) : Except CodecError JsonFields :=
  if json.isObject then .ok ⟨context, json⟩ else .error (.format (.notObject context))

/-- The error of a key whose value is not what was expected. -/
def shapeError (fields : JsonFields) (key expected : String) : CodecError :=
  .format (.fieldShape fields.context key expected)

/-- The value of a key that must be there. -/
def require {α : Type} (fields : JsonFields) (key : String) (value : Option α) :
    Except CodecError α :=
  match value with
  | some a => .ok a
  | none => .error (.format (.keyMissing fields.context key))

/-- The text of a key. -/
def string (fields : JsonFields) (key : String) : Except CodecError (Option String) :=
  match fields.json.get? key with
  | none => .ok none
  | some value =>
    match value.string? with
    | some text => .ok (some text)
    | none => .error (fields.shapeError key "a string")

/-- The value that the text of a key spells. -/
def parsed {α : Type} (fields : JsonFields) (key : String) (parse : String → Except CodecError α) :
    Except CodecError (Option α) := do
  match ← fields.string key with
  | none => return none
  | some text => return some (← parse text)

/-- The number of a key, which must not exceed a limit. -/
def unsigned (fields : JsonFields) (key : String) (limit : Nat) :
    Except CodecError (Option Nat) :=
  match fields.json.get? key with
  | none => .ok none
  | some value =>
    match value.unsigned?.filter (· ≤ limit) with
    | some n => .ok (some n)
    | none => .error (fields.shapeError key s!"an integer no larger than {limit}")

/-- The number of 32 bits of a key. -/
def uint32 (fields : JsonFields) (key : String) : Except CodecError (Option UInt32) := do
  return (← fields.unsigned key (2 ^ 32 - 1)).map UInt32.ofNat

/-- The number of 16 bits of a key. -/
def uint16 (fields : JsonFields) (key : String) : Except CodecError (Option UInt16) := do
  return (← fields.unsigned key (2 ^ 16 - 1)).map UInt16.ofNat

/-- The number of 8 bits of a key. -/
def uint8 (fields : JsonFields) (key : String) : Except CodecError (Option UInt8) := do
  return (← fields.unsigned key (2 ^ 8 - 1)).map UInt8.ofNat

/-- The bytes of a key that holds hexadecimal text. -/
def bytes (fields : JsonFields) (key : String) : Except CodecError (Option Bytes) :=
  fields.parsed key Hex.parse

/-- The amount of a key. -/
def amount (fields : JsonFields) (key : String) : Except CodecError (Option Amount) :=
  match fields.json.get? key with
  | none => .ok none
  | some value => (Amount.ofJson value).map some

/-- The wrapped objects of a key that holds a list of objects with one key each; none if it is
absent. -/
def wrapped (fields : JsonFields) (key wrapper : String) : Except CodecError (List Json) :=
  match fields.json.get? key with
  | none => .ok []
  | some value =>
    match value.array? with
    | none => .error (fields.shapeError key "an array")
    | some items =>
      items.mapM fun item =>
        match item.get? wrapper with
        | some inner => .ok inner
        | none =>
          .error (fields.shapeError key ("a list of \x7b\"" ++ wrapper ++ "\": ...\x7d"))

end JsonFields

end XrpLedger
