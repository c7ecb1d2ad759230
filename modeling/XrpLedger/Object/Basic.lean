import XrpLedger.Object.Scalar

/-!
# Objects

The value of a field is a scalar, an inner object or an array of wrapped objects. An object is a
list of fields in the order in which they stand on the wire; nothing keeps a field from standing
twice, and the order is looked at only when the object is read or written.

`Taking.value` removes the first occurrence of a field, so that a schema can be checked by taking
the fields it knows and finding none left.
-/

set_option autoImplicit false

namespace XrpLedger

/-- The value of a field. -/
inductive Value
  | scalar (value : Scalar)
  /-- An inner object with its fields. -/
  | object (fields : List (FieldId × Value))
  /-- An array; each entry is an object with the field that wraps it. -/
  | array (entries : List (FieldId × List (FieldId × Value)))

namespace Value

/-- The type of the fields that hold such a value. -/
def typeCode : Value → TypeCode
  | scalar value => value.typeCode
  | object _ => .object
  | array _ => .array

/-- The kind of the value, for diagnostics. -/
def kind : Value → String
  | scalar value => value.kind
  | object _ => "STObject"
  | array _ => "STArray"

/-- The scalar, if the value is one. -/
def scalar? : Value → Option Scalar
  | scalar value => some value
  | _ => none

/-- The fields, if the value is an object. -/
def object? : Value → Option (List (FieldId × Value))
  | object fields => some fields
  | _ => none

/-- The entries, if the value is an array. -/
def array? : Value → Option (List (FieldId × List (FieldId × Value)))
  | array entries => some entries
  | _ => none

end Value

/-- The fields of an object in the order in which they stand on the wire. -/
structure Object where
  fields : List (FieldId × Value)

namespace Object

/-- The object without fields. -/
def empty : Object := ⟨[]⟩

/-- Adds a field at the end. -/
def push (object : Object) (field : FieldId) (value : Value) : Object :=
  ⟨object.fields ++ [(field, value)]⟩

/-- The value of the first occurrence of a field. -/
def get? (object : Object) (field : FieldId) : Option Value :=
  (object.fields.find? fun entry => entry.1 = field).map (·.2)

/-- Whether the field occurs. -/
def contains (object : Object) (field : FieldId) : Bool :=
  (object.get? field).isSome

/-- The object without the first occurrence of a field. -/
def erase (object : Object) (field : FieldId) : Object :=
  ⟨object.fields.eraseP fun entry => entry.1 = field⟩

/-- Fails if a field is left. -/
def finish (object : Object) (context : String) : Except CodecError Unit :=
  match object.fields with
  | [] => .ok ()
  | (field, _) :: _ => .error (.mismatch (.leftover field context))

/-- The fields that a signature covers. -/
def signingFields (object : Object) : Object :=
  ⟨object.fields.filter fun entry => entry.1.isSigningField⟩

end Object

/-- A computation that takes fields out of an object; what it took stays taken when it fails. -/
abbrev Taking := ExceptT CodecError (StateM Object)

namespace Taking

/-- Takes the first occurrence of a field, of whatever kind. -/
def value (field : FieldId) : Taking (Option Value) := do
  let object ← get
  set (object.erase field)
  return object.get? field

/-- Takes a field whose value must be of the kind that `view` sees. -/
def viewed {α : Type} (view : Value → Option α) (field : FieldId) : Taking (Option α) := do
  match ← value field with
  | none => return none
  | some found =>
    match view found with
    | some a => return some a
    | none => throw (.mismatch (.valueKind field found.kind))

/-- Takes a field whose value must be a scalar of the kind that `view` sees. -/
def scalar {α : Type} (view : Scalar → Option α) (field : FieldId) : Taking (Option α) :=
  viewed (fun found => found.scalar?.bind view) field

/-- The value of a field that must be there. -/
def required {α : Type} (field : FieldId) (value : Option α) : Except CodecError α :=
  match value with
  | some a => .ok a
  | none => .error (.mismatch (.missing field))

/-- Takes a scalar that must be there. -/
def requiredScalar {α : Type} (view : Scalar → Option α) (field : FieldId) : Taking α := do
  liftExcept (required field (← scalar view field))

/-- The fields that are left must be none. -/
def finish (context : String) : Taking Unit := do
  liftExcept ((← get).finish context)

/-- Takes fields out of an object that is not looked at afterwards. -/
def runOn {α : Type} (object : Object) (taking : Taking α) : Except CodecError α :=
  (taking.run object).1

end Taking

end XrpLedger
