import XrpLedger.Object.Basic

/-!
# Writing fields

A `Writer` holds the bytes written so far and the containers that are still open. It takes five
kinds of call: a scalar field, and the start and the end of an object or an array. A call is a
computation that changes the writer step by step and may fail (`Writing`); it checks before it
writes. Inside an object the fields must ascend in canonical order; an array holds objects only, in
any order.

Larger values are lists of calls (`Value.calls`), carried out until one fails (`Writer.carryOut`).
-/

set_option autoImplicit false

namespace XrpLedger

/-- An open container, the field it is the value of and the last field written in it. -/
structure Frame where
  container : Container
  field : FieldId
  last : Option FieldId

/-- The bytes written so far and the open containers, the innermost first. -/
structure Writer where
  /-- What has been written, in pieces, the last piece first. -/
  pieces : List Bytes
  /-- The last field written outside every container. -/
  last : Option FieldId
  /-- The containers that are still open. -/
  opened : List Frame

namespace Writer

/-- Nothing written yet. -/
def empty : Writer := ⟨[], none, []⟩

/-- The bytes written so far. -/
def bytes (writer : Writer) : Bytes :=
  writer.pieces.reverse.flatten

/-- A call on a writer. -/
inductive Call
  /-- A field whose value is a scalar. -/
  | scalar (field : FieldId) (value : Scalar)
  | startObject (field : FieldId)
  | endObject
  | startArray (field : FieldId)
  | endArray

/-- Adds bytes at the end. -/
def append (writer : Writer) (bytes : Bytes) : Writer :=
  { writer with pieces := bytes :: writer.pieces }

/-- What is added stands behind what was written before. -/
@[simp] theorem bytes_append (writer : Writer) (bytes : Bytes) :
    (writer.append bytes).bytes = writer.bytes ++ bytes := by
  simp [append, Writer.bytes]

/-- Fails unless the field may be written after the last one of its object. -/
def checkOrder (last : Option FieldId) (field : FieldId) : Except CodecError Unit :=
  match last with
  | none => .ok ()
  | some last =>
    if last.rank < field.rank then .ok () else .error (.mismatch (.writeOrder field last))

/-- Fails unless a field of this type may be written where the writer stands. -/
def checkPlace (writer : Writer) (field : FieldId) (type : TypeCode) : Except CodecError Unit :=
  match writer.opened with
  | [] => checkOrder writer.last field
  | frame :: _ =>
    match frame.container with
    | .object => checkOrder frame.last field
    | .array =>
      if type = .object then .ok () else .error (.mismatch (.arrayHolds frame.field field))

/-- The writer with the field as the last one written where it stands. -/
def markLast (writer : Writer) (field : FieldId) : Writer :=
  match writer.opened with
  | [] => { writer with last := some field }
  | frame :: rest => { writer with opened := { frame with last := some field } :: rest }

/-- The writer with a new container open. -/
def enter (writer : Writer) (container : Container) (field : FieldId) : Writer :=
  { writer with opened := ⟨container, field, none⟩ :: writer.opened }

end Writer

/-- A computation on a writer; what it has written stays written when it fails. -/
abbrev Writing := ExceptT CodecError (StateM Writer)

namespace Writing

/-- Writes the header of a field that holds a value of this type. -/
def beginField (field : FieldId) (type : TypeCode) : Writing Unit := do
  if field.typeCode ≠ type then throw (.mismatch (.fieldType field type))
  else
    liftExcept ((← get).checkPlace field type)
    modify fun writer => writer.markLast field
    modify fun writer => writer.append field.header

/-- Writes a field whose value is a scalar. The length of the value is looked at first, so that no
header is left behind without a value. -/
def scalar (field : FieldId) (value : Scalar) : Writing Unit := do
  let payload ← liftExcept value.encode
  beginField field value.typeCode
  modify fun writer => writer.append payload

/-- Writes the header of a container and opens it. -/
def start (container : Container) (field : FieldId) : Writing Unit := do
  beginField field container.typeCode
  modify fun writer => writer.enter container field

/-- Closes the innermost container, which must be of this kind, and writes its end marker. -/
def close (container : Container) (marker : FieldId) : Writing Unit := do
  match (← get).opened with
  | [] => throw (.mismatch (.nothingOpen container))
  | frame :: rest =>
    if frame.container = container then
      modify fun writer => { writer with opened := rest }
      modify fun writer => writer.append marker.header
    else throw (.mismatch (.closing container frame.container frame.field))

/-- Carries out a call. -/
def perform : Writer.Call → Writing Unit
  | .scalar field value => scalar field value
  | .startObject field => start .object field
  | .endObject => close .object .objectEnd
  | .startArray field => start .array field
  | .endArray => close .array .arrayEnd

end Writing

namespace Writer

/-- What a call answers, and the writer as the call leaves it. -/
def step (writer : Writer) (call : Call) : Except CodecError Unit × Writer :=
  ((Writing.perform call).run writer).run

/-- Carries out calls until one fails; gives the error, if any, and the writer as it was left. -/
def carryOut (writer : Writer) : List Call → Option CodecError × Writer
  | [] => (none, writer)
  | call :: rest =>
    match writer.step call with
    | (.ok (), writer) => carryOut writer rest
    | (.error e, writer) => (some e, writer)

/-- The bytes, once every container is closed. -/
def finish (writer : Writer) : Except CodecError Bytes :=
  match writer.opened with
  | [] => .ok writer.bytes
  | frame :: _ => .error (.mismatch (.neverClosed frame.container frame.field))

end Writer

mutual

/-- The calls that write a field with its value. -/
def Value.calls (field : FieldId) : Value → List Writer.Call
  | .scalar value => [.scalar field value]
  | .object fields => .startObject field :: (Value.fieldCalls fields ++ [.endObject])
  | .array entries => .startArray field :: (Value.entryCalls entries ++ [.endArray])

/-- The calls that write fields in the order given. -/
def Value.fieldCalls : List (FieldId × Value) → List Writer.Call
  | [] => []
  | (field, value) :: rest => Value.calls field value ++ Value.fieldCalls rest

/-- The calls that write the entries of an array in the order given. -/
def Value.entryCalls : List (FieldId × List (FieldId × Value)) → List Writer.Call
  | [] => []
  | (field, fields) :: rest =>
    .startObject field :: (Value.fieldCalls fields ++ .endObject :: Value.entryCalls rest)

end

namespace Object

/-- The bytes of an object, whose fields must stand in canonical order. -/
def toBytes (object : Object) : Except CodecError Bytes :=
  match Writer.empty.carryOut (Value.fieldCalls object.fields) with
  | (none, writer) => writer.finish
  | (some e, _) => .error e

end Object

end XrpLedger
