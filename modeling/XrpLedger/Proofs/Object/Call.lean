import XrpLedger.Object.Writer
import XrpLedger.Proofs.Outcome

/-!
# Calls on a writer

A call runs in steps that write one after the other, and a step may fail when others have written
already. `Writer.apply` is what a call comes down to as a whole: it gives the changed writer or the
error, and there is nothing in between. `Writer.step_eq` says so of every call, on which rests that
a failing call leaves the writer as it was.
-/

set_option autoImplicit false

namespace XrpLedger

namespace Writer

/-- The writer behind the header of a field that holds a value of this type. -/
def beginField (writer : Writer) (field : FieldId) (type : TypeCode) :
    Except CodecError Writer := do
  if field.typeCode ≠ type then throw (.mismatch (.fieldType field type))
  else
    checkPlace writer field type
    return (writer.markLast field).append field.header

/-- The writer in a new container. -/
def start (writer : Writer) (container : Container) (field : FieldId) :
    Except CodecError Writer := do
  return (← writer.beginField field container.typeCode).enter container field

/-- The writer behind the end of its innermost container, which must be of this kind. -/
def close (writer : Writer) (container : Container) (marker : FieldId) :
    Except CodecError Writer :=
  match writer.opened with
  | [] => .error (.mismatch (.nothingOpen container))
  | frame :: rest =>
    if frame.container = container then
      .ok ({ writer with opened := rest }.append marker.header)
    else .error (.mismatch (.closing container frame.container frame.field))

/-- The writer after a call that succeeds. -/
def apply (writer : Writer) : Call → Except CodecError Writer
  | .scalar field value => do
    let payload ← value.encode
    return (← writer.beginField field value.typeCode).append payload
  | .startObject field => writer.start .object field
  | .endObject => writer.close .object .objectEnd
  | .startArray field => writer.start .array field
  | .endArray => writer.close .array .arrayEnd

/-- The outcome of a call that succeeds as a whole or leaves the writer as it was. -/
def settled (writer : Writer) (result : Except CodecError Writer) : Except CodecError Unit × Writer :=
  settle writer (result.map fun writer => ((), writer))

end Writer

namespace Writing

variable (w : Writer)

/-- A field begins as a whole or not at all. -/
theorem run_beginField (field : FieldId) (type : TypeCode) :
    ((beginField field type).run w).run = w.settled (w.beginField field type) := by
  unfold beginField Writer.beginField
  by_cases htype : field.typeCode ≠ type
  · rw [if_pos htype, if_pos htype]
    rfl
  · rw [if_neg htype, if_neg htype]
    simp only [run_bind, run_get, run_liftExcept, run_modify]
    -- nothing is marked or written before the place is found to be right
    cases w.checkPlace field type <;> rfl

/-- Starting a container changes the writer as a whole or not at all. -/
theorem run_start (container : Container) (field : FieldId) :
    ((start container field).run w).run = w.settled (w.start container field) := by
  unfold start Writer.start
  simp only [run_bind, run_beginField, run_modify]
  cases w.beginField field container.typeCode <;> rfl

/-- Closing a container changes the writer as a whole or not at all. -/
theorem run_close (container : Container) (marker : FieldId) :
    ((close container marker).run w).run = w.settled (w.close container marker) := by
  unfold close Writer.close
  simp only [run_bind, run_get]
  cases w.opened with
  | nil => rfl
  | cons frame rest =>
    by_cases hkind : frame.container = container
    · simp only [if_pos hkind]
      rfl
    · simp only [if_neg hkind]
      rfl

/-- A scalar is written as a whole or not at all: its length and its place are looked at before its
header is written. -/
theorem run_scalar (field : FieldId) (value : Scalar) :
    ((scalar field value).run w).run = w.settled (w.apply (.scalar field value)) := by
  unfold scalar Writer.apply
  simp only [run_bind, run_liftExcept]
  cases value.encode with
  | error e => rfl
  | ok payload =>
    simp only [run_beginField, run_modify]
    cases w.beginField field value.typeCode <;> rfl

end Writing

namespace Writer

variable (w : Writer) (call : Call)

/-- A call changes the writer as a whole or leaves it as it was. -/
theorem step_eq : w.step call = w.settled (w.apply call) := by
  unfold step
  cases call with
  | scalar field value => exact Writing.run_scalar w field value
  | startObject field => exact Writing.run_start w _ field
  | endObject => exact Writing.run_close w _ _
  | startArray field => exact Writing.run_start w _ field
  | endArray => exact Writing.run_close w _ _

/-- Calls are carried out up to the first that fails. -/
theorem carryOut_cons (rest : List Call) :
    w.carryOut (call :: rest) = match w.apply call with
      | .ok w' => w'.carryOut rest
      | .error e => (some e, w) := by
  rw [carryOut, step_eq]
  cases w.apply call <;> rfl

end Writer

end XrpLedger
