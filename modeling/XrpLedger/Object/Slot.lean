import XrpLedger.Object.Basic

/-!
# Slots

A schema names its fields one by one, and a record fills some of them. A slot is a field of a schema
with the value that a record has for it, if it has one. `Slot.arrange` puts slots in the order of a
layout, and `Slot.written` keeps those that are filled.
-/

set_option autoImplicit false

namespace XrpLedger

/-- A field of a schema and the value that a record has for it, if any. -/
structure Slot where
  field : FieldId
  value : Option Value

namespace Slot

/-- A scalar that is there in any case. -/
def always (field : FieldId) (value : Scalar) : Slot :=
  ⟨field, some (.scalar value)⟩

/-- A scalar that may be missing; one that is there may well be empty. -/
def optional {α : Type} (field : FieldId) (wrap : α → Scalar) (value : Option α) : Slot :=
  ⟨field, value.map fun a => .scalar (wrap a)⟩

/-- An array, which is missing when it has no entries. -/
def entries (field : FieldId) (entries : List (FieldId × List (FieldId × Value))) : Slot :=
  ⟨field, if entries.isEmpty then none else some (.array entries)⟩

/-- The slots in the order in which a layout names their fields. -/
def arrange (layout : List FieldId) (slots : List Slot) : List Slot :=
  layout.filterMap fun field => slots.find? fun slot => slot.field = field

/-- The fields of the slots that are filled, in the order given. -/
def written (slots : List Slot) : List (FieldId × Value) :=
  slots.filterMap fun slot => slot.value.map fun value => (slot.field, value)

end Slot

end XrpLedger
