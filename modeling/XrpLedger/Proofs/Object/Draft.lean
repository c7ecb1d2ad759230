import XrpLedger.Proofs.Object.WellFormed

/-!
# What the calls on a writer describe

A `Draft` is an object that is still being written: the fields that are complete and the containers
that are still open, each with what stands in it so far. Calls extend a draft whatever a writer
would say to them, so a draft knows nothing of bytes, headers or order.

A draft has calls of its own, those that write what it holds, and it is sound if a reader would go
through it: its fields are proper and it is nowhere too deep.
-/

set_option autoImplicit false

namespace XrpLedger

/-! ## Drafts -/

/-- A container that is still open, with the field it is the value of and what stands in it so far.
-/
inductive OpenContainer
  | object (field : FieldId) (fields : List (FieldId × Value))
  | array (field : FieldId) (entries : List (FieldId × List (FieldId × Value)))

/-- An object that is still being written. -/
structure Draft where
  /-- The fields that stand outside of every open container. -/
  fields : List (FieldId × Value)
  /-- The containers that are still open, the innermost first. -/
  opened : List OpenContainer

namespace Draft

/-- Nothing written yet. -/
def empty : Draft := ⟨[], []⟩

/-- Adds a field at the end of the innermost open container. An array has no place for anything but
objects. -/
def put (draft : Draft) (field : FieldId) (value : Value) : Draft :=
  match draft.opened with
  | [] => { draft with fields := draft.fields ++ [(field, value)] }
  | .object outer fields :: rest =>
    { draft with opened := .object outer (fields ++ [(field, value)]) :: rest }
  | .array outer entries :: rest =>
    match value with
    | .object fields => { draft with opened := .array outer (entries ++ [(field, fields)]) :: rest }
    | _ => draft

/-- The draft after a call. The end of a container puts it, as a value, where it was opened. -/
def extend (draft : Draft) : Writer.Call → Draft
  | .scalar field value => draft.put field (.scalar value)
  | .startObject field => { draft with opened := .object field [] :: draft.opened }
  | .startArray field => { draft with opened := .array field [] :: draft.opened }
  | .endObject =>
    match draft.opened with
    | .object field fields :: rest => { draft with opened := rest }.put field (.object fields)
    | _ => draft
  | .endArray =>
    match draft.opened with
    | .array field entries :: rest => { draft with opened := rest }.put field (.array entries)
    | _ => draft

/-- What calls describe. -/
def ofCalls (calls : List Writer.Call) : Draft :=
  calls.foldl extend empty

end Draft

/-! ## The calls of a draft -/

namespace Value

/-- Fields are written one after the other. -/
theorem fieldCalls_append (fields more : List (FieldId × Value)) :
    fieldCalls (fields ++ more) = fieldCalls fields ++ fieldCalls more := by
  induction fields with
  | nil => rfl
  | cons entry rest ih =>
    rw [List.cons_append, fieldCalls, fieldCalls, ih, List.append_assoc]

/-- Entries are written one after the other. -/
theorem entryCalls_append (entries more : List (FieldId × List (FieldId × Value))) :
    entryCalls (entries ++ more) = entryCalls entries ++ entryCalls more := by
  induction entries with
  | nil => rfl
  | cons entry rest ih =>
    rw [List.cons_append, entryCalls, entryCalls, ih, List.cons_append, List.append_assoc,
      List.cons_append]

end Value

namespace OpenContainer

/-- The kind of an open container. -/
def container : OpenContainer → Container
  | object _ _ => .object
  | array _ _ => .array

/-- The field that an open container is the value of. -/
def field : OpenContainer → FieldId
  | object field _ => field
  | array field _ => field

/-- The calls that open a container and write what stands in it. -/
def calls : OpenContainer → List Writer.Call
  | object field fields => .startObject field :: Value.fieldCalls fields
  | array field entries => .startArray field :: Value.entryCalls entries

end OpenContainer

namespace Draft

variable {d : Draft} {w w' : Writer} {call : Writer.Call}

/-- The calls that open containers, given innermost first, and write what stands in them. -/
def openedCalls (opened : List OpenContainer) : List Writer.Call :=
  opened.reverse.flatMap OpenContainer.calls

/-- The calls that write a draft. -/
def calls (draft : Draft) : List Writer.Call :=
  Value.fieldCalls draft.fields ++ openedCalls draft.opened

/-- The innermost container is opened and written last. -/
theorem openedCalls_cons (container : OpenContainer) (rest : List OpenContainer) :
    openedCalls (container :: rest) = openedCalls rest ++ container.calls := by
  simp [openedCalls]

/-- Whether a value may stand in the innermost container: an array takes objects only. -/
def Takes (draft : Draft) (value : Value) : Prop :=
  ∀ container ∈ draft.opened.head?, container.container = .array → ∃ fields, value = .object fields

/-- A value that is put at the end is written by the calls of the draft and its own calls. -/
theorem calls_put {field : FieldId} {value : Value} (h : d.Takes value) :
    (d.put field value).calls = d.calls ++ Value.calls field value := by
  obtain ⟨fields, opened⟩ := d
  cases opened with
  | nil => simp [put, calls, openedCalls, Value.fieldCalls_append, Value.fieldCalls]
  | cons container rest =>
    cases container with
    | object outer inner =>
      simp [put, calls, openedCalls_cons, OpenContainer.calls, Value.fieldCalls_append,
        Value.fieldCalls]
    | array outer entries =>
      obtain ⟨inner, rfl⟩ := h _ rfl rfl
      simp [put, calls, openedCalls_cons, OpenContainer.calls, Value.entryCalls_append,
        Value.entryCalls, Value.calls]

end Draft

/-! ## Drafts that a reader goes through -/

namespace Value

/-- Proper fields behind proper fields are proper. -/
theorem ProperFields.append {fields more : List (FieldId × Value)} (h : ProperFields fields)
    (hmore : ProperFields more) : ProperFields (fields ++ more) := by
  induction fields with
  | nil => exact hmore
  | cons entry rest ih =>
    obtain ⟨hfield, hvalue, hrest⟩ := h
    exact ⟨hfield, hvalue, ih hrest⟩

/-- Proper entries behind proper entries are proper. -/
theorem ProperEntries.append {entries more : List (FieldId × List (FieldId × Value))}
    (h : ProperEntries entries) (hmore : ProperEntries more) : ProperEntries (entries ++ more) := by
  induction entries with
  | nil => exact hmore
  | cons entry rest ih =>
    obtain ⟨hfield, hfields, hrest⟩ := h
    exact ⟨hfield, hfields, ih hrest⟩

/-- Fields are nested as deep as the deeper of two parts. -/
theorem fieldsDepth_append (fields more : List (FieldId × Value)) :
    fieldsDepth (fields ++ more) = max (fieldsDepth fields) (fieldsDepth more) := by
  induction fields with
  | nil => simp [fieldsDepth]
  | cons entry rest ih => rw [List.cons_append, fieldsDepth, fieldsDepth, ih, Nat.max_assoc]

/-- Entries are nested as deep as the deeper of two parts. -/
theorem entriesDepth_append (entries more : List (FieldId × List (FieldId × Value))) :
    entriesDepth (entries ++ more) = max (entriesDepth entries) (entriesDepth more) := by
  induction entries with
  | nil => simp [entriesDepth]
  | cons entry rest ih => rw [List.cons_append, entriesDepth, entriesDepth, ih, Nat.max_assoc]

end Value

namespace OpenContainer

/-- Whether the field of an open container and all fields in it are proper. -/
def Proper : OpenContainer → Prop
  | object field fields => field.IsProper ∧ Value.ProperFields fields
  | array field entries => field.IsProper ∧ Value.ProperEntries entries

/-- How many containers are nested in an open container, without itself. -/
def depth : OpenContainer → Nat
  | object _ fields => Value.fieldsDepth fields
  | array _ entries => Value.entriesDepth entries

end OpenContainer

namespace Draft

variable {d : Draft} {field : FieldId} {value : Value}

/-- Whether open containers are proper and no deeper, with what stands in them, than a reader goes,
and no array stands directly in an array. -/
def Readable : List OpenContainer → Prop
  | [] => True
  | container :: rest =>
    container.Proper ∧ container.depth + (rest.length + 1) ≤ Reader.depthLimit ∧
      (∀ outer ∈ rest.head?, container.container = .array → outer.container ≠ .array) ∧
      Readable rest

/-- Whether what a draft holds so far is proper and not nested too deep. -/
structure Sound (draft : Draft) : Prop where
  /-- Its fields are proper. -/
  proper : Value.ProperFields draft.fields
  /-- They are nested no deeper than a reader goes. -/
  depth_le : Value.fieldsDepth draft.fields ≤ Reader.depthLimit
  /-- So are the open containers, each with those around it. -/
  readable : Readable draft.opened

/-- A draft stays sound when a proper value that is not too deep for its place is put at the end. -/
theorem Sound.put (h : d.Sound) (hfield : field.IsProper) (hvalue : value.Proper)
    (hdepth : value.depth + d.opened.length ≤ Reader.depthLimit) : (d.put field value).Sound := by
  have hsingle : Value.ProperFields [(field, value)] := ⟨hfield, hvalue, trivial⟩
  have hone : Value.fieldsDepth [(field, value)] = value.depth := by simp [Value.fieldsDepth]
  obtain ⟨fields, opened⟩ := d
  obtain ⟨hproper, hfields, hopened⟩ := h
  cases opened with
  | nil =>
    refine ⟨hproper.append hsingle, ?_, trivial⟩
    rw [Draft.put, Value.fieldsDepth_append, hone]
    exact Nat.max_le.mpr ⟨hfields, hdepth⟩
  | cons container rest =>
    obtain ⟨hcontainer, hinner, hnested, hrest⟩ := hopened
    cases container with
    | object outer inner =>
      refine ⟨hproper, hfields, ⟨hcontainer.1, hcontainer.2.append hsingle⟩, ?_, hnested, hrest⟩
      simp only [OpenContainer.depth, List.length_cons] at hinner hdepth ⊢
      rw [Value.fieldsDepth_append, hone]
      omega
    | array outer entries =>
      cases value with
      | object inner =>
        have hentry : Value.ProperEntries [(field, inner)] := ⟨hfield, hvalue, trivial⟩
        refine ⟨hproper, hfields, ⟨hcontainer.1, hcontainer.2.append hentry⟩, ?_, hnested, hrest⟩
        simp only [OpenContainer.depth, Value.depth, List.length_cons] at hinner hdepth ⊢
        rw [Value.entriesDepth_append, Value.entriesDepth, Value.entriesDepth]
        omega
      -- anything but an object is left out, and the draft is the same as before
      | _ => exact ⟨hproper, hfields, hcontainer, hinner, hnested, hrest⟩

/-- A draft stays sound when its innermost container is closed. -/
theorem Sound.close {container : OpenContainer} {fields : List (FieldId × Value)}
    {rest : List OpenContainer} (h : Draft.Sound ⟨fields, container :: rest⟩)
    (hvalue : container.Proper → value.Proper) (hdepth : value.depth = 1 + container.depth) :
    (Draft.put ⟨fields, rest⟩ container.field value).Sound := by
  obtain ⟨hproper, hfields, hcontainer, hinner, -, hrest⟩ := h
  have hfield : container.field.IsProper := by
    cases container with
    | object field inner => exact hcontainer.1
    | array field entries => exact hcontainer.1
  refine Sound.put ⟨hproper, hfields, hrest⟩ hfield (hvalue hcontainer) ?_
  simp only
  omega

end Draft

end XrpLedger
