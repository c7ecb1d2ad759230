import XrpLedger.Proofs.Object.Slot
import XrpLedger.Proofs.Object.Write

/-!
# Lengths of payloads

A value may be in order in every way but one: some payload in it is longer than a length marker can
tell. Then a writer fails at the first such payload, and with nothing else. `Value.checkLengths`
goes through the payloads of a value in the order in which they are written, and by
`Object.toBytes_eq_of_orderly` writing such an object is this check and the bytes behind it.
-/

set_option autoImplicit false

namespace XrpLedger

/-! ## Checks of lengths -/

namespace LengthMarker

/-- Fails unless a marker can tell the length. -/
def check (length : Nat) : Except CodecError Unit :=
  if length ≤ limit then .ok () else .error (.range (.length length limit))

/-- A marker can tell every length within the limit. -/
theorem check_of_le {length : Nat} (h : length ≤ limit) : check length = .ok () :=
  if_pos h

/-- A marker can tell no length beyond the limit, and the error names both. -/
theorem encode_of_lt {length : Nat} (h : limit < length) :
    encode length = .error (.range (.length length limit)) := by
  have hlong : 12480 < length := Nat.lt_trans (by decide) h
  rw [encode, if_neg (by omega), if_neg (by omega), if_neg (Nat.not_le.mpr h)]

end LengthMarker

/-- Fails if the payload of a scalar is longer than a length marker can tell. -/
def Scalar.checkLength : Scalar → Except CodecError Unit
  | .blob value => LengthMarker.check value.length
  | .vector256 value => LengthMarker.check (32 * value.length)
  | _ => .ok ()

mutual

/-- Fails at the first payload in a value that is longer than a length marker can tell. -/
def Value.checkLengths : Value → Except CodecError Unit
  | .scalar s => s.checkLength
  | .object fields => Value.checkFieldLengths fields
  | .array entries => Value.checkEntryLengths entries

/-- Checks the payloads of fields one after another. -/
def Value.checkFieldLengths : List (FieldId × Value) → Except CodecError Unit
  | [] => .ok ()
  | (_, value) :: rest => do
    Value.checkLengths value
    Value.checkFieldLengths rest

/-- Checks the payloads of the entries of an array one after another. -/
def Value.checkEntryLengths : List (FieldId × List (FieldId × Value)) → Except CodecError Unit
  | [] => .ok ()
  | (_, fields) :: rest => do
    Value.checkFieldLengths fields
    Value.checkEntryLengths rest

end

mutual

/-- Whether everything in a value is in order, whatever the lengths of its payloads: fields ascend
and hold values of their type, and arrays hold objects. -/
def Value.Orderly : Value → Prop
  | .scalar _ => True
  | .object fields => Value.OrderlyFields fields
  | .array entries => Value.OrderlyEntries entries

/-- Whether the fields of an object ascend, and each holds an orderly value of its type. -/
def Value.OrderlyFields : List (FieldId × Value) → Prop
  | [] => True
  | (field, value) :: rest =>
    value.typeCode = field.typeCode ∧ Value.Orderly value ∧
      (∀ later ∈ rest, field.rank < later.1.rank) ∧ Value.OrderlyFields rest

/-- Whether every entry of an array is an object with orderly fields. -/
def Value.OrderlyEntries : List (FieldId × List (FieldId × Value)) → Prop
  | [] => True
  | (field, fields) :: rest =>
    field.typeCode = .object ∧ Value.OrderlyFields fields ∧ Value.OrderlyEntries rest

end

namespace Scalar

/-- Bytes stand behind their marker exactly if it can tell their length. -/
theorem withLength_eq (bytes : Bytes) :
    withLength bytes = LengthMarker.check bytes.length >>= fun _ =>
      .ok ((withLength bytes).toOption.getD []) := by
  by_cases h : bytes.length ≤ LengthMarker.limit
  · obtain ⟨written, hwritten⟩ := withLength_isOk_iff.mpr h
    rw [LengthMarker.check_of_le h, hwritten]
    rfl
  · rw [LengthMarker.check, if_neg h, withLength, LengthMarker.encode_of_lt (Nat.lt_of_not_le h)]
    rfl

/-- A scalar is written as its payload unless that is too long. -/
theorem encode_eq (s : Scalar) : s.encode = s.checkLength >>= fun _ => .ok s.payload := by
  cases s with
  | blob value => exact withLength_eq value
  | account value =>
    have hlength : value.bytes.toList.length ≤ LengthMarker.limit := by
      rw [value.bytes.length_toList]
      decide
    have h := withLength_eq value.bytes.toList
    rw [LengthMarker.check_of_le hlength] at h
    exact h
  | vector256 value =>
    rw [checkLength, ← length_flatMap_digests]
    exact withLength_eq _
  | _ => rfl

end Scalar

/-! ## Writing a value that is in order -/

namespace Writer

variable {w : Writer} {field : FieldId}

/-- A container that is in place is started without a check of any length. -/
theorem complete_start {container : Container} {call : Call}
    (hcall : ∀ w : Writer, w.apply call = w.start container field)
    (htype : container.typeCode = field.typeCode)
    (hplace : w.checkPlace field container.typeCode = .ok ()) (more : List Call) :
    w.complete (call :: more)
      = (((w.markLast field).append field.header).enter container field).complete more := by
  rw [complete_cons, hcall, start_eq_ok_iff.mpr ⟨⟨htype, hplace⟩, rfl⟩]
  rfl

/-- A scalar that is in place is written behind the check of its length. -/
theorem complete_scalar {s : Scalar} (htype : s.typeCode = field.typeCode)
    (hplace : w.checkPlace field s.typeCode = .ok ()) (more : List Call) :
    w.complete (.scalar field s :: more)
      = s.checkLength >>= fun _ =>
          ((w.markLast field).append (field.header ++ s.payload)).complete more := by
  rw [complete_cons, apply, s.encode_eq, beginField_eq_ok_iff.mpr ⟨⟨htype, hplace⟩, rfl⟩,
    ← complete_append_append]
  cases s.checkLength <;> rfl

mutual

/-- A value in order is written if no payload in it is too long. -/
theorem complete_calls (v : Value) (w : Writer) (field : FieldId) (more : List Call)
    (htype : v.typeCode = field.typeCode) (hplace : w.checkPlace field v.typeCode = .ok ())
    (h : v.Orderly) :
    w.complete (Value.calls field v ++ more)
      = v.checkLengths >>= fun _ =>
          ((w.markLast field).append (field.header ++ v.payload)).complete more := by
  match v with
  | .scalar s =>
    rw [Value.payload, Value.checkLengths]
    exact complete_scalar htype hplace more
  | .object fields =>
    have hfields := complete_fieldCalls fields
      (((w.markLast field).append field.header).enter .object field) (inObject_enter _ _)
      (.endObject :: more) (fun entry _ => FieldId.follows_none entry.1) h
    rw [complete_close apply_endObject, complete_append_append] at hfields
    rw [Value.calls, List.cons_append, List.append_assoc, List.singleton_append,
      complete_start (apply_startObject field) htype hplace, hfields, Value.payload,
      Value.checkLengths]
  | .array entries =>
    have hentries := complete_entryCalls entries
      (((w.markLast field).append field.header).enter .array field) (inArray_enter _ _)
      (.endArray :: more) h
    rw [complete_close apply_endArray, complete_append_append] at hentries
    rw [Value.calls, List.cons_append, List.append_assoc, List.singleton_append,
      complete_start (apply_startArray field) htype hplace, hentries, Value.payload,
      Value.checkLengths]

/-- Fields in order are written behind the checks of all their lengths. -/
theorem complete_fieldCalls (fields : List (FieldId × Value)) (w : Writer) (hw : w.InObject)
    (more : List Call) (hfollows : ∀ entry ∈ fields, FieldId.Follows w.lastHere entry.1)
    (h : Value.OrderlyFields fields) :
    w.complete (Value.fieldCalls fields ++ more)
      = Value.checkFieldLengths fields >>= fun _ =>
          ((w.markAll (fields.map (·.1))).append (Value.fieldBytes fields)).complete more := by
  match fields with
  | [] => exact (complete_append_nil w more).symm
  | (field, v) :: rest =>
    obtain ⟨htype, hvalue, hlater, hrest⟩ := h
    have hplace : w.checkPlace field v.typeCode = .ok () :=
      (checkPlace_of_inObject hw _).mpr (hfollows (field, v) List.mem_cons_self)
    have hlast : ((w.markLast field).append (field.header ++ v.payload)).lastHere = some field :=
      lastHere_markLast w field
    have hfollow : ∀ later ∈ rest, FieldId.Follows (some field) later.1 :=
      fun later hmem => FieldId.follows_some_iff.mpr (hlater later hmem)
    -- the rest is written behind this field, which is the last one there
    have hbehind := complete_fieldCalls rest
      ((w.markLast field).append (field.header ++ v.payload)) (hw.markLast field) more
      (hlast ▸ hfollow) hrest
    rw [markAll_append, complete_append_append, List.append_assoc] at hbehind
    rw [Value.fieldCalls, List.append_assoc, complete_calls v w field _ htype hplace hvalue,
      hbehind, Value.checkFieldLengths, bind_assoc]
    rfl

/-- Entries in order are written in an array if no payload in them is too long. -/
theorem complete_entryCalls (entries : List (FieldId × List (FieldId × Value))) (w : Writer)
    (hw : w.InArray) (more : List Call) (h : Value.OrderlyEntries entries) :
    w.complete (Value.entryCalls entries ++ more)
      = Value.checkEntryLengths entries >>= fun _ =>
          ((w.markAll (entries.map (·.1))).append (Value.entryBytes entries)).complete more := by
  match entries with
  | [] => exact (complete_append_nil w more).symm
  | (field, fields) :: rest =>
    obtain ⟨htype, hfields, hrest⟩ := h
    have hplace : w.checkPlace field Container.object.typeCode = .ok () :=
      (checkPlace_of_inArray hw _).mpr rfl
    -- the fields are followed by the end of the entry, the other entries and whatever comes then
    have hinner := complete_fieldCalls fields
      (((w.markLast field).append field.header).enter .object field) (inObject_enter _ _)
      (.endObject :: (Value.entryCalls rest ++ more))
      (fun entry _ => FieldId.follows_none entry.1) hfields
    rw [complete_close apply_endObject, complete_append_append] at hinner
    have hbehind := complete_entryCalls rest
      ((w.markLast field).append
        (field.header ++ (Value.fieldBytes fields ++ FieldId.objectEnd.header)))
      (hw.markLast field) more hrest
    rw [markAll_append, complete_append_append, List.append_assoc, List.append_assoc] at hbehind
    rw [Value.entryCalls, List.cons_append, List.append_assoc, List.cons_append,
      complete_start (apply_startObject field) htype.symm hplace, hinner, hbehind,
      Value.checkEntryLengths, bind_assoc]
    rfl

end

end Writer

/-- An object in order is written as its bytes if no payload in it is too long. -/
theorem Object.toBytes_eq_of_orderly {fields : List (FieldId × Value)}
    (h : Value.OrderlyFields fields) :
    (Object.mk fields).toBytes
      = Value.checkFieldLengths fields >>= fun _ => .ok (Value.fieldBytes fields) := by
  have hall := Writer.complete_fieldCalls fields Writer.empty (by rintro _ ⟨⟩) []
    (fun entry _ => FieldId.follows_none entry.1) h
  rw [List.append_nil, Writer.complete_markAll_empty] at hall
  exact hall

/-! ## Slots that are in order -/

namespace Value

/-- Ascending fields with orderly values of their types are in order. -/
theorem orderlyFields_of_ascend {fields : List (FieldId × Value)}
    (hascend : FieldId.Ascend (fields.map (·.1)))
    (h : ∀ entry ∈ fields, entry.2.typeCode = entry.1.typeCode ∧ entry.2.Orderly) :
    OrderlyFields fields := by
  induction fields with
  | nil => trivial
  | cons entry rest ih =>
    obtain ⟨⟨htype, hentry⟩, hrest⟩ := List.forall_mem_cons.mp h
    obtain ⟨hlater, hascends⟩ := List.pairwise_cons.mp (FieldId.ascend_map_iff.mp hascend)
    exact ⟨htype, hentry, hlater, ih (FieldId.ascend_map_iff.mpr hascends) hrest⟩

/-- Wrapped objects whose fields are in order are orderly entries. -/
theorem orderlyEntries_of_forall {entries : List (FieldId × List (FieldId × Value))}
    (h : ∀ entry ∈ entries, entry.1.typeCode = .object ∧ OrderlyFields entry.2) :
    OrderlyEntries entries := by
  induction entries with
  | nil => trivial
  | cons entry rest ih =>
    obtain ⟨⟨htype, hentry⟩, hrest⟩ := List.forall_mem_cons.mp h
    exact ⟨htype, hentry, ih hrest⟩

end Value

namespace Slot

variable {slots : List Slot} {layout : List FieldId}

/-- Whether the value of a slot, if there is one, is of the type of its field and in order. -/
def Orderly (slot : Slot) : Prop :=
  ∀ value ∈ slot.value, value.typeCode = slot.field.typeCode ∧ value.Orderly

/-- Fails at the first payload in a slot that is longer than a length marker can tell. -/
def checkLengths (slot : Slot) : Except CodecError Unit :=
  match slot.value with
  | none => .ok ()
  | some value => value.checkLengths

/-- Slots that ascend and are in order are written as fields in order. -/
theorem orderlyFields_written (hascend : FieldId.Ascend (slots.map (·.field)))
    (h : ∀ slot ∈ slots, slot.Orderly) : Value.OrderlyFields (written slots) := by
  refine Value.orderlyFields_of_ascend (ascend_written hascend) ?_
  rintro ⟨field, value⟩ hentry
  exact h _ (mem_written_iff.mp hentry) value rfl

/-- The lengths of written slots are checked slot after slot. -/
theorem checkFieldLengths_written (slots : List Slot) :
    Value.checkFieldLengths (written slots) = forM slots checkLengths := by
  induction slots with
  | nil => rfl
  | cons slot rest ih =>
    obtain ⟨field, _ | value⟩ := slot
    · exact ih
    · rw [List.forM_cons, ← ih]
      rfl

end Slot

end XrpLedger
