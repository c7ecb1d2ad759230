import Mathlib.Data.List.Nodup
import XrpLedger.Object.Slot
import XrpLedger.Proofs.Object.WellFormed

/-!
# Objects whose fields ascend

An object whose fields ascend is determined by what it has for each field. So it consists of given
slots exactly if it has the value of each slot and no other field, in whatever order the slots are
named; `Slot.eq_written_arrange_iff` is the form in which a schema uses this.

A schema does not tell an array without entries from one that is missing. `Object.Fills` compares a
slot with the object up to such arrays, and `Object.withoutEmptyArrays` leaves them out.
-/

set_option autoImplicit false

namespace XrpLedger

namespace FieldId

/-- Whether fields stand in strictly ascending canonical order. -/
def Ascend (fields : List FieldId) : Prop :=
  fields.Pairwise fun a b => a.rank < b.rank

instance (fields : List FieldId) : Decidable (Ascend fields) :=
  inferInstanceAs (Decidable (List.Pairwise _ _))

/-- Ascending fields do not repeat. -/
theorem Ascend.nodup {fields : List FieldId} (h : Ascend fields) : fields.Nodup := by
  refine List.Pairwise.imp ?_ h
  rintro a _ hlt rfl
  exact Nat.lt_irrefl _ hlt

/-- The fields of an object ascend when their places do. -/
theorem ascend_map_iff {fields : List (FieldId × Value)} :
    Ascend (fields.map (·.1)) ↔ fields.Pairwise fun a b => a.1.rank < b.1.rank := by
  rw [Ascend, List.pairwise_map]

end FieldId

namespace Value

/-- Whether a value is an array without entries. -/
def isEmptyArray : Value → Bool
  | .array [] => true
  | _ => false

/-- The fields of a regular object ascend. -/
theorem RegularFields.ascend {fields : List (FieldId × Value)} (h : RegularFields fields) :
    FieldId.Ascend (fields.map (·.1)) := by
  induction fields with
  | nil => exact List.Pairwise.nil
  | cons entry rest ih =>
    obtain ⟨-, -, hlater, hrest⟩ := h
    refine List.Pairwise.cons ?_ (ih hrest)
    simpa using fun field value hmem => hlater (field, value) hmem

/-- Every value of a regular object is regular and of the type of its field. -/
theorem RegularFields.of_mem {fields : List (FieldId × Value)} (h : RegularFields fields)
    {field : FieldId} {value : Value} (hmem : (field, value) ∈ fields) :
    value.typeCode = field.typeCode ∧ value.Regular := by
  induction fields with
  | nil => cases hmem
  | cons entry rest ih =>
    obtain ⟨htype, hregular, -, hrest⟩ := h
    cases hmem with
    | head => exact ⟨htype, hregular⟩
    | tail _ hmem => exact ih hrest hmem

/-- A regular object stays so without some of its fields. -/
theorem RegularFields.filter {fields : List (FieldId × Value)} (h : RegularFields fields)
    (keep : FieldId × Value → Bool) : RegularFields (fields.filter keep) := by
  induction fields with
  | nil => trivial
  | cons entry rest ih =>
    obtain ⟨htype, hregular, hlater, hrest⟩ := h
    rw [List.filter_cons]
    split
    · exact ⟨htype, hregular, fun later hmem => hlater later (List.mem_of_mem_filter hmem),
        ih hrest⟩
    · exact ih hrest

/-- Every entry of a regular array is regular. -/
theorem RegularEntries.of_mem {entries : List (FieldId × List (FieldId × Value))}
    (h : RegularEntries entries) {entry : FieldId × List (FieldId × Value)}
    (hmem : entry ∈ entries) : RegularFields entry.2 := by
  induction entries with
  | nil => cases hmem
  | cons first rest ih =>
    obtain ⟨-, hfields, hrest⟩ := h
    cases hmem with
    | head => exact hfields
    | tail _ hmem => exact ih hrest hmem

end Value

namespace Object

variable {object other : Object} {field : FieldId}

/-! ## What an object has for a field -/

/-- An object without repeated fields has a value for a field exactly if both stand in it. -/
theorem get?_eq_some_iff (h : (object.fields.map (·.1)).Nodup) {value : Value} :
    object.get? field = some value ↔ (field, value) ∈ object.fields := by
  obtain ⟨fields⟩ := object
  simp only [get?]
  induction fields with
  | nil => simp
  | cons entry rest ih =>
    obtain ⟨first, v⟩ := entry
    obtain ⟨hfirst, hrest⟩ := List.nodup_cons.mp h
    by_cases heq : first = field
    · subst heq
      have hnot : (first, value) ∉ rest := fun hmem => hfirst (List.mem_map.mpr ⟨_, hmem, rfl⟩)
      simp [hnot, eq_comm]
    · have hne : ¬(field, value) = (first, v) := fun h' => heq (congrArg Prod.fst h').symm
      simp only [List.find?_cons, heq, decide_false, List.mem_cons, hne, false_or]
      exact ih hrest

/-- An object has nothing for a field exactly if the field does not stand in it. -/
theorem get?_eq_none_iff : object.get? field = none ↔ field ∉ object.fields.map (·.1) := by
  simp only [get?, Option.map_eq_none_iff, List.find?_eq_none, decide_eq_true_eq, List.mem_map,
    not_exists, not_and]

/-- Objects whose fields ascend are equal when they have the same fields with the same values. -/
theorem ext_of_mem_iff (h : FieldId.Ascend (object.fields.map (·.1)))
    (h' : FieldId.Ascend (other.fields.map (·.1)))
    (hmem : ∀ entry, entry ∈ object.fields ↔ entry ∈ other.fields) : object = other := by
  have hperm : object.fields.Perm other.fields :=
    (List.perm_ext_iff_of_nodup h.nodup.of_map h'.nodup.of_map).mpr hmem
  have heq : object.fields = other.fields :=
    hperm.eq_of_pairwise (fun a b _ _ hab hba => absurd hab (Nat.lt_asymm hba))
      (FieldId.ascend_map_iff.mp h) (FieldId.ascend_map_iff.mp h')
  exact congrArg Object.mk heq

/-! ## Arrays without entries -/

/-- The object without the fields that hold an array without entries. -/
def withoutEmptyArrays (object : Object) : Object :=
  ⟨object.fields.filter fun entry => !entry.2.isEmptyArray⟩

/-- Whether all the fields of an object are among these. -/
def HasOnly (object : Object) (fields : List FieldId) : Prop :=
  ∀ entry ∈ object.fields, entry.1 ∈ fields

instance (object : Object) (fields : List FieldId) : Decidable (object.HasOnly fields) :=
  inferInstanceAs (Decidable (∀ entry ∈ object.fields, entry.1 ∈ fields))

/-- Whether an object has what a slot tells, arrays without entries left out. -/
def Fills (object : Object) (slot : Slot) : Prop :=
  object.withoutEmptyArrays.get? slot.field = slot.value

/-- In which order fields are named does not matter, nor how often. -/
theorem hasOnly_congr {fields fields' : List FieldId} (h : fields ⊆ fields') (h' : fields' ⊆ fields) :
    object.HasOnly fields ↔ object.HasOnly fields' :=
  ⟨fun honly entry hentry => h (honly entry hentry),
    fun honly entry hentry => h' (honly entry hentry)⟩

/-- Fields that ascend do so when empty arrays are left out. -/
theorem ascend_withoutEmptyArrays (h : FieldId.Ascend (object.fields.map (·.1))) :
    FieldId.Ascend (object.withoutEmptyArrays.fields.map (·.1)) :=
  List.Pairwise.sublist (List.filter_sublist.map _) h

/-- Without its empty arrays, an object has the same values but these. -/
theorem get?_withoutEmptyArrays (h : (object.fields.map (·.1)).Nodup) :
    object.withoutEmptyArrays.get? field = (object.get? field).filter fun v => !v.isEmptyArray := by
  have h' : (object.withoutEmptyArrays.fields.map (·.1)).Nodup :=
    h.sublist (List.filter_sublist.map _)
  ext value
  rw [get?_eq_some_iff h', Option.filter_eq_some_iff, get?_eq_some_iff h]
  simp [withoutEmptyArrays]

/-- An object is the same without its empty arrays exactly if it has none. -/
theorem withoutEmptyArrays_eq_self_iff :
    object.withoutEmptyArrays = object ↔
      ∀ entry ∈ object.fields, entry.2.isEmptyArray = false := by
  obtain ⟨fields⟩ := object
  simp [withoutEmptyArrays]

/-- In an object in order, only a field of arrays can hold an array without entries. -/
theorem get?_ne_emptyArray (h : Value.RegularFields object.fields)
    (hfield : field.typeCode ≠ .array) : object.get? field ≠ some (.array []) := by
  intro hget
  have hmem := (get?_eq_some_iff h.ascend.nodup).mp hget
  exact hfield (h.of_mem hmem).1.symm

/-- A scalar that may be missing fills its slot exactly if the object has it, or misses it too. -/
theorem fills_optional_iff (h : Value.RegularFields object.fields)
    (hfield : field.typeCode ≠ .array) {α : Type} {wrap : α → Scalar} {value : Option α} :
    object.Fills (.optional field wrap value) ↔
      object.get? field = value.map fun a => .scalar (wrap a) := by
  rw [Fills, Slot.optional, get?_withoutEmptyArrays h.ascend.nodup]
  have hne := get?_ne_emptyArray h hfield
  cases value with
  | some a =>
    rw [Option.map_some, Option.filter_eq_some_iff]
    exact and_iff_left rfl
  | none =>
    rw [Option.map_none, Option.filter_eq_none_iff]
    constructor
    · intro hnone
      cases hget : object.get? field with
      | none => rfl
      | some found =>
        have hempty := hnone found hget
        rcases found with _ | _ | (_ | _)
        · simp [Value.isEmptyArray] at hempty
        · simp [Value.isEmptyArray] at hempty
        · exact absurd hget hne
        · simp [Value.isEmptyArray] at hempty
    · intro hget found hfound
      rw [hget] at hfound
      cases hfound

/-- Entries fill their slot exactly if the object has an array of them, or misses it if none. -/
theorem fills_entries_iff (h : Value.RegularFields object.fields)
    {entries : List (FieldId × List (FieldId × Value))} :
    object.Fills (.entries field entries) ↔
      (object.get? field = none ∧ entries = []) ∨ object.get? field = some (.array entries) := by
  rw [Fills, Slot.entries, get?_withoutEmptyArrays h.ascend.nodup]
  cases entries with
  | nil =>
    cases object.get? field with
    | none => simp
    | some found => rcases found with _ | _ | (_ | _) <;> simp [Value.isEmptyArray, Option.filter]
  | cons entry rest =>
    simp [Option.filter_eq_some_iff, Value.isEmptyArray]

end Object

namespace Slot

variable {slots : List Slot} {layout : List FieldId} {object : Object}

/-! ## Slots and the objects they make up -/

/-- The fields of written slots are those with a value. -/
theorem mem_written_iff {field : FieldId} {value : Value} :
    (field, value) ∈ written slots ↔ ⟨field, some value⟩ ∈ slots := by
  simp only [written, List.mem_filterMap, Option.map_eq_some_iff, Prod.mk.injEq]
  constructor
  · rintro ⟨⟨_, _⟩, hslot, _, rfl, rfl, rfl⟩
    exact hslot
  · intro hslot
    exact ⟨_, hslot, value, rfl, rfl, rfl⟩

/-- The fields that are written stand in the order of their slots. -/
theorem ascend_written (h : FieldId.Ascend (slots.map (·.field))) :
    FieldId.Ascend ((written slots).map (·.1)) := by
  refine List.Pairwise.sublist ?_ h
  induction slots with
  | nil => exact List.Sublist.refl _
  | cons slot rest ih =>
    have hrest := ih (List.Pairwise.of_cons h)
    obtain ⟨field, _ | value⟩ := slot
    · exact hrest.cons _
    · exact hrest.cons_cons _

/-- Where no field repeats, slots of the same field are the same. -/
theorem eq_of_field_eq (h : (slots.map (·.field)).Nodup) {a b : Slot} (ha : a ∈ slots)
    (hb : b ∈ slots) (heq : a.field = b.field) : a = b :=
  List.inj_on_of_nodup_map h ha hb heq

/-- An object consists of slots that ascend exactly if it has the value of each and nothing else. -/
theorem eq_written_iff (hobject : FieldId.Ascend (object.fields.map (·.1)))
    (hslots : FieldId.Ascend (slots.map (·.field))) :
    object = ⟨written slots⟩ ↔
      (∀ slot ∈ slots, object.get? slot.field = slot.value) ∧
        object.HasOnly (slots.map (·.field)) := by
  constructor
  · rintro rfl
    constructor
    · intro slot hslot
      obtain ⟨field, _ | value⟩ := slot
      · refine Object.get?_eq_none_iff.mpr fun hfield => ?_
        obtain ⟨⟨_, value⟩, hmem, rfl⟩ := List.mem_map.mp hfield
        have heq := eq_of_field_eq hslots.nodup hslot (mem_written_iff.mp hmem) rfl
        cases heq
      · exact (Object.get?_eq_some_iff hobject.nodup).mpr (mem_written_iff.mpr hslot)
    · rintro ⟨field, value⟩ hmem
      exact List.mem_map.mpr ⟨_, mem_written_iff.mp hmem, rfl⟩
  · rintro ⟨hvalues, honly⟩
    -- both ascend, so it is enough that they have the same fields with the same values
    refine Object.ext_of_mem_iff hobject (ascend_written hslots) ?_
    rintro ⟨field, value⟩
    rw [mem_written_iff, ← Object.get?_eq_some_iff hobject.nodup]
    constructor
    · intro hget
      obtain ⟨slot, hslot, rfl⟩ :=
        List.mem_map.mp (honly _ ((Object.get?_eq_some_iff hobject.nodup).mp hget))
      rw [← hget, hvalues slot hslot]
      exact hslot
    · intro hslot
      exact hvalues _ hslot

/-- An object in order whose slots hold no arrays consists of them exactly if it fills each and has
no other field. -/
theorem eq_written_iff_fills (hobject : Value.RegularFields object.fields)
    (hslots : FieldId.Ascend (slots.map (·.field)))
    (harray : ∀ field ∈ slots.map (·.field), field.typeCode ≠ .array) :
    object = ⟨written slots⟩ ↔
      (∀ slot ∈ slots, object.Fills slot) ∧ object.HasOnly (slots.map (·.field)) := by
  rw [eq_written_iff hobject.ascend hslots]
  refine and_congr_left fun honly => ?_
  -- no field of such an object can hold an array, so none is left out
  have hself : object.withoutEmptyArrays = object := by
    refine Object.withoutEmptyArrays_eq_self_iff.mpr ?_
    rintro ⟨field, value⟩ hentry
    have htype := (hobject.of_mem hentry).1
    rcases value with _ | _ | (_ | _)
    · rfl
    · rfl
    · exact absurd htype.symm (harray field (honly _ hentry))
    · rfl
  simp only [Object.Fills, hself]

/-- Arranging slots keeps those whose field the layout names. -/
theorem mem_arrange_iff (h : (slots.map (·.field)).Nodup) {slot : Slot} :
    slot ∈ arrange layout slots ↔ slot.field ∈ layout ∧ slot ∈ slots := by
  simp only [arrange, List.mem_filterMap]
  constructor
  · rintro ⟨field, hfield, hfind⟩
    have hslot := List.mem_of_find?_eq_some hfind
    have heq : slot.field = field := by simpa using List.find?_some hfind
    exact ⟨heq ▸ hfield, hslot⟩
  · rintro ⟨hfield, hslot⟩
    refine ⟨slot.field, hfield, ?_⟩
    cases hfind : slots.find? fun other => other.field = slot.field with
    | none =>
      have hnone := List.find?_eq_none.mp hfind slot hslot
      simp at hnone
    | some other =>
      have heq : other.field = slot.field := by simpa using List.find?_some hfind
      rw [eq_of_field_eq h (List.mem_of_find?_eq_some hfind) hslot heq]

/-- Arranged slots stand in the order of the layout if there is a slot for each of its fields. -/
theorem map_field_arrange (h : ∀ field ∈ layout, field ∈ slots.map (·.field)) :
    (arrange layout slots).map (·.field) = layout := by
  induction layout with
  | nil => rfl
  | cons field rest ih =>
    obtain ⟨slot, hslot, rfl⟩ := List.mem_map.mp (h field List.mem_cons_self)
    have hrest := ih fun later hlater => h later (List.mem_cons_of_mem _ hlater)
    cases hfind : slots.find? fun other => other.field = slot.field with
    | none =>
      have hnone := List.find?_eq_none.mp hfind slot hslot
      simp at hnone
    | some other =>
      have heq : other.field = slot.field := by simpa using List.find?_some hfind
      simp only [arrange, List.filterMap_cons, hfind, List.map_cons, heq]
      exact congrArg _ hrest

/-- An object consists of arranged slots exactly if it has the value of each and nothing else. -/
theorem eq_written_arrange_iff (hobject : FieldId.Ascend (object.fields.map (·.1)))
    (hlayout : FieldId.Ascend layout) (hslots : (slots.map (·.field)).Perm layout) :
    object = ⟨written (arrange layout slots)⟩ ↔
      (∀ slot ∈ slots, object.get? slot.field = slot.value) ∧ object.HasOnly layout := by
  have hnodup : (slots.map (·.field)).Nodup := hslots.nodup_iff.mpr hlayout.nodup
  have hfields : (arrange layout slots).map (·.field) = layout :=
    map_field_arrange fun field hfield => hslots.mem_iff.mpr hfield
  rw [eq_written_iff hobject (hfields.symm ▸ hlayout), hfields]
  refine and_congr_left fun _ => ?_
  constructor
  · intro h slot hslot
    refine h slot ((mem_arrange_iff hnodup).mpr ⟨?_, hslot⟩)
    exact hslots.mem_iff.mp (List.mem_map_of_mem hslot)
  · intro h slot hslot
    exact h slot ((mem_arrange_iff hnodup).mp hslot).2

end Slot

end XrpLedger
