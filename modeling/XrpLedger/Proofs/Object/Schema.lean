import XrpLedger.Proofs.Object.Take

/-!
# Schemas of objects

A schema names the fields that an object must have and those that it may have besides. A field that
is there has a value of its type, so an object in order that has a field also fills some slot of it;
and a computation that only takes fields and asks whether any is left fails with nothing but
mismatches.
-/

set_option autoImplicit false

namespace XrpLedger

/-- The fields that an object must have, and those that it may have besides. -/
structure Schema where
  required : List FieldId
  optional : List FieldId

namespace Object

/-- Whether an object has all fields that a schema requires, and no field that it does not name. -/
structure Meets (object : Object) (schema : Schema) : Prop where
  required : ∀ field ∈ schema.required, object.contains field = true
  only : object.HasOnly (schema.required ++ schema.optional)

/-- Whether the entries that an object has in an array are wrapped in a field and meet a schema. -/
def EntriesMeet (object : Object) (field wrapper : FieldId) (schema : Schema) : Prop :=
  ∀ entries, object.get? field = some (.array entries) →
    ∀ entry ∈ entries, entry.1 = wrapper ∧ (Object.mk entry.2).Meets schema

end Object

/-! ## Fields and the slots that they fill -/

namespace Scalar

/-- Whether all values of a type are scalars that `wrap` makes. -/
def Covers {α : Type} (wrap : α → Scalar) (type : TypeCode) : Prop :=
  ∀ value : Value, value.typeCode = type → ∃ a, value = .scalar (wrap a)

/-- The values of the type of a kind are the scalars of that kind. -/
theorem IsKind.covers {α : Type} {view : Scalar → Option α} {wrap : α → Scalar} {type : TypeCode}
    (h : IsKind view wrap type) : Covers wrap type := by
  intro value hvalue
  cases value with
  | scalar s =>
    obtain ⟨a, rfl⟩ := h.typeCode_eq_iff.mp hvalue
    exact ⟨a, rfl⟩
  | object fields => cases hvalue; cases h
  | array entries => cases hvalue; cases h

/-- The type of scalars is not that of arrays. -/
theorem Covers.ne_array {α : Type} {wrap : α → Scalar} {type : TypeCode} (h : Covers wrap type) :
    type ≠ .array := by
  rintro rfl
  obtain ⟨_, heq⟩ := h (.array []) rfl
  cases heq

end Scalar

namespace Object

variable {α : Type} {object : Object} {field : FieldId} {wrap : α → Scalar}

/-- What an object has for a field is regular and of the type of the field. -/
theorem typeCode_of_get? (h : Value.RegularFields object.fields) {value : Value}
    (hget : object.get? field = some value) : value.typeCode = field.typeCode ∧ value.Regular :=
  h.of_mem ((get?_eq_some_iff h.ascend.nodup).mp hget)

/-- A slot with a value is filled exactly by that value. -/
theorem fills_always_iff (h : Value.RegularFields object.fields) {value : Scalar} :
    object.Fills (.always field value) ↔ object.get? field = some (.scalar value) := by
  rw [Fills, Slot.always, get?_withoutEmptyArrays h.ascend.nodup, Option.filter_eq_some_iff]
  exact and_iff_left rfl

/-- Every object fills an optional slot, with its value or without one. -/
theorem exists_fills_optional (h : Value.RegularFields object.fields) (field : FieldId)
    (hcovers : Scalar.Covers wrap field.typeCode) : ∃ a, object.Fills (.optional field wrap a) := by
  simp only [fills_optional_iff h hcovers.ne_array]
  cases hget : object.get? field with
  | none => exact ⟨none, rfl⟩
  | some value =>
    obtain ⟨a, rfl⟩ := hcovers value (typeCode_of_get? h hget).1
    exact ⟨some a, rfl⟩

/-- An object that fills a slot with a value has its field. -/
theorem contains_of_fills (h : Value.RegularFields object.fields) {value : Scalar}
    (hfills : object.Fills (.always field value)) : object.contains field = true := by
  rw [contains, (fills_always_iff h).mp hfills]
  rfl

/-- An object that has a field fills a slot of it. -/
theorem exists_fills_always (h : Value.RegularFields object.fields)
    (hcovers : Scalar.Covers wrap field.typeCode) (hfield : object.contains field = true) :
    ∃ a, object.Fills (.always field (wrap a)) := by
  simp only [fills_always_iff h]
  obtain ⟨value, hget⟩ := Option.isSome_iff_exists.mp hfield
  obtain ⟨a, rfl⟩ := hcovers value (typeCode_of_get? h hget).1
  exact ⟨a, hget⟩

/-- An object fills a slot with a value exactly if it has its field. -/
theorem exists_fills_always_iff (h : Value.RegularFields object.fields) (field : FieldId)
    (hcovers : Scalar.Covers wrap field.typeCode) :
    (∃ a, object.Fills (.always field (wrap a))) ↔ object.contains field = true :=
  ⟨fun ⟨_, hfills⟩ => contains_of_fills h hfills, exists_fills_always h hcovers⟩

/-- A list of images is the image of a list. -/
theorem exists_map_eq {β : Type} {f : α → β} {bs : List β} (h : ∀ b ∈ bs, ∃ a, f a = b) :
    ∃ as : List α, as.map f = bs := by
  induction bs with
  | nil => exact ⟨[], rfl⟩
  | cons b rest ih =>
    obtain ⟨⟨a, rfl⟩, hrest⟩ := List.forall_mem_cons.mp h
    obtain ⟨as, rfl⟩ := ih hrest
    exact ⟨a :: as, rfl⟩

/-- An array can be filled with entries exactly if those that it has meet their schema. -/
theorem exists_fills_entries_iff {toEntry : α → FieldId × List (FieldId × Value)}
    {wrapper : FieldId} {schema : Schema} (h : Value.RegularFields object.fields)
    (field : FieldId) (hfield : field.typeCode = .array)
    (hentry : ∀ entry, Value.RegularFields entry.2 →
      ((∃ a, toEntry a = entry) ↔ entry.1 = wrapper ∧ (Object.mk entry.2).Meets schema)) :
    (∃ as : List α, object.Fills (.entries field (as.map toEntry))) ↔
      object.EntriesMeet field wrapper schema := by
  simp only [fills_entries_iff h]
  constructor
  · rintro ⟨as, ⟨hnone, -⟩ | hsome⟩ entries hget entry hmem
    · cases hnone.symm.trans hget
    · cases hsome.symm.trans hget
      obtain ⟨a, -, rfl⟩ := List.mem_map.mp hmem
      exact (hentry _ ((typeCode_of_get? h hget).2.of_mem hmem)).mp ⟨a, rfl⟩
  · intro hmeet
    cases hget : object.get? field with
    | none => exact ⟨[], .inl ⟨rfl, rfl⟩⟩
    | some value =>
      obtain ⟨htype, hregular⟩ := typeCode_of_get? h hget
      rw [hfield] at htype
      cases value with
      | scalar s => cases s <;> cases htype
      | object fields => cases htype
      | array entries =>
        obtain ⟨as, has⟩ := exists_map_eq fun entry hmem =>
          (hentry entry (hregular.of_mem hmem)).mpr (hmeet entries hget entry hmem)
        exact ⟨as, .inr (by rw [has])⟩

/-- A field that is not there has no entries of a wrong kind. -/
theorem HasOnly.entriesMeet {fields : List FieldId} (h : object.HasOnly fields)
    (hfield : field ∉ fields) (wrapper : FieldId) (schema : Schema) :
    object.EntriesMeet field wrapper schema := by
  have hnone : object.get? field = none := by
    apply get?_eq_none_iff.mpr
    intro hmem
    obtain ⟨entry, hentry, rfl⟩ := List.mem_map.mp hmem
    exact hfield (h entry hentry)
  intro entries hget
  cases hnone.symm.trans hget

end Object

/-! ## Computations that fail with mismatches -/

/-- Whether a result is no error but a mismatch. -/
def OnlyMismatch {α : Type} (result : Except CodecError α) : Prop :=
  ∀ e, result = .error e → ∃ cause, e = .mismatch cause

/-- Whether a computation fails with nothing but mismatches. -/
def Taking.OnlyMismatch {α : Type} (taking : Taking α) : Prop :=
  ∀ object, XrpLedger.OnlyMismatch (taking.outcome object).1

section

variable {α β : Type}

/-- A result is no error. -/
theorem onlyMismatch_ok (a : α) : OnlyMismatch (.ok a) := by
  intro e he
  cases he

/-- A mismatch is no other error. -/
theorem onlyMismatch_error (cause : MismatchError) :
    OnlyMismatch (.error (.mismatch cause) : Except CodecError α) := by
  intro e he
  cases he
  exact ⟨cause, rfl⟩

/-- The same error may stand for a missing result of any kind. -/
theorem OnlyMismatch.of_error {e : CodecError} (h : OnlyMismatch (.error e : Except CodecError α)) :
    OnlyMismatch (.error e : Except CodecError β) := by
  obtain ⟨cause, rfl⟩ := h e rfl
  exact onlyMismatch_error cause

/-- If neither of two steps fails but with mismatches, both together do not. -/
theorem OnlyMismatch.bind {x : Except CodecError α} {f : α → Except CodecError β}
    (hx : OnlyMismatch x) (hf : ∀ a, OnlyMismatch (f a)) : OnlyMismatch (x >>= f) := by
  intro e he
  rcases bind_eq_error_iff.mp he with hfirst | ⟨a, -, hnext⟩
  · exact hx e hfirst
  · exact hf a e hnext

/-- If no step on an element fails but with mismatches, the steps on a list do not. -/
theorem onlyMismatch_mapM {f : α → Except CodecError β} (hf : ∀ a, OnlyMismatch (f a))
    (as : List α) : OnlyMismatch (as.mapM f) := by
  induction as with
  | nil => exact onlyMismatch_ok []
  | cons a rest ih =>
    rw [List.mapM_cons]
    exact (hf a).bind fun b => ih.bind fun bs => onlyMismatch_ok (b :: bs)

end

namespace Taking

variable {α β : Type} {field : FieldId}

/-- If neither of two computations fails but with mismatches, both together do not. -/
theorem OnlyMismatch.bind {first : Taking α} {next : α → Taking β} (hfirst : first.OnlyMismatch)
    (hnext : ∀ a, (next a).OnlyMismatch) : (first >>= next).OnlyMismatch := by
  intro object
  have hobject := hfirst object
  rw [outcome_bind]
  rcases hrun : first.outcome object with ⟨_ | a, middle⟩
  · rw [hrun] at hobject
    exact hobject.of_error
  · exact hnext a middle

/-- A computation that takes nothing does not fail. -/
theorem onlyMismatch_pure (a : α) : (pure a : Taking α).OnlyMismatch := by
  intro object
  exact onlyMismatch_ok a

/-- A computation that throws a mismatch fails with nothing else. -/
theorem onlyMismatch_throw (cause : MismatchError) :
    (throw (.mismatch cause) : Taking α).OnlyMismatch := by
  intro object
  exact onlyMismatch_error cause

/-- A lifted outcome fails as the outcome does. -/
theorem onlyMismatch_liftExcept {x : Except CodecError α} (h : XrpLedger.OnlyMismatch x) :
    (liftExcept x : Taking α).OnlyMismatch := by
  intro object
  have hrun : (liftExcept x : Taking α).outcome object = (x, object) := run_liftExcept x object
  rw [hrun]
  exact h

/-- Taking a value of a kind fails only because the value is of another one. -/
theorem onlyMismatch_viewed (view : Value → Option α) : (viewed view field).OnlyMismatch := by
  have hvalue : (value field).OnlyMismatch := by
    intro object
    exact onlyMismatch_ok _
  apply hvalue.bind
  intro found
  cases found with
  | none => exact onlyMismatch_pure none
  | some found =>
    cases hview : view found with
    | none =>
      simp only [hview]
      exact onlyMismatch_throw _
    | some a =>
      simp only [hview]
      exact onlyMismatch_pure (some a)

/-- Taking a scalar of a kind fails with nothing but mismatches. -/
theorem onlyMismatch_scalar (view : Scalar → Option α) : (scalar view field).OnlyMismatch :=
  onlyMismatch_viewed _

/-- Taking a scalar that must be there fails with nothing but mismatches. -/
theorem onlyMismatch_requiredScalar (view : Scalar → Option α) :
    (requiredScalar view field).OnlyMismatch := by
  apply (onlyMismatch_scalar view).bind
  intro found
  apply onlyMismatch_liftExcept
  cases found with
  | none => exact onlyMismatch_error _
  | some a => exact onlyMismatch_ok a

/-- Fields that are left over are a mismatch. -/
theorem onlyMismatch_finish (context : String) : (finish context).OnlyMismatch := by
  have hget : (get : Taking Object).OnlyMismatch := by
    intro object
    exact onlyMismatch_ok object
  apply hget.bind
  intro left
  apply onlyMismatch_liftExcept
  unfold Object.finish
  split
  · exact onlyMismatch_ok ()
  · exact onlyMismatch_error _

end Taking

end XrpLedger
