import XrpLedger.Object.Reader
import XrpLedger.Object.Writer
import XrpLedger.Proofs.Field.Header

/-!
# Well-formed objects and their bytes

`Object.WellFormed` says of an object alone when it can stand on the wire. It must be regular: in
every object the fields ascend, every value is of the type of its field, an array holds objects only
and payloads have a length that a marker can tell. Its fields must be proper: none has the code zero
or closes a container. And containers must be nested no deeper than a reader goes.

`Value.payload` and `Value.fieldBytes` are the bytes of values and fields, by recursion on them and
without any check. The modules on reading and on writing compare both programs with these bytes.

What the proofs need to know of the eleven kinds of scalars holds of each of them for the same
reason. It is said once, for every `Scalar.IsKind`.
-/

set_option autoImplicit false

namespace XrpLedger

/-- Whether a field can stand in a container: its code is not zero and it closes nothing. -/
def FieldId.IsProper (field : FieldId) : Prop :=
  1 ≤ field.fieldCode ∧ field.isEndMarker = false

instance (field : FieldId) : Decidable field.IsProper :=
  inferInstanceAs (Decidable (_ ∧ _))

/-- Whether a field comes later in canonical order than the last one, if there is a last one. -/
def FieldId.Follows (last : Option FieldId) (field : FieldId) : Prop :=
  ∀ before ∈ last, before.rank < field.rank

namespace Scalar

/-- A kind of scalars: the view that sees them, the constructor that makes them and the type of the
fields that hold them. -/
inductive IsKind : {α : Type} → (Scalar → Option α) → (α → Scalar) → TypeCode → Prop
  | uint8 : IsKind uint8? Scalar.uint8 .uint8
  | uint16 : IsKind uint16? Scalar.uint16 .uint16
  | uint32 : IsKind uint32? Scalar.uint32 .uint32
  | uint64 : IsKind uint64? Scalar.uint64 .uint64
  | hash128 : IsKind hash128? Scalar.hash128 .hash128
  | hash160 : IsKind hash160? Scalar.hash160 .hash160
  | hash256 : IsKind hash256? Scalar.hash256 .hash256
  | amount : IsKind amount? Scalar.amount .amount
  | blob : IsKind blob? Scalar.blob .blob
  | account : IsKind account? Scalar.account .accountId
  | vector256 : IsKind vector256? Scalar.vector256 .vector256

/-- The scalars of the type of a kind are those that its constructor makes. -/
theorem IsKind.typeCode_eq_iff {α : Type} {view : Scalar → Option α} {wrap : α → Scalar}
    {type : TypeCode} (h : IsKind view wrap type) {s : Scalar} :
    s.typeCode = type ↔ ∃ a, wrap a = s := by
  cases h <;> cases s <;> simp [typeCode]

/-- Whether the payload of a scalar is no longer than a length marker can tell. -/
def Fits : Scalar → Prop
  | blob value => value.length ≤ LengthMarker.limit
  | vector256 value => 32 * value.length ≤ LengthMarker.limit
  | _ => True

/-- The bytes of a scalar as they follow the header of its field. -/
def payload (value : Scalar) : Bytes :=
  value.encode.toOption.getD []

end Scalar

mutual

/-- How many containers are nested in a value, itself included. -/
def Value.depth : Value → Nat
  | .scalar _ => 0
  | .object fields => 1 + Value.fieldsDepth fields
  | .array entries => 1 + Value.entriesDepth entries

/-- How many containers are nested in the values of fields. -/
def Value.fieldsDepth : List (FieldId × Value) → Nat
  | [] => 0
  | (_, value) :: rest => max (Value.depth value) (Value.fieldsDepth rest)

/-- How many containers are nested in the entries of an array, each a container itself. -/
def Value.entriesDepth : List (FieldId × List (FieldId × Value)) → Nat
  | [] => 0
  | (_, fields) :: rest => max (1 + Value.fieldsDepth fields) (Value.entriesDepth rest)

end

mutual

/-- Whether everything in a value is in order: payloads fit, fields ascend and hold values of their
type, and arrays hold objects. -/
def Value.Regular : Value → Prop
  | .scalar value => value.Fits
  | .object fields => Value.RegularFields fields
  | .array entries => Value.RegularEntries entries

/-- Whether the fields of an object ascend, and each holds a regular value of its type. -/
def Value.RegularFields : List (FieldId × Value) → Prop
  | [] => True
  | (field, value) :: rest =>
    value.typeCode = field.typeCode ∧ Value.Regular value ∧
      (∀ later ∈ rest, field.rank < later.1.rank) ∧ Value.RegularFields rest

/-- Whether every entry of an array is an object with regular fields. -/
def Value.RegularEntries : List (FieldId × List (FieldId × Value)) → Prop
  | [] => True
  | (field, fields) :: rest =>
    field.typeCode = .object ∧ Value.RegularFields fields ∧ Value.RegularEntries rest

end

mutual

/-- Whether every field in a value is proper. -/
def Value.Proper : Value → Prop
  | .scalar _ => True
  | .object fields => Value.ProperFields fields
  | .array entries => Value.ProperEntries entries

/-- Whether fields are proper, and every field in their values is. -/
def Value.ProperFields : List (FieldId × Value) → Prop
  | [] => True
  | (field, value) :: rest => field.IsProper ∧ Value.Proper value ∧ Value.ProperFields rest

/-- Whether the fields of entries are proper, and every field in the entries is. -/
def Value.ProperEntries : List (FieldId × List (FieldId × Value)) → Prop
  | [] => True
  | (field, fields) :: rest =>
    field.IsProper ∧ Value.ProperFields fields ∧ Value.ProperEntries rest

end

/-- Whether an object can stand on the wire. -/
structure Object.WellFormed (object : Object) : Prop where
  /-- Its fields, and those of every object in it, are in order. -/
  regular : Value.RegularFields object.fields
  /-- None of the fields in it is mistaken for an end marker or for a longer header. -/
  proper : Value.ProperFields object.fields
  /-- The containers in it are nested no deeper than a reader goes. -/
  depth_le : Value.fieldsDepth object.fields ≤ Reader.depthLimit

mutual

/-- The bytes of a value as they follow the header of its field. -/
def Value.payload : Value → Bytes
  | .scalar value => value.payload
  | .object fields => Value.fieldBytes fields ++ FieldId.objectEnd.header
  | .array entries => Value.entryBytes entries ++ FieldId.arrayEnd.header

/-- The bytes of fields, each behind its header. -/
def Value.fieldBytes : List (FieldId × Value) → Bytes
  | [] => []
  | (field, value) :: rest => field.header ++ (Value.payload value ++ Value.fieldBytes rest)

/-- The bytes of the entries of an array, each with its end marker. -/
def Value.entryBytes : List (FieldId × List (FieldId × Value)) → Bytes
  | [] => []
  | (field, fields) :: rest =>
    field.header ++ (Value.fieldBytes fields ++ (FieldId.objectEnd.header ++ Value.entryBytes rest))

end

namespace FieldId

/-- A field code is at least one exactly if it is not zero. -/
theorem one_le_iff {code : UInt8} : 1 ≤ code ↔ code ≠ 0 := by
  rw [UInt8.le_iff_toNat_le, ne_eq, ← UInt8.toNat_inj]
  exact Nat.one_le_iff_ne_zero

/-- A field that can stand in a container is neither end marker, and its code is not zero. -/
theorem isProper_iff {field : FieldId} :
    field.IsProper ↔ field.fieldCode ≠ 0 ∧ field ≠ objectEnd ∧ field ≠ arrayEnd := by
  simp [IsProper, isEndMarker, one_le_iff]

/-- Where no field stands yet, any field may. -/
theorem follows_none (field : FieldId) : Follows none field := by
  rintro _ ⟨⟩

/-- Behind a field, exactly those of a higher rank may stand. -/
theorem follows_some_iff {last field : FieldId} :
    Follows (some last) field ↔ last.rank < field.rank := by
  simp [Follows]

/-- Fields follow the last one when the first of them does and they follow the first. -/
theorem follows_cons_iff {last : Option FieldId} {field : FieldId} {value : Value}
    {rest : List (FieldId × Value)} (hrest : ∀ later ∈ rest, field.rank < later.1.rank) :
    (∀ entry ∈ (field, value) :: rest, Follows last entry.1) ↔ Follows last field := by
  constructor
  · intro h
    exact h (field, value) List.mem_cons_self
  · intro h entry hentry before hbefore
    rcases List.mem_cons.mp hentry with rfl | hlater
    · exact h before hbefore
    · exact Nat.lt_trans (h before hbefore) (hrest entry hlater)

/-- The end of an object is read exactly where its header stands. -/
theorem decodeHeader_eq_objectEnd_iff {bytes rest : Bytes} :
    decodeHeader bytes = .ok (objectEnd, rest) ↔ bytes = objectEnd.header ++ rest := by
  simp [decodeHeader_eq_ok_iff, objectEnd]

/-- The end of an array is read exactly where its header stands. -/
theorem decodeHeader_eq_arrayEnd_iff {bytes rest : Bytes} :
    decodeHeader bytes = .ok (arrayEnd, rest) ↔ bytes = arrayEnd.header ++ rest := by
  simp [decodeHeader_eq_ok_iff, arrayEnd]

end FieldId

namespace Scalar

/-- Bytes stand behind their length exactly if a marker can tell it. -/
theorem withLength_isOk_iff {bytes : Bytes} :
    (∃ written, withLength bytes = .ok written) ↔ bytes.length ≤ LengthMarker.limit := by
  simp only [withLength, map_eq_ok_iff, ← LengthMarker.encode_isOk_iff]
  constructor
  · rintro ⟨_, marker, h, -⟩
    exact ⟨marker, h⟩
  · rintro ⟨marker, h⟩
    exact ⟨_, marker, h, rfl⟩

/-- Digests have 32 bytes each. -/
theorem length_flatMap_digests (digests : List Hash256) :
    (digests.flatMap (·.toList)).length = 32 * digests.length := by
  induction digests with
  | nil => rfl
  | cons digest rest ih =>
    rw [List.flatMap_cons, List.length_append, digest.length_toList, ih, List.length_cons]
    omega

/-- A scalar is written exactly if its payload fits. -/
theorem encode_isOk_iff {value : Scalar} : (∃ bytes, value.encode = .ok bytes) ↔ value.Fits := by
  cases value with
  | blob value => exact withLength_isOk_iff
  | vector256 value =>
    rw [Fits, ← length_flatMap_digests]
    exact withLength_isOk_iff
  | account value =>
    refine iff_of_true (withLength_isOk_iff.mpr ?_) trivial
    rw [value.bytes.length_toList]
    decide
  | _ => exact iff_of_true ⟨_, rfl⟩ trivial

/-- A scalar is written exactly if its payload fits, and as this payload. -/
theorem encode_eq_ok_iff {value : Scalar} {bytes : Bytes} :
    value.encode = .ok bytes ↔ value.Fits ∧ bytes = value.payload := by
  constructor
  · intro h
    exact ⟨encode_isOk_iff.mp ⟨bytes, h⟩, by simp [payload, h, Except.toOption]⟩
  · rintro ⟨hfits, rfl⟩
    obtain ⟨bytes, h⟩ := encode_isOk_iff.mpr hfits
    simp [payload, h, Except.toOption]

end Scalar

end XrpLedger
