import XrpLedger.Proofs.Object.ReadScalar

/-!
# Reading objects

Containers are read by induction on the fields and entries that come out, values by induction on the
room that is left for containers. The result is `Object.ofBytes_eq_ok_iff`: a byte string is an
object exactly if the object is well formed and these are its bytes. It holds all that reading and
writing have to agree on, since the right side does not mention how bytes are read.
-/

set_option autoImplicit false

namespace XrpLedger

namespace Reader

variable {α β : Type}

/-! ## Forms of readers -/

/-- A condition on values may be replaced by an equivalent one. -/
theorem Reads.congr {reader : Reader α} {form : α → Bytes} {admits admits' : α → Prop}
    (h : reader.Reads form admits) (hadmits : ∀ a, admits a ↔ admits' a) :
    reader.Reads form admits' := by
  intro bytes a rest
  rw [h bytes a rest, hadmits a]

/-- What is made of a value is read from the form of the value, if it has the same form itself. -/
theorem Reads.map {reader : Reader α} {form : α → Bytes} {admits : α → Prop} {wrap : α → β}
    {form' : β → Bytes} (h : reader.Reads form admits) (hform : ∀ a, form' (wrap a) = form a) :
    (wrap <$> reader).Reads form' fun b => ∃ a, wrap a = b ∧ admits a := by
  intro bytes b rest
  rw [run_map_eq_ok_iff]
  constructor
  · rintro ⟨a, hrun, rfl⟩
    obtain ⟨hadmits, rfl⟩ := (h _ _ _).mp hrun
    exact ⟨⟨a, rfl, hadmits⟩, by rw [hform]⟩
  · rintro ⟨⟨a, rfl, hadmits⟩, rfl⟩
    exact ⟨a, (h _ _ _).mpr ⟨hadmits, by rw [hform]⟩, rfl⟩

/-- Where no value is admissible, a failing reader reads every form. -/
theorem reads_fail {e : CodecError} {form : α → Bytes} {admits : α → Prop}
    (h : ∀ a, ¬admits a) : (fail e : Reader α).Reads form admits := by
  intro bytes a rest
  exact iff_of_false run_fail_ne_ok (fun ⟨hadmits, _⟩ => h a hadmits)

/-! ## The fields of an inner object -/

/-- A field may stand after the last one exactly when it follows it. -/
theorem ascends_eq_ok_iff {last : Option FieldId} {field : FieldId} :
    ascends last field = .ok () ↔ FieldId.Follows last field := by
  cases last with
  | none => exact iff_of_true rfl (FieldId.follows_none field)
  | some last =>
    rw [FieldId.follows_some_iff, ascends]
    split
    · next h => exact iff_of_true rfl h
    · next h => exact iff_of_false nofun h

variable {value : FieldId → Reader Value} {last : Option FieldId} {bytes after : Bytes}

/-- An object without fields is the end of an object. -/
theorem runFieldsToEnd_eq_ok_nil_iff :
    runFieldsToEnd value last bytes = .ok ([], after) ↔
      bytes = FieldId.objectEnd.header ++ after := by
  rw [← FieldId.decodeHeader_eq_objectEnd_iff, runFieldsToEnd]
  constructor
  · intro h
    split at h
    · cases h
    · next field rest header =>
      split at h
      · next hend =>
        cases h
        rw [header, hend]
      -- past the end marker, whatever is read has a first field
      · repeat' split at h
        all_goals cases h
  · intro h
    split
    · next e header => rw [h] at header; cases header
    · next field rest header =>
      rw [h] at header
      cases header
      rw [if_pos rfl]

/-- A field and more are read where its header stands, then its value, then the rest of them. -/
theorem runFieldsToEnd_eq_ok_cons_iff {field : FieldId} {v : Value}
    {fields : List (FieldId × Value)} :
    runFieldsToEnd value last bytes = .ok ((field, v) :: fields, after) ↔
      field.IsProper ∧ FieldId.Follows last field ∧
        ∃ rest rest', bytes = field.header ++ rest ∧ (value field).run rest = .ok (v, rest') ∧
          runFieldsToEnd value (some field) rest' = .ok (fields, after) := by
  rw [FieldId.isProper_iff, ← ascends_eq_ok_iff]
  constructor
  -- every way through the reader but the last ends in an error or without a field
  · intro h
    rw [runFieldsToEnd] at h
    split at h
    · cases h
    · next found rest header =>
      split at h
      · cases h
      · next hobject =>
        split at h
        · cases h
        · next harray =>
          split at h
          · cases h
          · next v' rest' hv =>
            split at h
            · cases h
            · next hascends =>
              split at h
              · cases h
              · next fields' after' hfields =>
                cases h
                obtain ⟨hcode, rfl⟩ := FieldId.decodeHeader_eq_ok_iff.mp header
                exact ⟨⟨hcode, hobject, harray⟩, hascends, rest, rest', rfl, hv, hfields⟩
  · rintro ⟨⟨hcode, hobject, harray⟩, hascends, rest, rest', rfl, hv, hfields⟩
    have hheader := FieldId.decodeHeader_header_append hcode rest
    rw [runFieldsToEnd]
    split
    · next e header => rw [hheader] at header; cases header
    · next found rest header =>
      rw [hheader] at header
      cases header
      rw [if_neg hobject, if_neg harray]
      split
      · next e hv' => rw [hv] at hv'; cases hv'
      · next v' rest' hv' =>
        rw [hv] at hv'
        cases hv'
        simp only [hascends, hfields]

/-- Fields are read up to their end marker exactly when they are regular. -/
theorem reads_fieldsToEnd {room : Nat}
    (hvalue : ∀ field, (value field).Reads Value.payload fun v =>
      v.typeCode = field.typeCode ∧ v.Regular ∧ v.Proper ∧ v.depth ≤ room) :
    (fieldsToEnd value).Reads (fun fields => Value.fieldBytes fields ++ FieldId.objectEnd.header)
      fun fields => Value.RegularFields fields ∧ Value.ProperFields fields ∧
        Value.fieldsDepth fields ≤ room := by
  -- in a run that goes on after some field, the fields follow that one as well
  have hrun : ∀ (fields : List (FieldId × Value)) (last : Option FieldId) (bytes after : Bytes),
      runFieldsToEnd value last bytes = .ok (fields, after) ↔
        (Value.RegularFields fields ∧ Value.ProperFields fields ∧
          Value.fieldsDepth fields ≤ room) ∧
          (∀ entry ∈ fields, FieldId.Follows last entry.1) ∧
            bytes = Value.fieldBytes fields ++ FieldId.objectEnd.header ++ after := by
    intro fields
    induction fields with
    | nil =>
      intro last bytes after
      rw [runFieldsToEnd_eq_ok_nil_iff]
      simp [Value.RegularFields, Value.ProperFields, Value.fieldsDepth, Value.fieldBytes]
    | cons entry fields ih =>
      obtain ⟨field, v⟩ := entry
      intro last bytes after
      simp only [runFieldsToEnd_eq_ok_cons_iff, ih, hvalue field _ _ _, FieldId.follows_some_iff,
        Value.RegularFields, Value.ProperFields, Value.fieldsDepth, Value.fieldBytes, Nat.max_le]
      constructor
      · rintro ⟨hid, hfollows, rest, rest', rfl, ⟨⟨htype, hregular, hproper, hdepth⟩, rfl⟩,
          ⟨hregulars, hpropers, hdepths⟩, hlater, rfl⟩
        refine ⟨⟨⟨htype, hregular, hlater, hregulars⟩, ⟨hid, hproper, hpropers⟩, hdepth, hdepths⟩,
          (FieldId.follows_cons_iff hlater).mpr hfollows, ?_⟩
        simp only [List.append_assoc]
      · rintro ⟨⟨⟨htype, hregular, hlater, hregulars⟩, ⟨hid, hproper, hpropers⟩, hdepth, hdepths⟩,
          hfollows, rfl⟩
        refine ⟨hid, (FieldId.follows_cons_iff hlater).mp hfollows, _, _, ?_,
          ⟨⟨htype, hregular, hproper, hdepth⟩, rfl⟩, ⟨hregulars, hpropers, hdepths⟩, hlater, rfl⟩
        simp only [List.append_assoc]
  intro bytes fields after
  refine (hrun fields none bytes after).trans ?_
  simp [FieldId.follows_none]

/-! ## The entries of an array -/

variable {object : Reader (List (FieldId × Value))}

/-- An array without entries is the end of an array. -/
theorem runEntriesToEnd_eq_ok_nil_iff :
    runEntriesToEnd object bytes = .ok ([], after) ↔ bytes = FieldId.arrayEnd.header ++ after := by
  rw [← FieldId.decodeHeader_eq_arrayEnd_iff, runEntriesToEnd]
  constructor
  · intro h
    split at h
    · cases h
    · next field rest header =>
      split at h
      · next hend =>
        cases h
        rw [header, hend]
      · repeat' split at h
        all_goals cases h
  · intro h
    split
    · next e header => rw [h] at header; cases header
    · next field rest header =>
      rw [h] at header
      cases header
      rw [if_pos rfl]

/-- An entry and more are read where its header stands, then its fields, then the rest of them. -/
theorem runEntriesToEnd_eq_ok_cons_iff {field : FieldId} {fields : List (FieldId × Value)}
    {entries : List (FieldId × List (FieldId × Value))} :
    runEntriesToEnd object bytes = .ok ((field, fields) :: entries, after) ↔
      field.IsProper ∧ field.typeCode = .object ∧
        ∃ rest rest', bytes = field.header ++ rest ∧ object.run rest = .ok (fields, rest') ∧
          runEntriesToEnd object rest' = .ok (entries, after) := by
  rw [FieldId.isProper_iff]
  constructor
  · intro h
    rw [runEntriesToEnd] at h
    split at h
    · cases h
    · next found rest header =>
      split at h
      · cases h
      · next harray =>
        split at h
        · cases h
        · next hentry =>
          obtain ⟨htype, hobject⟩ := not_or.mp hentry
          split at h
          · cases h
          · next fields' rest' hfields =>
            split at h
            · cases h
            · next entries' after' hentries =>
              cases h
              obtain ⟨hcode, rfl⟩ := FieldId.decodeHeader_eq_ok_iff.mp header
              exact ⟨⟨hcode, hobject, harray⟩, not_not.mp htype, rest, rest', rfl, hfields,
                hentries⟩
  · rintro ⟨⟨hcode, hobject, harray⟩, htype, rest, rest', rfl, hfields, hentries⟩
    have hheader := FieldId.decodeHeader_header_append hcode rest
    rw [runEntriesToEnd]
    split
    · next e header => rw [hheader] at header; cases header
    · next found rest header =>
      rw [hheader] at header
      cases header
      rw [if_neg harray, if_neg (not_or.mpr ⟨not_not_intro htype, hobject⟩)]
      split
      · next e hfields' => rw [hfields] at hfields'; cases hfields'
      · next fields' rest' hfields' =>
        rw [hfields] at hfields'
        cases hfields'
        simp only [hentries]

/-- Entries are read up to their end marker exactly when they are regular. -/
theorem reads_entriesToEnd {room : Nat}
    (hobject : object.Reads (fun fields => Value.fieldBytes fields ++ FieldId.objectEnd.header)
      fun fields => Value.RegularFields fields ∧ Value.ProperFields fields ∧
        1 + Value.fieldsDepth fields ≤ room) :
    (entriesToEnd object).Reads (fun entries => Value.entryBytes entries ++ FieldId.arrayEnd.header)
      fun entries => Value.RegularEntries entries ∧ Value.ProperEntries entries ∧
        Value.entriesDepth entries ≤ room := by
  intro bytes entries after
  change runEntriesToEnd object bytes = .ok (entries, after) ↔ _
  induction entries generalizing bytes with
  | nil =>
    rw [runEntriesToEnd_eq_ok_nil_iff]
    simp [Value.RegularEntries, Value.ProperEntries, Value.entriesDepth, Value.entryBytes]
  | cons entry entries ih =>
    obtain ⟨field, fields⟩ := entry
    simp only [runEntriesToEnd_eq_ok_cons_iff, ih, hobject _ _ _, Value.RegularEntries,
      Value.ProperEntries, Value.entriesDepth, Value.entryBytes, Nat.max_le]
    constructor
    · rintro ⟨hid, htype, rest, rest', rfl, ⟨⟨hregular, hproper, hdepth⟩, rfl⟩,
        ⟨hregulars, hpropers, hdepths⟩, rfl⟩
      refine ⟨⟨⟨htype, hregular, hregulars⟩, ⟨hid, hproper, hpropers⟩, hdepth, hdepths⟩, ?_⟩
      simp only [List.append_assoc]
    · rintro ⟨⟨⟨htype, hregular, hregulars⟩, ⟨hid, hproper, hpropers⟩, hdepth, hdepths⟩, rfl⟩
      refine ⟨hid, htype, _, _, ?_, ⟨⟨hregular, hproper, hdepth⟩, rfl⟩,
        ⟨hregulars, hpropers, hdepths⟩, rfl⟩
      simp only [List.append_assoc]

/-! ## Values of any type -/

/-- What is of the type of objects is one, and takes a level of room itself. -/
theorem admits_object_iff {v : Value} {room : Nat} :
    v.typeCode = .object ∧ v.Regular ∧ v.Proper ∧ v.depth ≤ room ↔
      ∃ fields, Value.object fields = v ∧ Value.RegularFields fields ∧ Value.ProperFields fields ∧
        1 + Value.fieldsDepth fields ≤ room := by
  rcases v with ⟨⟨⟩⟩ | _ | _ <;>
    simp [Value.typeCode, Scalar.typeCode, Value.Regular, Value.Proper, Value.depth]

/-- What is of the type of arrays is one, and takes a level of room itself. -/
theorem admits_array_iff {v : Value} {room : Nat} :
    v.typeCode = .array ∧ v.Regular ∧ v.Proper ∧ v.depth ≤ room ↔
      ∃ entries, Value.array entries = v ∧ Value.RegularEntries entries ∧
        Value.ProperEntries entries ∧ 1 + Value.entriesDepth entries ≤ room := by
  rcases v with ⟨⟨⟩⟩ | _ | _ <;>
    simp [Value.typeCode, Scalar.typeCode, Value.Regular, Value.Proper, Value.depth]

/-- What is of any other type is a scalar, and takes no room. -/
theorem admits_scalar_iff {v : Value} {type : TypeCode} {room : Nat} (hobject : type ≠ .object)
    (harray : type ≠ .array) :
    v.typeCode = type ∧ v.Regular ∧ v.Proper ∧ v.depth ≤ room ↔
      ∃ s, Value.scalar s = v ∧ s.typeCode = type ∧ s.Fits := by
  cases v with
  | scalar s => simp [Value.typeCode, Value.Regular, Value.Proper, Value.depth]
  | object fields => simp [Value.typeCode, hobject.symm]
  | array entries => simp [Value.typeCode, harray.symm]

/-- The value of a field that is no container is a scalar. -/
theorem valueOf_of_ne {field : FieldId} (hobject : field.typeCode ≠ .object)
    (harray : field.typeCode ≠ .array) (room : Nat) :
    valueOf room field = Value.scalar <$> scalar field := by
  rcases room with _ | _ | room
  all_goals cases h : field.typeCode <;> simp_all [valueOf]

/-- With room left, the value of an object field is its fields. -/
theorem valueOf_object {field : FieldId} (h : field.typeCode = .object) (room : Nat) :
    valueOf (room + 1) field = Value.object <$> fieldsToEnd (valueOf room) := by
  rw [valueOf.eq_def]
  simp only [h]

/-- A scalar value is read from its payload, if it fits behind a length marker. -/
theorem reads_scalar (field : FieldId) :
    (Value.scalar <$> scalar field).Reads Value.payload fun v =>
      ∃ s, Value.scalar s = v ∧ s.typeCode = field.typeCode ∧ s.Fits := by
  have hscalar : (scalar field).Reads Scalar.payload fun s =>
      s.typeCode = field.typeCode ∧ s.Fits := by
    intro bytes s rest
    rw [run_scalar_eq_ok_iff, and_assoc]
  exact hscalar.map fun s => by rw [Value.payload]

/-- With a level of room for itself, an object is read when there is room for its values. -/
theorem reads_object {room : Nat}
    (hvalue : ∀ field, (value field).Reads Value.payload fun v =>
      v.typeCode = field.typeCode ∧ v.Regular ∧ v.Proper ∧ v.depth ≤ room) :
    (Value.object <$> fieldsToEnd value).Reads Value.payload fun v =>
      ∃ fields, Value.object fields = v ∧ Value.RegularFields fields ∧ Value.ProperFields fields ∧
        1 + Value.fieldsDepth fields ≤ room + 1 := by
  refine ((reads_fieldsToEnd hvalue).congr fun fields => ?_).map fun fields => ?_
  · rw [Nat.add_comm 1, Nat.add_le_add_iff_right]
  · rw [Value.payload]

/-- With a level of room for itself, an array is read when there is room for its entries. -/
theorem reads_array {room : Nat}
    (hobject : object.Reads (fun fields => Value.fieldBytes fields ++ FieldId.objectEnd.header)
      fun fields => Value.RegularFields fields ∧ Value.ProperFields fields ∧
        1 + Value.fieldsDepth fields ≤ room) :
    (Value.array <$> entriesToEnd object).Reads Value.payload fun v =>
      ∃ entries, Value.array entries = v ∧ Value.RegularEntries entries ∧
        Value.ProperEntries entries ∧ 1 + Value.entriesDepth entries ≤ room + 1 := by
  refine ((reads_entriesToEnd hobject).congr fun entries => ?_).map fun entries => ?_
  · rw [Nat.add_comm 1, Nat.add_le_add_iff_right]
  · rw [Value.payload]

/-- The value of any field is read exactly when it is in order and there is room for it. -/
theorem reads_valueOf (room : Nat) (field : FieldId) :
    (valueOf room field).Reads Value.payload fun v =>
      v.typeCode = field.typeCode ∧ v.Regular ∧ v.Proper ∧ v.depth ≤ room := by
  -- the entries of an array take a second level of room at once
  induction room using Nat.strongRecOn generalizing field with
  | ind room ih =>
    by_cases hobject : field.typeCode = .object
    · rw [hobject]
      refine Reads.congr ?_ fun v => admits_object_iff.symm
      cases room with
      | zero =>
        rw [valueOf, hobject]
        exact reads_fail fun v ⟨fields, _, _, _, hdepth⟩ => by omega
      | succ room =>
        rw [valueOf_object hobject]
        exact reads_object (ih room (Nat.lt_succ_self room))
    · by_cases harray : field.typeCode = .array
      · rw [harray]
        refine Reads.congr ?_ fun v => admits_array_iff.symm
        rcases room with _ | _ | room
        · rw [valueOf, harray]
          exact reads_fail fun v ⟨entries, _, _, _, hdepth⟩ => by omega
        · rw [valueOf, harray]
          exact reads_array (reads_fail fun fields ⟨_, _, hdepth⟩ => by omega)
        · rw [valueOf, harray]
          refine reads_array ((reads_fieldsToEnd (ih room (by omega))).congr fun fields => ?_)
          rw [Nat.add_comm 1, Nat.add_le_add_iff_right]
      · rw [valueOf_of_ne hobject harray]
        exact (reads_scalar field).congr fun v => (admits_scalar_iff hobject harray).symm

/-! ## Objects -/

/-- A field outside of every container is read with a regular value that is not nested too deep. -/
theorem run_field_eq_ok_iff {id : FieldId} {v : Value} {rest : Bytes} :
    field.run bytes = .ok ((id, v), rest) ↔
      id.IsProper ∧ (v.typeCode = id.typeCode ∧ v.Regular ∧ v.Proper ∧ v.depth ≤ depthLimit) ∧
        bytes = id.header ++ (v.payload ++ rest) := by
  simp only [field, run_bind_eq_ok_iff]
  constructor
  · rintro ⟨found, _, hheader, h⟩
    obtain ⟨hcode, rfl⟩ := FieldId.decodeHeader_eq_ok_iff.mp hheader
    split at h
    · exact absurd h run_fail_ne_ok
    · next hmarker =>
      simp only [run_bind_eq_ok_iff, run_pure_eq_ok_iff, reads_valueOf _ _ _ _ _] at h
      obtain ⟨v', _, ⟨hvalue, rfl⟩, heq, rfl⟩ := h
      cases heq
      refine ⟨⟨?_, ?_⟩, hvalue, rfl⟩
      · exact FieldId.one_le_iff.mpr hcode
      · simpa using hmarker
  · rintro ⟨⟨hcode, hmarker⟩, hvalue, rfl⟩
    refine ⟨id, _, FieldId.decodeHeader_header_append (FieldId.one_le_iff.mp hcode) _, ?_⟩
    rw [hmarker]
    simp only [Bool.false_eq_true, if_false, run_bind_eq_ok_iff, run_pure_eq_ok_iff,
      reads_valueOf _ _ _ _ _]
    exact ⟨v, rest, ⟨hvalue, rfl⟩, rfl, rfl⟩

/-- A whole object without fields has no bytes. -/
theorem runFields_eq_ok_nil_iff : runFields last bytes = .ok [] ↔ bytes = [] := by
  constructor
  · intro h
    rw [runFields] at h
    split at h
    · assumption
    · split at h
      · cases h
      · split at h
        · cases h
        · obtain ⟨fields, -, hcons⟩ := map_eq_ok_iff.mp h
          cases hcons
  · rintro rfl
    rw [runFields, if_pos rfl]

/-- A field and more are read where the field stands and then the rest of them. -/
theorem runFields_eq_ok_cons_iff {id : FieldId} {v : Value} {fields : List (FieldId × Value)} :
    runFields last bytes = .ok ((id, v) :: fields) ↔
      FieldId.Follows last id ∧
        ∃ rest, field.run bytes = .ok ((id, v), rest) ∧ runFields (some id) rest = .ok fields := by
  rw [← ascends_eq_ok_iff]
  constructor
  · intro h
    rw [runFields] at h
    split at h
    · cases h
    · split at h
      · cases h
      · next found v' rest hfield =>
        split at h
        · cases h
        · next hascends =>
          obtain ⟨fields', hfields, heq⟩ := map_eq_ok_iff.mp h
          cases heq
          exact ⟨hascends, rest, hfield, hfields⟩
  · rintro ⟨hascends, rest, hfield, hfields⟩
    -- the reader stops where no bytes are left, and a field takes some
    have hne : bytes ≠ [] := by
      rintro rfl
      have := length_lt_of_field hfield
      simp at this
    rw [runFields, if_neg hne]
    split
    · next e hfield' => rw [hfield] at hfield'; cases hfield'
    · next found v' rest' hfield' =>
      rw [hfield] at hfield'
      cases hfield'
      simp only [hascends, hfields, Except.map]

/-- Bytes are the fields of a whole object exactly if these are regular, proper, not too deep and in
order. -/
theorem runFields_eq_ok_iff {fields : List (FieldId × Value)} :
    runFields last bytes = .ok fields ↔
      (Value.RegularFields fields ∧ Value.ProperFields fields ∧
        Value.fieldsDepth fields ≤ depthLimit) ∧
        (∀ entry ∈ fields, FieldId.Follows last entry.1) ∧ bytes = Value.fieldBytes fields := by
  induction fields generalizing last bytes with
  | nil =>
    rw [runFields_eq_ok_nil_iff]
    simp [Value.RegularFields, Value.ProperFields, Value.fieldsDepth, Value.fieldBytes]
  | cons entry fields ih =>
    obtain ⟨id, v⟩ := entry
    simp only [runFields_eq_ok_cons_iff, ih, run_field_eq_ok_iff, FieldId.follows_some_iff,
      Value.RegularFields, Value.ProperFields, Value.fieldsDepth, Value.fieldBytes, Nat.max_le]
    constructor
    · rintro ⟨hfollows, rest, ⟨hid, ⟨htype, hregular, hproper, hdepth⟩, rfl⟩,
        ⟨hregulars, hpropers, hdepths⟩, hlater, rfl⟩
      exact ⟨⟨⟨htype, hregular, hlater, hregulars⟩, ⟨hid, hproper, hpropers⟩, hdepth, hdepths⟩,
        (FieldId.follows_cons_iff hlater).mpr hfollows, rfl⟩
    · rintro ⟨⟨⟨htype, hregular, hlater, hregulars⟩, ⟨hid, hproper, hpropers⟩, hdepth, hdepths⟩,
        hfollows, rfl⟩
      exact ⟨(FieldId.follows_cons_iff hlater).mp hfollows, _,
        ⟨hid, ⟨htype, hregular, hproper, hdepth⟩, rfl⟩, ⟨hregulars, hpropers, hdepths⟩, hlater, rfl⟩

end Reader

namespace Object

/-- A byte string is an object exactly if the object is well formed and these are its bytes. -/
theorem ofBytes_eq_ok_iff {bytes : Bytes} {object : Object} :
    ofBytes bytes = .ok object ↔ object.WellFormed ∧ bytes = Value.fieldBytes object.fields := by
  have hrun : ofBytes bytes = .ok object ↔ Reader.runFields none bytes = .ok object.fields := by
    simp only [ofBytes, Reader.object, map_eq_ok_iff]
    constructor
    · rintro ⟨_, ⟨fields, hfields, rfl⟩, rfl⟩
      exact hfields
    · intro h
      exact ⟨(object, []), ⟨object.fields, h, rfl⟩, rfl⟩
  rw [hrun, Reader.runFields_eq_ok_iff]
  constructor
  · rintro ⟨⟨hregular, hproper, hdepth⟩, -, hbytes⟩
    exact ⟨⟨hregular, hproper, hdepth⟩, hbytes⟩
  · rintro ⟨⟨hregular, hproper, hdepth⟩, hbytes⟩
    exact ⟨⟨hregular, hproper, hdepth⟩, fun entry _ => FieldId.follows_none entry.1, hbytes⟩

end Object

end XrpLedger
