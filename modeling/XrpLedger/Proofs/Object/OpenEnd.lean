import XrpLedger.Proofs.Object.Completion
import XrpLedger.Proofs.Object.Items

/-!
# Items that end too early

A read that asks for more bytes should be one that more bytes can complete. That is so unless the
bytes that are there rule it out, and readers do not look for this: a header, a marker or an amount
is judged when it is there as a whole, and the order of the fields in an object when the value of
the later one is.

`Cursor.Item.Open` tells of an item, by the place where its bytes end, whether they rule it out. In
a container this is the header of a field, or the value of a field that has to follow the one before
it and that may be a container again. Among the reads that ask for more bytes, those of open items
are the ones that can be completed (`Cursor.read_completes_iff`).
-/

set_option autoImplicit false

namespace XrpLedger

/-- Whether a reader with this much room for containers takes values for a field. -/
def FieldId.Fillable (room : Nat) (field : FieldId) : Prop :=
  field.typeCode ≠ .pathSet ∧ (field.typeCode = .object ∨ field.typeCode = .array → 0 < room)

namespace Reader

/-- Takes the fields of an object, with room for `room` containers inside each other, itself
included. -/
def fieldsWithin : (room : Nat) → Reader (List (FieldId × Value))
  | 0 => fail (.mismatch (.depth depthLimit))
  | room + 1 => fieldsToEnd (valueOf room)

/-- Whether the fields of an object can be completed, by where their bytes end: in a header that is
the beginning of one that may stand there, or in a value of a field that may stand there. -/
inductive FieldsOpen (room : Nat) (valueOpen : FieldId → Bytes → Prop) :
    Option FieldId → Bytes → Prop
  | header {last : Option FieldId} {bytes : Bytes} (cut : fieldId.Truncated bytes)
      (begun : FieldId.HeaderBegun (fun field => field = .objectEnd ∨
        field ≠ .arrayEnd ∧ FieldId.Follows last field ∧ field.Fillable room) bytes) :
      FieldsOpen room valueOpen last bytes
  | value {last : Option FieldId} {bytes rest : Bytes} {field : FieldId}
      (header : fieldId.run bytes = .ok (field, rest)) (cut : (valueOf room field).Truncated rest)
      (follows : FieldId.Follows last field) (opens : valueOpen field rest) :
      FieldsOpen room valueOpen last bytes
  /-- The bytes end behind a whole field. -/
  | later {last : Option FieldId} {bytes rest rest' : Bytes} {field : FieldId} {v : Value}
      (header : fieldId.run bytes = .ok (field, rest))
      (found : (valueOf room field).run rest = .ok (v, rest'))
      (opens : FieldsOpen room valueOpen (some field) rest') :
      FieldsOpen room valueOpen last bytes

/-- Whether the entries of an array can be completed, by where their bytes end: in a header that is
the beginning of one that may stand there, or in the fields of an entry. -/
inductive EntriesOpen (room : Nat) (fieldsOpen : Bytes → Prop) : Bytes → Prop
  | header {bytes : Bytes} (cut : fieldId.Truncated bytes)
      (begun : FieldId.HeaderBegun (fun field => field = .arrayEnd ∨
        field.typeCode = .object ∧ field ≠ .objectEnd ∧ 0 < room) bytes) :
      EntriesOpen room fieldsOpen bytes
  | entry {bytes rest : Bytes} {field : FieldId} (header : fieldId.run bytes = .ok (field, rest))
      (cut : (fieldsWithin room).Truncated rest) (opens : fieldsOpen rest) :
      EntriesOpen room fieldsOpen bytes
  /-- The bytes end behind a whole entry. -/
  | later {bytes rest rest' : Bytes} {field : FieldId} {fields : List (FieldId × Value)}
      (header : fieldId.run bytes = .ok (field, rest))
      (found : (fieldsWithin room).run rest = .ok (fields, rest'))
      (opens : EntriesOpen room fieldsOpen rest') : EntriesOpen room fieldsOpen bytes

/-- Whether the value of a field can be completed, by where its bytes end. -/
def ValueOpen : (room : Nat) → FieldId → Bytes → Prop
  | 0, field => ScalarOpen field.typeCode
  | room + 1, field =>
    match field.typeCode with
    | .object => FieldsOpen room (ValueOpen room) none
    | .array =>
      match room with
      | 0 => EntriesOpen 0 fun _ => False
      | room + 1 => EntriesOpen (room + 1) (FieldsOpen room (ValueOpen room) none)
    | type => ScalarOpen type

/-- Whether a field outside of every container can be completed, by where its bytes end. -/
inductive FieldOpen : Bytes → Prop
  | header {bytes : Bytes} (cut : fieldId.Truncated bytes)
      (begun : FieldId.HeaderBegun
        (fun field => field.isEndMarker = false ∧ field.Fillable depthLimit) bytes) :
      FieldOpen bytes
  | value {bytes rest : Bytes} {field : FieldId} (header : fieldId.run bytes = .ok (field, rest))
      (opens : ValueOpen depthLimit field rest) : FieldOpen bytes

variable {room : Nat} {last : Option FieldId} {field : FieldId} {v : Value}
  {bytes rest rest' : Bytes}

/-! ## The place where fields end -/

section

variable {valueOpen : FieldId → Bytes → Prop}

/-- Where the bytes end in a header, a field that may stand there decides, or the end of the object.
-/
theorem fieldsOpen_iff_of_cut_header (cut : fieldId.Truncated bytes) :
    FieldsOpen room valueOpen last bytes ↔
      FieldId.HeaderBegun (fun field => field = .objectEnd ∨
        field ≠ .arrayEnd ∧ FieldId.Follows last field ∧ field.Fillable room) bytes := by
  constructor
  · intro h
    cases h with
    | header _ begun => exact begun
    | value header => exact absurd cut (not_truncated_of_ok header)
    | later header => exact absurd cut (not_truncated_of_ok header)
  · exact .header cut

/-- Where the bytes end in a value, the value decides, and its field must be in order. -/
theorem fieldsOpen_iff_of_cut_value (header : fieldId.run bytes = .ok (field, rest))
    (cut : (valueOf room field).Truncated rest) :
    FieldsOpen room valueOpen last bytes ↔
      valueOpen field rest ∧ FieldId.Follows last field := by
  constructor
  · intro h
    cases h with
    | header cut' => exact absurd cut' (not_truncated_of_ok header)
    | value header' _ follows opens =>
      cases header.symm.trans header'
      exact ⟨opens, follows⟩
    | later header' found =>
      cases header.symm.trans header'
      exact absurd cut (not_truncated_of_ok found)
  · rintro ⟨opens, follows⟩
    exact .value header cut follows opens

/-- Where a field is there as a whole, the fields behind it decide. -/
theorem fieldsOpen_iff_of_found (header : fieldId.run bytes = .ok (field, rest))
    (found : (valueOf room field).run rest = .ok (v, rest')) :
    FieldsOpen room valueOpen last bytes ↔ FieldsOpen room valueOpen (some field) rest' := by
  constructor
  · intro h
    cases h with
    | header cut => exact absurd cut (not_truncated_of_ok header)
    | value header' cut =>
      cases header.symm.trans header'
      exact absurd cut (not_truncated_of_ok found)
    | later header' found' opens =>
      cases header.symm.trans header'
      cases found.symm.trans found'
      exact opens
  · exact .later header found

end

section

variable {fieldsOpen : Bytes → Prop} {fields : List (FieldId × Value)}

/-- Where the bytes end in a header, an entry that may stand there decides, or the end of the array.
-/
theorem entriesOpen_iff_of_cut_header (cut : fieldId.Truncated bytes) :
    EntriesOpen room fieldsOpen bytes ↔
      FieldId.HeaderBegun (fun field => field = .arrayEnd ∨
        field.typeCode = .object ∧ field ≠ .objectEnd ∧ 0 < room) bytes := by
  constructor
  · intro h
    cases h with
    | header _ begun => exact begun
    | entry header => exact absurd cut (not_truncated_of_ok header)
    | later header => exact absurd cut (not_truncated_of_ok header)
  · exact .header cut

/-- Where the bytes end in an entry, its fields decide. -/
theorem entriesOpen_iff_of_cut_entry (header : fieldId.run bytes = .ok (field, rest))
    (cut : (fieldsWithin room).Truncated rest) :
    EntriesOpen room fieldsOpen bytes ↔ fieldsOpen rest := by
  constructor
  · intro h
    cases h with
    | header cut' => exact absurd cut' (not_truncated_of_ok header)
    | entry header' _ opens =>
      cases header.symm.trans header'
      exact opens
    | later header' found =>
      cases header.symm.trans header'
      exact absurd cut (not_truncated_of_ok found)
  · exact .entry header cut

/-- Where an entry is there as a whole, the entries behind it decide. -/
theorem entriesOpen_iff_of_found (header : fieldId.run bytes = .ok (field, rest))
    (found : (fieldsWithin room).run rest = .ok (fields, rest')) :
    EntriesOpen room fieldsOpen bytes ↔ EntriesOpen room fieldsOpen rest' := by
  constructor
  · intro h
    cases h with
    | header cut => exact absurd cut (not_truncated_of_ok header)
    | entry header' cut =>
      cases header.symm.trans header'
      exact absurd cut (not_truncated_of_ok found)
    | later header' found' opens =>
      cases header.symm.trans header'
      cases found.symm.trans found'
      exact opens
  · exact .later header found

end

/-- The value of a field that is no container is open as a scalar is. -/
theorem valueOpen_of_ne (hobject : field.typeCode ≠ .object) (harray : field.typeCode ≠ .array) :
    ValueOpen room field bytes ↔ ScalarOpen field.typeCode bytes := by
  rcases room with _ | _ | room
  all_goals cases h : field.typeCode <;> simp_all [ValueOpen]

/-- Outside of every container, a header that is cut is that of a field which may stand there. -/
theorem fieldOpen_iff_of_cut_header (cut : fieldId.Truncated bytes) :
    FieldOpen bytes ↔ FieldId.HeaderBegun
      (fun field => field.isEndMarker = false ∧ field.Fillable depthLimit) bytes := by
  constructor
  · intro h
    cases h with
    | header _ begun => exact begun
    | value header => exact absurd cut (not_truncated_of_ok header)
  · exact .header cut

/-- Behind its header, a field is open as its value is. -/
theorem fieldOpen_iff_of_header (header : fieldId.run bytes = .ok (field, rest)) :
    FieldOpen bytes ↔ ValueOpen depthLimit field rest := by
  constructor
  · intro h
    cases h with
    | header cut => exact absurd cut (not_truncated_of_ok header)
    | value header' opens =>
      cases header.symm.trans header'
      exact opens
  · exact .value header

/-! ## What can be made where nothing is there -/

/-- A value depends on the bytes that are taken for it alone. -/
theorem takesFront_valueOf (room : Nat) (field : FieldId) : (valueOf room field).TakesFront :=
  (reads_valueOf room field).takesFront

/-- The fields of an object depend on the bytes that are taken for them alone. -/
theorem takesFront_fieldsWithin (room : Nat) : (fieldsWithin room).TakesFront := by
  cases room with
  | zero => exact takesFront_fail _
  | succ room => exact (reads_fieldsToEnd (reads_valueOf room)).takesFront

/-- The fields of an object stream. -/
theorem streams_fieldsWithin (room : Nat) : (fieldsWithin room).Streams := by
  cases room with
  | zero => exact streams_fail _
  | succ room => exact streams_fieldsAfter (streams_valueOf room) none

/-- With room left, the value of an array field is its entries. -/
theorem valueOf_array (h : field.typeCode = .array) (room : Nat) :
    valueOf (room + 1) field = Value.array <$> entriesToEnd (fieldsWithin room) := by
  cases room with
  | zero =>
    rw [valueOf, h]
    rfl
  | succ room =>
    rw [valueOf, h]
    rfl

/-- Nothing has to be there for the fields of an object to be completed. -/
theorem completes_fieldsAfter_nil (room : Nat) (last : Option FieldId) :
    (fieldsAfter (valueOf room) last).Completes [] := by
  refine ⟨FieldId.objectEnd.header, [], ?_⟩
  exact runFieldsToEnd_eq_ok_nil_iff.mpr (List.append_nil _).symm

/-- Nothing has to be there for the entries of an array to be completed. -/
theorem completes_entriesToEnd_nil (object : Reader (List (FieldId × Value))) :
    (entriesToEnd object).Completes [] := by
  refine ⟨FieldId.arrayEnd.header, [], ?_⟩
  exact runEntriesToEnd_eq_ok_nil_iff.mpr (List.append_nil _).symm

/-- An object of which nothing is there can be completed exactly if there is room for it. -/
theorem completes_fieldsWithin_nil_iff (room : Nat) :
    (fieldsWithin room).Completes [] ↔ 0 < room := by
  cases room with
  | zero => exact iff_of_false not_completes_fail (Nat.lt_irrefl 0)
  | succ room => exact iff_of_true (completes_fieldsAfter_nil room none) (Nat.succ_pos room)

/-- A value can be made if its type is read and it has room. -/
theorem completes_valueOf_nil_iff (room : Nat) (field : FieldId) :
    (valueOf room field).Completes [] ↔ field.Fillable room := by
  unfold FieldId.Fillable
  by_cases hobject : field.typeCode = .object
  · cases room with
    | zero =>
      rw [valueOf, hobject]
      exact iff_of_false not_completes_fail (by simp)
    | succ room =>
      rw [valueOf_object hobject, completes_map_iff, hobject]
      exact iff_of_true (completes_fieldsAfter_nil room none) (by simp)
  by_cases harray : field.typeCode = .array
  · cases room with
    | zero =>
      rw [valueOf, harray]
      exact iff_of_false not_completes_fail (by simp)
    | succ room =>
      rw [valueOf_array harray, completes_map_iff, harray]
      exact iff_of_true (completes_entriesToEnd_nil _) (by simp)
  rw [valueOf_of_ne hobject harray, completes_map_iff]
  by_cases hpaths : field.typeCode = .pathSet
  · rw [scalar, hpaths]
    exact iff_of_false not_completes_fail (by simp)
  · have hscalar := completes_scalar_iff (truncated_scalar_nil hpaths hobject harray)
    exact iff_of_true (hscalar.mpr (scalarOpen_nil _)) (by simp [hpaths, hobject, harray])

/-- No further bytes mend a field that is out of order. -/
theorem ascends_lasting {e : CodecError} (h : ascends last field = .error e) :
    e.isRecoverable = false := by
  unfold ascends at h
  split at h
  · cases h
  · split at h
    · cases h
    · cases h
      rfl

/-- Behind the value of a field the end marker can follow, if the field may stand there. -/
theorem completes_behind_value_iff :
    (do ofExcept (ascends last field)
        return (field, v) :: (← fieldsAfter (valueOf room) (some field))).Completes [] ↔
      FieldId.Follows last field := by
  rw [← ascends_eq_ok_iff]
  cases hascends : ascends last field with
  | error e =>
    refine iff_of_false ?_ (by simp)
    rintro ⟨more, fields, hrun⟩
    cases hrun
  | ok _ =>
    refine iff_of_true ?_ rfl
    exact (completes_map_iff ((field, v) :: ·)).mpr (completes_fieldsAfter_nil room (some field))

/-- Behind the header of a field, an object can go on if the field may stand there. -/
theorem completes_behind_header_iff :
    (if field = .objectEnd then return []
      else if field = .arrayEnd then fail (.mismatch .arrayEndInObject)
      else do
        let v ← valueOf room field
        ofExcept (ascends last field)
        return (field, v) :: (← fieldsAfter (valueOf room) (some field)) :
        Reader (List (FieldId × Value))).Completes [] ↔
      field = .objectEnd ∨
        field ≠ .arrayEnd ∧ FieldId.Follows last field ∧ field.Fillable room := by
  by_cases hobject : field = .objectEnd
  · rw [if_pos hobject]
    exact iff_of_true (completes_pure_nil []) (.inl hobject)
  rw [if_neg hobject]
  by_cases harray : field = .arrayEnd
  · rw [if_pos harray]
    refine iff_of_false not_completes_fail ?_
    rintro (h | ⟨h, -⟩)
    · exact hobject h
    · exact h harray
  rw [if_neg harray, completes_bind_iff (takesFront_valueOf room field)
    (streams_valueOf room field) (.inl rfl)]
  simp only [completes_behind_value_iff, completesTo_const_iff, completes_valueOf_nil_iff, hobject,
    harray, false_or, ne_eq, not_false_eq_true, true_and]
  exact and_comm

/-- Behind the fields of an entry the end marker can follow. -/
theorem completes_behind_entry (field : FieldId) (fields : List (FieldId × Value)) :
    (do return (field, fields) :: (← entriesToEnd (fieldsWithin room))).Completes [] :=
  (completes_map_iff ((field, fields) :: ·)).mpr (completes_entriesToEnd_nil _)

/-- Behind the header of an entry, an array can go on if the entry may stand there. -/
theorem completes_behind_entry_header_iff :
    (if field = .arrayEnd then return []
      else if field.typeCode ≠ .object ∨ field = .objectEnd then
        fail (.mismatch (.arrayEntry field))
      else do
        let fields ← fieldsWithin room
        return (field, fields) :: (← entriesToEnd (fieldsWithin room)) :
        Reader (List (FieldId × List (FieldId × Value)))).Completes [] ↔
      field = .arrayEnd ∨ field.typeCode = .object ∧ field ≠ .objectEnd ∧ 0 < room := by
  by_cases harray : field = .arrayEnd
  · rw [if_pos harray]
    exact iff_of_true (completes_pure_nil []) (.inl harray)
  rw [if_neg harray]
  by_cases hentry : field.typeCode ≠ .object ∨ field = .objectEnd
  · rw [if_pos hentry]
    refine iff_of_false not_completes_fail ?_
    rintro (h | ⟨htype, hobject, -⟩)
    · exact harray h
    · exact hentry.elim (· htype) hobject
  obtain ⟨htype, hobject⟩ := not_or.mp hentry
  rw [if_neg hentry, completes_bind_iff (takesFront_fieldsWithin room)
    (streams_fieldsWithin room) (.inl rfl)]
  simp only [completes_behind_entry, completesTo_const_iff, completes_fieldsWithin_nil_iff, harray,
    not_not.mp htype, hobject, false_or, ne_eq, not_false_eq_true, true_and, and_true]

/-! ## Completing containers -/

/-- Fields that ask for more bytes are completed where they end. -/
theorem completes_fieldsAfter_iff
    (hvalue : ∀ field bytes, (valueOf room field).Truncated bytes →
      ((valueOf room field).Completes bytes ↔ ValueOpen room field bytes))
    (h : (fieldsAfter (valueOf room) last).Truncated bytes) :
    (fieldsAfter (valueOf room) last).Completes bytes ↔
      FieldsOpen room (ValueOpen room) last bytes := by
  -- behind a field that is there as a whole fewer bytes are left
  induction hlength : bytes.length using Nat.strongRecOn generalizing last bytes with
  | ind length ih =>
    rw [fieldsAfter_eq] at h ⊢
    cases header : fieldId.run bytes with
    | error e =>
      have hcut := truncated_of_bind_of_error h header
      rw [completes_fieldId_bind_iff hcut, fieldsOpen_iff_of_cut_header hcut]
      simp only [completes_behind_header_iff]
    | ok result =>
      obtain ⟨field, rest⟩ := result
      have hheader := FieldId.length_lt_of_decodeHeader header
      rw [completes_bind_of_ok streams_fieldId header]
      have hnext := truncated_of_bind_of_ok h header
      by_cases hobject : field = .objectEnd
      · rw [if_pos hobject] at hnext
        exact absurd hnext (not_truncated_pure [])
      rw [if_neg hobject] at hnext ⊢
      by_cases harray : field = .arrayEnd
      · rw [if_pos harray] at hnext
        exact absurd hnext (not_truncated_fail rfl)
      rw [if_neg harray] at hnext ⊢
      cases found : (valueOf room field).run rest with
      | error e =>
        have hcut := truncated_of_bind_of_error hnext found
        rw [completes_bind_iff (takesFront_valueOf room field) (streams_valueOf room field)
          (.inr hcut), fieldsOpen_iff_of_cut_value header hcut, ← hvalue field rest hcut]
        simp only [completes_behind_value_iff, completesTo_const_iff]
      | ok result =>
        obtain ⟨v, rest'⟩ := result
        have hfound := (valueOf room field).length_le _ _ _ found
        rw [completes_bind_of_ok (streams_valueOf room field) found,
          fieldsOpen_iff_of_found header found]
        have hlast := truncated_of_bind_of_ok hnext found
        cases hascends : ascends last field with
        | error e =>
          rw [hascends] at hlast
          exact absurd hlast (not_truncated_fail (ascends_lasting hascends))
        | ok _ =>
          rw [hascends] at hlast
          have hfields := (truncated_map_iff ((field, v) :: ·)).mp hlast
          rw [← ih rest'.length (by omega) hfields rfl]
          exact completes_map_iff ((field, v) :: ·)

/-- Entries that ask for more bytes are completed where they end. -/
theorem completes_entriesToEnd_iff {fieldsOpen : Bytes → Prop}
    (hfields : ∀ bytes, (fieldsWithin room).Truncated bytes →
      ((fieldsWithin room).Completes bytes ↔ fieldsOpen bytes))
    (h : (entriesToEnd (fieldsWithin room)).Truncated bytes) :
    (entriesToEnd (fieldsWithin room)).Completes bytes ↔ EntriesOpen room fieldsOpen bytes := by
  -- behind an entry that is there as a whole fewer bytes are left
  induction hlength : bytes.length using Nat.strongRecOn generalizing bytes with
  | ind length ih =>
    rw [entriesToEnd_eq] at h ⊢
    cases header : fieldId.run bytes with
    | error e =>
      have hcut := truncated_of_bind_of_error h header
      rw [completes_fieldId_bind_iff hcut, entriesOpen_iff_of_cut_header hcut]
      simp only [completes_behind_entry_header_iff]
    | ok result =>
      obtain ⟨field, rest⟩ := result
      have hheader := FieldId.length_lt_of_decodeHeader header
      rw [completes_bind_of_ok streams_fieldId header]
      have hnext := truncated_of_bind_of_ok h header
      by_cases harray : field = .arrayEnd
      · rw [if_pos harray] at hnext
        exact absurd hnext (not_truncated_pure [])
      rw [if_neg harray] at hnext ⊢
      by_cases hentry : field.typeCode ≠ .object ∨ field = .objectEnd
      · rw [if_pos hentry] at hnext
        exact absurd hnext (not_truncated_fail rfl)
      rw [if_neg hentry] at hnext ⊢
      cases found : (fieldsWithin room).run rest with
      | error e =>
        have hcut := truncated_of_bind_of_error hnext found
        rw [completes_bind_iff (takesFront_fieldsWithin room) (streams_fieldsWithin room)
          (.inr hcut), entriesOpen_iff_of_cut_entry header hcut, ← hfields rest hcut]
        simp only [completes_behind_entry, completesTo_const_iff, and_true]
      | ok result =>
        obtain ⟨fields, rest'⟩ := result
        have hfound := (fieldsWithin room).length_le _ _ _ found
        rw [completes_bind_of_ok (streams_fieldsWithin room) found,
          entriesOpen_iff_of_found header found]
        have hlast := truncated_of_bind_of_ok hnext found
        have hentries := (truncated_map_iff ((field, fields) :: ·)).mp hlast
        rw [← ih rest'.length (by omega) hentries rfl]
        exact completes_map_iff ((field, fields) :: ·)

/-- The value of any field that asks for more bytes is completed where it ends. -/
theorem completes_valueOf_iff (room : Nat) (field : FieldId)
    (h : (valueOf room field).Truncated bytes) :
    (valueOf room field).Completes bytes ↔ ValueOpen room field bytes := by
  -- the entries of an array take a second level of room at once
  induction room using Nat.strongRecOn generalizing field bytes with
  | ind room ih =>
    have hfields : ∀ inner, inner < room → ∀ {bytes : Bytes},
        (fieldsAfter (valueOf inner) none).Truncated bytes →
          ((fieldsAfter (valueOf inner) none).Completes bytes ↔
            FieldsOpen inner (ValueOpen inner) none bytes) :=
      fun inner hinner _ => completes_fieldsAfter_iff fun field _ => ih inner hinner field
    by_cases hobject : field.typeCode = .object
    · cases room with
      | zero =>
        rw [valueOf, hobject] at h
        exact absurd h (not_truncated_fail rfl)
      | succ room =>
        rw [valueOf_object hobject] at h ⊢
        rw [ValueOpen.eq_def]
        simp only [hobject]
        exact completes_map_iff_of _ (hfields room (Nat.lt_succ_self room)) h
    by_cases harray : field.typeCode = .array
    · cases room with
      | zero =>
        rw [valueOf, harray] at h
        exact absurd h (not_truncated_fail rfl)
      | succ room =>
        rw [valueOf_array harray] at h ⊢
        rw [ValueOpen.eq_def]
        simp only [harray]
        refine completes_map_iff_of _ (fun hentries => ?_) h
        cases room with
        | zero =>
          exact completes_entriesToEnd_iff (fun _ h => absurd h (not_truncated_fail rfl)) hentries
        | succ room =>
          exact completes_entriesToEnd_iff (fun _ => hfields room (by omega)) hentries
    rw [valueOf_of_ne hobject harray] at h ⊢
    rw [valueOpen_of_ne hobject harray]
    exact completes_map_iff_of _ completes_scalar_iff h

/-- A field that asks for more bytes is completed where it ends. -/
theorem completes_field_iff (h : Reader.field.Truncated bytes) :
    Reader.field.Completes bytes ↔ FieldOpen bytes := by
  rw [Reader.field] at h ⊢
  cases header : fieldId.run bytes with
  | error e =>
    have hcut := truncated_of_bind_of_error h header
    have hnext : ∀ id : FieldId, (if id.isEndMarker then fail (.mismatch (.endMarker id))
        else do return (id, ← valueOf depthLimit id) : Reader (FieldId × Value)).Completes [] ↔
          id.isEndMarker = false ∧ id.Fillable depthLimit := by
      intro id
      cases id.isEndMarker with
      | true => exact iff_of_false not_completes_fail (by simp)
      | false =>
        rw [← completes_valueOf_nil_iff]
        simp only [true_and]
        exact completes_map_iff (Prod.mk id)
    rw [completes_fieldId_bind_iff hcut, fieldOpen_iff_of_cut_header hcut]
    simp only [hnext]
  | ok result =>
    obtain ⟨id, rest⟩ := result
    rw [completes_bind_of_ok streams_fieldId header, fieldOpen_iff_of_header header]
    have hnext := truncated_of_bind_of_ok h header
    by_cases hmarker : id.isEndMarker
    · rw [if_pos hmarker] at hnext
      exact absurd hnext (not_truncated_fail rfl)
    · rw [if_neg hmarker] at hnext ⊢
      exact completes_map_iff_of (Prod.mk id) (completes_valueOf_iff _ id) hnext

end Reader

namespace Cursor

/-! ## Items -/

namespace Item

/-- Whether an item that asks for more bytes can be completed, by where its bytes end. -/
def Open : Item → Bytes → Prop
  | amount => Reader.ScalarOpen .amount
  | length => LengthMarker.Begun fun _ => True
  | blob => Reader.ScalarOpen .blob
  | account => Reader.ScalarOpen .accountId
  | vector256 => Reader.ScalarOpen .vector256
  | fieldId => FieldId.HeaderBegun fun _ => True
  | field => Reader.FieldOpen
  | uint8 | uint16 | uint32 | uint64 | hash128 | hash160 | hash256 => fun _ => True

/-- Every item depends on the bytes that are taken for it alone. -/
theorem takesFront (item : Item) : item.reader.TakesFront := by
  have htake : ∀ {α : Type} {n : Nat} (next : FixedBytes n → Reader α),
      (∀ taken, (next taken).TakesFront) → (Reader.take n >>= next).TakesFront :=
    fun {_ n} _ hnext => (Reader.takesFront_take n).bind (Reader.streams_take n) hnext
  cases item with
  | uint8 => exact htake _ fun _ => Reader.takesFront_pure _
  | uint16 => exact htake _ fun _ => Reader.takesFront_pure _
  | uint32 => exact htake _ fun _ => Reader.takesFront_pure _
  | uint64 => exact htake _ fun _ => Reader.takesFront_pure _
  | hash128 => exact Reader.takesFront_take 16
  | hash160 => exact Reader.takesFront_take 20
  | hash256 => exact Reader.takesFront_take 32
  | amount => exact Reader.reads_amount.takesFront
  | length => exact Reader.takesFront_length
  | blob =>
    refine Reader.takesFront_length.bind Reader.streams_length fun n => ?_
    exact htake _ fun _ => Reader.takesFront_pure _
  | account =>
    refine Reader.takesFront_length.bind Reader.streams_length fun n => ?_
    split
    · exact htake _ fun _ => Reader.takesFront_pure _
    · exact Reader.takesFront_fail _
  | vector256 =>
    refine Reader.takesFront_length.bind Reader.streams_length fun n => ?_
    split
    · exact Reader.takesFront_fail _
    · exact htake _ fun _ => Reader.takesFront_ofExcept _
  | fieldId => exact Reader.takesFront_fieldId
  | field =>
    refine Reader.takesFront_fieldId.bind Reader.streams_fieldId fun id => ?_
    split
    · exact Reader.takesFront_fail _
    · exact (Reader.takesFront_valueOf _ id).bind (Reader.streams_valueOf _ id)
        fun _ => Reader.takesFront_pure _

/-- Of the items that ask for more bytes, those that are open can be completed. -/
theorem completes_iff (item : Item) {bytes : Bytes} (h : item.reader.Truncated bytes) :
    item.reader.Completes bytes ↔ item.Open bytes := by
  cases item with
  | uint8 => exact Reader.completes_number_iff 1 UInt8.ofNat h
  | uint16 => exact Reader.completes_number_iff 2 UInt16.ofNat h
  | uint32 => exact Reader.completes_number_iff 4 UInt32.ofNat h
  | uint64 => exact Reader.completes_number_iff 8 UInt64.ofNat h
  | hash128 => exact iff_of_true (Reader.completes_take h) trivial
  | hash160 => exact iff_of_true (Reader.completes_take h) trivial
  | hash256 => exact iff_of_true (Reader.completes_take h) trivial
  | amount => exact Reader.completes_amount_iff
  | length =>
    refine Iff.trans ?_ Reader.completesTo_length_iff
    rw [Reader.completesTo_const_iff, and_true]
    rfl
  | blob => exact Reader.completes_blob_iff h
  | account => exact Reader.completes_account_iff h
  | vector256 => exact Reader.completes_vector256_iff h
  | fieldId =>
    refine Iff.trans ?_ Reader.completesTo_fieldId_iff
    rw [Reader.completesTo_const_iff, and_true]
    rfl
  | field => exact Reader.completes_field_iff h

end Item

/-- When the read of an item asks for more bytes, it succeeds behind some of them exactly if the
item is open where its bytes end. -/
theorem read_completes_iff (item : Item) (buffer : Bytes) (position : Nat)
    (hposition : position ≤ buffer.length) (needed available : Nat)
    (hread : (seek buffer position).read item.reader
      = (.error (.truncated needed available), seek buffer position)) :
    (∃ more value after,
      (seek (buffer ++ more) position).read item.reader = (.ok value, after)) ↔
      item.Open (buffer.drop position) := by
  obtain ⟨hrun, -⟩ := read_eq_error_iff.mp hread
  have hcut : item.reader.Truncated (buffer.drop position) := ⟨needed, available, hrun⟩
  refine Iff.trans ?_ (item.completes_iff hcut)
  constructor
  · rintro ⟨more, value, after, hmore⟩
    obtain ⟨rest, hvalue, -⟩ := read_eq_ok_iff.mp hmore
    rw [rest_seek_append hposition] at hvalue
    obtain ⟨front, hwhole⟩ := item.takesFront.exists_front item.streams (.inr hcut) hvalue
    exact ⟨front, value, hwhole⟩
  · rintro ⟨more, value, hvalue⟩
    refine ⟨more, value, _, read_eq_ok_iff.mpr ⟨[], ?_, rfl⟩⟩
    rw [rest_seek_append hposition]
    exact hvalue

/-- The number of a sequence is completed behind its first two bytes. A length marker above all that
markers can tell asks for its last byte all the same, and no byte completes it. -/
theorem read_completes_iff_shortSequence :
    (∃ more value after,
      (seek ([0x24, 0, 0] ++ more) 0).read Item.field.reader = (.ok value, after)) ∧
    (seek [0xFE, 0xD5] 0).read Item.blob.reader
      = (.error (.truncated 3 2), seek [0xFE, 0xD5] 0) ∧
    ¬∃ more value after,
      (seek ([0xFE, 0xD5] ++ more) 0).read Item.blob.reader = (.ok value, after) := by
  refine ⟨?_, rfl, ?_⟩
  · have hopen : Item.Open .field [0x24, 0, 0] := .value rfl trivial
    exact (read_completes_iff .field [0x24, 0, 0] 0 (by decide) 4 2 rfl).mpr hopen
  · refine mt (read_completes_iff .blob [0xFE, 0xD5] 0 (by decide) 3 2 rfl).mp fun hopen => ?_
    have hcut : Reader.length.Truncated [0xFE, 0xD5] := ⟨3, 2, rfl⟩
    have hbegun : LengthMarker.Begun (fun _ => True) [0xFE, 0xD5] := hopen hcut
    have hbelow := (Reader.begun_iff_of_truncated hcut).mp hbegun 0xD5 rfl
    exact absurd hbelow (by decide)

/-- A header whose first byte leaves the code of the type to the second, though it would not need a
byte of its own, asks for its last byte, and no byte completes it. -/
theorem read_fieldId_never_completed :
    (seek [0x00, 0x05] 0).read Item.fieldId.reader
        = (.error (.truncated 3 2), seek [0x00, 0x05] 0) ∧
      ∀ more value after,
        (seek ([0x00, 0x05] ++ more) 0).read Item.fieldId.reader ≠ (.ok value, after) := by
  refine ⟨rfl, ?_⟩
  rintro more value after hread
  obtain ⟨rest, hrun, -⟩ := read_eq_ok_iff.mp hread
  cases more with
  | nil => cases hrun
  | cons code more => cases hrun

end Cursor

end XrpLedger
