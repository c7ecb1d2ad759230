import XrpLedger.Proofs.Object.Read

/-!
# Reading bytes as they arrive

A reader streams when bytes that have not arrived can not change what it tells. A value stays the
same, and so do the bytes that it took; an error stays the same unless it is a lack of bytes. So
what is one whole form is never read before its last byte is there, and until then the only
complaint is that bytes are missing.

Leaves stream by their definitions and everything built from them by its steps. The readers of
containers are taken as such steps first (`Reader.fieldsAfter_eq`, `Reader.entriesToEnd_eq`); then
they stream by induction on the bytes that are left.
-/

set_option autoImplicit false

namespace XrpLedger

namespace Reader

variable {α β : Type}

/-- Whether what a reader tells of these bytes stands when more of them come. -/
structure StreamsAt (reader : Reader α) (bytes : Bytes) : Prop where
  /-- What is left of the bytes is their end. -/
  suffix : ∀ {a rest}, reader.run bytes = .ok (a, rest) → rest <:+ bytes
  /-- A value stands, and what comes is left as well. -/
  value : ∀ {a rest}, reader.run bytes = .ok (a, rest) →
    ∀ more, reader.run (bytes ++ more) = .ok (a, rest ++ more)
  /-- An error stands unless it asks for more bytes. -/
  error : ∀ {e}, reader.run bytes = .error e → e.isRecoverable = false →
    ∀ more, reader.run (bytes ++ more) = .error e

/-- Whether bytes that have not arrived can not change what a reader tells. -/
def Streams (reader : Reader α) : Prop :=
  ∀ bytes, reader.StreamsAt bytes

/-! ## Steps -/

/-- Behind a first step that gives a value, the next one goes on with the bytes that are left. -/
theorem run_bind_of_ok {reader : Reader α} {next : α → Reader β} {a : α} {bytes rest : Bytes}
    (h : reader.run bytes = .ok (a, rest)) : (reader >>= next).run bytes = (next a).run rest := by
  simp only [bind, andThen, h]

/-- If the first step fails, both steps fail with its error. -/
theorem run_bind_of_error {reader : Reader α} {next : α → Reader β} {e : CodecError} {bytes : Bytes}
    (h : reader.run bytes = .error e) : (reader >>= next).run bytes = .error e := by
  simp only [bind, andThen, h]

/-- A value without bytes stands whatever arrives. -/
theorem streams_pure (a : α) : (pure a : Reader α).Streams := by
  intro bytes
  constructor
  · intro b rest h
    obtain ⟨-, rfl⟩ := run_pure_eq_ok_iff.mp h
    exact List.suffix_refl bytes
  · intro b rest h more
    obtain ⟨rfl, rfl⟩ := run_pure_eq_ok_iff.mp h
    rfl
  · intro e h
    cases h

/-- A failure without a look at the bytes stands whatever arrives. -/
theorem streams_fail (e : CodecError) : (fail e : Reader α).Streams := by
  intro bytes
  constructor
  · intro a rest h
    cases h
  · intro a rest h
    cases h
  · intro e' h _ more
    exact h

/-- A given outcome stands whatever arrives. -/
theorem streams_ofExcept (x : Except CodecError α) : (ofExcept x).Streams := by
  cases x with
  | error e => exact streams_fail e
  | ok a => exact streams_pure a

/-- Where the first of two steps streams, and the second where the first leaves off, both together
do. -/
theorem StreamsAt.bind {reader : Reader α} {next : α → Reader β} {bytes : Bytes}
    (h : reader.StreamsAt bytes)
    (hnext : ∀ {a rest}, reader.run bytes = .ok (a, rest) → (next a).StreamsAt rest) :
    (reader >>= next).StreamsAt bytes := by
  constructor
  · intro b rest hrun
    obtain ⟨a, middle, hfirst, hsecond⟩ := run_bind_eq_ok_iff.mp hrun
    exact ((hnext hfirst).suffix hsecond).trans (h.suffix hfirst)
  · intro b rest hrun more
    obtain ⟨a, middle, hfirst, hsecond⟩ := run_bind_eq_ok_iff.mp hrun
    rw [run_bind_of_ok (h.value hfirst more)]
    exact (hnext hfirst).value hsecond more
  · intro e hrun hlasting more
    cases hfirst : reader.run bytes with
    | error e' =>
      rw [run_bind_of_error hfirst, Except.error.injEq] at hrun
      subst hrun
      exact run_bind_of_error (h.error hfirst hlasting more)
    | ok result =>
      obtain ⟨a, middle⟩ := result
      rw [run_bind_of_ok hfirst] at hrun
      rw [run_bind_of_ok (h.value hfirst more)]
      exact (hnext hfirst).error hrun hlasting more

/-- Two readers that stream do so one after the other. -/
theorem Streams.bind {reader : Reader α} {next : α → Reader β} (h : reader.Streams)
    (hnext : ∀ a, (next a).Streams) : (reader >>= next).Streams :=
  fun bytes => (h bytes).bind fun _ => hnext _ _

/-- What is made of a value streams as the value does. -/
theorem Streams.map {reader : Reader α} (h : reader.Streams) (f : α → β) :
    (f <$> reader).Streams :=
  h.bind fun a => streams_pure (f a)

/-- Looking at a value streams as taking it does. -/
theorem Streams.peek {reader : Reader α} (h : reader.Streams) : (peek reader).Streams := by
  intro bytes
  constructor
  · intro a rest hrun
    obtain ⟨-, rfl⟩ := run_peek_eq_ok_iff.mp hrun
    exact List.suffix_refl bytes
  · intro a rest hrun more
    obtain ⟨⟨after, hread⟩, rfl⟩ := run_peek_eq_ok_iff.mp hrun
    exact run_peek_eq_ok_iff.mpr ⟨⟨_, (h bytes).value hread more⟩, rfl⟩
  · intro e hrun hlasting more
    have hread : ∀ bytes, (Reader.peek reader).run bytes = .error e ↔ reader.run bytes = .error e := by
      intro bytes
      cases hread : reader.run bytes <;> simp [Reader.peek, hread, Except.map]
    exact (hread _).mpr ((h bytes).error ((hread _).mp hrun) hlasting more)

/-! ## Leaves -/

/-- Taking a number of bytes streams. -/
theorem streams_take (n : Nat) : (take n).Streams := by
  intro bytes
  constructor
  · intro a rest h
    exact ⟨a.toList, (run_take_eq_ok_iff.mp h).symm⟩
  · intro a rest h more
    rw [run_take_eq_ok_iff, ← List.append_assoc, ← run_take_eq_ok_iff.mp h]
  · intro e h hlasting
    -- nothing but a lack of bytes is an error
    simp only [take] at h
    split at h
    · cases h
    · cases h
      cases hlasting

/-- Reading a header streams. -/
theorem streams_fieldId : fieldId.Streams := by
  intro bytes
  constructor
  · intro field rest h
    exact ⟨field.header, (FieldId.decodeHeader_eq_ok_iff.mp h).2.symm⟩
  · intro field rest h more
    obtain ⟨hcode, rfl⟩ := FieldId.decodeHeader_eq_ok_iff.mp h
    rw [List.append_assoc]
    exact FieldId.decodeHeader_header_append hcode (rest ++ more)
  · intro e h hlasting more
    exact FieldId.decodeHeader_append_of_error h hlasting more

/-- Reading a marker streams. -/
theorem streams_length : length.Streams := by
  intro bytes
  constructor
  · intro n rest h
    obtain ⟨marker, -, rfl⟩ := LengthMarker.decode_eq_ok_iff.mp h
    exact List.suffix_append marker rest
  · intro n rest h more
    obtain ⟨marker, hmarker, rfl⟩ := LengthMarker.decode_eq_ok_iff.mp h
    rw [List.append_assoc]
    exact LengthMarker.decode_append_of_encode hmarker (rest ++ more)
  · intro e h hlasting more
    exact LengthMarker.decode_append_of_error h hlasting more

/-- Reading a number of any width streams. -/
theorem streams_number (width : Nat) (ofNat : Nat → α) :
    (take width >>= fun taken => pure (ofNat taken.toNat)).Streams :=
  (streams_take width).bind fun _ => streams_pure _

/-- The first word tells how many bytes an amount takes, and is not judged before they are there. -/
theorem streams_amount : amount.Streams := by
  refine (streams_take 8).peek.bind fun word => ?_
  split
  · refine (streams_take 48).bind fun taken => ?_
    exact (streams_ofExcept _).bind fun _ => streams_pure _
  · refine (streams_take 8).bind fun taken => ?_
    exact (streams_ofExcept _).bind fun _ => streams_pure _

/-- Reading a byte string behind its length streams. -/
theorem streams_blob : blob.Streams := by
  refine streams_length.bind fun n => ?_
  exact (streams_take n).bind fun _ => streams_pure _

/-- Reading an account behind its length streams. -/
theorem streams_account : account.Streams := by
  refine streams_length.bind fun n => ?_
  split
  · exact (streams_take 20).bind fun _ => streams_pure _
  · exact streams_fail _

/-- Reading a list of digests behind its length streams. -/
theorem streams_vector256 : vector256.Streams := by
  refine streams_length.bind fun n => ?_
  split
  · exact streams_fail _
  · exact (streams_take n).bind fun _ => streams_ofExcept _

/-- Reading the scalar of any field streams. -/
theorem streams_scalar (field : FieldId) : (scalar field).Streams := by
  unfold scalar
  cases field.typeCode with
  | uint8 => exact (streams_number 1 UInt8.ofNat).map _
  | uint16 => exact (streams_number 2 UInt16.ofNat).map _
  | uint32 => exact (streams_number 4 UInt32.ofNat).map _
  | uint64 => exact (streams_number 8 UInt64.ofNat).map _
  | hash128 => exact (streams_take 16).map _
  | hash160 => exact (streams_take 20).map _
  | hash256 => exact (streams_take 32).map _
  | amount => exact streams_amount.map _
  | blob => exact streams_blob.map _
  | accountId => exact streams_account.map _
  | vector256 => exact streams_vector256.map _
  | pathSet => exact streams_fail _
  | object => exact streams_fail _
  | array => exact streams_fail _

/-! ## Containers -/

/-- Readers that tell the same of all bytes are the same. -/
theorem ext {r r' : Reader α} (h : ∀ bytes, r.run bytes = r'.run bytes) : r = r' := by
  cases r
  cases r'
  congr
  funext bytes
  exact h bytes

/-- Takes the fields of an inner object that stand behind the field `last`, and the end marker. -/
def fieldsAfter (value : FieldId → Reader Value) (last : Option FieldId) :
    Reader (List (FieldId × Value)) where
  run := runFieldsToEnd value last
  length_le bytes fields after h :=
    Nat.le_of_lt (length_lt_of_runFieldsToEnd value last bytes fields after h)

/-- Fields are taken one by one: the header, then the value, then the order is looked at. -/
theorem fieldsAfter_eq (value : FieldId → Reader Value) (last : Option FieldId) :
    fieldsAfter value last = (do
      let field ← fieldId
      if field = .objectEnd then return []
      else if field = .arrayEnd then fail (.mismatch .arrayEndInObject)
      else
        let v ← value field
        ofExcept (ascends last field)
        return (field, v) :: (← fieldsAfter value (some field))) := by
  apply ext
  intro bytes
  show runFieldsToEnd value last bytes = _
  -- both sides go the same way, by the header, the value, its order and the other fields
  rw [runFieldsToEnd]
  split
  · next e header => exact (run_bind_of_error (show fieldId.run bytes = _ from header)).symm
  · next field rest header =>
    rw [run_bind_of_ok (show fieldId.run bytes = _ from header)]
    by_cases hobject : field = .objectEnd
    · rw [if_pos hobject, if_pos hobject]
      rfl
    rw [if_neg hobject, if_neg hobject]
    by_cases harray : field = .arrayEnd
    · rw [if_pos harray, if_pos harray]
      rfl
    rw [if_neg harray, if_neg harray]
    split
    · next e found => exact (run_bind_of_error found).symm
    · next v rest' found =>
      rw [run_bind_of_ok found]
      split
      · next e hascends => rw [hascends]; rfl
      · next hascends =>
        rw [hascends]
        show _ = (fieldsAfter value (some field) >>= fun fields => pure ((field, v) :: fields)).run _
        have hrun : (fieldsAfter value (some field)).run rest'
            = runFieldsToEnd value (some field) rest' := rfl
        split
        · next e hrest => rw [run_bind_of_error (hrun.trans hrest)]
        · next fields after hrest =>
          rw [run_bind_of_ok (hrun.trans hrest)]
          rfl

/-- Entries are taken one by one: the header, then the fields and their end marker. -/
theorem entriesToEnd_eq (object : Reader (List (FieldId × Value))) :
    entriesToEnd object = (do
      let field ← fieldId
      if field = .arrayEnd then return []
      else if field.typeCode ≠ .object ∨ field = .objectEnd then
        fail (.mismatch (.arrayEntry field))
      else
        let fields ← object
        return (field, fields) :: (← entriesToEnd object)) := by
  apply ext
  intro bytes
  show runEntriesToEnd object bytes = _
  -- both sides go the same way, by the header, the fields of the entry and the other entries
  rw [runEntriesToEnd]
  split
  · next e header => exact (run_bind_of_error (show fieldId.run bytes = _ from header)).symm
  · next field rest header =>
    rw [run_bind_of_ok (show fieldId.run bytes = _ from header)]
    by_cases harray : field = .arrayEnd
    · rw [if_pos harray, if_pos harray]
      rfl
    rw [if_neg harray, if_neg harray]
    by_cases hentry : field.typeCode ≠ .object ∨ field = .objectEnd
    · rw [if_pos hentry, if_pos hentry]
      rfl
    rw [if_neg hentry, if_neg hentry]
    split
    · next e found => exact (run_bind_of_error found).symm
    · next fields rest' found =>
      rw [run_bind_of_ok found]
      have hrun : (entriesToEnd object).run rest' = runEntriesToEnd object rest' := rfl
      split
      · next e hrest => rw [run_bind_of_error (hrun.trans hrest)]
      · next entries after hrest =>
        rw [run_bind_of_ok (hrun.trans hrest)]
        rfl

variable {value : FieldId → Reader Value} {object : Reader (List (FieldId × Value))}

/-- The fields of an object stream if their values do. -/
theorem streams_fieldsAfter (hvalue : ∀ field, (value field).Streams) (last : Option FieldId) :
    (fieldsAfter value last).Streams := by
  intro bytes
  induction hlength : bytes.length using Nat.strongRecOn generalizing last bytes with
  | ind length ih =>
    rw [fieldsAfter_eq]
    -- a header takes bytes, so that fewer are left for the fields behind it
    refine (streams_fieldId bytes).bind fun {field rest} header => ?_
    have hheader := FieldId.length_lt_of_decodeHeader header
    split
    · exact streams_pure _ _
    split
    · exact streams_fail _ _
    refine (hvalue field rest).bind fun {v rest'} found => ?_
    have hfound := (value field).length_le _ _ _ found
    refine (streams_ofExcept _ rest').bind fun {_ rest''} hascends => ?_
    obtain ⟨-, rfl⟩ := run_ofExcept_eq_ok_iff.mp hascends
    refine (ih rest'.length (by omega) (some field) rest' rfl).bind fun _ => ?_
    exact streams_pure _ _

/-- The entries of an array stream if their fields do. -/
theorem streams_entriesToEnd (hobject : object.Streams) : (entriesToEnd object).Streams := by
  intro bytes
  induction hlength : bytes.length using Nat.strongRecOn generalizing bytes with
  | ind length ih =>
    rw [entriesToEnd_eq]
    refine (streams_fieldId bytes).bind fun {field rest} header => ?_
    have hheader := FieldId.length_lt_of_decodeHeader header
    split
    · exact streams_pure _ _
    split
    · exact streams_fail _ _
    refine (hobject rest).bind fun {fields rest'} found => ?_
    have hfound := object.length_le _ _ _ found
    refine (ih rest'.length (by omega) rest' rfl).bind fun _ => ?_
    exact streams_pure _ _

/-- The value of any field streams, whatever room there is for containers in it. -/
theorem streams_valueOf (room : Nat) (field : FieldId) : (valueOf room field).Streams := by
  -- the entries of an array take a second level of room at once
  induction room using Nat.strongRecOn generalizing field with
  | ind room ih =>
    by_cases hobject : field.typeCode = .object
    · cases room with
      | zero =>
        rw [valueOf, hobject]
        exact streams_fail _
      | succ room =>
        rw [valueOf_object hobject]
        exact (streams_fieldsAfter (ih room (Nat.lt_succ_self room)) none).map _
    by_cases harray : field.typeCode = .array
    · rcases room with _ | _ | room
      · rw [valueOf, harray]
        exact streams_fail _
      · rw [valueOf, harray]
        exact (streams_entriesToEnd (streams_fail _)).map _
      · rw [valueOf, harray]
        exact (streams_entriesToEnd (streams_fieldsAfter (ih room (by omega)) none)).map _
    rw [valueOf_of_ne hobject harray]
    exact (streams_scalar field).map _

/-- Reading a whole field streams. -/
theorem streams_field : field.Streams := by
  refine streams_fieldId.bind fun id => ?_
  split
  · exact streams_fail _
  · exact (streams_valueOf depthLimit id).bind fun _ => streams_pure _

/-- Bytes that a reader takes as a whole are too few for it without the last of them. -/
theorem Streams.truncated_of_append {reader : Reader α} (h : reader.Streams) {a : α}
    {bytes more : Bytes} (hmore : more ≠ []) (hwhole : reader.run (bytes ++ more) = .ok (a, [])) :
    ∃ needed available, reader.run bytes = .error (.truncated needed available) := by
  cases hrun : reader.run bytes with
  | ok result =>
    obtain ⟨b, rest⟩ := result
    -- then the bytes that come would be left
    have hleft := (h bytes).value hrun more
    rw [hwhole, Except.ok.injEq, Prod.mk.injEq] at hleft
    exact absurd (List.append_eq_nil_iff.mp hleft.2.symm).2 hmore
  | error e =>
    by_cases hlasting : e.isRecoverable = false
    · have hfails := (h bytes).error hrun hlasting more
      rw [hwhole] at hfails
      cases hfails
    · cases e with
      | truncated needed available => exact ⟨needed, available, rfl⟩
      | _ => exact absurd rfl hlasting

/-! ## Looking at the next bytes only -/

/-- Whether a reader never asks for more than `width` bytes. -/
def Within (reader : Reader α) (width : Nat) : Prop :=
  ∀ {bytes e}, reader.run bytes = .error e → e.isRecoverable = true → bytes.length < width

/-- Taking a number of bytes never asks for more than these. -/
theorem within_take (n : Nat) : (take n).Within n := by
  intro bytes e h _
  simp only [take] at h
  split at h
  · cases h
  · next hlength =>
    rw [List.length_take] at hlength
    omega

/-- A reader that asks for no more than `width` bytes tells from these what there is to tell. -/
theorem Streams.run_eq {reader : Reader α} (h : reader.Streams) {width : Nat}
    (hwithin : reader.Within width) (bytes : Bytes) :
    reader.run bytes = match reader.run (bytes.take width) with
      | .ok (a, rest) => .ok (a, rest ++ bytes.drop width)
      | .error e => .error e := by
  cases hrun : reader.run (bytes.take width) with
  | ok result =>
    obtain ⟨a, rest⟩ := result
    have hmore := (h _).value hrun (bytes.drop width)
    rwa [List.take_append_drop] at hmore
  | error e =>
    by_cases hlasting : e.isRecoverable = false
    · have hmore := (h _).error hrun hlasting (bytes.drop width)
      rwa [List.take_append_drop] at hmore
    · -- then the bytes end before the window does
      have hshort := hwithin hrun (Bool.eq_true_of_not_eq_false hlasting)
      rw [List.length_take] at hshort
      rwa [List.take_of_length_le (by omega)] at hrun

/-! ## Fields up to the end of the bytes -/

/-- Takes the fields that are left, after the field `last`. -/
def fieldsLeft (last : Option FieldId) : Reader (List (FieldId × Value)) where
  run bytes := (runFields last bytes).map fun fields => (fields, [])
  length_le bytes fields after h := by
    obtain ⟨_, -, heq⟩ := map_eq_ok_iff.mp h
    cases heq
    exact Nat.zero_le _

/-- Where no bytes are left, there are no more fields. -/
theorem run_fieldsLeft_nil (last : Option FieldId) :
    (fieldsLeft last).run [] = .ok ([], []) := by
  show (runFields last []).map _ = _
  rw [runFields, if_pos rfl]
  rfl

/-- Fields are taken one by one: a field, then the order is looked at. -/
theorem run_fieldsLeft {bytes : Bytes} (hbytes : bytes ≠ []) (last : Option FieldId) :
    (fieldsLeft last).run bytes = (do
      let (id, v) ← field
      ofExcept (ascends last id)
      return (id, v) :: (← fieldsLeft (some id)) : Reader (List (FieldId × Value))).run bytes := by
  show (runFields last bytes).map _ = _
  rw [runFields, if_neg hbytes]
  split
  · next e found => exact (run_bind_of_error found).symm
  · next id v rest found =>
    rw [run_bind_of_ok found]
    simp only
    split
    · next e hascends =>
      rw [hascends]
      rfl
    · next hascends =>
      rw [hascends]
      show _ = (fieldsLeft (some id) >>= fun fields => pure ((id, v) :: fields)).run rest
      cases hrest : runFields (some id) rest with
      | error e =>
        have hrun : (fieldsLeft (some id)).run rest = .error e := by
          simp [fieldsLeft, hrest, Except.map]
        rw [run_bind_of_error hrun]
        rfl
      | ok fields =>
        have hrun : (fieldsLeft (some id)).run rest = .ok (fields, []) := by
          simp [fieldsLeft, hrest, Except.map]
        rw [run_bind_of_ok hrun]
        rfl

/-- A whole object is the fields that are left when none was read before. -/
theorem run_object (bytes : Bytes) :
    Reader.object.run bytes
      = (fieldsLeft none >>= fun fields => pure (Object.mk fields)).run bytes := by
  show (runFields none bytes).map _ = _
  cases hrun : runFields none bytes with
  | error e =>
    have hfields : (fieldsLeft none).run bytes = .error e := by
      simp [fieldsLeft, hrun, Except.map]
    rw [run_bind_of_error hfields]
    rfl
  | ok fields =>
    have hfields : (fieldsLeft none).run bytes = .ok (fields, []) := by
      simp [fieldsLeft, hrun, Except.map]
    rw [run_bind_of_ok hfields]
    rfl

end Reader

end XrpLedger
