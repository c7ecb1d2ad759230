import XrpLedger.Proofs.Object.Call
import XrpLedger.Proofs.Object.WellFormed

/-!
# Writing objects

What a writer writes next depends on where it stands, not on what has been written already. So the
calls of a value, with more calls behind them, come down to one piece of output and the calls
behind: they succeed exactly if the value may stand there, is of the type of its field and is
regular.

The result is `Object.toBytes_eq_ok_iff`: an object is written exactly if it is regular, and then as
its bytes. A writer does not ask whether fields are proper or how deep containers are nested.
-/

set_option autoImplicit false

namespace XrpLedger

namespace Writer

variable {w w' : Writer} {field : FieldId} {bytes : Bytes} {more : List Call}

/-! ## Calls behind calls -/

/-- The bytes after these calls, if all of them are carried out and nothing is left open. -/
def complete (writer : Writer) (calls : List Call) : Except CodecError Bytes :=
  match writer.carryOut calls with
  | (none, writer) => writer.finish
  | (some e, _) => .error e

/-- Calls are completed behind the first one. -/
theorem complete_cons (w : Writer) (call : Call) (more : List Call) :
    w.complete (call :: more) = w.apply call >>= fun w' => w'.complete more := by
  simp only [complete, carryOut_cons]
  cases w.apply call <;> rfl

/-- Calls succeed when the first one does and the others do after it. -/
theorem complete_cons_eq_ok_iff {call : Call} :
    w.complete (call :: more) = .ok bytes ↔
      ∃ w', w.apply call = .ok w' ∧ w'.complete more = .ok bytes := by
  rw [complete_cons, bind_eq_ok_iff]

/-- The writer with some pieces in front of what it has written. -/
def behind (writer : Writer) (earlier : List Bytes) : Writer :=
  { writer with pieces := writer.pieces ++ earlier }

/-- Noting the last field does not depend on what was written before. -/
theorem markLast_behind (w : Writer) (earlier : List Bytes) (field : FieldId) :
    (w.behind earlier).markLast field = (w.markLast field).behind earlier := by
  simp only [markLast, behind]
  cases w.opened <;> rfl

/-- Beginning a field does not depend on what was written before. -/
theorem beginField_behind (w : Writer) (earlier : List Bytes) (field : FieldId) (type : TypeCode) :
    (w.behind earlier).beginField field type = (w.beginField field type).map (·.behind earlier) := by
  have hplace : (w.behind earlier).checkPlace field type = w.checkPlace field type := rfl
  unfold beginField
  rw [hplace, markLast_behind]
  split
  · rfl
  · cases w.checkPlace field type <;> rfl

/-- Closing a container does not depend on what was written before. -/
theorem close_behind (w : Writer) (earlier : List Bytes) (container : Container)
    (marker : FieldId) :
    (w.behind earlier).close container marker = (w.close container marker).map (·.behind earlier) := by
  have hopened : (w.behind earlier).opened = w.opened := rfl
  unfold close
  rw [hopened]
  split
  · rfl
  · split
    · rfl
    · rfl

/-- No call depends on what was written before. -/
theorem apply_behind (w : Writer) (earlier : List Bytes) (call : Call) :
    (w.behind earlier).apply call = (w.apply call).map (·.behind earlier) := by
  cases call with
  | scalar field value =>
    simp only [apply, beginField_behind]
    cases value.encode with
    | error e => rfl
    | ok payload => cases w.beginField field value.typeCode <;> rfl
  | startObject field =>
    simp only [apply, start, beginField_behind]
    cases w.beginField field Container.object.typeCode <;> rfl
  | endObject => exact close_behind w earlier _ _
  | startArray field =>
    simp only [apply, start, beginField_behind]
    cases w.beginField field Container.array.typeCode <;> rfl
  | endArray => exact close_behind w earlier _ _

/-- Calls write the same whatever stands in front. -/
theorem complete_behind (w : Writer) (earlier : List Bytes) (calls : List Call) :
    (w.behind earlier).complete calls
      = (w.complete calls).map (earlier.reverse.flatten ++ ·) := by
  induction calls generalizing w with
  | nil =>
    have hopened : (w.behind earlier).opened = w.opened := rfl
    simp only [complete, carryOut, finish, hopened]
    split
    · simp [Except.map, Writer.bytes, behind]
    · rfl
  | cons call calls ih =>
    simp only [complete, carryOut_cons, apply_behind]
    cases w.apply call with
    | error e => rfl
    | ok w' => exact ih w'

/-- Only the bytes matter, not the pieces in which they were written. -/
theorem complete_congr (hbytes : w.bytes = w'.bytes) (hlast : w.last = w'.last)
    (hopened : w.opened = w'.opened) (calls : List Call) : w.complete calls = w'.complete calls := by
  obtain ⟨pieces, last, opened⟩ := w
  obtain ⟨pieces', _, _⟩ := w'
  cases hlast
  cases hopened
  have hflatten : pieces.reverse.flatten = pieces'.reverse.flatten := hbytes
  -- both writers do what one without bytes does, behind the same bytes
  have h := complete_behind ⟨[], last, opened⟩ pieces calls
  have h' := complete_behind ⟨[], last, opened⟩ pieces' calls
  rw [hflatten] at h
  exact h.trans h'.symm

/-- Bytes may be added at once or one part after the other. -/
theorem complete_append_append (w : Writer) (a b : Bytes) (calls : List Call) :
    ((w.append a).append b).complete calls = (w.append (a ++ b)).complete calls := by
  apply complete_congr
  · simp only [bytes_append, List.append_assoc]
  · rfl
  · rfl

/-- Nothing written adds nothing to the bytes. -/
theorem complete_append_nil (w : Writer) (calls : List Call) :
    (w.append []).complete calls = w.complete calls := by
  apply complete_congr
  · rw [bytes_append, List.append_nil]
  · rfl
  · rfl

/-! ## The place where a writer stands -/

/-- Whether the innermost open container, if there is one, is an object. -/
def InObject (writer : Writer) : Prop :=
  ∀ frame ∈ writer.opened.head?, frame.container = .object

/-- Whether the innermost open container is an array. -/
def InArray (writer : Writer) : Prop :=
  ∃ frame ∈ writer.opened.head?, frame.container = .array

/-- The last field written where the writer stands. -/
def lastHere (writer : Writer) : Option FieldId :=
  match writer.opened with
  | [] => writer.last
  | frame :: _ => frame.last

/-- The writer with fields marked one after another as the last ones. -/
def markAll (writer : Writer) (fields : List FieldId) : Writer :=
  fields.foldl markLast writer

/-- A field passes the check of order exactly if it follows the last one. -/
theorem checkOrder_eq_ok_iff {last : Option FieldId} :
    checkOrder last field = .ok () ↔ FieldId.Follows last field := by
  cases last with
  | none => exact iff_of_true rfl (FieldId.follows_none field)
  | some last =>
    rw [FieldId.follows_some_iff, checkOrder]
    split
    · next h => exact iff_of_true rfl h
    · next h => exact iff_of_false nofun h

/-- In an object, a field may be written exactly if it follows the last one. -/
theorem checkPlace_of_inObject (h : w.InObject) (type : TypeCode) :
    w.checkPlace field type = .ok () ↔ FieldId.Follows w.lastHere field := by
  rw [← checkOrder_eq_ok_iff]
  unfold checkPlace lastHere
  cases hopened : w.opened with
  | nil => rfl
  | cons frame rest =>
    have hobject : frame.container = .object := h frame (by rw [hopened]; rfl)
    simp only [hobject]

/-- In an array exactly the objects are in place. -/
theorem checkPlace_of_inArray (h : w.InArray) (type : TypeCode) :
    w.checkPlace field type = .ok () ↔ type = .object := by
  obtain ⟨frame, hframe, harray⟩ := h
  unfold checkPlace
  cases hopened : w.opened with
  | nil => rw [hopened] at hframe; cases hframe
  | cons frame rest =>
    rw [hopened] at hframe
    cases hframe
    simp only [harray]
    split
    · next h => exact iff_of_true rfl h
    · next h => exact iff_of_false nofun h

/-- The field that was noted is the last one where the writer stands. -/
theorem lastHere_markLast (w : Writer) (field : FieldId) :
    (w.markLast field).lastHere = some field := by
  unfold markLast lastHere
  cases w.opened <;> rfl

/-- Noting the last field does not leave an object. -/
theorem InObject.markLast (h : w.InObject) (field : FieldId) : (w.markLast field).InObject := by
  unfold InObject Writer.markLast at *
  cases hopened : w.opened with
  | nil => simp
  | cons frame rest => simpa [hopened] using h

/-- Noting the last field does not leave an array. -/
theorem InArray.markLast (h : w.InArray) (field : FieldId) : (w.markLast field).InArray := by
  unfold InArray Writer.markLast at *
  cases hopened : w.opened with
  | nil => simp [hopened] at h
  | cons frame rest => simpa [hopened] using h

/-- Fields may be noted before bytes are written or after that. -/
theorem markAll_append (w : Writer) (bytes : Bytes) (fields : List FieldId) :
    (w.append bytes).markAll fields = (w.markAll fields).append bytes := by
  have hmark : ∀ (w : Writer) (field : FieldId),
      (w.append bytes).markLast field = (w.markLast field).append bytes := by
    intro w field
    simp only [markLast, append]
    cases w.opened <;> rfl
  induction fields generalizing w with
  | nil => rfl
  | cons field rest ih =>
    simp only [markAll, List.foldl_cons, hmark] at ih ⊢
    exact ih (w.markLast field)

/-- Fields marked in a new container change nothing but its last field. -/
theorem markAll_enter (w : Writer) (container : Container) (field : FieldId)
    (fields : List FieldId) :
    ∃ last, (w.enter container field).markAll fields
      = { w with opened := ⟨container, field, last⟩ :: w.opened } := by
  have hmark : ∀ last, ∃ last',
      markAll { w with opened := ⟨container, field, last⟩ :: w.opened } fields
        = { w with opened := ⟨container, field, last'⟩ :: w.opened } := by
    induction fields with
    | nil => exact fun last => ⟨last, rfl⟩
    | cons next rest ih => exact fun last => ih (some next)
  exact hmark none

/-- Fields marked outside of every container change nothing but the last one there. -/
theorem markAll_empty (fields : List FieldId) :
    ∃ last, Writer.empty.markAll fields = ⟨[], last, []⟩ := by
  have hmark : ∀ last, ∃ last', markAll ⟨[], last, []⟩ fields = ⟨[], last', []⟩ := by
    induction fields with
    | nil => exact fun last => ⟨last, rfl⟩
    | cons next rest ih => exact fun last => ih (some next)
  exact hmark none

/-- Outside of every container nothing is left open, whatever was written there. -/
theorem complete_markAll_empty (fields : List FieldId) (bytes : Bytes) :
    ((Writer.empty.markAll fields).append bytes).complete [] = .ok bytes := by
  obtain ⟨last, hlast⟩ := markAll_empty fields
  rw [hlast]
  simp [complete, carryOut, finish, append, Writer.bytes]

/-! ## Single calls -/

/-- A field begins exactly if it is of this type and may be written here. -/
theorem beginField_eq_ok_iff {type : TypeCode} :
    w.beginField field type = .ok w' ↔
      (type = field.typeCode ∧ w.checkPlace field type = .ok ()) ∧
        (w.markLast field).append field.header = w' := by
  unfold beginField
  split
  · next h => exact iff_of_false throw_ne_ok fun ⟨⟨htype, _⟩, _⟩ => h htype.symm
  · next h =>
    have htype : type = field.typeCode := (Decidable.of_not_not h).symm
    simp only [bind_eq_ok_iff, pure_eq_ok_iff]
    constructor
    · rintro ⟨⟨⟩, hplace, hw⟩
      exact ⟨⟨htype, hplace⟩, hw⟩
    · rintro ⟨⟨-, hplace⟩, hw⟩
      exact ⟨(), hplace, hw⟩

/-- A container is started exactly if its field is of its type and in place. -/
theorem start_eq_ok_iff {container : Container} :
    w.start container field = .ok w' ↔
      (container.typeCode = field.typeCode ∧ w.checkPlace field container.typeCode = .ok ()) ∧
        ((w.markLast field).append field.header).enter container field = w' := by
  simp only [start, bind_eq_ok_iff, pure_eq_ok_iff, beginField_eq_ok_iff]
  constructor
  · rintro ⟨_, ⟨hfield, rfl⟩, rfl⟩
    exact ⟨hfield, rfl⟩
  · rintro ⟨hfield, rfl⟩
    exact ⟨_, ⟨hfield, rfl⟩, rfl⟩

/-- A container that was entered can be closed, which leaves what was written in it. -/
theorem close_enter (w : Writer) (container : Container) (field marker : FieldId)
    (fields : List FieldId) (bytes : Bytes) :
    (((w.enter container field).markAll fields).append bytes).close container marker
      = .ok ((w.append bytes).append marker.header) := by
  obtain ⟨last, hw⟩ := w.markAll_enter container field fields
  rw [hw]
  simp only [close, append, if_true]

/-- A scalar is written exactly if it is of the type of its field, may be written here and fits. -/
theorem complete_scalar_eq_ok_iff {s : Scalar} :
    w.complete (.scalar field s :: more) = .ok bytes ↔
      (s.typeCode = field.typeCode ∧ w.checkPlace field s.typeCode = .ok () ∧ s.Fits) ∧
        ((w.markLast field).append (field.header ++ s.payload)).complete more = .ok bytes := by
  simp only [complete_cons_eq_ok_iff, apply, bind_eq_ok_iff, pure_eq_ok_iff, beginField_eq_ok_iff,
    Scalar.encode_eq_ok_iff, ← complete_append_append]
  constructor
  · rintro ⟨_, ⟨_, ⟨hfits, rfl⟩, _, ⟨⟨htype, hplace⟩, rfl⟩, rfl⟩, hmore⟩
    exact ⟨⟨htype, hplace, hfits⟩, hmore⟩
  · rintro ⟨⟨htype, hplace, hfits⟩, hmore⟩
    exact ⟨_, ⟨_, ⟨hfits, rfl⟩, _, ⟨⟨htype, hplace⟩, rfl⟩, rfl⟩, hmore⟩

/-- The call that opens an object starts one. -/
theorem apply_startObject (field : FieldId) (w : Writer) :
    w.apply (.startObject field) = w.start .object field := rfl

/-- The call that closes an object closes one with its end marker. -/
theorem apply_endObject (w : Writer) : w.apply .endObject = w.close .object .objectEnd := rfl

/-- The call that opens an array starts one. -/
theorem apply_startArray (field : FieldId) (w : Writer) :
    w.apply (.startArray field) = w.start .array field := rfl

/-- The call that closes an array closes one with its end marker. -/
theorem apply_endArray (w : Writer) : w.apply .endArray = w.close .array .arrayEnd := rfl

/-- A container starts, before more calls, exactly if it may be written here. -/
theorem complete_start_eq_ok_iff {container : Container} {call : Call}
    (hcall : ∀ w : Writer, w.apply call = w.start container field) :
    w.complete (call :: more) = .ok bytes ↔
      (container.typeCode = field.typeCode ∧ w.checkPlace field container.typeCode = .ok ()) ∧
        (((w.markLast field).append field.header).enter container field).complete more
          = .ok bytes := by
  simp only [complete_cons_eq_ok_iff, hcall, start_eq_ok_iff]
  constructor
  · rintro ⟨_, ⟨hfield, rfl⟩, hmore⟩
    exact ⟨hfield, hmore⟩
  · rintro ⟨hfield, hmore⟩
    exact ⟨_, ⟨hfield, rfl⟩, hmore⟩

/-- The end of a container stands behind what was written in it. -/
theorem complete_close {container : Container} {marker : FieldId} {call : Call}
    (hcall : ∀ w : Writer, w.apply call = w.close container marker) (w : Writer) (field : FieldId)
    (fields : List FieldId) (written : Bytes) (more : List Call) :
    (((w.enter container field).markAll fields).append written).complete (call :: more)
      = (w.append (written ++ marker.header)).complete more := by
  rw [← complete_append_append, complete, carryOut_cons, hcall, close_enter]
  rfl

/-! ## The calls of values -/

/-- In a new object, the innermost container is an object. -/
theorem inObject_enter (w : Writer) (field : FieldId) : (w.enter .object field).InObject := by
  rintro _ ⟨⟩
  rfl

/-- In a new array, the innermost container is an array. -/
theorem inArray_enter (w : Writer) (field : FieldId) : (w.enter .array field).InArray :=
  ⟨_, rfl, rfl⟩

mutual

/-- A value is written exactly if it may stand here, is of the type of its field and is regular. -/
theorem complete_calls_eq_ok_iff (v : Value) (w : Writer) (field : FieldId) (more : List Call)
    (bytes : Bytes) :
    w.complete (Value.calls field v ++ more) = .ok bytes ↔
      (v.typeCode = field.typeCode ∧ w.checkPlace field v.typeCode = .ok () ∧ v.Regular) ∧
        ((w.markLast field).append (field.header ++ v.payload)).complete more = .ok bytes := by
  match v with
  | .scalar s =>
    rw [Value.payload, Value.Regular]
    exact complete_scalar_eq_ok_iff
  | .object fields =>
    have hfields := complete_fieldCalls_eq_ok_iff fields
      (((w.markLast field).append field.header).enter .object field) (inObject_enter _ _)
      (.endObject :: more) bytes
    rw [complete_close apply_endObject, complete_append_append] at hfields
    simp only [Value.calls, List.cons_append, List.append_assoc, List.nil_append,
      complete_start_eq_ok_iff (apply_startObject field), hfields, Value.payload, Value.Regular]
    constructor
    · rintro ⟨⟨htype, hplace⟩, ⟨-, hregular⟩, hmore⟩
      exact ⟨⟨htype, hplace, hregular⟩, hmore⟩
    · rintro ⟨⟨htype, hplace, hregular⟩, hmore⟩
      exact ⟨⟨htype, hplace⟩, ⟨fun entry _ => FieldId.follows_none entry.1, hregular⟩, hmore⟩
  | .array entries =>
    have hentries := complete_entryCalls_eq_ok_iff entries
      (((w.markLast field).append field.header).enter .array field) (inArray_enter _ _)
      (.endArray :: more) bytes
    rw [complete_close apply_endArray, complete_append_append] at hentries
    simp only [Value.calls, List.cons_append, List.append_assoc, List.nil_append,
      complete_start_eq_ok_iff (apply_startArray field), hentries, Value.payload, Value.Regular]
    constructor
    · rintro ⟨⟨htype, hplace⟩, hregular, hmore⟩
      exact ⟨⟨htype, hplace, hregular⟩, hmore⟩
    · rintro ⟨⟨htype, hplace, hregular⟩, hmore⟩
      exact ⟨⟨htype, hplace⟩, hregular, hmore⟩

/-- Fields are written exactly if they follow the last one and are regular, and then as their bytes.
-/
theorem complete_fieldCalls_eq_ok_iff (fields : List (FieldId × Value)) (w : Writer)
    (hw : w.InObject) (more : List Call) (bytes : Bytes) :
    w.complete (Value.fieldCalls fields ++ more) = .ok bytes ↔
      ((∀ entry ∈ fields, FieldId.Follows w.lastHere entry.1) ∧ Value.RegularFields fields) ∧
        ((w.markAll (fields.map (·.1))).append (Value.fieldBytes fields)).complete more
          = .ok bytes := by
  match fields with
  | [] =>
    simp [Value.fieldCalls, Value.RegularFields, Value.fieldBytes, markAll, complete_append_nil]
  | (field, v) :: rest =>
    -- the rest is written behind this field, which is the last one there
    have hrest := complete_fieldCalls_eq_ok_iff rest
      ((w.markLast field).append (field.header ++ v.payload)) (hw.markLast field) more bytes
    rw [markAll_append, complete_append_append] at hrest
    have hlast : ((w.markLast field).append (field.header ++ v.payload)).lastHere = some field :=
      lastHere_markLast w field
    simp only [Value.fieldCalls, List.append_assoc, complete_calls_eq_ok_iff v, hrest, hlast,
      checkPlace_of_inObject hw, FieldId.follows_some_iff, Value.RegularFields, Value.fieldBytes]
    constructor
    · rintro ⟨⟨htype, hfollows, hregular⟩, ⟨hlater, hregulars⟩, hmore⟩
      exact ⟨⟨(FieldId.follows_cons_iff hlater).mpr hfollows, htype, hregular, hlater, hregulars⟩,
        hmore⟩
    · rintro ⟨⟨hfollows, htype, hregular, hlater, hregulars⟩, hmore⟩
      exact ⟨⟨htype, (FieldId.follows_cons_iff hlater).mp hfollows, hregular⟩,
        ⟨hlater, hregulars⟩, hmore⟩

/-- Entries are written in an array exactly if they are regular. -/
theorem complete_entryCalls_eq_ok_iff (entries : List (FieldId × List (FieldId × Value)))
    (w : Writer) (hw : w.InArray) (more : List Call) (bytes : Bytes) :
    w.complete (Value.entryCalls entries ++ more) = .ok bytes ↔
      Value.RegularEntries entries ∧
        ((w.markAll (entries.map (·.1))).append (Value.entryBytes entries)).complete more
          = .ok bytes := by
  match entries with
  | [] =>
    simp [Value.entryCalls, Value.RegularEntries, Value.entryBytes, markAll, complete_append_nil]
  | (field, fields) :: rest =>
    -- the fields are followed by the end of the entry, the other entries and whatever comes then
    have hfields := complete_fieldCalls_eq_ok_iff fields
      (((w.markLast field).append field.header).enter .object field) (inObject_enter _ _)
      (.endObject :: (Value.entryCalls rest ++ more)) bytes
    rw [complete_close apply_endObject, complete_append_append] at hfields
    have hrest := complete_entryCalls_eq_ok_iff rest
      ((w.markLast field).append
        (field.header ++ (Value.fieldBytes fields ++ FieldId.objectEnd.header)))
      (hw.markLast field) more bytes
    rw [markAll_append, complete_append_append] at hrest
    simp only [Value.entryCalls, List.cons_append, List.append_assoc,
      complete_start_eq_ok_iff (apply_startObject field), hfields]
    simp only [List.append_assoc] at hrest
    simp only [hrest, checkPlace_of_inArray hw, Value.RegularEntries, Value.entryBytes]
    constructor
    · rintro ⟨⟨htype, -⟩, ⟨-, hregular⟩, hregulars, hmore⟩
      exact ⟨⟨htype.symm, hregular, hregulars⟩, hmore⟩
    · rintro ⟨⟨htype, hregular, hregulars⟩, hmore⟩
      exact ⟨⟨htype.symm, rfl⟩, ⟨fun entry _ => FieldId.follows_none entry.1, hregular⟩, hregulars,
        hmore⟩

end

end Writer

namespace Object

/-- An object is written exactly if it is regular, and then as its bytes. -/
theorem toBytes_eq_ok_iff {object : Object} {bytes : Bytes} :
    object.toBytes = .ok bytes ↔
      Value.RegularFields object.fields ∧ bytes = Value.fieldBytes object.fields := by
  have h := Writer.complete_fieldCalls_eq_ok_iff object.fields Writer.empty nofun [] bytes
  rw [List.append_nil, Writer.complete_markAll_empty] at h
  refine (show object.toBytes = .ok bytes ↔ _ from h).trans ?_
  simp only [Except.ok.injEq]
  constructor
  · rintro ⟨⟨-, hregular⟩, hbytes⟩
    exact ⟨hregular, hbytes.symm⟩
  · rintro ⟨hregular, hbytes⟩
    exact ⟨⟨fun entry _ => FieldId.follows_none entry.1, hregular⟩, hbytes.symm⟩

end Object

end XrpLedger
