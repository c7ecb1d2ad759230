import XrpLedger.Proofs.Object.Cursor
import XrpLedger.Proofs.Object.Streaming
import XrpLedger.Proofs.Object.Write

/-!
# Items of a buffer that grows

A cursor reads one item at a time: a number, a digest, an amount, a header, or a whole field with
all that is nested in it. All of them stream. So when a buffer grows, what was read at a position of
it is read there again, with the same value and the same number of bytes, and what failed fails
again, unless bytes were missing. As long as the last byte of an item is not there, nothing but
missing bytes is told of it.
-/

set_option autoImplicit false

namespace XrpLedger

namespace Reader

variable {α β : Type}

/-! ## What is read takes bytes -/

/-- Whether a reader takes at least one byte for every value. -/
def Shrinks (reader : Reader α) : Prop :=
  ∀ bytes a after, reader.run bytes = .ok (a, after) → after.length < bytes.length

/-- If the first step takes a byte, both steps together take one. -/
theorem Shrinks.bind {reader : Reader α} (h : reader.Shrinks) (next : α → Reader β) :
    (reader >>= next).Shrinks := by
  intro bytes b after hrun
  obtain ⟨a, middle, hfirst, hsecond⟩ := run_bind_eq_ok_iff.mp hrun
  exact Nat.lt_of_le_of_lt ((next a).length_le _ _ _ hsecond) (h _ _ _ hfirst)

/-- If the next step always takes a byte, both steps together take one. -/
theorem shrinks_bind_of_next {next : α → Reader β} (h : ∀ a, (next a).Shrinks)
    (reader : Reader α) : (reader >>= next).Shrinks := by
  intro bytes b after hrun
  obtain ⟨a, middle, hfirst, hsecond⟩ := run_bind_eq_ok_iff.mp hrun
  exact Nat.lt_of_lt_of_le (h a _ _ _ hsecond) (reader.length_le _ _ _ hfirst)

/-- Taking a positive number of bytes takes a byte. -/
theorem shrinks_take {n : Nat} (hn : 0 < n) : (take n).Shrinks := by
  intro bytes a after hrun
  rw [run_take_eq_ok_iff.mp hrun, List.length_append, a.length_toList]
  omega

/-- A length takes at least the first byte of its marker. -/
theorem shrinks_length : length.Shrinks :=
  fun _ _ _ => LengthMarker.length_lt_of_decode

end Reader

namespace Cursor

/-! ## Reads at a position -/

section

variable {α : Type} {reader : Reader α} {buffer : Bytes} {position : Nat}

/-- A read that succeeds does so in any larger buffer, with the same value and as many bytes. -/
theorem read_seek_append_of_ok (h : reader.Streams) (hposition : position ≤ buffer.length) {a : α}
    {after : Cursor} (hread : (seek buffer position).read reader = (.ok a, after)) (more : Bytes) :
    ∃ count, after = seek buffer (position + count) ∧ position + count ≤ buffer.length ∧
      (seek (buffer ++ more) position).read reader
        = (.ok a, seek (buffer ++ more) (position + count)) := by
  obtain ⟨rest, hrun, rfl⟩ := read_eq_ok_iff.mp hread
  have hmore := (h _).value hrun more
  have hrest := List.suffix_iff_eq_drop.mp ((h _).suffix hrun)
  have hlength := reader.length_le _ _ _ hrun
  rw [← rest_seek_append hposition] at hmore
  simp only [seek] at hrest hlength ⊢
  -- the value took all the bytes from the position on but those that are left
  refine ⟨(buffer.drop position).length - rest.length, ?_, ?_, ?_⟩
  · rw [← List.drop_drop, ← hrest]
  · rw [List.length_drop]
    omega
  · refine read_seek_eq_ok_iff.mpr ⟨rest ++ more, hmore, ?_, ?_⟩
    · rw [List.drop_append_of_le_length hposition, List.drop_append_of_le_length (Nat.sub_le ..),
        ← hrest]
    · rw [List.drop_append_of_le_length hposition, List.length_append]
      omega

/-- A read that fails for good does so in any larger buffer, with the same error. -/
theorem read_seek_append_of_error (h : reader.Streams) (hposition : position ≤ buffer.length)
    {e : CodecError} {after : Cursor}
    (hread : (seek buffer position).read reader = (.error e, after))
    (hlasting : e.isRecoverable = false) (more : Bytes) :
    (seek (buffer ++ more) position).read reader
      = (.error e, seek (buffer ++ more) position) := by
  obtain ⟨hrun, -⟩ := read_eq_error_iff.mp hread
  refine read_eq_error_iff.mpr ⟨?_, rfl⟩
  rw [rest_seek_append hposition]
  exact (h _).error hrun hlasting more

/-- If a read takes the whole of a buffer from a position on, then it asks for bytes as long as some
of the buffer are missing. -/
theorem read_seek_of_strict_prefix (h : reader.Streams) (hposition : position ≤ buffer.length)
    {more : Bytes} (hmore : more ≠ []) {a : α}
    (hread : (seek (buffer ++ more) position).read reader
      = (.ok a, seek (buffer ++ more) (buffer ++ more).length)) :
    ∃ needed available,
      (seek buffer position).read reader
        = (.error (.truncated needed available), seek buffer position) := by
  obtain ⟨rest, hrun, hafter⟩ := read_eq_ok_iff.mp hread
  have hrest : rest = [] := by
    have heq := congrArg Cursor.rest hafter
    simpa [seek] using heq.symm
  rw [hrest, rest_seek_append hposition] at hrun
  obtain ⟨needed, available, hfails⟩ := h.truncated_of_append hmore hrun
  exact ⟨needed, available, read_eq_error_iff.mpr ⟨hfails, rfl⟩⟩

end

/-- The encoding of a field that can stand on the wire is read as a whole. -/
theorem run_field_of_toBytes {id : FieldId} {v : Value} {bytes : Bytes}
    (hwell : (Object.mk [(id, v)]).WellFormed) (hbytes : (Object.mk [(id, v)]).toBytes = .ok bytes) :
    Reader.field.run bytes = .ok ((id, v), []) := by
  obtain ⟨⟨htype, hregular, -⟩, ⟨hid, hproper, -⟩, hdepth⟩ := hwell
  rw [Value.fieldsDepth, Value.fieldsDepth, Nat.max_zero] at hdepth
  obtain ⟨-, rfl⟩ := Object.toBytes_eq_ok_iff.mp hbytes
  exact Reader.run_field_eq_ok_iff.mpr ⟨hid, ⟨htype, hregular, hproper, hdepth⟩, rfl⟩

/-! ## Single items -/

namespace Item

/-- Every item streams. -/
theorem streams (item : Item) : item.reader.Streams := by
  cases item with
  | uint8 => exact Reader.streams_number 1 UInt8.ofNat
  | uint16 => exact Reader.streams_number 2 UInt16.ofNat
  | uint32 => exact Reader.streams_number 4 UInt32.ofNat
  | uint64 => exact Reader.streams_number 8 UInt64.ofNat
  | hash128 => exact Reader.streams_take 16
  | hash160 => exact Reader.streams_take 20
  | hash256 => exact Reader.streams_take 32
  | amount => exact Reader.streams_amount
  | length => exact Reader.streams_length
  | blob => exact Reader.streams_blob
  | account => exact Reader.streams_account
  | vector256 => exact Reader.streams_vector256
  | fieldId => exact Reader.streams_fieldId
  | field => exact Reader.streams_field

/-- Every item takes at least one byte. -/
theorem shrinks (item : Item) : item.reader.Shrinks := by
  cases item with
  | uint8 => exact (Reader.shrinks_take (n := 1) (by decide)).bind _
  | uint16 => exact (Reader.shrinks_take (n := 2) (by decide)).bind _
  | uint32 => exact (Reader.shrinks_take (n := 4) (by decide)).bind _
  | uint64 => exact (Reader.shrinks_take (n := 8) (by decide)).bind _
  | hash128 => exact Reader.shrinks_take (by decide)
  | hash160 => exact Reader.shrinks_take (by decide)
  | hash256 => exact Reader.shrinks_take (by decide)
  | amount =>
    refine Reader.shrinks_bind_of_next (fun word => ?_) _
    split
    · exact (Reader.shrinks_take (n := 48) (by decide)).bind _
    · exact (Reader.shrinks_take (n := 8) (by decide)).bind _
  | length => exact Reader.shrinks_length
  | blob => exact Reader.shrinks_length.bind _
  | account => exact Reader.shrinks_length.bind _
  | vector256 => exact Reader.shrinks_length.bind _
  | fieldId => exact fun _ _ _ => FieldId.length_lt_of_decodeHeader
  | field => exact fun _ _ _ => Reader.length_lt_of_field

end Item

/-- When a buffer grows, an item that was read at a position is read there again as the same value
from the same bytes, and an error that was met there is met again, unless it asked for bytes. So
without the last of its bytes an item is asked for more of them, and so is the encoding of any field
that can stand on the wire. -/
theorem read_seek_append (item : Item) (buffer more : Bytes) (position : Nat)
    (hposition : position ≤ buffer.length) :
    (∀ value after, (seek buffer position).read item.reader = (.ok value, after) →
      ∃ count, after = seek buffer (position + count) ∧ position + count ≤ buffer.length ∧
        (seek (buffer ++ more) position).read item.reader
          = (.ok value, seek (buffer ++ more) (position + count))) ∧
    (∀ e after, (seek buffer position).read item.reader = (.error e, after) →
      (∀ needed available, e ≠ .truncated needed available) →
        (seek (buffer ++ more) position).read item.reader
          = (.error e, seek (buffer ++ more) position)) ∧
    (∀ value, more ≠ [] → (seek (buffer ++ more) position).read item.reader
        = (.ok value, seek (buffer ++ more) (buffer ++ more).length) →
      ∃ needed available, (seek buffer position).read item.reader
        = (.error (.truncated needed available), seek buffer position)) ∧
    ∀ id v, (Object.mk [(id, v)]).WellFormed →
      (Object.mk [(id, v)]).toBytes = .ok (buffer ++ more) → more ≠ [] →
        ∃ needed available, (seek buffer 0).read Reader.field
          = (.error (.truncated needed available), seek buffer 0) := by
  have hstreams := item.streams
  refine ⟨?_, ?_, ?_, ?_⟩
  · intro value after hread
    exact read_seek_append_of_ok hstreams hposition hread more
  · intro e after hread hlasting
    refine read_seek_append_of_error hstreams hposition hread ?_ more
    cases e with
    | truncated needed available => exact absurd rfl (hlasting needed available)
    | _ => rfl
  · intro value hmore hread
    exact read_seek_of_strict_prefix hstreams hposition hmore hread
  · intro id v hwell hbytes hmore
    obtain ⟨needed, available, hfails⟩ :=
      Reader.streams_field.truncated_of_append hmore (run_field_of_toBytes hwell hbytes)
    exact ⟨needed, available, read_eq_error_iff.mpr ⟨hfails, rfl⟩⟩

/-- A memo behind another byte is read whatever follows it, and not before its end marker is there.
-/
theorem read_seek_append_memo :
    (seek [0x24, 0xEA, 0x7D, 1, 0xAB, 0xE1, 0xFF] 1).read Reader.field
        = (.ok (.memo, .object [(.memoData, .scalar (.blob [0xAB]))]),
          seek [0x24, 0xEA, 0x7D, 1, 0xAB, 0xE1, 0xFF] 6) ∧
      ∃ needed available, (seek [0x24, 0xEA, 0x7D, 1, 0xAB] 1).read Reader.field
        = (.error (.truncated needed available), seek [0x24, 0xEA, 0x7D, 1, 0xAB] 1) := by
  have hread : (seek [0x24, 0xEA, 0x7D, 1, 0xAB, 0xE1] 1).read Reader.field
      = (.ok (.memo, .object [(.memoData, .scalar (.blob [0xAB]))]),
        seek [0x24, 0xEA, 0x7D, 1, 0xAB, 0xE1] (1 + 5)) := by
    refine read_seek_eq_ok_iff.mpr ⟨[], ?_, rfl, by decide⟩
    refine Reader.run_field_eq_ok_iff.mpr ⟨by decide, ⟨rfl, ?_, ?_, by decide⟩, by decide⟩
    · simp [Value.Regular, Value.RegularFields, Value.typeCode, Scalar.typeCode, Scalar.Fits,
        FieldId.memoData, LengthMarker.limit]
    · simp [Value.Proper, Value.ProperFields]
      decide
  constructor
  · have hgrown := read_seek_append .field [0x24, 0xEA, 0x7D, 1, 0xAB, 0xE1] [0xFF] 1 (by decide)
    obtain ⟨count, hafter, -, hagain⟩ := hgrown.1 _ _ hread
    have hcount : 6 = 1 + count := congrArg Cursor.position hafter
    rw [← hcount] at hagain
    exact hagain
  · have hgrown := read_seek_append .field [0x24, 0xEA, 0x7D, 1, 0xAB] [0xE1] 1 (by decide)
    exact hgrown.2.2.1 _ (by decide) hread

end Cursor

end XrpLedger
