import XrpLedger.Proofs.Object.ReadScalar

/-!
# Reading at a position

A cursor at a position of a buffer sees the bytes from there on. A read of it is the reader on these
bytes: a value moves the cursor behind the bytes that it took, an error leaves it where it was. So a
reader that reads a form gives a value and moves by some bytes exactly if these are the form of the
value.
-/

set_option autoImplicit false

namespace XrpLedger

namespace Cursor

variable {α : Type} {reader : Reader α} {a : α} {buffer : Bytes} {position count : Nat}
  {cursor after : Cursor}

/-- The cursor at a position of a buffer. -/
def seek (buffer : Bytes) (position : Nat) : Cursor :=
  ⟨position, buffer.drop position⟩

/-- In front of more bytes, a cursor sees what it saw and these behind it. -/
theorem rest_seek_append (h : position ≤ buffer.length) (more : Bytes) :
    (seek (buffer ++ more) position).rest = (seek buffer position).rest ++ more :=
  List.drop_append_of_le_length h

/-- A read that succeeds moves the cursor by as many bytes as it takes. -/
theorem read_eq_ok_iff :
    cursor.read reader = (.ok a, after) ↔
      ∃ rest, reader.run cursor.rest = .ok (a, rest) ∧
        after = ⟨cursor.position + (cursor.rest.length - rest.length), rest⟩ := by
  unfold read
  cases reader.run cursor.rest with
  | error e => simp
  | ok result =>
    obtain ⟨b, rest⟩ := result
    simp only [Prod.mk.injEq, Except.ok.injEq]
    constructor
    · rintro ⟨rfl, rfl⟩
      exact ⟨rest, ⟨rfl, rfl⟩, rfl⟩
    · rintro ⟨_, ⟨rfl, rfl⟩, rfl⟩
      exact ⟨rfl, rfl⟩

/-- A read that fails leaves the cursor where it was. -/
theorem read_eq_error_iff {e : CodecError} :
    cursor.read reader = (.error e, after) ↔ reader.run cursor.rest = .error e ∧ after = cursor := by
  unfold read
  cases reader.run cursor.rest with
  | error e' => simp [eq_comm]
  | ok result => simp

/-- A read at a position moves the cursor by some bytes exactly if the reader leaves what stands
behind these. -/
theorem read_seek_eq_ok_iff :
    (seek buffer position).read reader = (.ok a, seek buffer (position + count)) ↔
      ∃ rest, reader.run (buffer.drop position) = .ok (a, rest) ∧
        rest = (buffer.drop position).drop count ∧ count ≤ (buffer.drop position).length := by
  rw [read_eq_ok_iff]
  simp only [seek, Cursor.mk.injEq, Nat.add_right_inj, ← List.drop_drop]
  constructor
  · rintro ⟨rest, hrun, hcount, hrest⟩
    refine ⟨rest, hrun, hrest.symm, ?_⟩
    omega
  · rintro ⟨rest, hrun, rfl, hcount⟩
    refine ⟨_, hrun, ?_, rfl⟩
    simp only [List.length_drop] at hcount ⊢
    omega

/-- A value is read at a position, and the cursor moved by some bytes, exactly if these are the form
of the value. -/
theorem read_seek_eq_ok_iff_of_reads {form : α → Bytes} {admits : α → Prop}
    (h : reader.Reads form admits) :
    (seek buffer position).read reader = (.ok a, seek buffer (position + count)) ↔
      admits a ∧ count ≤ (buffer.drop position).length ∧
        (buffer.drop position).take count = form a := by
  rw [read_seek_eq_ok_iff]
  constructor
  · rintro ⟨rest, hrun, rfl, hcount⟩
    obtain ⟨hadmits, hbytes⟩ := (h _ _ _).mp hrun
    refine ⟨hadmits, hcount, ?_⟩
    have hsplit := List.take_append_drop count (buffer.drop position)
    exact List.append_cancel_right (hsplit.trans hbytes)
  · rintro ⟨hadmits, hcount, hform⟩
    refine ⟨_, (h _ _ _).mpr ⟨hadmits, ?_⟩, rfl, hcount⟩
    rw [← hform, List.take_append_drop]

end Cursor

end XrpLedger
