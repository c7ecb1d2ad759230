import XrpLedger.Proofs.Object.Reading

/-!
# Where calls leave a scanner

Every call either fails where it stands or moves the position on, over the bytes of what it gives
(`Scanner.step_read_cases` and its companions). So by induction on the calls the position is one of
the buffer after any of them.
-/

set_option autoImplicit false

namespace XrpLedger

namespace Scanner

variable {s : Scanner}

/-! ## One call -/

/-- Reading an item is one read of the cursor at the position. -/
theorem step_read (hs : s.InBounds) (item : Cursor.Item) :
    s.step (.read item) = ((s.cursor.read item.reader).1,
      s.moveTo (s.cursor.read item.reader).2.position) :=
  (Reading.settlesAt_item item hs).run_eq

/-- An item is read with at least one byte, or the scanner stays. -/
theorem step_read_cases (hs : s.InBounds) (item : Cursor.Item) :
    (∃ e, s.step (.read item) = (.error e, s)) ∨
      ∃ (value : item.Result) (position : Nat),
        s.step (.read item) = (.ok value, s.moveTo position) ∧ s.position < position ∧
          (s.moveTo position).InBounds := by
  obtain ⟨e, hfails⟩ | ⟨value, position, hreads, hrun, hle, hbound⟩ :=
    (Reading.settlesAt_item item hs).cases
  · exact .inl ⟨e, hfails⟩
  · refine .inr ⟨value, position, hreads, ?_, hbound⟩
    -- an item takes a byte at least, so the position has moved on
    have hlength := item.shrinks _ _ _ hrun
    rw [length_rest, length_rest] at hlength
    unfold remaining moveTo at hlength
    simp only at hlength
    omega

/-- When bytes are missing for an item, trying to read it gives nothing and the scanner stays. -/
theorem step_tryRead_cases (hs : s.InBounds) (item : Cursor.Item) :
    (∃ e, s.step (.tryRead item) = (.error e, s)) ∨
      s.step (.tryRead item) = ((.ok none : Except CodecError (Option item.Result)), s) ∨
      ∃ (value : item.Result) (position : Nat),
        s.step (.tryRead item) = ((.ok (some value) : Except CodecError (Option item.Result)),
          s.moveTo position) ∧
        s.position < position ∧ (s.moveTo position).InBounds := by
  have htry := Reading.run_attempt (Reading.item item) s
  obtain ⟨e, hfails⟩ | ⟨value, position, hreads, hlt, hbound⟩ := step_read_cases hs item
  · rw [show ((Reading.item item).run s).run = (.error e, s) from hfails] at htry
    cases hrecoverable : e.isRecoverable with
    | false =>
      simp only [hrecoverable] at htry
      exact .inl ⟨e, htry⟩
    | true =>
      simp only [hrecoverable, if_true] at htry
      exact .inr (.inl htry)
  · rw [show ((Reading.item item).run s).run = (.ok value, s.moveTo position) from hreads] at htry
    exact .inr (.inr ⟨value, position, htry, hlt, hbound⟩)

/-- What is read when it is tried is read when it is asked for. -/
theorem step_read_of_tryRead {item : Cursor.Item} {value : item.Result}
    (h : (s.step (.tryRead item)).1 = .ok (some value)) : (s.step (.read item)).1 = .ok value := by
  have htry := Reading.run_attempt (Reading.item item) s
  rw [show ((Reading.attempt (Reading.item item)).run s).run = s.step (.tryRead item) from rfl,
    show ((Reading.item item).run s).run = s.step (.read item) from rfl] at htry
  rw [htry] at h
  split at h
  · next a s' hread =>
    cases h
    exact congrArg Prod.fst hread
  · next e s' hread =>
    cases hrecoverable : e.isRecoverable with
    | false =>
      simp only [hrecoverable] at h
      cases h
    | true =>
      simp only [hrecoverable, if_true] at h
      cases h

/-- All the fields there are may be none. -/
theorem step_object_cases (hs : s.InBounds) :
    (∃ e, s.step .object = (.error e, s)) ∨
      ∃ (object : Object) (position : Nat), s.step .object = (.ok object, s.moveTo position) ∧
        s.position ≤ position ∧ (s.moveTo position).InBounds := by
  obtain ⟨e, hfails⟩ | ⟨object, position, hreads, -, hle, hbound⟩ :=
    (Reading.settlesAt_object hs).cases
  · exact .inl ⟨e, hfails⟩
  · exact .inr ⟨object, position, hreads, hle, hbound⟩

/-- A call that fails leaves the scanner as it was. -/
theorem step_of_error (hs : s.InBounds) {call : Call} {e : CodecError}
    (h : (s.step call).1 = .error e) : (s.step call).2 = s := by
  cases call with
  | read item =>
    obtain ⟨_, hfails⟩ | ⟨_, _, hreads, -⟩ := step_read_cases hs item
    · rw [hfails]
    · rw [hreads] at h
      cases h
  | tryRead item =>
    obtain ⟨_, hfails⟩ | hnothing | ⟨_, _, hreads, -⟩ := step_tryRead_cases hs item
    · rw [hfails]
    · rw [hnothing]
    · rw [hreads] at h
      cases h
  | object =>
    obtain ⟨_, hfails⟩ | ⟨_, _, hreads, -⟩ := step_object_cases hs
    · rw [hfails]
    · rw [hreads] at h
      cases h

/-- Trying to read an item that is not there leaves the scanner as it was. -/
theorem step_tryRead_of_nothing (hs : s.InBounds) {item : Cursor.Item}
    (h : (s.step (.tryRead item)).1 = .ok (none : Option item.Result)) :
    (s.step (.tryRead item)).2 = s := by
  obtain ⟨_, hfails⟩ | hnothing | ⟨_, _, hreads, -⟩ := step_tryRead_cases hs item
  · rw [hfails]
  · rw [hnothing]
  · rw [hreads] at h
    cases h

/-- An item that is read takes at least one byte. -/
theorem position_lt_of_read (hs : s.InBounds) {item : Cursor.Item} {value : item.Result}
    (h : (s.step (.read item)).1 = .ok value) :
    s.position < (s.step (.read item)).2.position := by
  obtain ⟨_, hfails⟩ | ⟨_, _, hreads, hlt, -⟩ := step_read_cases hs item
  · rw [hfails] at h
    cases h
  · rw [hreads]
    exact hlt

/-- An attempt that gives a value moves the position on. -/
theorem position_lt_of_tryRead (hs : s.InBounds) {item : Cursor.Item} {value : item.Result}
    (h : (s.step (.tryRead item)).1 = .ok (some value)) :
    s.position < (s.step (.tryRead item)).2.position := by
  obtain ⟨_, hfails⟩ | hnothing | ⟨_, _, hreads, hlt, -⟩ := step_tryRead_cases hs item
  · rw [hfails] at h
    cases h
  · rw [hnothing] at h
    cases h
  · rw [hreads]
    exact hlt

/-- A call keeps the buffer and moves the position no further than its end, and never back. -/
theorem step_moves (hs : s.InBounds) (call : Call) :
    (s.step call).2.buffer = s.buffer ∧ s.position ≤ (s.step call).2.position ∧
      (s.step call).2.InBounds := by
  have hstays : s.buffer = s.buffer ∧ s.position ≤ s.position ∧ s.InBounds :=
    ⟨rfl, Nat.le_refl _, hs⟩
  cases call with
  | read item =>
    obtain ⟨_, hfails⟩ | ⟨_, _, hreads, hlt, hbound⟩ := step_read_cases hs item
    · rwa [hfails]
    · rw [hreads]
      exact ⟨rfl, Nat.le_of_lt hlt, hbound⟩
  | tryRead item =>
    obtain ⟨_, hfails⟩ | hnothing | ⟨_, _, hreads, hlt, hbound⟩ := step_tryRead_cases hs item
    · rwa [hfails]
    · rwa [hnothing]
    · rw [hreads]
      exact ⟨rfl, Nat.le_of_lt hlt, hbound⟩
  | object =>
    obtain ⟨_, hfails⟩ | ⟨_, _, hreads, hle, hbound⟩ := step_object_cases hs
    · rwa [hfails]
    · rw [hreads]
      exact ⟨rfl, hle, hbound⟩

/-! ## Any calls -/

/-- Calls are made one after the other. -/
theorem after_append (s : Scanner) (calls more : List Call) :
    s.after (calls ++ more) = (s.after calls).after more :=
  List.foldl_append

/-- What a call keeps, any calls keep. -/
theorem after_moves (hs : s.InBounds) (calls : List Call) :
    (s.after calls).buffer = s.buffer ∧ s.position ≤ (s.after calls).position ∧
      (s.after calls).InBounds := by
  induction calls generalizing s with
  | nil => exact ⟨rfl, Nat.le_refl _, hs⟩
  | cons call calls ih =>
    obtain ⟨hbuffer, hle, hbound⟩ := step_moves hs call
    obtain ⟨hbuffer', hle', hbound'⟩ := ih hbound
    exact ⟨hbuffer'.trans hbuffer, Nat.le_trans hle hle', hbound'⟩

/-- After any calls on a buffer, whether they failed or not, the position is one of the buffer, what
remains is the rest of the buffer, and more calls never move the position back. The next call leaves
the scanner exactly as it was if it gives an error or nothing, however deep inside nested containers
it failed. If it gives an item, the position moves on by at least one byte. -/
theorem position_of_calls (bytes : Bytes) (calls : List Call) :
    let scanner := (start bytes).after calls
    scanner.buffer = bytes.toArray ∧ scanner.position ≤ bytes.length ∧
      scanner.position + scanner.remaining = bytes.length ∧
      (∀ more, scanner.position ≤ ((start bytes).after (calls ++ more)).position) ∧
      (∀ call e, (scanner.step call).1 = .error e → (scanner.step call).2 = scanner) ∧
      (∀ item, (scanner.step (.tryRead item)).1 = .ok (none : Option item.Result) →
        (scanner.step (.tryRead item)).2 = scanner) ∧
      (∀ item (value : item.Result), (scanner.step (.read item)).1 = .ok value →
        scanner.position < (scanner.step (.read item)).2.position) ∧
      ∀ item (value : item.Result), (scanner.step (.tryRead item)).1 = .ok (some value) →
        scanner.position < (scanner.step (.tryRead item)).2.position := by
  intro scanner
  have hstart : (start bytes).InBounds := Nat.zero_le _
  obtain ⟨hbuffer, -, hbound⟩ := after_moves hstart calls
  have hle : scanner.position ≤ bytes.length := by
    have hsize : scanner.position ≤ scanner.buffer.size := hbound
    rwa [hbuffer] at hsize
  refine ⟨hbuffer, hle, ?_, ?_, ?_, ?_, ?_, ?_⟩
  · have hremaining : scanner.remaining = bytes.length - scanner.position := by
      unfold remaining
      rw [hbuffer]
      rfl
    omega
  · intro more
    rw [after_append]
    exact (after_moves hbound more).2.1
  · intro call e h
    exact step_of_error hbound h
  · intro item h
    exact step_tryRead_of_nothing hbound h
  · intro item value h
    exact position_lt_of_read hbound h
  · intro item value h
    exact position_lt_of_tryRead hbound h

end Scanner

end XrpLedger
