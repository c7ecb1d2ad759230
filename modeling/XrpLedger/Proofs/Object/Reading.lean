import XrpLedger.Object.Reading
import XrpLedger.Proofs.Object.Items
import XrpLedger.Proofs.Outcome

/-!
# What a scanner has read

Step by step, a scanner reads what a `Reader` reads from the bytes in front of its position
(`Reading.AgreesAt`): the same value, with the position behind its bytes, or the same error, with
the position somewhere in the buffer. A loop agrees by induction on the bytes that bound its rounds.
What puts the position back agrees with the reader in this as well (`Reading.SettlesAt`), so that a
call is one `Cursor.read` as a whole, and where the position is after any calls follows from what
readers take.
-/

set_option autoImplicit false

namespace XrpLedger

variable {α β : Type}

namespace Scanner

/-- The bytes that are still to be read. -/
def rest (scanner : Scanner) : Bytes :=
  scanner.buffer.toList.drop scanner.position

/-- Whether the position is one of the buffer. -/
def InBounds (scanner : Scanner) : Prop :=
  scanner.position ≤ scanner.buffer.size

/-- The cursor at the position. -/
def cursor (scanner : Scanner) : Cursor :=
  Cursor.seek scanner.buffer.toList scanner.position

/-- As many bytes are left as the scanner says remain. -/
theorem length_rest (s : Scanner) : s.rest.length = s.remaining := by
  simp [rest, remaining]

/-- No bytes are left exactly if none remain. -/
theorem rest_eq_nil_iff (s : Scanner) : s.rest = [] ↔ s.remaining = 0 := by
  rw [← List.length_eq_zero_iff, length_rest]

/-- A window is the first of the bytes that are left. -/
theorem window_eq (s : Scanner) (width : Nat) : s.window width = s.rest.take width := by
  unfold window rest
  rw [Array.toList_extract, List.extract_eq_take_drop, Nat.add_sub_cancel_left]

/-- Behind a front of what is left is the position further on by its length. -/
theorem rest_moveTo_of_suffix {s : Scanner} {after : Bytes} (h : after <:+ s.rest) :
    (s.moveTo (s.position + (s.rest.length - after.length))).rest = after := by
  unfold rest moveTo at *
  rw [← List.drop_drop]
  exact (List.suffix_iff_eq_drop.mp h).symm

end Scanner

namespace Reading

variable {s : Scanner}

/-! ## Steps -/

/-- A piece is read from a window and moves the position by what is taken of it. -/
theorem run_piece (width : Nat) (reader : Reader α) (s : Scanner) :
    ((piece width reader).run s).run = match reader.run (s.window width) with
      | .ok (a, rest) =>
        (.ok a, s.moveTo (s.position + ((s.window width).length - rest.length)))
      | .error e => (.error e, s) := by
  simp only [piece, run_bind, run_get, run_liftExcept]
  cases reader.run (s.window width) with
  | error e => rfl
  | ok result => rfl

/-- An atomic computation that fails leaves the scanner as it was. -/
theorem run_atomic (x : Reading α) (s : Scanner) :
    ((atomic x).run s).run = match (x.run s).run with
      | (.ok a, s') => (.ok a, s')
      | (.error e, s') => (.error e, s'.moveTo s.position) := by
  simp only [atomic, run_bind, run_get, run_tryCatch, run_modify, run_throw]
  cases (x.run s).run with
  | mk result s' => cases result <;> rfl

/-- An attempt that lacks bytes answers with nothing, where the computation has stopped. -/
theorem run_attempt (x : Reading α) (s : Scanner) :
    ((attempt x).run s).run = match (x.run s).run with
      | (.ok a, s') => (.ok (some a), s')
      | (.error e, s') => (if e.isRecoverable then .ok none else .error e, s') := by
  simp only [attempt, map_eq_pure_bind, run_tryCatch, run_bind, run_pure]
  cases (x.run s).run with
  | mk result s' =>
    cases result with
    | ok a => rfl
    | error e =>
      simp only
      cases e.isRecoverable <;> rfl

/-- Whether a computation does at a scanner what a reader does with the bytes that are left,
wherever a failure leaves the position. -/
structure AgreesAt (x : Reading α) (reader : Reader α) (s : Scanner) : Prop where
  value : ∀ {a after}, reader.run s.rest = .ok (a, after) →
    ∃ position, (x.run s).run = (.ok a, s.moveTo position) ∧ (s.moveTo position).rest = after ∧
      s.position ≤ position ∧ (s.moveTo position).InBounds
  error : ∀ {e}, reader.run s.rest = .error e →
    ∃ position, (x.run s).run = (.error e, s.moveTo position) ∧ (s.moveTo position).InBounds

/-- Whether a computation does at a scanner what a reader does with the bytes that are left, and
leaves the position where it was when it fails. -/
structure SettlesAt (x : Reading α) (reader : Reader α) (s : Scanner) : Prop
    extends AgreesAt x reader s where
  unmoved : ∀ {e}, reader.run s.rest = .error e → (x.run s).run = (.error e, s)

/-- A failure that leaves the position is one that leaves it somewhere in the buffer. -/
theorem SettlesAt.intro {x : Reading α} {reader : Reader α} (hs : s.InBounds)
    (value : ∀ {a after}, reader.run s.rest = .ok (a, after) →
      ∃ position, (x.run s).run = (.ok a, s.moveTo position) ∧ (s.moveTo position).rest = after ∧
        s.position ≤ position ∧ (s.moveTo position).InBounds)
    (unmoved : ∀ {e}, reader.run s.rest = .error e → (x.run s).run = (.error e, s)) :
    SettlesAt x reader s :=
  ⟨⟨value, fun h => ⟨s.position, unmoved h, hs⟩⟩, unmoved⟩

/-- A value without reading agrees with the reader that takes nothing. -/
theorem agreesAt_pure (a : α) (hs : s.InBounds) : AgreesAt (pure a) (pure a) s := by
  constructor
  · intro b after h
    obtain ⟨rfl, rfl⟩ := Reader.run_pure_eq_ok_iff.mp h
    exact ⟨s.position, rfl, rfl, Nat.le_refl _, hs⟩
  · intro e h
    cases h

/-- A thrown error agrees with the failing reader and moves nothing. -/
theorem settlesAt_throw (e : CodecError) (hs : s.InBounds) :
    SettlesAt (throw e : Reading α) (Reader.fail e) s := by
  refine SettlesAt.intro hs ?_ ?_
  · intro a after h
    exact absurd h Reader.run_fail_ne_ok
  · intro e' h
    cases h
    rfl

/-- A given outcome agrees with the reader that gives it. -/
theorem agreesAt_liftExcept (x : Except CodecError α) (hs : s.InBounds) :
    AgreesAt (liftExcept x) (Reader.ofExcept x) s := by
  cases x with
  | error e => exact (settlesAt_throw e hs).toAgreesAt
  | ok a => exact agreesAt_pure a hs

/-- A failure that moves nothing agrees with a reader that fails in the same way. -/
theorem AgreesAt.of_error {x : Reading α} {reader : Reader α} {e : CodecError}
    (hreader : reader.run s.rest = .error e) (hx : (x.run s).run = (.error e, s))
    (hs : s.InBounds) : AgreesAt x reader s := by
  constructor
  · intro a after h
    rw [hreader] at h
    cases h
  · intro e' h
    rw [hreader] at h
    cases h
    exact ⟨s.position, hx, hs⟩

/-- Agreement further on is agreement here, once both sides have come there. -/
theorem AgreesAt.of_run {x y : Reading α} {reader reader' : Reader α} (position : Nat)
    (hx : (x.run s).run = (y.run (s.moveTo position)).run)
    (hreader : reader.run s.rest = reader'.run (s.moveTo position).rest)
    (hle : s.position ≤ position) (h : AgreesAt y reader' (s.moveTo position)) :
    AgreesAt x reader s := by
  constructor
  · intro a after hrun
    rw [hreader] at hrun
    obtain ⟨position', hy, hrest, hle', hbound⟩ := h.value hrun
    exact ⟨position', hx.trans hy, hrest, Nat.le_trans hle hle', hbound⟩
  · intro e hrun
    rw [hreader] at hrun
    obtain ⟨position', hy, hbound⟩ := h.error hrun
    exact ⟨position', hx.trans hy, hbound⟩

/-- Two steps agree with two readers where the first ones do, and the second ones behind them. -/
theorem AgreesAt.bind {x : Reading α} {f : α → Reading β} {reader : Reader α}
    {next : α → Reader β} (h : AgreesAt x reader s)
    (hnext : ∀ {a s'}, s'.InBounds → reader.run s.rest = .ok (a, s'.rest) →
      AgreesAt (f a) (next a) s') : AgreesAt (x >>= f) (reader >>= next) s := by
  constructor
  · intro b after hrun
    obtain ⟨a, middle, hfirst, hsecond⟩ := Reader.run_bind_eq_ok_iff.mp hrun
    obtain ⟨position, hx, rfl, hle, hbound⟩ := h.value hfirst
    obtain ⟨position', hf, hrest, hle', hbound'⟩ := (hnext hbound hfirst).value hsecond
    refine ⟨position', ?_, hrest, Nat.le_trans hle hle', hbound'⟩
    rw [run_bind, hx]
    exact hf
  · intro e hrun
    cases hfirst : reader.run s.rest with
    | error e' =>
      rw [Reader.run_bind_of_error hfirst, Except.error.injEq] at hrun
      subst hrun
      obtain ⟨position, hx, hbound⟩ := h.error hfirst
      refine ⟨position, ?_, hbound⟩
      rw [run_bind, hx]
    | ok result =>
      obtain ⟨a, middle⟩ := result
      rw [Reader.run_bind_of_ok hfirst] at hrun
      obtain ⟨position, hx, rfl, -, hbound⟩ := h.value hfirst
      obtain ⟨position', hf, hbound'⟩ := (hnext hbound hfirst).error hrun
      refine ⟨position', ?_, hbound'⟩
      rw [run_bind, hx]
      exact hf

/-- What is made of the values agrees where the values do. -/
theorem AgreesAt.map {x : Reading α} {reader : Reader α} (h : AgreesAt x reader s) (f : α → β) :
    AgreesAt (f <$> x) (f <$> reader) s := by
  rw [map_eq_pure_bind]
  exact h.bind fun hs _ => agreesAt_pure _ hs

/-- Putting the position back makes of a failure anywhere one that leaves it where it was. -/
theorem AgreesAt.atomic {x : Reading α} {reader : Reader α} (h : AgreesAt x reader s)
    (hs : s.InBounds) : SettlesAt (atomic x) reader s := by
  refine SettlesAt.intro hs ?_ ?_
  · intro a after hrun
    obtain ⟨position, hx, hrest⟩ := h.value hrun
    refine ⟨position, ?_, hrest⟩
    rw [run_atomic, hx]
  · intro e hrun
    obtain ⟨position, hx, -⟩ := h.error hrun
    rw [run_atomic, hx]
    rfl

/-- A step that can not fail keeps a read one that leaves the position when it fails. -/
theorem SettlesAt.bind_pure {x : Reading α} {reader : Reader α} (h : SettlesAt x reader s)
    (f : α → β) : SettlesAt (x >>= fun a => pure (f a)) (reader >>= fun a => pure (f a)) s := by
  constructor
  · exact h.toAgreesAt.bind fun hs _ => agreesAt_pure _ hs
  · intro e hrun
    cases hfirst : reader.run s.rest with
    | error e' =>
      rw [Reader.run_bind_of_error hfirst, Except.error.injEq] at hrun
      subst hrun
      rw [run_bind, h.unmoved hfirst]
    | ok result =>
      rw [Reader.run_bind_of_ok hfirst] at hrun
      cases hrun

/-! ## Leaves -/

/-- A piece whose window is wide enough does what its reader does with all that is left. -/
theorem settlesAt_piece {reader : Reader α} {width : Nat} (hstreams : reader.Streams)
    (hwithin : reader.Within width) (hs : s.InBounds) :
    SettlesAt (piece width reader) reader s := by
  have hrun := run_piece width reader s
  have hreader := hstreams.run_eq hwithin s.rest
  -- the reader tells the same of the window as of all that is left
  rw [s.window_eq] at hrun
  cases hwindow : reader.run (s.rest.take width) with
  | error e =>
    rw [hwindow] at hreader hrun
    refine SettlesAt.intro hs ?_ ?_
    · intro a after h
      rw [hreader] at h
      cases h
    · intro e' h
      rw [hreader] at h
      cases h
      exact hrun
  | ok result =>
    obtain ⟨a, rest⟩ := result
    rw [hwindow] at hreader hrun
    refine SettlesAt.intro hs ?_ ?_
    · intro b after h
      have hsuffix := (hstreams s.rest).suffix h
      rw [hreader] at h
      cases h
      have hlength := reader.length_le _ _ _ hwindow
      have hcount : s.rest.length - (rest ++ s.rest.drop width).length
          = (s.rest.take width).length - rest.length := by
        rw [List.length_append, List.length_drop, List.length_take]
        omega
      refine ⟨_, hrun, ?_, Nat.le_add_right .., ?_⟩
      · rw [← hcount]
        exact Scanner.rest_moveTo_of_suffix hsuffix
      · have hrest := s.length_rest
        have hposition : s.position ≤ s.buffer.size := hs
        show s.position + _ ≤ s.buffer.size
        unfold Scanner.remaining at hrest
        rw [List.length_take]
        omega
    · intro e h
      rw [hreader] at h
      cases h

/-- Taking bytes does what the reader of as many bytes does. -/
theorem settlesAt_take (n : Nat) (hs : s.InBounds) : SettlesAt (take n) (Reader.take n) s :=
  settlesAt_piece (Reader.streams_take n) (Reader.within_take n) hs

/-- Reading a header does what the reader of headers does. -/
theorem settlesAt_fieldId (hs : s.InBounds) : SettlesAt fieldId Reader.fieldId s :=
  settlesAt_piece Reader.streams_fieldId FieldId.length_lt_of_recoverable hs

/-- Reading a marker does what the reader of lengths does. -/
theorem settlesAt_length (hs : s.InBounds) : SettlesAt length Reader.length s :=
  settlesAt_piece Reader.streams_length LengthMarker.length_lt_of_recoverable hs

/-- The reader of amounts as the scanner goes: the first word is taken, and put back if it is the
beginning of an issued amount. -/
theorem run_amount (bytes : Bytes) :
    Reader.amount.run bytes = match (Reader.take 8).run bytes with
      | .error e => .error e
      | .ok (word, rest) =>
        if Amount.isIssuedWord word.toNat then
          (do return .issued (← Reader.ofExcept
            (IssuedAmount.ofBytes (← Reader.take 48).toList)) : Reader Amount).run bytes
        else
          (do return .xrp (← Reader.ofExcept
            (XrpAmount.ofBits word.toNat)) : Reader Amount).run rest := by
  cases hword : (Reader.take 8).run bytes with
  | error e =>
    have hpeek : (Reader.peek (Reader.take 8)).run bytes = .error e := by
      simp [Reader.peek, hword, Except.map]
    exact Reader.run_bind_of_error hpeek
  | ok result =>
    obtain ⟨word, rest⟩ := result
    have hpeek : (Reader.peek (Reader.take 8)).run bytes = .ok (word, bytes) := by
      simp [Reader.peek, hword, Except.map]
    rw [Reader.amount, Reader.run_bind_of_ok hpeek]
    simp only
    split
    · rfl
    · exact Reader.run_bind_of_ok hword

/-- Reading an amount, by its first word and then as a whole, does what the reader of amounts does.
-/
theorem settlesAt_amount (hs : s.InBounds) : SettlesAt amount Reader.amount s := by
  refine AgreesAt.atomic ?_ hs
  have htake := settlesAt_take 8 hs
  cases hword : (Reader.take 8).run s.rest with
  | error e =>
    refine AgreesAt.of_error (e := e) ?_ ?_ hs
    · rw [run_amount, hword]
    · rw [run_bind, htake.unmoved hword]
  | ok result =>
    obtain ⟨word, rest⟩ := result
    obtain ⟨position, hx, rfl, hle, hbound⟩ := htake.value hword
    have hreader := run_amount s.rest
    rw [hword] at hreader
    -- the word took eight bytes, so that eight bytes back is where it stood
    have hback : position - 8 = s.position := by
      have hlength := congrArg List.length (Reader.run_take_eq_ok_iff.mp hword)
      rw [List.length_append, word.length_toList, Scanner.length_rest, Scanner.length_rest]
        at hlength
      have hposition : position ≤ s.buffer.size := hbound
      unfold Scanner.remaining Scanner.moveTo at hlength
      simp only at hlength
      omega
    by_cases hissued : Amount.isIssuedWord word.toNat
    · simp only [hissued, if_true] at hreader
      refine AgreesAt.of_run s.position ?_ hreader (Nat.le_refl _) ?_
        (y := do return .issued (← liftExcept (IssuedAmount.ofBytes (← take 48).toList)))
      · rw [run_bind, hx]
        simp only [hissued, if_true]
        rw [run_bind, run_modify]
        simp only [Scanner.moveTo, hback]
      · refine (settlesAt_take 48 hs).toAgreesAt.bind fun hs _ => ?_
        exact (agreesAt_liftExcept _ hs).bind fun hs _ => agreesAt_pure _ hs
    · simp only [hissued] at hreader
      refine AgreesAt.of_run position ?_ hreader hle ?_
        (y := do return .xrp (← liftExcept (XrpAmount.ofBits word.toNat)))
      · rw [run_bind, hx]
        simp only [hissued]
        rfl
      · exact (agreesAt_liftExcept _ hbound).bind fun hs _ => agreesAt_pure _ hs

/-- Reading a byte string does what the reader of byte strings does. -/
theorem settlesAt_blob (hs : s.InBounds) : SettlesAt blob Reader.blob s := by
  refine AgreesAt.atomic ?_ hs
  refine (settlesAt_length hs).toAgreesAt.bind fun {n _} hs _ => ?_
  exact (settlesAt_take n hs).toAgreesAt.bind fun hs _ => agreesAt_pure _ hs

/-- Reading an account does what the reader of accounts does. -/
theorem settlesAt_account (hs : s.InBounds) : SettlesAt account Reader.account s := by
  refine AgreesAt.atomic ?_ hs
  refine (settlesAt_length hs).toAgreesAt.bind fun {n _} hs _ => ?_
  split
  · exact (settlesAt_take 20 hs).toAgreesAt.bind fun hs _ => agreesAt_pure _ hs
  · exact (settlesAt_throw _ hs).toAgreesAt

/-- Reading a list of digests does what the reader of such lists does. -/
theorem settlesAt_vector256 (hs : s.InBounds) : SettlesAt vector256 Reader.vector256 s := by
  refine AgreesAt.atomic ?_ hs
  refine (settlesAt_length hs).toAgreesAt.bind fun {n _} hs _ => ?_
  split
  · exact (settlesAt_throw _ hs).toAgreesAt
  · exact (settlesAt_take n hs).toAgreesAt.bind fun hs _ => agreesAt_liftExcept _ hs

/-- Reading a number does what the reader of numbers does. -/
theorem settlesAt_number (width : Nat) (ofNat : Nat → α) (hs : s.InBounds) :
    SettlesAt (take width >>= fun taken => pure (ofNat taken.toNat))
      (Reader.take width >>= fun taken => pure (ofNat taken.toNat)) s :=
  (settlesAt_take width hs).bind_pure _

/-- Reading a scalar agrees with the reader of scalars, for every field. -/
theorem agreesAt_scalar (field : FieldId) (hs : s.InBounds) :
    AgreesAt (scalar field) (Reader.scalar field) s := by
  unfold scalar Reader.scalar
  cases field.typeCode with
  | uint8 => exact (settlesAt_number 1 UInt8.ofNat hs).toAgreesAt.map _
  | uint16 => exact (settlesAt_number 2 UInt16.ofNat hs).toAgreesAt.map _
  | uint32 => exact (settlesAt_number 4 UInt32.ofNat hs).toAgreesAt.map _
  | uint64 => exact (settlesAt_number 8 UInt64.ofNat hs).toAgreesAt.map _
  | hash128 => exact (settlesAt_take 16 hs).toAgreesAt.map _
  | hash160 => exact (settlesAt_take 20 hs).toAgreesAt.map _
  | hash256 => exact (settlesAt_take 32 hs).toAgreesAt.map _
  | amount => exact (settlesAt_amount hs).toAgreesAt.map _
  | blob => exact (settlesAt_blob hs).toAgreesAt.map _
  | accountId => exact (settlesAt_account hs).toAgreesAt.map _
  | vector256 => exact (settlesAt_vector256 hs).toAgreesAt.map _
  | pathSet => exact (settlesAt_throw _ hs).toAgreesAt
  | object => exact (settlesAt_throw _ hs).toAgreesAt
  | array => exact (settlesAt_throw _ hs).toAgreesAt

/-! ## Containers -/

/-- What is left behind a header is less than what was left in front of it. -/
theorem remaining_lt_of_header {s s' : Scanner} {field : FieldId}
    (header : Reader.fieldId.run s.rest = .ok (field, s'.rest)) : s'.remaining < s.remaining := by
  rw [← Scanner.length_rest, ← Scanner.length_rest]
  exact FieldId.length_lt_of_decodeHeader header

/-- A reader leaves no more bytes than there were. -/
theorem remaining_le_of_run {s s' : Scanner} {reader : Reader α} {a : α}
    (hrun : reader.run s.rest = .ok (a, s'.rest)) : s'.remaining ≤ s.remaining := by
  rw [← Scanner.length_rest, ← Scanner.length_rest]
  exact reader.length_le _ _ _ hrun

section

variable {value : FieldId → Reading Value} {valueReader : FieldId → Reader Value}
  {object : Reading (List (FieldId × Value))} {objectReader : Reader (List (FieldId × Value))}

/-- The loop over fields agrees with the reader of fields, within as many rounds as bytes remain. -/
theorem agreesAt_fieldsAfter
    (hvalue : ∀ field (s : Scanner), s.InBounds → AgreesAt (value field) (valueReader field) s)
    (limit : Nat) (last : Option FieldId) (hs : s.InBounds) (hlimit : s.remaining ≤ limit) :
    AgreesAt (fieldsAfter value limit last) (Reader.fieldsAfter valueReader last) s := by
  induction limit generalizing last s with
  | zero =>
    -- no bytes are left, so that there is no header
    have hrest := s.rest_eq_nil_iff.mpr (Nat.le_zero.mp hlimit)
    refine AgreesAt.of_error ?_ rfl hs
    rw [hrest, Reader.fieldsAfter_eq]
    rfl
  | succ limit ih =>
    rw [fieldsAfter, Reader.fieldsAfter_eq]
    refine (settlesAt_fieldId hs).toAgreesAt.bind fun {field s₁} hs₁ header => ?_
    have hheader := remaining_lt_of_header header
    split
    · exact agreesAt_pure _ hs₁
    split
    · exact (settlesAt_throw _ hs₁).toAgreesAt
    refine (hvalue field s₁ hs₁).bind fun {v s₂} hs₂ found => ?_
    have hfound := remaining_le_of_run found
    refine (agreesAt_liftExcept _ hs₂).bind fun {_ s₃} hs₃ ascends => ?_
    have hascends := remaining_le_of_run ascends
    exact (ih (some field) hs₃ (by omega)).bind fun hs _ => agreesAt_pure _ hs

/-- Reading the fields of an object agrees with the reader of them. -/
theorem agreesAt_fieldsToEnd
    (hvalue : ∀ field (s : Scanner), s.InBounds → AgreesAt (value field) (valueReader field) s)
    (hs : s.InBounds) : AgreesAt (fieldsToEnd value) (Reader.fieldsToEnd valueReader) s := by
  refine AgreesAt.of_run s.position ?_ rfl (Nat.le_refl _)
    (agreesAt_fieldsAfter hvalue s.remaining none hs (Nat.le_refl _))
  rw [fieldsToEnd, run_bind, run_get]
  rfl

/-- The loop over entries agrees with the reader of entries, within as many rounds as bytes remain.
-/
theorem agreesAt_entriesWithin
    (hobject : ∀ s : Scanner, s.InBounds → AgreesAt object objectReader s) (limit : Nat)
    (hs : s.InBounds) (hlimit : s.remaining ≤ limit) :
    AgreesAt (entriesWithin object limit) (Reader.entriesToEnd objectReader) s := by
  induction limit generalizing s with
  | zero =>
    have hrest := s.rest_eq_nil_iff.mpr (Nat.le_zero.mp hlimit)
    refine AgreesAt.of_error ?_ rfl hs
    rw [hrest, Reader.entriesToEnd_eq]
    rfl
  | succ limit ih =>
    rw [entriesWithin, Reader.entriesToEnd_eq]
    refine (settlesAt_fieldId hs).toAgreesAt.bind fun {field s₁} hs₁ header => ?_
    have hheader := remaining_lt_of_header header
    split
    · exact agreesAt_pure _ hs₁
    split
    · exact (settlesAt_throw _ hs₁).toAgreesAt
    refine (hobject s₁ hs₁).bind fun {fields s₂} hs₂ found => ?_
    have hfound := remaining_le_of_run found
    exact (ih hs₂ (by omega)).bind fun hs _ => agreesAt_pure _ hs

/-- Reading the entries of an array agrees with the reader of them. -/
theorem agreesAt_entriesToEnd
    (hobject : ∀ s : Scanner, s.InBounds → AgreesAt object objectReader s) (hs : s.InBounds) :
    AgreesAt (entriesToEnd object) (Reader.entriesToEnd objectReader) s := by
  refine AgreesAt.of_run s.position ?_ rfl (Nat.le_refl _)
    (agreesAt_entriesWithin hobject s.remaining hs (Nat.le_refl _))
  rw [entriesToEnd, run_bind, run_get]
  rfl

end

/-- The value of a field that is no container is a scalar. -/
theorem valueOf_of_ne {field : FieldId} (hobject : field.typeCode ≠ .object)
    (harray : field.typeCode ≠ .array) (room : Nat) :
    valueOf room field = Value.scalar <$> scalar field := by
  rcases room with _ | _ | room
  all_goals cases h : field.typeCode <;> simp_all [valueOf]

/-- With room left, the value of an object field is its fields. -/
theorem valueOf_object {field : FieldId} (h : field.typeCode = .object) (room : Nat) :
    valueOf (room + 1) field = Value.object <$> fieldsToEnd (valueOf room) := by
  rw [valueOf.eq_def]
  simp only [h]

/-- Reading the value of a field agrees with the reader of it, in whatever room is left. -/
theorem agreesAt_valueOf (room : Nat) (field : FieldId) (hs : s.InBounds) :
    AgreesAt (valueOf room field) (Reader.valueOf room field) s := by
  -- the entries of an array take a second level of room at once
  induction room using Nat.strongRecOn generalizing field s with
  | ind room ih =>
    by_cases hobject : field.typeCode = .object
    · cases room with
      | zero =>
        rw [valueOf, Reader.valueOf, hobject]
        exact (settlesAt_throw _ hs).toAgreesAt
      | succ room =>
        rw [valueOf_object hobject, Reader.valueOf_object hobject]
        have hvalue := fun field (s : Scanner) hs =>
          ih room (Nat.lt_succ_self room) field (s := s) hs
        exact (agreesAt_fieldsToEnd hvalue hs).map _
    by_cases harray : field.typeCode = .array
    · rcases room with _ | _ | room
      · rw [valueOf, Reader.valueOf, harray]
        exact (settlesAt_throw _ hs).toAgreesAt
      · rw [valueOf, Reader.valueOf, harray]
        exact (agreesAt_entriesToEnd (fun _ hs => (settlesAt_throw _ hs).toAgreesAt) hs).map _
      · rw [valueOf, Reader.valueOf, harray]
        have hvalue := fun field (s : Scanner) hs => ih room (by omega) field (s := s) hs
        exact (agreesAt_entriesToEnd (fun _ => agreesAt_fieldsToEnd hvalue) hs).map _
    rw [valueOf_of_ne hobject harray, Reader.valueOf_of_ne hobject harray]
    exact (agreesAt_scalar field hs).map _

/-- Reading a field outside of every container agrees with the reader of one. -/
theorem agreesAt_fieldInPlace (hs : s.InBounds) : AgreesAt fieldInPlace Reader.field s := by
  refine (settlesAt_fieldId hs).toAgreesAt.bind fun {id _} hs _ => ?_
  split
  · exact (settlesAt_throw _ hs).toAgreesAt
  · exact (agreesAt_valueOf _ id hs).bind fun hs _ => agreesAt_pure _ hs

/-- Reading a field as a whole does what the reader of one does. -/
theorem settlesAt_field (hs : s.InBounds) : SettlesAt field Reader.field s :=
  (agreesAt_fieldInPlace hs).atomic hs

/-- The loop over all fields that are left agrees with the reader of them. -/
theorem agreesAt_fieldsLeft (limit : Nat) (last : Option FieldId) (hs : s.InBounds)
    (hlimit : s.remaining ≤ limit) :
    AgreesAt (fieldsLeft limit last) (Reader.fieldsLeft last) s := by
  -- each round takes a byte at least, so that what is left stays within the rounds that are left
  induction limit generalizing last s with
  | zero =>
    have hrest := s.rest_eq_nil_iff.mpr (Nat.le_zero.mp hlimit)
    refine AgreesAt.of_run s.position rfl ?_ (Nat.le_refl _) (agreesAt_pure [] hs)
    show _ = (pure [] : Reader _).run s.rest
    rw [hrest]
    exact Reader.run_fieldsLeft_nil last
  | succ limit ih =>
    by_cases hempty : s.remaining = 0
    · refine AgreesAt.of_run s.position ?_ ?_ (Nat.le_refl _) (agreesAt_pure [] hs)
      · rw [fieldsLeft, run_bind, run_get]
        simp only [hempty, if_true]
        rfl
      · show _ = (pure [] : Reader _).run s.rest
        rw [s.rest_eq_nil_iff.mpr hempty]
        exact Reader.run_fieldsLeft_nil last
    · refine AgreesAt.of_run s.position ?_
        (Reader.run_fieldsLeft (mt s.rest_eq_nil_iff.mp hempty) last) (Nat.le_refl _) ?_
        (y := do
          let entry ← fieldInPlace
          liftExcept (Reader.ascends last entry.1)
          return entry :: (← fieldsLeft limit (some entry.1)))
      · rw [fieldsLeft, run_bind, run_get]
        simp only [hempty, if_false]
        rfl
      refine (agreesAt_fieldInPlace hs).bind fun {entry s₁} hs₁ found => ?_
      obtain ⟨id, v⟩ := entry
      have hfound : s₁.remaining < s.remaining := by
        rw [← Scanner.length_rest, ← Scanner.length_rest]
        exact Reader.length_lt_of_field found
      refine (agreesAt_liftExcept _ hs₁).bind fun {_ s₂} hs₂ ascends => ?_
      have hascends := remaining_le_of_run ascends
      exact (ih (some id) hs₂ (by omega)).bind fun hs _ => agreesAt_pure _ hs

/-- Reading all that is left as an object does what the reader of whole objects does. -/
theorem settlesAt_object (hs : s.InBounds) : SettlesAt object Reader.object s := by
  refine AgreesAt.atomic ?_ hs
  refine AgreesAt.of_run s.position ?_ (Reader.run_object _) (Nat.le_refl _)
    ((agreesAt_fieldsLeft s.remaining none hs (Nat.le_refl _)).bind fun hs _ =>
      agreesAt_pure _ hs)
  rw [run_bind, run_get]
  rfl

/-- Reading an item does what its reader does. -/
theorem settlesAt_item (item : Cursor.Item) (hs : s.InBounds) :
    SettlesAt (Reading.item item) item.reader s := by
  cases item with
  | uint8 => exact settlesAt_number 1 UInt8.ofNat hs
  | uint16 => exact settlesAt_number 2 UInt16.ofNat hs
  | uint32 => exact settlesAt_number 4 UInt32.ofNat hs
  | uint64 => exact settlesAt_number 8 UInt64.ofNat hs
  | hash128 => exact settlesAt_take 16 hs
  | hash160 => exact settlesAt_take 20 hs
  | hash256 => exact settlesAt_take 32 hs
  | amount => exact settlesAt_amount hs
  | length => exact settlesAt_length hs
  | blob => exact settlesAt_blob hs
  | account => exact settlesAt_account hs
  | vector256 => exact settlesAt_vector256 hs
  | fieldId => exact settlesAt_fieldId hs
  | field => exact settlesAt_field hs

/-- What settles either fails where it stands or gives a value and stands behind its bytes. -/
theorem SettlesAt.cases {x : Reading α} {reader : Reader α} (h : SettlesAt x reader s) :
    (∃ e, (x.run s).run = (.error e, s)) ∨
      ∃ a position, (x.run s).run = (.ok a, s.moveTo position) ∧
        reader.run s.rest = .ok (a, (s.moveTo position).rest) ∧ s.position ≤ position ∧
        (s.moveTo position).InBounds := by
  cases hrun : reader.run s.rest with
  | error e => exact .inl ⟨e, h.unmoved hrun⟩
  | ok result =>
    obtain ⟨a, after⟩ := result
    obtain ⟨position, hx, rfl, hle, hbound⟩ := h.value hrun
    exact .inr ⟨a, position, hx, rfl, hle, hbound⟩

/-- What settles has done what a cursor at the position does with the reader. -/
theorem SettlesAt.run_eq {x : Reading α} {reader : Reader α} (h : SettlesAt x reader s) :
    (x.run s).run =
      ((s.cursor.read reader).1, s.moveTo (s.cursor.read reader).2.position) := by
  cases hrun : reader.run s.rest with
  | error e =>
    have hread : s.cursor.read reader = (.error e, s.cursor) :=
      Cursor.read_eq_error_iff.mpr ⟨hrun, rfl⟩
    rw [hread, h.unmoved hrun]
    rfl
  | ok result =>
    obtain ⟨a, after⟩ := result
    obtain ⟨position, hx, rfl, hle, hbound⟩ := h.value hrun
    have hread : s.cursor.read reader = (.ok a,
        ⟨s.cursor.position + (s.rest.length - (s.moveTo position).rest.length),
          (s.moveTo position).rest⟩) := Cursor.read_eq_ok_iff.mpr ⟨_, hrun, rfl⟩
    have hposition : position
        = s.cursor.position + (s.rest.length - (s.moveTo position).rest.length) := by
      have hbuffer : position ≤ s.buffer.size := hbound
      rw [Scanner.length_rest, Scanner.length_rest]
      unfold Scanner.cursor Scanner.remaining Scanner.moveTo Cursor.seek
      simp only
      omega
    rw [hread, hx]
    exact congrArg (fun position => (_, s.moveTo position)) hposition

end Reading

end XrpLedger
