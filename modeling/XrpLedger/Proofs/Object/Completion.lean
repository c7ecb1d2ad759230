import XrpLedger.Proofs.Amount.Canonical
import XrpLedger.Proofs.Object.Streaming

/-!
# Completing what is there

A reader that asks for more bytes may be given them. What is there can be completed if some bytes
behind it make of all a value that the reader takes as a whole (`Reader.Completes`). For steps one
after another this is a matter of the step in which the bytes end: steps that are done do not matter
any more (`Reader.completes_bind_of_ok`), and the one that asks for bytes has to be completed to a
value behind which the next can be made (`Reader.completes_bind_iff`).

So a header, the marker of a length or an amount must be the beginning of one that may stand there.
Numbers and digests are completed by any bytes, and so is what stands behind a marker.
-/

set_option autoImplicit false

namespace XrpLedger

namespace Reader

variable {α β : Type} {reader first : Reader α} {next : α → Reader β} {bytes rest : Bytes}

/-! ## Asking for more bytes -/

/-- Whether a reader asks for more than these bytes. -/
def Truncated (reader : Reader α) (bytes : Bytes) : Prop :=
  ∃ needed available, reader.run bytes = .error (.truncated needed available)

/-- A reader that gives a value asks for no more bytes. -/
theorem not_truncated_of_ok {a : α} (h : reader.run bytes = .ok (a, rest)) :
    ¬reader.Truncated bytes := by
  rintro ⟨needed, available, hfails⟩
  rw [h] at hfails
  cases hfails

/-- A value that is there already asks for no bytes. -/
theorem not_truncated_pure (a : α) : ¬(pure a : Reader α).Truncated bytes :=
  not_truncated_of_ok rfl

/-- A failure that no bytes can mend asks for none. -/
theorem not_truncated_fail {e : CodecError} (h : e.isRecoverable = false) :
    ¬(fail e : Reader α).Truncated bytes := by
  rintro ⟨needed, available, hrun⟩
  cases hrun
  cases h

/-- If the first step fails, it is the one that asks for more bytes. -/
theorem truncated_of_bind_of_error {e : CodecError} (h : (first >>= next).Truncated bytes)
    (hfirst : first.run bytes = .error e) : first.Truncated bytes := by
  obtain ⟨needed, available, hrun⟩ := h
  rw [run_bind_of_error hfirst, Except.error.injEq] at hrun
  exact ⟨needed, available, hrun ▸ hfirst⟩

/-- Behind a first step that is done, the next one asks for more bytes. -/
theorem truncated_of_bind_of_ok {a : α} (h : (first >>= next).Truncated bytes)
    (hfirst : first.run bytes = .ok (a, rest)) : (next a).Truncated rest := by
  obtain ⟨needed, available, hrun⟩ := h
  rw [run_bind_of_ok hfirst] at hrun
  exact ⟨needed, available, hrun⟩

/-- What is made of a value asks for bytes exactly as the value does. -/
theorem truncated_map_iff (f : α → β) : (f <$> first).Truncated bytes ↔ first.Truncated bytes := by
  have hmap : f <$> first = first >>= fun a => pure (f a) := rfl
  rw [hmap]
  cases hrun : first.run bytes with
  | error e => simp only [Truncated, run_bind_of_error hrun, hrun, Except.error.injEq]
  | ok result => simp [Truncated, run_bind_of_ok hrun, hrun, pure, Reader.value]

/-! ## Taking a front -/

/-- Whether a value depends on nothing but the bytes that are taken for it. -/
def TakesFront (reader : Reader α) : Prop :=
  ∀ bytes a rest, reader.run bytes = .ok (a, rest) →
    ∃ front, bytes = front ++ rest ∧ reader.run front = .ok (a, [])

/-- A reader of written forms depends on the form that it takes alone. -/
theorem Reads.takesFront {form : α → Bytes} {admits : α → Prop} (h : reader.Reads form admits) :
    reader.TakesFront := by
  intro bytes a rest hrun
  obtain ⟨hadmits, hbytes⟩ := (h _ _ _).mp hrun
  exact ⟨form a, hbytes, (h _ _ _).mpr ⟨hadmits, (List.append_nil _).symm⟩⟩

/-- A value that is there already depends on no bytes. -/
theorem takesFront_pure (a : α) : (pure a : Reader α).TakesFront := by
  intro bytes b rest hrun
  obtain ⟨rfl, rfl⟩ := run_pure_eq_ok_iff.mp hrun
  exact ⟨[], rfl, rfl⟩

/-- A failing reader takes nothing. -/
theorem takesFront_fail (e : CodecError) : (fail e : Reader α).TakesFront :=
  fun _ _ _ hrun => absurd hrun run_fail_ne_ok

/-- A given outcome depends on no bytes. -/
theorem takesFront_ofExcept (x : Except CodecError α) : (ofExcept x).TakesFront := by
  cases x with
  | error e => exact takesFront_fail e
  | ok a => exact takesFront_pure a

/-- Two readers that depend on what they take alone do so one after the other. -/
theorem TakesFront.bind (h : first.TakesFront) (hstreams : first.Streams)
    (hnext : ∀ a, (next a).TakesFront) : (first >>= next).TakesFront := by
  intro bytes b rest hrun
  obtain ⟨a, middle, hfirst, hsecond⟩ := run_bind_eq_ok_iff.mp hrun
  obtain ⟨front, rfl, hfront⟩ := h _ _ _ hfirst
  obtain ⟨behind, rfl, hbehind⟩ := hnext a _ _ _ hsecond
  refine ⟨front ++ behind, (List.append_assoc ..).symm, ?_⟩
  rw [run_bind_of_ok ((hstreams _).value hfront behind)]
  exact hbehind

/-- A number of bytes depends on these bytes alone. -/
theorem takesFront_take (n : Nat) : (take n).TakesFront := by
  intro bytes a rest hrun
  refine ⟨a.toList, run_take_eq_ok_iff.mp hrun, ?_⟩
  exact run_take_eq_ok_iff.mpr (List.append_nil _).symm

/-- A field depends on the bytes of its header alone. -/
theorem takesFront_fieldId : fieldId.TakesFront := by
  intro bytes field rest hrun
  obtain ⟨hcode, hbytes⟩ := FieldId.decodeHeader_eq_ok_iff.mp hrun
  refine ⟨field.header, hbytes, FieldId.decodeHeader_eq_ok_iff.mpr ⟨hcode, ?_⟩⟩
  exact (List.append_nil _).symm

/-- A length depends on the bytes of its marker alone. -/
theorem takesFront_length : length.TakesFront := by
  intro bytes n rest hrun
  obtain ⟨marker, hmarker, hbytes⟩ := run_length_eq_ok_iff.mp hrun
  exact ⟨marker, hbytes, run_length_eq_ok_iff.mpr ⟨marker, hmarker, (List.append_nil _).symm⟩⟩

/-! ## Steps that are completed -/

/-- Whether these bytes and some more behind them make a value, of those that may stand there, which
the reader takes as a whole. -/
def CompletesTo (reader : Reader α) (may : α → Prop) (bytes : Bytes) : Prop :=
  ∃ more a, reader.run (bytes ++ more) = .ok (a, []) ∧ may a

/-- Whether these bytes and some more behind them are what the reader takes as a whole. -/
def Completes (reader : Reader α) (bytes : Bytes) : Prop :=
  ∃ more a, reader.run (bytes ++ more) = .ok (a, [])

/-- A condition that is not about the value stands beside the completion. -/
theorem completesTo_const_iff {p : Prop} :
    reader.CompletesTo (fun _ => p) bytes ↔ reader.Completes bytes ∧ p := by
  simp only [CompletesTo, Completes, exists_and_right]

/-- If a value is there behind more bytes only, the first of these complete it. -/
theorem TakesFront.exists_front (h : reader.TakesFront) (hstreams : reader.Streams)
    (hbytes : bytes = [] ∨ reader.Truncated bytes) {more : Bytes} {a : α}
    (hrun : reader.run (bytes ++ more) = .ok (a, rest)) :
    ∃ front, reader.run (bytes ++ front) = .ok (a, []) := by
  obtain ⟨whole, hwhole, htaken⟩ := h _ _ _ hrun
  obtain rfl | hcut := hbytes
  · exact ⟨whole, htaken⟩
  obtain ⟨front, rfl, -⟩ | ⟨left, rfl, -⟩ := List.append_eq_append_iff.mp hwhole
  · exact ⟨front, htaken⟩
  · -- otherwise the value would have been there before
    exact absurd hcut (not_truncated_of_ok ((hstreams _).value htaken left))

/-- Behind a step that is done, it is the next one that has to be completed. -/
theorem completes_bind_of_ok (hstreams : first.Streams) {a : α}
    (hfirst : first.run bytes = .ok (a, rest)) :
    (first >>= next).Completes bytes ↔ (next a).Completes rest := by
  have hnext : ∀ more, (first >>= next).run (bytes ++ more) = (next a).run (rest ++ more) :=
    fun more => run_bind_of_ok ((hstreams _).value hfirst more)
  simp only [Completes, hnext]

/-- A step that asks for bytes is completed to a value behind which the next step can be made. -/
theorem completes_bind_iff (htakes : first.TakesFront) (hstreams : first.Streams)
    (hbytes : bytes = [] ∨ first.Truncated bytes) :
    (first >>= next).Completes bytes ↔
      first.CompletesTo (fun a => (next a).Completes []) bytes := by
  constructor
  · rintro ⟨more, b, hrun⟩
    obtain ⟨a, middle, hdone, hnext⟩ := run_bind_eq_ok_iff.mp hrun
    obtain ⟨front, hfront⟩ := htakes.exists_front hstreams hbytes hdone
    exact ⟨front, a, hfront, middle, b, hnext⟩
  · rintro ⟨more, a, hdone, later, b, hnext⟩
    refine ⟨more ++ later, b, ?_⟩
    rw [← List.append_assoc, run_bind_of_ok ((hstreams _).value hdone later)]
    exact hnext

/-- A value that is there already is completed by nothing. -/
theorem completes_pure_nil (a : α) : (pure a : Reader α).Completes [] :=
  ⟨[], a, rfl⟩

/-- A failing reader is not completed by any bytes. -/
theorem not_completes_fail {e : CodecError} : ¬(fail e : Reader α).Completes bytes := by
  rintro ⟨more, a, hrun⟩
  exact run_fail_ne_ok hrun

/-- What is made of a value is completed exactly as the value is. -/
theorem completes_map_iff (f : α → β) : (f <$> first).Completes bytes ↔ first.Completes bytes := by
  simp only [Completes, run_map_eq_ok_iff]
  constructor
  · rintro ⟨more, _, a, hrun, rfl⟩
    exact ⟨more, a, hrun⟩
  · rintro ⟨more, a, hrun⟩
    exact ⟨more, f a, a, hrun, rfl⟩

/-- What is made of a value is completed as the value is. -/
theorem completes_map_iff_of {p : Prop} (f : α → β)
    (hfirst : first.Truncated bytes → (first.Completes bytes ↔ p))
    (h : (f <$> first).Truncated bytes) : (f <$> first).Completes bytes ↔ p :=
  (completes_map_iff f).trans (hfirst ((truncated_map_iff f).mp h))

end Reader

/-! ## Headers and markers -/

/-- Whether bytes are the beginning of the header of a field that may stand there. -/
def FieldId.HeaderBegun (may : FieldId → Prop) (bytes : Bytes) : Prop :=
  ∃ field, bytes <+: field.header ∧ field.fieldCode ≠ 0 ∧ may field

/-- Whether bytes are the beginning of the marker of a length that may stand there. -/
def LengthMarker.Begun (may : Nat → Prop) (bytes : Bytes) : Prop :=
  ∃ length marker, bytes <+: marker ∧ encode length = .ok marker ∧ may length

namespace Reader

variable {α β : Type} {bytes rest : Bytes}

/-- A field is completed exactly if a header of one that may stand there is begun. -/
theorem completesTo_fieldId_iff {may : FieldId → Prop} :
    fieldId.CompletesTo may bytes ↔ FieldId.HeaderBegun may bytes := by
  constructor
  · rintro ⟨more, field, hrun, hmay⟩
    obtain ⟨hcode, hbytes⟩ := FieldId.decodeHeader_eq_ok_iff.mp hrun
    exact ⟨field, ⟨more, hbytes.trans (List.append_nil _)⟩, hcode, hmay⟩
  · rintro ⟨field, ⟨more, hbytes⟩, hcode, hmay⟩
    refine ⟨more, field, FieldId.decodeHeader_eq_ok_iff.mpr ⟨hcode, ?_⟩, hmay⟩
    rw [hbytes, List.append_nil]

/-- A length is completed exactly if a marker of one that may stand there is begun. -/
theorem completesTo_length_iff {may : Nat → Prop} :
    length.CompletesTo may bytes ↔ LengthMarker.Begun may bytes := by
  constructor
  · rintro ⟨more, n, hrun, hmay⟩
    obtain ⟨marker, hmarker, hbytes⟩ := run_length_eq_ok_iff.mp hrun
    exact ⟨n, marker, ⟨more, hbytes.trans (List.append_nil _)⟩, hmarker, hmay⟩
  · rintro ⟨n, marker, ⟨more, hbytes⟩, hmarker, hmay⟩
    refine ⟨more, n, run_length_eq_ok_iff.mpr ⟨marker, hmarker, ?_⟩, hmay⟩
    rw [hbytes, List.append_nil]

/-- The only markers without their last bytes that nothing completes are those whose first two bytes
are above every length. -/
theorem begun_iff_of_truncated (h : length.Truncated bytes) :
    LengthMarker.Begun (fun _ => True) bytes ↔
      ∀ second, bytes = [0xFE, second] → second < 0xD5 := by
  rw [← completesTo_length_iff, completesTo_const_iff, and_true]
  obtain ⟨needed, available, hrun⟩ := h
  rcases bytes with _ | ⟨first, tail⟩
  · exact iff_of_true ⟨[0], 0, rfl⟩ (by simp)
  obtain ⟨hlow, hhigh, rfl | ⟨hthree, second, rfl⟩⟩ := LengthMarker.recoverable_cases hrun rfl
  · refine iff_of_true ?_ (by simp)
    by_cases htwo : first.toNat ≤ 240
    · exact ⟨[0], _, LengthMarker.decode_two hlow htwo⟩
    · refine ⟨[0, 0], _, (LengthMarker.decode_three_eq_ok_iff (by omega) hhigh).mpr ⟨rfl, ?_, rfl⟩⟩
      simp [LengthMarker.limit]
      omega
  · have hsecond := second.toNat_lt
    constructor
    · rintro ⟨more, n, hdone⟩ second' heq
      cases heq
      rw [UInt8.lt_iff_toNat_lt]
      cases more with
      | nil => cases hdone
      | cons third tail =>
        -- the limit is that of the marker `FE D4 17`
        obtain ⟨hlength, hlimit, -⟩ := (LengthMarker.decode_three_eq_ok_iff hthree hhigh).mp hdone
        simp [LengthMarker.limit] at *
        omega
    · intro hbelow
      refine ⟨[0], _, (LengthMarker.decode_three_eq_ok_iff hthree hhigh).mpr ⟨rfl, ?_, rfl⟩⟩
      by_cases hgreatest : first = 0xFE
      · subst hgreatest
        have hlt := UInt8.lt_iff_toNat_lt.mp (hbelow second rfl)
        simp [LengthMarker.limit] at *
        omega
      · have hfirst : first.toNat ≠ 254 := by
          intro heq
          exact hgreatest (UInt8.toNat_inj.mp heq)
        simp [LengthMarker.limit]
        omega

/-- A header is completed to that of a field behind which the next step can be made. -/
theorem completes_fieldId_bind_iff {next : FieldId → Reader α} (h : fieldId.Truncated bytes) :
    (fieldId >>= next).Completes bytes ↔
      FieldId.HeaderBegun (fun field => (next field).Completes []) bytes :=
  (completes_bind_iff takesFront_fieldId streams_fieldId (.inr h)).trans completesTo_fieldId_iff

/-! ## Numbers, digests and what a marker tells of -/

/-- Any bytes that are not too many are the beginning of what is taken. -/
theorem completes_take_iff {n : Nat} : (take n).Completes bytes ↔ bytes.length ≤ n := by
  simp only [Completes, run_take_eq_ok_iff, List.append_nil]
  constructor
  · rintro ⟨more, a, hbytes⟩
    have hlength := congrArg List.length hbytes
    rw [List.length_append, a.length_toList] at hlength
    omega
  · intro hle
    have hlength : (bytes ++ List.replicate (n - bytes.length) 0).length = n := by
      rw [List.length_append, List.length_replicate]
      omega
    exact ⟨_, ⟨_, hlength⟩, rfl⟩

/-- Any bytes that are missing complete a number of bytes. -/
theorem completes_take {n : Nat} (h : (take n).Truncated bytes) : (take n).Completes bytes := by
  obtain ⟨needed, available, hrun⟩ := h
  exact completes_take_iff.mpr (Nat.le_of_lt (within_take n hrun rfl))

/-- Any bytes that are missing complete what is made of a number of bytes. -/
theorem completes_map_take {n : Nat} {f : FixedBytes n → α} (h : (f <$> take n).Truncated bytes) :
    (f <$> take n).Completes bytes :=
  (completes_map_iff f).mpr (completes_take ((truncated_map_iff f).mp h))

/-- What is made of a number of bytes is completed even if none is there. -/
theorem completes_map_take_nil {n : Nat} (f : FixedBytes n → α) : (f <$> take n).Completes [] :=
  (completes_map_iff f).mpr (completes_take_iff.mpr (Nat.zero_le n))

/-- Behind a marker that is there, the bytes that it tells of are missing; a marker that is not
there must be the beginning of one behind which the next step can be made. -/
theorem completes_measured_iff {next : Nat → Reader α} {may : Nat → Prop}
    (h : (length >>= next).Truncated bytes)
    (hnext : ∀ n rest, (next n).Truncated rest → (next n).Completes rest)
    (hmay : ∀ n, (next n).Completes [] ↔ may n) :
    (length >>= next).Completes bytes ↔
      (length.Truncated bytes → LengthMarker.Begun may bytes) := by
  cases hrun : length.run bytes with
  | error e =>
    have hmarker := truncated_of_bind_of_error h hrun
    rw [completes_bind_iff takesFront_length streams_length (.inr hmarker),
      completesTo_length_iff]
    simp only [hmay, hmarker, true_implies]
  | ok result =>
    obtain ⟨n, rest⟩ := result
    refine iff_of_true ?_ ?_
    · exact (completes_bind_of_ok streams_length hrun).mpr
        (hnext n rest (truncated_of_bind_of_ok h hrun))
    · intro hmarker
      exact absurd hmarker (not_truncated_of_ok hrun)

/-- A byte string is completed exactly if its marker is there, or is begun. -/
theorem completes_blob_iff (h : blob.Truncated bytes) :
    blob.Completes bytes ↔
      (length.Truncated bytes → LengthMarker.Begun (fun _ => True) bytes) := by
  refine completes_measured_iff h (fun n rest hrest => ?_) fun n => ?_
  · exact completes_map_take hrest
  · exact iff_of_true (completes_map_take_nil FixedBytes.toList) trivial

/-- An account is completed exactly if its marker is there, or one of length twenty is begun. -/
theorem completes_account_iff (h : account.Truncated bytes) :
    account.Completes bytes ↔
      (length.Truncated bytes → LengthMarker.Begun (fun n => n = 20) bytes) := by
  refine completes_measured_iff h (fun n rest hrest => ?_) fun n => ?_
  · by_cases hn : n = 20
    · rw [if_pos hn] at hrest ⊢
      exact completes_map_take hrest
    · rw [if_neg hn] at hrest
      exact absurd hrest (not_truncated_fail rfl)
  · by_cases hn : n = 20
    · rw [if_pos hn]
      exact iff_of_true (completes_map_take_nil AccountId.mk) hn
    · rw [if_neg hn]
      exact iff_of_false not_completes_fail hn

/-- As many bytes as some digests have are digests. -/
theorem exists_run_digests (count : Nat) (bytes : Bytes) (h : bytes.length = 32 * count) :
    ∃ found, (digests count).run bytes = .ok (found, []) := by
  induction count generalizing bytes with
  | zero =>
    rw [List.length_eq_zero_iff.mp h]
    exact ⟨[], rfl⟩
  | succ count ih =>
    have hfirst : (bytes.take 32).length = 32 := by
      rw [List.length_take]
      omega
    have htake : (take 32).run bytes = .ok (⟨bytes.take 32, hfirst⟩, bytes.drop 32) :=
      run_take_eq_ok_iff.mpr (List.take_append_drop 32 bytes).symm
    have hrest : (bytes.drop 32).length = 32 * count := by
      rw [List.length_drop]
      omega
    obtain ⟨found, hfound⟩ := ih _ hrest
    refine ⟨⟨bytes.take 32, hfirst⟩ :: found, ?_⟩
    rw [digests, run_bind_of_ok htake, run_bind_of_ok hfound]
    rfl

/-- The digests behind a marker that tells of whole ones are there when their bytes are. -/
theorem exists_digests {n : Nat} (hn : n % 32 = 0) (taken : FixedBytes n) :
    ∃ found, ((digests (n / 32)).run taken.toList).map (·.1) = .ok found := by
  have hlength : taken.toList.length = 32 * (n / 32) := by
    rw [taken.length_toList]
    omega
  obtain ⟨found, hfound⟩ := exists_run_digests _ _ hlength
  exact ⟨found, by rw [hfound]; rfl⟩

/-- A list of digests is completed exactly if its marker is there, or one of whole digests is begun.
-/
theorem completes_vector256_iff (h : vector256.Truncated bytes) :
    vector256.Completes bytes ↔
      (length.Truncated bytes → LengthMarker.Begun (fun n => n % 32 = 0) bytes) := by
  -- bytes that are not too many for whole digests are the beginning of some
  have hwhole : ∀ {n : Nat} {bytes : Bytes}, n % 32 = 0 → (take n).Completes bytes →
      (do ofExcept (((digests (n / 32)).run (← take n).toList).map (·.1)) :
        Reader (List Hash256)).Completes bytes := by
    rintro n bytes hn ⟨more, taken, htaken⟩
    obtain ⟨found, hfound⟩ := exists_digests hn taken
    refine ⟨more, found, ?_⟩
    rw [run_bind_of_ok htaken, hfound]
    rfl
  refine completes_measured_iff h (fun n rest hrest => ?_) fun n => ?_
  · by_cases hn : n % 32 = 0
    · rw [if_neg (not_not_intro hn)] at hrest ⊢
      refine hwhole hn ?_
      cases hrun : (take n).run rest with
      | error e => exact completes_take (truncated_of_bind_of_error hrest hrun)
      | ok result =>
        obtain ⟨taken, left⟩ := result
        obtain ⟨found, hfound⟩ := exists_digests hn taken
        have hlast := truncated_of_bind_of_ok hrest hrun
        rw [hfound] at hlast
        exact absurd hlast (not_truncated_pure found)
    · rw [if_pos hn] at hrest
      exact absurd hrest (not_truncated_fail rfl)
  · by_cases hn : n % 32 = 0
    · rw [if_neg (not_not_intro hn)]
      exact iff_of_true (hwhole hn (completes_take_iff.mpr (Nat.zero_le n))) hn
    · rw [if_pos hn]
      exact iff_of_false not_completes_fail hn

/-! ## Scalars -/

/-- An amount is completed exactly if the bytes of some amount are begun. -/
theorem completes_amount_iff :
    amount.Completes bytes ↔ ∃ a : Amount, bytes <+: a.toBytes := by
  simp only [Completes, run_amount_eq_ok_iff, List.append_nil]
  constructor
  · rintro ⟨more, a, hbytes⟩
    exact ⟨a, more, hbytes⟩
  · rintro ⟨a, more, hbytes⟩
    exact ⟨more, a, hbytes⟩

/-- Whether the value of a field that is no container can be completed, by where its bytes end. -/
def ScalarOpen (type : TypeCode) (bytes : Bytes) : Prop :=
  match type with
  | .amount => ∃ amount : Amount, bytes <+: amount.toBytes
  | .blob => length.Truncated bytes → LengthMarker.Begun (fun _ => True) bytes
  | .accountId => length.Truncated bytes → LengthMarker.Begun (fun n => n = 20) bytes
  | .vector256 => length.Truncated bytes → LengthMarker.Begun (fun n => n % 32 = 0) bytes
  | _ => True

/-- A number whose bytes are missing is completed by any bytes. -/
theorem completes_number_iff (width : Nat) (ofNat : Nat → α)
    (h : (take width >>= fun taken => pure (ofNat taken.toNat)).Truncated bytes) :
    (take width >>= fun taken => pure (ofNat taken.toNat)).Completes bytes ↔ True := by
  refine iff_of_true (completes_map_take ?_) trivial
  exact h

/-- A scalar whose bytes are missing is completed exactly if it is open there. -/
theorem completes_scalar_iff {field : FieldId} (h : (scalar field).Truncated bytes) :
    (scalar field).Completes bytes ↔ ScalarOpen field.typeCode bytes := by
  have htake : ∀ n, (take n).Truncated bytes → ((take n).Completes bytes ↔ True) :=
    fun n h => iff_of_true (completes_take h) trivial
  unfold scalar at h ⊢
  generalize field.typeCode = type at h ⊢
  cases type with
  | uint8 => exact completes_map_iff_of _ (completes_number_iff 1 UInt8.ofNat) h
  | uint16 => exact completes_map_iff_of _ (completes_number_iff 2 UInt16.ofNat) h
  | uint32 => exact completes_map_iff_of _ (completes_number_iff 4 UInt32.ofNat) h
  | uint64 => exact completes_map_iff_of _ (completes_number_iff 8 UInt64.ofNat) h
  | hash128 => exact completes_map_iff_of _ (htake 16) h
  | hash160 => exact completes_map_iff_of _ (htake 20) h
  | hash256 => exact completes_map_iff_of _ (htake 32) h
  | amount => exact completes_map_iff_of _ (fun _ => completes_amount_iff) h
  | blob => exact completes_map_iff_of _ completes_blob_iff h
  | accountId => exact completes_map_iff_of _ completes_account_iff h
  | vector256 => exact completes_map_iff_of _ completes_vector256_iff h
  | pathSet | object | array => exact absurd h (not_truncated_fail rfl)

/-- No bytes at all are the beginning of a value of any type. -/
theorem scalarOpen_nil (type : TypeCode) : ScalarOpen type [] := by
  cases type with
  | amount => exact ⟨.xrp ⟨0, by decide⟩, List.nil_prefix⟩
  | blob => exact fun _ => ⟨0, [0], List.nil_prefix, rfl, trivial⟩
  | accountId => exact fun _ => ⟨20, [20], List.nil_prefix, rfl, rfl⟩
  | vector256 => exact fun _ => ⟨0, [0], List.nil_prefix, rfl, rfl⟩
  | _ => trivial

/-- Every scalar asks for at least one byte. -/
theorem truncated_scalar_nil {field : FieldId} (hpaths : field.typeCode ≠ .pathSet)
    (hobject : field.typeCode ≠ .object) (harray : field.typeCode ≠ .array) :
    (scalar field).Truncated [] := by
  unfold scalar
  generalize field.typeCode = type at *
  cases type with
  | pathSet => exact absurd rfl hpaths
  | object => exact absurd rfl hobject
  | array => exact absurd rfl harray
  | _ => exact ⟨_, _, rfl⟩

end Reader

end XrpLedger
