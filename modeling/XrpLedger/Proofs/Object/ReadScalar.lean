import XrpLedger.Proofs.Amount.Wire
import XrpLedger.Proofs.Object.WellFormed

/-!
# Reading scalars

A reader `Reads` a form when it gives a value exactly if the value is admissible and its form stands
in front. One equivalence is both directions of a codec at once: whatever is written is read back,
and whatever is read was written so, since the form is a function of the value.

Here are the combinations of readers and the leaves, up to `Reader.run_scalar_eq_ok_iff`: a scalar
is read exactly where its payload stands, if that fits behind a length marker.
-/

set_option autoImplicit false

namespace XrpLedger

namespace Reader

variable {α β : Type}

/-- The reader gives a value exactly when it is admissible and its form stands in front. -/
def Reads (reader : Reader α) (form : α → Bytes) (admits : α → Prop) : Prop :=
  ∀ bytes a rest, reader.run bytes = .ok (a, rest) ↔ admits a ∧ bytes = form a ++ rest

/-! ## Combinations of readers -/

/-- A reader of nothing gives its value and takes no bytes. -/
theorem run_pure_eq_ok_iff {a b : α} {bytes rest : Bytes} :
    (pure a : Reader α).run bytes = .ok (b, rest) ↔ a = b ∧ bytes = rest := by
  simp [pure, value]

/-- Two readers succeed one after the other, the second with what the first leaves. -/
theorem run_bind_eq_ok_iff {reader : Reader α} {next : α → Reader β} {b : β} {bytes rest : Bytes} :
    (reader >>= next).run bytes = .ok (b, rest) ↔
      ∃ a middle, reader.run bytes = .ok (a, middle) ∧ (next a).run middle = .ok (b, rest) := by
  simp only [bind, andThen]
  cases reader.run bytes with
  | error e => simp
  | ok result =>
    obtain ⟨a, middle⟩ := result
    simp

/-- What is made of a value is read where the value is. -/
theorem run_map_eq_ok_iff {reader : Reader α} {f : α → β} {b : β} {bytes rest : Bytes} :
    (f <$> reader).run bytes = .ok (b, rest) ↔
      ∃ a, reader.run bytes = .ok (a, rest) ∧ f a = b := by
  have h : f <$> reader = reader >>= fun a => pure (f a) := rfl
  simp only [h, run_bind_eq_ok_iff, run_pure_eq_ok_iff]
  constructor
  · rintro ⟨a, _, hrun, rfl, rfl⟩
    exact ⟨a, hrun, rfl⟩
  · rintro ⟨a, hrun, rfl⟩
    exact ⟨a, rest, hrun, rfl, rfl⟩

/-- A given outcome is read without taking bytes. -/
theorem run_ofExcept_eq_ok_iff {x : Except CodecError α} {a : α} {bytes rest : Bytes} :
    (ofExcept x).run bytes = .ok (a, rest) ↔ x = .ok a ∧ bytes = rest := by
  cases x with
  | error e => simp [ofExcept, fail]
  | ok b => simp [ofExcept, value]

/-- A failing reader gives no value. -/
theorem run_fail_ne_ok {e : CodecError} {a : α} {bytes rest : Bytes} :
    (fail e : Reader α).run bytes ≠ .ok (a, rest) := by
  simp [fail]

/-- A value that is looked at leaves all bytes. -/
theorem run_peek_eq_ok_iff {reader : Reader α} {a : α} {bytes rest : Bytes} :
    (peek reader).run bytes = .ok (a, rest) ↔
      (∃ after, reader.run bytes = .ok (a, after)) ∧ bytes = rest := by
  simp only [peek, map_eq_ok_iff]
  constructor
  · rintro ⟨⟨_, after⟩, h, heq⟩
    cases heq
    exact ⟨⟨after, h⟩, rfl⟩
  · rintro ⟨⟨after, h⟩, rfl⟩
    exact ⟨(a, after), h, rfl⟩

/-! ## Leaves -/

/-- A number of bytes is taken where these bytes stand in front. -/
theorem run_take_eq_ok_iff {n : Nat} {a : FixedBytes n} {bytes rest : Bytes} :
    (take n).run bytes = .ok (a, rest) ↔ bytes = a.toList ++ rest := by
  simp only [take]
  constructor
  · intro h
    split at h
    · cases h
      exact (List.take_append_drop n bytes).symm
    · cases h
  · rintro rfl
    have htake : (a.toList ++ rest).take n = a.toList := List.take_left' a.length_toList
    have hdrop : (a.toList ++ rest).drop n = rest := List.drop_left' a.length_toList
    rw [dif_pos (by rw [htake, a.length_toList]), hdrop]
    simp only [Except.ok.injEq, Prod.mk.injEq, and_true]
    exact FixedBytes.ext htake

/-- A length is read exactly where its marker stands in front. -/
theorem run_length_eq_ok_iff {n : Nat} {bytes rest : Bytes} :
    length.run bytes = .ok (n, rest) ↔
      ∃ marker, LengthMarker.encode n = .ok marker ∧ bytes = marker ++ rest :=
  LengthMarker.decode_eq_ok_iff

/-- Numbers of a fixed width are read as their big-endian bytes. -/
theorem run_number_eq_ok_iff {width : Nat} {ofNat : Nat → α} {toNat : α → Nat}
    (hlt : ∀ a, toNat a < 256 ^ width) (hof : ∀ n, n < 256 ^ width → toNat (ofNat n) = n)
    (hto : ∀ a, ofNat (toNat a) = a) {a : α} {bytes rest : Bytes} :
    (take width >>= fun taken => pure (ofNat taken.toNat)).run bytes = .ok (a, rest) ↔
      bytes = BigEndian.encode width (toNat a) ++ rest := by
  simp only [run_bind_eq_ok_iff, run_take_eq_ok_iff, run_pure_eq_ok_iff]
  constructor
  · rintro ⟨taken, _, rfl, rfl, rfl⟩
    rw [hof _ taken.toNat_lt, taken.encode_toNat]
  · rintro rfl
    refine ⟨FixedBytes.ofNat width (toNat a), rest, rfl, ?_, rfl⟩
    rw [FixedBytes.toNat, FixedBytes.ofNat, BigEndian.value_encode_of_lt (hlt a), hto]

/-- A number of 8 bits is read exactly where its byte stands in front. -/
theorem run_uint8_eq_ok_iff {a : UInt8} {bytes rest : Bytes} :
    uint8.run bytes = .ok (a, rest) ↔ bytes = BigEndian.encode 1 a.toNat ++ rest :=
  run_number_eq_ok_iff UInt8.toNat_lt (fun _ h => UInt8.toNat_ofNat_of_lt' h)
    (fun _ => UInt8.ofNat_toNat)

/-- A number of 16 bits is read exactly where its two bytes stand in front. -/
theorem run_uint16_eq_ok_iff {a : UInt16} {bytes rest : Bytes} :
    uint16.run bytes = .ok (a, rest) ↔ bytes = BigEndian.encode 2 a.toNat ++ rest :=
  run_number_eq_ok_iff UInt16.toNat_lt (fun _ h => UInt16.toNat_ofNat_of_lt' h)
    (fun _ => UInt16.ofNat_toNat)

/-- A number of 32 bits is read exactly where its four bytes stand in front. -/
theorem run_uint32_eq_ok_iff {a : UInt32} {bytes rest : Bytes} :
    uint32.run bytes = .ok (a, rest) ↔ bytes = BigEndian.encode 4 a.toNat ++ rest :=
  run_number_eq_ok_iff UInt32.toNat_lt (fun _ h => UInt32.toNat_ofNat_of_lt' h)
    (fun _ => UInt32.ofNat_toNat)

/-- A number of 64 bits is read exactly where its eight bytes stand in front. -/
theorem run_uint64_eq_ok_iff {a : UInt64} {bytes rest : Bytes} :
    uint64.run bytes = .ok (a, rest) ↔ bytes = BigEndian.encode 8 a.toNat ++ rest :=
  run_number_eq_ok_iff UInt64.toNat_lt (fun _ h => UInt64.toNat_ofNat_of_lt' h)
    (fun _ => UInt64.ofNat_toNat)

/-- An amount is read as it is written: its first word tells how many bytes it takes. -/
theorem run_amount_eq_ok_iff {a : Amount} {bytes rest : Bytes} :
    amount.run bytes = .ok (a, rest) ↔ bytes = a.toBytes ++ rest := by
  simp only [amount, run_bind_eq_ok_iff, run_peek_eq_ok_iff, run_take_eq_ok_iff]
  constructor
  -- the word that is looked at decides the kind, and the amount is taken from the same place
  · rintro ⟨word, _, ⟨-, rfl⟩, h⟩
    split at h
    · simp only [run_bind_eq_ok_iff, run_take_eq_ok_iff, run_ofExcept_eq_ok_iff,
        run_pure_eq_ok_iff] at h
      obtain ⟨taken, _, hbytes, issued, _, ⟨hissued, rfl⟩, rfl, rfl⟩ := h
      rw [hbytes, Amount.toBytes, IssuedAmount.ofBytes_eq_ok_iff.mp hissued]
    · simp only [run_bind_eq_ok_iff, run_take_eq_ok_iff, run_ofExcept_eq_ok_iff,
        run_pure_eq_ok_iff] at h
      obtain ⟨taken, _, hbytes, xrp, _, ⟨hxrp, rfl⟩, rfl, rfl⟩ := h
      rw [hbytes, Amount.toBytes, XrpAmount.toBytes,
        (XrpAmount.ofBits_eq_ok_iff taken.toNat_lt).mp hxrp, taken.encode_toNat]
  · rintro rfl
    cases a with
    | xrp xrp =>
      have hlt := xrp.toBits_lt
      have hword : (FixedBytes.ofNat 8 xrp.toBits).toNat = xrp.toBits :=
        BigEndian.value_encode_of_lt (by omega)
      have hxrp : ¬Amount.isIssuedWord (FixedBytes.ofNat 8 xrp.toBits).toNat = true := by
        rw [hword, Amount.isIssuedWord_iff (by omega)]
        omega
      refine ⟨FixedBytes.ofNat 8 xrp.toBits, _, ⟨⟨rest, rfl⟩, rfl⟩, ?_⟩
      rw [if_neg hxrp]
      simp only [run_bind_eq_ok_iff, run_take_eq_ok_iff, run_ofExcept_eq_ok_iff,
        run_pure_eq_ok_iff]
      refine ⟨FixedBytes.ofNat 8 xrp.toBits, rest, rfl, xrp, rest, ⟨?_, rfl⟩, rfl, rfl⟩
      rw [hword, xrp.ofBits_toBits]
    | issued issued =>
      obtain ⟨hle, hlt⟩ := issued.value.toBits_bounds
      have hword : (FixedBytes.ofNat 8 issued.value.toBits).toNat = issued.value.toBits :=
        BigEndian.value_encode_of_lt (by omega)
      have hissued : Amount.isIssuedWord (FixedBytes.ofNat 8 issued.value.toBits).toNat = true := by
        rw [hword, Amount.isIssuedWord_iff hlt]
        exact hle
      refine ⟨FixedBytes.ofNat 8 issued.value.toBits, _,
        ⟨⟨issued.currency.bytes.toList ++ (issued.issuer.bytes.toList ++ rest), ?_⟩, rfl⟩, ?_⟩
      · simp only [Amount.toBytes, IssuedAmount.toBytes, FixedBytes.ofNat, List.append_assoc]
      · rw [if_pos hissued]
        simp only [run_bind_eq_ok_iff, run_take_eq_ok_iff, run_ofExcept_eq_ok_iff,
          run_pure_eq_ok_iff]
        exact ⟨⟨issued.toBytes, issued.length_toBytes⟩, rest, rfl, issued, rest,
          ⟨issued.ofBytes_toBytes, rfl⟩, rfl, rfl⟩

/-- A byte string is read exactly where it stands behind its marker. -/
theorem run_blob_eq_ok_iff {a bytes rest : Bytes} :
    blob.run bytes = .ok (a, rest) ↔
      ∃ written, Scalar.withLength a = .ok written ∧ bytes = written ++ rest := by
  simp only [blob, Scalar.withLength, map_eq_ok_iff, run_bind_eq_ok_iff, run_length_eq_ok_iff,
    run_take_eq_ok_iff, run_pure_eq_ok_iff]
  constructor
  · rintro ⟨n, _, ⟨marker, hmarker, rfl⟩, taken, _, rfl, rfl, rfl⟩
    refine ⟨marker ++ taken.toList, ⟨marker, ?_, rfl⟩, (List.append_assoc ..).symm⟩
    rw [taken.length_toList, hmarker]
  · rintro ⟨_, ⟨marker, hmarker, rfl⟩, rfl⟩
    exact ⟨a.length, a ++ rest, ⟨marker, hmarker, List.append_assoc ..⟩, ⟨a, rfl⟩, rest, rfl, rfl,
      rfl⟩

/-- An account is read exactly where its bytes stand behind their marker. -/
theorem run_account_eq_ok_iff {a : AccountId} {bytes rest : Bytes} :
    account.run bytes = .ok (a, rest) ↔
      ∃ written, Scalar.withLength a.bytes.toList = .ok written ∧ bytes = written ++ rest := by
  simp only [account, Scalar.withLength, map_eq_ok_iff, run_bind_eq_ok_iff, run_length_eq_ok_iff,
    a.bytes.length_toList]
  constructor
  · rintro ⟨n, _, ⟨marker, hmarker, rfl⟩, h⟩
    split at h
    · next hn =>
      subst hn
      simp only [run_bind_eq_ok_iff, run_take_eq_ok_iff, run_pure_eq_ok_iff] at h
      obtain ⟨taken, _, rfl, rfl, rfl⟩ := h
      exact ⟨marker ++ taken.toList, ⟨marker, hmarker, rfl⟩, (List.append_assoc ..).symm⟩
    · exact absurd h run_fail_ne_ok
  · rintro ⟨_, ⟨marker, hmarker, rfl⟩, rfl⟩
    refine ⟨20, a.bytes.toList ++ rest, ⟨marker, hmarker, List.append_assoc ..⟩, ?_⟩
    simp only [if_true, run_bind_eq_ok_iff, run_take_eq_ok_iff, run_pure_eq_ok_iff]
    exact ⟨a.bytes, rest, rfl, rfl, rfl⟩

/-- A number of digests is read exactly where as many stand in front. -/
theorem run_digests_eq_ok_iff {count : Nat} {a : List Hash256} {bytes rest : Bytes} :
    (digests count).run bytes = .ok (a, rest) ↔
      a.length = count ∧ bytes = a.flatMap (·.toList) ++ rest := by
  induction count generalizing a bytes rest with
  | zero =>
    rw [digests]
    refine run_pure_eq_ok_iff.trans ?_
    rw [List.length_eq_zero_iff]
    constructor
    · rintro ⟨rfl, rfl⟩
      exact ⟨rfl, rfl⟩
    · rintro ⟨rfl, rfl⟩
      exact ⟨rfl, rfl⟩
  | succ count ih =>
    simp only [digests, run_bind_eq_ok_iff, run_take_eq_ok_iff, run_pure_eq_ok_iff, ih]
    constructor
    · rintro ⟨digest, _, rfl, digests, _, ⟨hlength, rfl⟩, rfl, rfl⟩
      exact ⟨by rw [List.length_cons, hlength],
        by rw [List.flatMap_cons, List.append_assoc]⟩
    · rintro ⟨hlength, rfl⟩
      cases a with
      | nil => cases hlength
      | cons digest digests =>
        exact ⟨digest, digests.flatMap (·.toList) ++ rest,
          by rw [List.flatMap_cons, List.append_assoc], digests, rest,
          ⟨Nat.succ.inj hlength, rfl⟩, rfl, rfl⟩

/-- A list of digests is read exactly where it stands behind its marker. -/
theorem run_vector256_eq_ok_iff {a : List Hash256} {bytes rest : Bytes} :
    vector256.run bytes = .ok (a, rest) ↔
      ∃ written, Scalar.withLength (a.flatMap (·.toList)) = .ok written ∧
        bytes = written ++ rest := by
  simp only [vector256, Scalar.withLength, map_eq_ok_iff, run_bind_eq_ok_iff, run_length_eq_ok_iff]
  constructor
  · rintro ⟨n, _, ⟨marker, hmarker, rfl⟩, h⟩
    split at h
    · exact absurd h run_fail_ne_ok
    · next hn =>
      simp only [run_bind_eq_ok_iff, run_take_eq_ok_iff, run_ofExcept_eq_ok_iff, map_eq_ok_iff] at h
      obtain ⟨taken, _, rfl, ⟨⟨_, left⟩, hdigests, rfl⟩, rfl⟩ := h
      obtain ⟨hcount, htaken⟩ := run_digests_eq_ok_iff.mp hdigests
      -- the length is a multiple of 32, so the digests leave nothing of what was taken
      have hlength := congrArg List.length htaken
      rw [taken.length_toList, List.length_append, Scalar.length_flatMap_digests, hcount] at hlength
      have hleft : left = [] := List.length_eq_zero_iff.mp (by omega)
      rw [hleft, List.append_nil] at htaken
      refine ⟨marker ++ taken.toList, ⟨marker, ?_, by rw [htaken]⟩, (List.append_assoc ..).symm⟩
      rw [← htaken, taken.length_toList, hmarker]
  · rintro ⟨_, ⟨marker, hmarker, rfl⟩, rfl⟩
    have hlength := Scalar.length_flatMap_digests a
    refine ⟨(a.flatMap (·.toList)).length, a.flatMap (·.toList) ++ rest,
      ⟨marker, hmarker, List.append_assoc ..⟩, ?_⟩
    rw [if_neg (by omega)]
    simp only [run_bind_eq_ok_iff, run_take_eq_ok_iff, run_ofExcept_eq_ok_iff, map_eq_ok_iff]
    refine ⟨⟨a.flatMap (·.toList), rfl⟩, rest, rfl, ⟨(a, []), ?_, rfl⟩, rfl⟩
    exact run_digests_eq_ok_iff.mpr ⟨by omega, (List.append_nil _).symm⟩

/-! ## Scalars -/

/-- A reader of the values of one kind reads the scalars of their type. -/
theorem run_kind_eq_ok_iff {leaf : Reader α} {view : Scalar → Option α} {wrap : α → Scalar}
    {type : TypeCode} (hkind : Scalar.IsKind view wrap type)
    (hleaf : ∀ a bytes rest, leaf.run bytes = .ok (a, rest) ↔
      ∃ written, (wrap a).encode = .ok written ∧ bytes = written ++ rest)
    {s : Scalar} {bytes rest : Bytes} :
    (wrap <$> leaf).run bytes = .ok (s, rest) ↔
      s.typeCode = type ∧ ∃ written, s.encode = .ok written ∧ bytes = written ++ rest := by
  simp only [run_map_eq_ok_iff, hleaf, hkind.typeCode_eq_iff]
  constructor
  · rintro ⟨a, hwritten, rfl⟩
    exact ⟨⟨a, rfl⟩, hwritten⟩
  · rintro ⟨⟨a, rfl⟩, hwritten⟩
    exact ⟨a, hwritten, rfl⟩

/-- What is always written as the same bytes is read where these stand. -/
theorem eq_append_iff {whole written rest : Bytes} :
    whole = written ++ rest ↔
      ∃ bytes, (Except.ok written : Except CodecError Bytes) = .ok bytes ∧ whole = bytes ++ rest := by
  simp

/-- A scalar is read, by the type of its field, as it is written. -/
theorem run_scalar_eq_ok_iff {field : FieldId} {s : Scalar} {bytes rest : Bytes} :
    (scalar field).run bytes = .ok (s, rest) ↔
      s.typeCode = field.typeCode ∧ s.Fits ∧ bytes = s.payload ++ rest := by
  have hwritten : s.typeCode = field.typeCode ∧ s.Fits ∧ bytes = s.payload ++ rest ↔
      s.typeCode = field.typeCode ∧ ∃ written, s.encode = .ok written ∧ bytes = written ++ rest := by
    simp only [Scalar.encode_eq_ok_iff]
    constructor
    · rintro ⟨htype, hfits, rfl⟩
      exact ⟨htype, _, ⟨hfits, rfl⟩, rfl⟩
    · rintro ⟨htype, _, ⟨hfits, rfl⟩, rfl⟩
      exact ⟨htype, hfits, rfl⟩
  rw [hwritten]
  unfold scalar
  cases field.typeCode with
  | uint8 =>
    refine run_kind_eq_ok_iff .uint8 fun a _ _ => ?_
    rw [run_uint8_eq_ok_iff, Scalar.encode, ← eq_append_iff]
    simp [BigEndian.encode]
  | uint16 =>
    refine run_kind_eq_ok_iff .uint16 fun a _ _ => ?_
    exact run_uint16_eq_ok_iff.trans eq_append_iff
  | uint32 =>
    refine run_kind_eq_ok_iff .uint32 fun a _ _ => ?_
    exact run_uint32_eq_ok_iff.trans eq_append_iff
  | uint64 =>
    refine run_kind_eq_ok_iff .uint64 fun a _ _ => ?_
    exact run_uint64_eq_ok_iff.trans eq_append_iff
  | hash128 =>
    refine run_kind_eq_ok_iff .hash128 fun a _ _ => ?_
    exact run_take_eq_ok_iff.trans eq_append_iff
  | hash160 =>
    refine run_kind_eq_ok_iff .hash160 fun a _ _ => ?_
    exact run_take_eq_ok_iff.trans eq_append_iff
  | hash256 =>
    refine run_kind_eq_ok_iff .hash256 fun a _ _ => ?_
    exact run_take_eq_ok_iff.trans eq_append_iff
  | amount =>
    refine run_kind_eq_ok_iff .amount fun a _ _ => ?_
    exact run_amount_eq_ok_iff.trans eq_append_iff
  | blob =>
    refine run_kind_eq_ok_iff .blob fun a _ _ => ?_
    exact run_blob_eq_ok_iff
  | accountId =>
    refine run_kind_eq_ok_iff .account fun a _ _ => ?_
    exact run_account_eq_ok_iff
  | vector256 =>
    refine run_kind_eq_ok_iff .vector256 fun a _ _ => ?_
    exact run_vector256_eq_ok_iff
  | pathSet | object | array =>
    refine iff_of_false run_fail_ne_ok ?_
    rintro ⟨htype, -⟩
    cases s <;> cases htype

end Reader

end XrpLedger
