import XrpLedger.Amount.Basic
import XrpLedger.Proofs.Address.Base58

/-!
# Amounts have one wire form

Every word of 64 bits is that of at most one amount: `XrpAmount.ofBits` and `IssuedValue.ofBits`
accept exactly the words that `toBits` writes. So an issued amount is read from exactly the 48 bytes
that it is written as. The highest bit of the first byte tells the two kinds of amount apart, so
that an amount of either kind is read from its own bytes only.
-/

set_option autoImplicit false

namespace XrpLedger

namespace XrpAmount

/-- Amounts of as many drops are the same. -/
theorem ext {a b : XrpAmount} (h : a.drops = b.drops) : a = b := by
  cases a
  cases b
  cases h
  rfl

/-- An amount is made of its own drops only. -/
theorem ofDrops_eq_ok_iff {drops : Int} {amount : XrpAmount} :
    ofDrops drops = .ok amount ↔ amount.drops = drops := by
  unfold ofDrops
  split
  · simp only [Except.ok.injEq]
    constructor
    · rintro rfl
      rfl
    · intro h
      exact ext h.symm
  · next hbound =>
    simp only [reduceCtorEq, false_iff]
    rintro rfl
    exact hbound amount.bounded

/-- No amount is larger than all XRP there is. -/
theorem natAbs_le (amount : XrpAmount) : amount.drops.natAbs ≤ 100000000000000000 :=
  amount.bounded

/-- The word of an amount of XRP has its first bit clear. -/
theorem toBits_lt (amount : XrpAmount) : amount.toBits < 2 ^ 63 := by
  have hbound := amount.natAbs_le
  unfold toBits
  split <;> omega

/-- An amount of XRP is read from its word. -/
theorem ofBits_toBits (amount : XrpAmount) : ofBits amount.toBits = .ok amount := by
  have hbound := amount.natAbs_le
  have hlt := amount.toBits_lt
  have hkind : ¬amount.toBits / 2 ^ 63 % 2 = 1 := by omega
  unfold ofBits
  rw [if_neg hkind]
  by_cases hneg : amount.drops < 0
  · have hbits : amount.toBits = amount.drops.natAbs := by simp [toBits, isNegative, hneg]
    have hmagnitude : amount.toBits % 2 ^ 62 = amount.drops.natAbs := by omega
    have hsign : ¬amount.toBits / 2 ^ 62 % 2 = 1 := by omega
    have hdrops : -(amount.drops.natAbs : Int) = amount.drops := by omega
    simp only [hmagnitude, hsign, decide_false, Bool.false_eq_true, if_false, and_true]
    rw [if_neg (Nat.not_lt.mpr amount.bounded), if_neg (by omega), hdrops,
      ofDrops_eq_ok_iff]
  · have hbits : amount.toBits = amount.drops.natAbs + 2 ^ 62 := by simp [toBits, isNegative, hneg]
    have hmagnitude : amount.toBits % 2 ^ 62 = amount.drops.natAbs := by omega
    have hsign : amount.toBits / 2 ^ 62 % 2 = 1 := by omega
    have hdrops : (amount.drops.natAbs : Int) = amount.drops := by omega
    simp only [hmagnitude, hsign, decide_true, if_true, Bool.true_eq_false, and_false, if_false]
    rw [if_neg (Nat.not_lt.mpr amount.bounded), hdrops, ofDrops_eq_ok_iff]

/-- A word that is read as an amount of XRP is the word of that amount. -/
theorem toBits_of_ofBits {bits : Nat} {amount : XrpAmount} (hlt : bits < 2 ^ 64)
    (h : ofBits bits = .ok amount) : amount.toBits = bits := by
  unfold ofBits at h
  split at h
  · cases h
  · next hkind =>
    simp only at h
    split at h
    · cases h
    · next hmax =>
      split at h
      · cases h
      · next hzero =>
        have hdrops := ofDrops_eq_ok_iff.mp h
        by_cases hsign : bits / 2 ^ 62 % 2 = 1
        · simp only [hsign, decide_true, if_true] at hdrops
          have hneg : ¬amount.drops < 0 := by omega
          simp only [toBits, isNegative, hneg, decide_false, Bool.false_eq_true, if_false]
          omega
        · have hpos : bits % 2 ^ 62 ≠ 0 := fun h0 => hzero ⟨h0, decide_eq_false hsign⟩
          simp only [hsign, decide_false, Bool.false_eq_true, if_false] at hdrops
          have hneg : amount.drops < 0 := by omega
          simp only [toBits, isNegative, hneg, decide_true, if_true]
          omega

/-- The words of amounts of XRP are exactly those that are written. -/
theorem ofBits_eq_ok_iff {bits : Nat} {amount : XrpAmount} (hlt : bits < 2 ^ 64) :
    ofBits bits = .ok amount ↔ amount.toBits = bits := by
  constructor
  · exact toBits_of_ofBits hlt
  · rintro rfl
    exact ofBits_toBits amount

end XrpAmount

namespace IssuedValue

/-- Issued values with the same sign, mantissa and exponent are the same. -/
theorem ext {a b : IssuedValue} (hn : a.negative = b.negative) (hm : a.mantissa = b.mantissa)
    (he : a.exponent = b.exponent) : a = b := by
  cases a
  cases b
  cases hn
  cases hm
  cases he
  rfl

/-- There is one value of mantissa zero, since its sign and exponent are fixed. -/
theorem eq_zero_of_isZero {value : IssuedValue} (h : value.isZero = true) : value = zero := by
  have hm : value.mantissa = 0 := of_decide_eq_true h
  rcases value.isNormal with ⟨hn, -, he⟩ | ⟨hlow, -⟩
  · exact ext hn hm he
  · omega

/-- A value that is not zero has sixteen digits and an exponent in bounds. -/
theorem bounds_of_not_isZero {value : IssuedValue} (h : ¬value.isZero = true) :
    10 ^ 15 ≤ value.mantissa ∧ value.mantissa < 10 ^ 16 ∧ -96 ≤ value.exponent ∧
      value.exponent ≤ 80 := by
  rcases value.isNormal with ⟨-, hm, -⟩ | hbounds
  · exact absurd (decide_eq_true hm) h
  · exact hbounds

/-- A mantissa of sixteen digits stays as it is, so that only the exponent has to be in bounds. -/
theorem ofParts_eq_ok_iff {negative : Bool} {mantissa : Nat} {exponent : Int} {value : IssuedValue}
    (hlow : 10 ^ 15 ≤ mantissa) (hhigh : mantissa < 10 ^ 16) :
    ofParts negative mantissa exponent = .ok value ↔
      -96 ≤ exponent ∧ exponent ≤ 80 ∧ negative = value.negative ∧ mantissa = value.mantissa ∧
        exponent = value.exponent := by
  have hup : scaleUp mantissa exponent = (mantissa, exponent) := by
    rw [scaleUp, if_pos (Or.inr hlow)]
  have hdown : scaleDown mantissa exponent = .ok (mantissa, exponent) := by
    rw [scaleDown, if_pos hhigh]
  have hpos : mantissa ≠ 0 := by omega
  simp only [ofParts, hpos, if_false, hup, hdown, bind, Except.bind, hlow, hhigh, true_and]
  split
  · next hbounds =>
    simp only [pure, Except.pure, Except.ok.injEq, hbounds, true_and]
    constructor
    · rintro rfl
      exact ⟨rfl, rfl, rfl⟩
    · rintro ⟨hn, hm, he⟩
      exact ext hn hm he
  · next hbounds =>
    simp only [throw, throwThe, MonadExceptOf.throw, reduceCtorEq, false_iff]
    rintro ⟨h1, h2, -⟩
    exact hbounds ⟨h1, h2⟩

/-- The word of an issued value has the highest bit and no more than 64. -/
theorem toBits_bounds (value : IssuedValue) : 2 ^ 63 ≤ value.toBits ∧ value.toBits < 2 ^ 64 := by
  unfold toBits
  split
  · omega
  · next hz =>
    obtain ⟨hlow, hhigh, hmin, hmax⟩ := bounds_of_not_isZero hz
    split <;> omega

/-- An issued value is read from its word. -/
theorem ofBits_toBits (value : IssuedValue) : ofBits value.toBits = .ok value := by
  obtain ⟨hlow, hhigh⟩ := value.toBits_bounds
  unfold ofBits
  rw [if_neg (by omega)]
  by_cases hz : value.isZero = true
  · rw [if_pos (by simp [toBits, hz]), eq_zero_of_isZero hz]
  · obtain ⟨hm1, hm2, he1, he2⟩ := bounds_of_not_isZero hz
    have hbits : value.toBits = 2 ^ 63 + (if value.negative then 0 else 2 ^ 62)
        + (value.exponent + 97).toNat * 2 ^ 54 + value.mantissa := by
      simp [toBits, hz]
    -- the three parts do not overlap: sixteen digits fit 54 bits, a biased exponent fits eight
    have hmantissa : value.toBits % 2 ^ 54 = value.mantissa := by
      split at hbits <;> omega
    have hexponent : ((value.toBits / 2 ^ 54 % 256 : Nat) : Int) - 97 = value.exponent := by
      split at hbits <;> omega
    have hsign : decide (value.toBits / 2 ^ 62 % 2 = 0) = value.negative := by
      cases hn : value.negative <;> simp only [hn, if_true, if_false, Bool.false_eq_true] at hbits
      · exact decide_eq_false (by omega)
      · exact decide_eq_true (by omega)
    rw [if_neg (by omega)]
    simp only [hmantissa, hexponent, hsign]
    rw [if_pos ⟨hm1, hm2⟩]
    exact (ofParts_eq_ok_iff hm1 hm2).mpr ⟨he1, he2, rfl, rfl, rfl⟩

/-- A word that is read as an issued value is the word of that value. -/
theorem toBits_of_ofBits {bits : Nat} {value : IssuedValue} (hlt : bits < 2 ^ 64)
    (h : ofBits bits = .ok value) : value.toBits = bits := by
  unfold ofBits at h
  split at h
  · cases h
  · next hkind =>
    split at h
    · next hzero =>
      cases h
      exact hzero.symm
    · simp only at h
      split at h
      · next hm =>
        obtain ⟨he1, he2, hn, hmantissa, hexponent⟩ := (ofParts_eq_ok_iff hm.1 hm.2).mp h
        -- sixteen digits are not zero, so the word is not the one of zero
        have hz : ¬value.isZero = true := by
          simp only [isZero, ← hmantissa, decide_eq_true_eq]
          omega
        simp only [toBits, hz, ← hn, ← hmantissa, ← hexponent]
        by_cases hsign : bits / 2 ^ 62 % 2 = 0
        · simp only [hsign, decide_true, if_true, Bool.false_eq_true, if_false]
          omega
        · simp only [hsign, decide_false, Bool.false_eq_true, if_false]
          omega
      · cases h

end IssuedValue

namespace CurrencyCode

/-- Currency codes with the same bytes are the same. -/
theorem ext {a b : CurrencyCode} (h : a.bytes = b.bytes) : a = b := by
  cases a
  cases b
  cases h
  rfl

/-- A currency code is read from its bytes. -/
theorem ofFixed_bytes (code : CurrencyCode) : ofFixed code.bytes = .ok code := by
  unfold ofFixed
  split
  · rfl
  · next hzero =>
    split
    · rfl
    · next hhead =>
      rcases code.isCode with h | h | ⟨hlayout, hspelling⟩
      · exact absurd h hzero
      · exact absurd h hhead
      · rw [dif_pos hlayout, dif_pos hspelling]

/-- A code that is read from bytes has these bytes. -/
theorem bytes_of_ofFixed {bytes : FixedBytes 20} {code : CurrencyCode}
    (h : ofFixed bytes = .ok code) : code.bytes = bytes := by
  unfold ofFixed at h
  split at h
  · cases h
    rfl
  · split at h
    · cases h
      rfl
    · split at h
      · split at h
        · cases h
          rfl
        · cases h
      · cases h

/-- A currency code is read from its own bytes only. -/
theorem ofBytes_eq_ok_iff {bytes : Bytes} {code : CurrencyCode} :
    ofBytes bytes = .ok code ↔ code.bytes.toList = bytes := by
  unfold ofBytes
  constructor
  · intro h
    cases hf : FixedBytes.ofList? 20 bytes with
    | none => simp [hf] at h
    | some fixed =>
      simp only [hf] at h
      rw [bytes_of_ofFixed h, FixedBytes.toList_of_ofList? hf]
  · rintro rfl
    rw [FixedBytes.ofList?_toList]
    exact ofFixed_bytes code

end CurrencyCode

namespace IssuedAmount

/-- An issued amount has 48 bytes. -/
theorem length_toBytes (amount : IssuedAmount) : amount.toBytes.length = 48 := by
  simp [toBytes, FixedBytes.length_toList]

/-- The parts of an issued amount make it up, since its currency is not XRP. -/
theorem ofParts_eq_ok_iff {value : IssuedValue} {currency : CurrencyCode} {issuer : AccountId}
    {amount : IssuedAmount} :
    ofParts value currency issuer = .ok amount ↔
      value = amount.value ∧ currency = amount.currency ∧ issuer = amount.issuer := by
  unfold ofParts
  constructor
  · intro h
    split at h
    · cases h
      exact ⟨rfl, rfl, rfl⟩
    · cases h
  · rintro ⟨rfl, rfl, rfl⟩
    rw [dif_pos amount.notXrp]

/-- The parts of the bytes of an issued amount: the word of its value, its currency, its issuer. -/
theorem toBytes_parts (amount : IssuedAmount) :
    amount.toBytes.take 8 = BigEndian.encode 8 amount.value.toBits ∧
      (amount.toBytes.drop 8).take 20 = amount.currency.bytes.toList ∧
      amount.toBytes.drop 28 = amount.issuer.bytes.toList := by
  have hcode := amount.currency.bytes.length_toList
  have hdrop : amount.toBytes.drop 8
      = amount.currency.bytes.toList ++ amount.issuer.bytes.toList := by
    rw [toBytes, List.append_assoc, List.drop_left' (BigEndian.length_encode 8 _)]
  refine ⟨?_, ?_, ?_⟩
  · rw [toBytes, List.append_assoc, List.take_left' (BigEndian.length_encode 8 _)]
  · rw [hdrop, List.take_left' hcode]
  · rw [show 28 = 8 + 20 from rfl, ← List.drop_drop, hdrop, List.drop_left' hcode]

/-- An issued amount is read from its bytes. -/
theorem ofBytes_toBytes (amount : IssuedAmount) : ofBytes amount.toBytes = .ok amount := by
  obtain ⟨hword, hcode, hissuer⟩ := amount.toBytes_parts
  have hlt := amount.value.toBits_bounds.2
  unfold ofBytes
  rw [if_neg (not_not_intro amount.length_toBytes), hword, hcode, hissuer,
    BigEndian.value_encode_of_lt (by omega)]
  refine bind_eq_ok_iff.mpr ⟨_, IssuedValue.ofBits_toBits _, ?_⟩
  refine bind_eq_ok_iff.mpr ⟨_, CurrencyCode.ofBytes_eq_ok_iff.mpr rfl, ?_⟩
  refine bind_eq_ok_iff.mpr ⟨_, AccountId.ofBytes_eq_ok_iff.mpr rfl, ?_⟩
  exact ofParts_eq_ok_iff.mpr ⟨rfl, rfl, rfl⟩

/-- Bytes that are read as an issued amount are the bytes of that amount. -/
theorem toBytes_of_ofBytes {bytes : Bytes} {amount : IssuedAmount}
    (h : ofBytes bytes = .ok amount) : amount.toBytes = bytes := by
  unfold ofBytes at h
  split at h
  · exact absurd h throw_ne_ok
  · next hlength =>
    have hlength : bytes.length = 48 := not_not.mp hlength
    have hword : (bytes.take 8).length = 8 := by
      rw [List.length_take, hlength]
      rfl
    have hlt : BigEndian.value (bytes.take 8) < 2 ^ 64 := by
      have hvalue := BigEndian.value_lt (bytes.take 8)
      rw [hword] at hvalue
      exact hvalue
    obtain ⟨value, hvalue, h⟩ := bind_eq_ok_iff.mp h
    obtain ⟨currency, hcurrency, h⟩ := bind_eq_ok_iff.mp h
    obtain ⟨issuer, hissuer, h⟩ := bind_eq_ok_iff.mp h
    obtain ⟨rfl, rfl, rfl⟩ := ofParts_eq_ok_iff.mp h
    have hencode : BigEndian.encode 8 amount.value.toBits = bytes.take 8 :=
      ((BigEndian.eq_encode_iff (by have := amount.value.toBits_bounds.2; omega)).mpr
        ⟨hword, (IssuedValue.toBits_of_ofBits hlt hvalue).symm⟩).symm
    rw [toBytes, hencode, CurrencyCode.ofBytes_eq_ok_iff.mp hcurrency,
      AccountId.ofBytes_eq_ok_iff.mp hissuer, List.append_assoc, ← List.drop_drop (i := 20),
      List.take_append_drop, List.take_append_drop]

/-- An issued amount is read from its own bytes only. -/
theorem ofBytes_eq_ok_iff {bytes : Bytes} {amount : IssuedAmount} :
    ofBytes bytes = .ok amount ↔ amount.toBytes = bytes := by
  constructor
  · exact toBytes_of_ofBytes
  · rintro rfl
    exact amount.ofBytes_toBytes

end IssuedAmount

namespace Amount

/-- The highest of 64 bits is set from the half of the range on. -/
theorem isIssuedWord_iff {bits : Nat} (h : bits < 2 ^ 64) :
    isIssuedWord bits = true ↔ 2 ^ 63 ≤ bits := by
  simp only [isIssuedWord, decide_eq_true_eq]
  omega

/-- The first word of an amount tells of which kind it is. -/
theorem isIssuedWord_toBytes (amount : Amount) :
    isIssuedWord (BigEndian.value (amount.toBytes.take 8)) = !amount.isXrp := by
  cases amount with
  | xrp xrp =>
    have hlt := xrp.toBits_lt
    have hlength : xrp.toBytes.length = 8 := BigEndian.length_encode 8 _
    rw [toBytes, List.take_of_length_le (Nat.le_of_eq hlength), XrpAmount.toBytes,
      BigEndian.value_encode_of_lt (by omega), isXrp, Bool.not_true, ← Bool.not_eq_true,
      isIssuedWord_iff (by omega)]
    omega
  | issued issued =>
    obtain ⟨hle, hlt⟩ := issued.value.toBits_bounds
    rw [toBytes, issued.toBytes_parts.1, BigEndian.value_encode_of_lt (by omega), isXrp,
      Bool.not_false, isIssuedWord_iff hlt]
    exact hle

/-- An amount is read from exactly the bytes that it is written as. -/
theorem ofBytes_eq_ok_iff {bytes : Bytes} {amount : Amount} :
    ofBytes bytes = .ok amount ↔ bytes = amount.toBytes := by
  constructor
  · intro h
    unfold ofBytes at h
    split at h
    · cases h
    · simp only at h
      split at h
      · obtain ⟨issued, hissued, rfl⟩ := map_eq_ok_iff.mp h
        exact (IssuedAmount.ofBytes_eq_ok_iff.mp hissued).symm
      · split at h
        · next hlength =>
          obtain ⟨xrp, hxrp, rfl⟩ := map_eq_ok_iff.mp h
          have hword := BigEndian.value_lt bytes
          rw [hlength] at hword
          rw [List.take_of_length_le (Nat.le_of_eq hlength),
            XrpAmount.ofBits_eq_ok_iff (by omega)] at hxrp
          rw [toBytes, XrpAmount.toBytes, hxrp, ← hlength, BigEndian.encode_value]
        · cases h
  · rintro rfl
    cases amount with
    | xrp xrp =>
      have hlt := xrp.toBits_lt
      have hlength : xrp.toBytes.length = 8 := BigEndian.length_encode 8 _
      have hword : isIssuedWord (BigEndian.value (xrp.toBytes.take 8)) = false :=
        isIssuedWord_toBytes (.xrp xrp)
      unfold ofBytes
      rw [toBytes, if_neg (by omega)]
      simp only [hword, Bool.false_eq_true, if_false]
      rw [if_pos hlength, List.take_of_length_le (Nat.le_of_eq hlength), XrpAmount.toBytes,
        BigEndian.value_encode_of_lt (by omega), xrp.ofBits_toBits]
      rfl
    | issued issued =>
      have hlength := issued.length_toBytes
      have hword : isIssuedWord (BigEndian.value (issued.toBytes.take 8)) = true :=
        isIssuedWord_toBytes (.issued issued)
      unfold ofBytes
      rw [toBytes, if_neg (by omega)]
      simp only [hword, if_true]
      rw [issued.ofBytes_toBytes]
      rfl

/-- Appending an amount adds its bytes at the end. -/
theorem appendTo_eq (amount : Amount) (written : Bytes) :
    amount.appendTo written = written ++ amount.toBytes := by
  cases amount <;> rfl

end Amount

end XrpLedger
