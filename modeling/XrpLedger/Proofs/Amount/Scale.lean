import Mathlib.Algebra.Order.Field.Power
import Mathlib.Data.Rat.Cast.Order
import Mathlib.Tactic.Linarith
import Mathlib.Tactic.Ring
import XrpLedger.Proofs.Amount.Wire
import XrpLedger.Proofs.Outcome

/-!
# Issued values as numbers

An issued value stands for a rational number, `IssuedValue.toRat`. Numbers that have such a value
are `Representable`. `IssuedValue.ofParts` moves digits between a mantissa and an exponent until
sixteen are left, and neither loses a digit nor gives up on a number that is representable
(`ofParts_saturate_eq_ok_iff`). The exponent is held within 32 bits on the way; the bounds of 32
bits are so far from those of a value that this never turns one number into another.
-/

set_option autoImplicit false

namespace XrpLedger.IssuedValue

/-! ## Numbers with a mantissa and an exponent -/

/-- The number `mantissa × 10^exponent`. -/
def scaled (mantissa : Nat) (exponent : Int) : ℚ :=
  mantissa * 10 ^ exponent

/-- A number with a sign in front. -/
def signed (negative : Bool) (q : ℚ) : ℚ :=
  if negative then -q else q

/-- The number that an issued value stands for. -/
def toRat (value : IssuedValue) : ℚ :=
  signed value.negative (scaled value.mantissa value.exponent)

/-- Whether a number is zero or has sixteen digits and an exponent in bounds. -/
def Representable (q : ℚ) : Prop :=
  q = 0 ∨ ∃ (negative : Bool) (mantissa : Nat) (exponent : Int), 10 ^ 15 ≤ mantissa ∧
    mantissa < 10 ^ 16 ∧ -96 ≤ exponent ∧ exponent ≤ 80 ∧
      q = signed negative (scaled mantissa exponent)

/-- Zeros at the end of a mantissa count for its exponent. -/
theorem scaled_mul_pow (mantissa k : Nat) (exponent : Int) :
    scaled (mantissa * 10 ^ k) exponent = scaled mantissa (exponent + k) := by
  have hpow : (10 : ℚ) ^ (exponent + k) = 10 ^ exponent * 10 ^ k := by
    rw [zpow_add₀ (by norm_num), zpow_natCast]
  rw [scaled, scaled, hpow, Nat.cast_mul, Nat.cast_pow, Nat.cast_ofNat]
  ring

/-- Under one exponent, different mantissas make different numbers. -/
theorem scaled_eq_iff {m m' : Nat} {exponent : Int} :
    scaled m exponent = scaled m' exponent ↔ m = m' := by
  have hne : (10 : ℚ) ^ exponent ≠ 0 := zpow_ne_zero _ (by norm_num)
  rw [scaled, scaled, mul_left_inj' hne, Nat.cast_inj]

/-- A mantissa of zero makes zero. -/
theorem scaled_zero (exponent : Int) : scaled 0 exponent = 0 := by
  rw [scaled, Nat.cast_zero, zero_mul]

/-- Any other mantissa makes a positive number. -/
theorem scaled_pos {mantissa : Nat} (exponent : Int) (h : mantissa ≠ 0) :
    0 < scaled mantissa exponent :=
  mul_pos (Nat.cast_pos.mpr (Nat.pos_of_ne_zero h)) (zpow_pos (by norm_num) _)

/-- Of two spellings of one number, one is the other with zeros moved into the exponent. -/
theorem exists_pow_of_scaled_eq {m m' : Nat} {e e' : Int} (h : scaled m e = scaled m' e') :
    (∃ k : Nat, e' = e + k ∧ m = m' * 10 ^ k) ∨ ∃ k : Nat, e = e' + k ∧ m' = m * 10 ^ k := by
  rcases Int.le_total e e' with hle | hle
  · obtain ⟨k, rfl⟩ := Int.le.dest hle
    rw [← scaled_mul_pow, scaled_eq_iff] at h
    exact .inl ⟨k, rfl, h⟩
  · obtain ⟨k, rfl⟩ := Int.le.dest hle
    rw [← scaled_mul_pow, scaled_eq_iff] at h
    exact .inr ⟨k, rfl, h.symm⟩

/-- A sign makes no number zero and leaves zero as it is. -/
theorem signed_eq_zero_iff {negative : Bool} {q : ℚ} : signed negative q = 0 ↔ q = 0 := by
  cases negative <;> simp [signed]

/-- The sign of a number that is not zero can be told from it. -/
theorem signed_eq_iff {negative negative' : Bool} {q q' : ℚ} (hq : 0 < q) (hq' : 0 < q') :
    signed negative q = signed negative' q' ↔ negative = negative' ∧ q = q' := by
  have hne : q ≠ -q' := by linarith
  have hne' : -q ≠ q' := by linarith
  cases negative <;> cases negative' <;> simp [signed, hne, hne']

/-- The value zero is the only one that stands for the number zero. -/
theorem toRat_eq_zero_iff {value : IssuedValue} : value.toRat = 0 ↔ value.isZero = true := by
  rw [toRat, signed_eq_zero_iff]
  constructor
  · intro h
    by_contra hz
    obtain ⟨hlow, -⟩ := bounds_of_not_isZero hz
    exact absurd h (scaled_pos value.exponent (by omega)).ne'
  · intro hz
    rw [eq_zero_of_isZero hz]
    exact scaled_zero 0

/-- The number of an issued value is representable. -/
theorem representable_toRat (value : IssuedValue) : Representable value.toRat := by
  by_cases hz : value.isZero = true
  · exact .inl (toRat_eq_zero_iff.mpr hz)
  · obtain ⟨hlow, hhigh, hmin, hmax⟩ := bounds_of_not_isZero hz
    exact .inr ⟨value.negative, value.mantissa, value.exponent, hlow, hhigh, hmin, hmax, rfl⟩

/-- Every number in the one form of issued values is that of such a value. -/
theorem Representable.exists_value {q : ℚ} (h : Representable q) :
    ∃ value : IssuedValue, value.toRat = q := by
  rcases h with rfl | ⟨negative, mantissa, exponent, hlow, hhigh, hmin, hmax, rfl⟩
  · exact ⟨zero, toRat_eq_zero_iff.mpr rfl⟩
  · exact ⟨⟨negative, mantissa, exponent, .inr ⟨hlow, hhigh, hmin, hmax⟩⟩, rfl⟩

/-- A number that is not zero and has a value is spelled with sixteen digits. -/
theorem Representable.exists_scaled_eq {negative : Bool} {n : Nat} {exponent : Int}
    (h : Representable (signed negative (scaled n exponent))) (hn : n ≠ 0) :
    ∃ mantissa exponent', mantissa < 10 ^ 16 ∧ scaled n exponent = scaled mantissa exponent' := by
  rcases h with hzero | ⟨negative', mantissa, exponent', hlow, hhigh, -, -, hnumber⟩
  · exact absurd (signed_eq_zero_iff.mp hzero) (scaled_pos exponent hn).ne'
  · obtain ⟨-, hscaled⟩ := (signed_eq_iff (scaled_pos exponent hn)
      (scaled_pos exponent' (by omega))).mp hnumber
    exact ⟨mantissa, exponent', hhigh, hscaled⟩

/-! ## Bringing a number to sixteen digits -/

/-- Exponents of 32 bits stay as they are. -/
theorem saturate_of_bounds {exponent : Int} (hlow : -2 ^ 31 ≤ exponent)
    (hhigh : exponent < 2 ^ 31) : saturate exponent = exponent := by
  rw [saturate, if_neg (by omega), if_neg (by omega)]

/-- A saturated exponent has 32 bits. -/
theorem saturate_bounds (exponent : Int) :
    -2 ^ 31 ≤ saturate exponent ∧ saturate exponent < 2 ^ 31 := by
  unfold saturate
  split
  · omega
  · split <;> omega

/-- A mantissa is multiplied by ten until it has sixteen digits; its exponent goes down as often,
and no lower than 32 bits allow. -/
theorem exists_scaleUp_eq {mantissa : Nat} {exponent : Int} (hpos : mantissa ≠ 0)
    (hmin : -2 ^ 31 ≤ exponent) (hmax : exponent < 2 ^ 31) :
    ∃ k : Nat, scaleUp mantissa exponent = (mantissa * 10 ^ k, max (exponent - k) (-2 ^ 31)) ∧
      10 ^ 15 ≤ mantissa * 10 ^ k ∧ (k = 0 ∨ mantissa * 10 ^ k < 10 ^ 16) := by
  induction mantissa, exponent using scaleUp.induct with
  | case1 mantissa exponent hdone =>
    refine ⟨0, ?_, ?_, .inl rfl⟩
    · rw [scaleUp, if_pos hdone, pow_zero, Nat.mul_one]
      congr 1
      omega
    · omega
  | case2 mantissa exponent hmore ih =>
    obtain ⟨k, heq, hlow, hhigh⟩ := ih (by omega) (saturate_bounds _).1 (saturate_bounds _).2
    have hpow : mantissa * 10 ^ (k + 1) = mantissa * 10 * 10 ^ k := by ring
    have hsaturate : saturate (exponent - 1) = max (exponent - 1) (-2 ^ 31) := by
      unfold saturate
      split <;> omega
    refine ⟨k + 1, ?_, hpow ▸ hlow, .inr ?_⟩
    · rw [scaleUp, if_neg hmore, heq, hpow, hsaturate]
      congr 1
      omega
    · rcases hhigh with rfl | hhigh
      · omega
      · omega

/-- A mantissa with too many digits loses only zeros; its exponent goes up as often, and no higher
than 32 bits allow. -/
theorem exists_of_scaleDown {mantissa m : Nat} {exponent e : Int} (hmin : -2 ^ 31 ≤ exponent)
    (hmax : exponent < 2 ^ 31) (h : scaleDown mantissa exponent = .ok (m, e)) :
    ∃ k : Nat, mantissa = m * 10 ^ k ∧ e = min (exponent + k) (2 ^ 31 - 1) := by
  induction mantissa, exponent using scaleDown.induct with
  | case1 mantissa exponent hdone =>
    rw [scaleDown, if_pos hdone] at h
    cases h
    exact ⟨0, by omega, by omega⟩
  | case2 mantissa exponent hmore hdigit =>
    rw [scaleDown, if_neg hmore, if_pos hdigit] at h
    cases h
  | case3 mantissa exponent hmore hdigit ih =>
    rw [scaleDown, if_neg hmore, if_neg hdigit] at h
    obtain ⟨k, hk, he⟩ := ih (saturate_bounds _).1 (saturate_bounds _).2 h
    have hsaturate : saturate (exponent + 1) = min (exponent + 1) (2 ^ 31 - 1) := by
      unfold saturate
      split <;> omega
    refine ⟨k + 1, ?_, ?_⟩
    · have hpow : m * 10 ^ (k + 1) = m * 10 ^ k * 10 := by ring
      omega
    · rw [hsaturate] at he
      omega

/-- A mantissa is multiplied by ten until it has sixteen digits, if these are all there are. -/
theorem scaleUp_of_scaled {mantissa k : Nat} {exponent : Int}
    (hlow : 10 ^ 15 ≤ mantissa * 10 ^ k) (hhigh : mantissa * 10 ^ k < 10 ^ 16)
    (hmin : -2 ^ 31 ≤ exponent) (hmax : exponent + k < 2 ^ 31) :
    scaleUp mantissa (exponent + k) = (mantissa * 10 ^ k, exponent) := by
  induction k generalizing mantissa with
  | zero =>
    rw [scaleUp, if_pos (by omega)]
    simp
  | succ k ih =>
    have hpow : mantissa * 10 ^ (k + 1) = mantissa * 10 * 10 ^ k := by
      rw [Nat.pow_succ, Nat.mul_comm (10 ^ k), Nat.mul_assoc]
    have hstep : mantissa * 10 ≤ mantissa * 10 * 10 ^ k :=
      Nat.le_mul_of_pos_right _ (Nat.pow_pos (by omega))
    have hnonzero : mantissa ≠ 0 := by
      intro hzero
      rw [hzero] at hlow
      omega
    have hexponent : exponent + (k + 1 : Nat) - 1 = exponent + k := by omega
    rw [hpow] at hlow hhigh ⊢
    rw [scaleUp, if_neg (by omega), hexponent, saturate_of_bounds (by omega) (by omega),
      ih hlow hhigh (by omega)]

/-- Zeros behind sixteen digits go into the exponent. -/
theorem scaleDown_mul_pow {mantissa k : Nat} {exponent : Int} (hlow : 10 ^ 15 ≤ mantissa)
    (hhigh : mantissa < 10 ^ 16) (hmin : -2 ^ 31 ≤ exponent) (hmax : exponent + k < 2 ^ 31) :
    scaleDown (mantissa * 10 ^ k) exponent = .ok (mantissa, exponent + k) := by
  induction k generalizing exponent with
  | zero =>
    rw [pow_zero, Nat.mul_one, scaleDown, if_pos hhigh]
    simp
  | succ k ih =>
    have hpow : mantissa * 10 ^ (k + 1) = mantissa * 10 ^ k * 10 := by ring
    have hle : mantissa ≤ mantissa * 10 ^ k := Nat.le_mul_of_pos_right _ (Nat.pow_pos (by omega))
    have hdiv : mantissa * 10 ^ (k + 1) / 10 = mantissa * 10 ^ k := by omega
    have hexponent : exponent + 1 + k = exponent + (k + 1 : Nat) := by omega
    rw [scaleDown, if_neg (by omega), if_neg (by omega), hdiv,
      saturate_of_bounds (by omega) (by omega), ih (by omega) (by omega), hexponent]

/-! ## The value of a mantissa and an exponent -/

/-- A mantissa of sixteen digits has fewer than sixteen zeros at its end. -/
theorem lt_of_scaled {value : IssuedValue} (hz : ¬value.isZero = true) {mantissa k : Nat}
    (hmantissa : value.mantissa = mantissa * 10 ^ k) : mantissa < 10 ^ 16 ∧ k < 16 := by
  obtain ⟨hlow, hhigh, -⟩ := bounds_of_not_isZero hz
  have hpos : 0 < mantissa := by
    apply Nat.pos_of_ne_zero
    intro hzero
    rw [hzero] at hmantissa
    omega
  have hle : mantissa ≤ value.mantissa :=
    hmantissa ▸ Nat.le_mul_of_pos_right _ (Nat.pow_pos (by omega))
  have hpow : 10 ^ k ≤ value.mantissa := hmantissa ▸ Nat.le_mul_of_pos_left _ hpos
  exact ⟨by omega, (Nat.pow_lt_pow_iff_right (by omega)).mp (Nat.lt_of_le_of_lt hpow hhigh)⟩

/-- The sixteen digits and their exponent decide what the value is. -/
theorem ofParts_congr {negative : Bool} {m m' : Nat} {e e' : Int} (hm : m ≠ 0) (hm' : m' ≠ 0)
    (h : scaleDown (scaleUp m e).1 (scaleUp m e).2
      = scaleDown (scaleUp m' e').1 (scaleUp m' e').2) :
    ofParts negative m e = ofParts negative m' e' := by
  simp only [ofParts, if_neg hm, if_neg hm', h]

/-- A mantissa that is not zero gives a value exactly as it is scaled up and then down. -/
theorem scaleDown_scaleUp_eq_of_ofParts {negative : Bool} {mantissa : Nat} {exponent : Int}
    {value : IssuedValue} (hpos : mantissa ≠ 0)
    (h : ofParts negative mantissa exponent = .ok value) :
    ¬value.isZero = true ∧ negative = value.negative ∧
      scaleDown (scaleUp mantissa exponent).1 (scaleUp mantissa exponent).2
        = .ok (value.mantissa, value.exponent) := by
  rw [ofParts, if_neg hpos] at h
  obtain ⟨⟨m, e⟩, hdown, hvalue⟩ := bind_eq_ok_iff.mp h
  simp only at hvalue
  split at hvalue
  · next hnormal =>
    cases hvalue
    refine ⟨?_, rfl, hdown⟩
    intro hz
    have hzero : m = 0 := of_decide_eq_true hz
    omega
  · cases hvalue

/-- A value is that of its mantissa without some of the zeros at its end. -/
theorem ofParts_of_scaled {value : IssuedValue} (hz : ¬value.isZero = true) {mantissa k : Nat}
    (hmantissa : value.mantissa = mantissa * 10 ^ k) :
    ofParts value.negative mantissa (value.exponent + k) = .ok value := by
  obtain ⟨hlow, hhigh, hmin, hmax⟩ := bounds_of_not_isZero hz
  have hk := (lt_of_scaled hz hmantissa).2
  have hnonzero : mantissa ≠ 0 := by
    intro hzero
    rw [hzero] at hmantissa
    omega
  -- what is left out at first and what the value has are scaled to the same sixteen digits
  have hscaled : scaleUp mantissa (value.exponent + k) = (value.mantissa, value.exponent) := by
    rw [scaleUp_of_scaled (hmantissa ▸ hlow) (hmantissa ▸ hhigh) (by omega) (by omega), hmantissa]
  have hwhole : scaleUp value.mantissa value.exponent = (value.mantissa, value.exponent) := by
    rw [scaleUp, if_pos (.inr hlow)]
  have hsame : ofParts value.negative mantissa (value.exponent + k)
      = ofParts value.negative value.mantissa value.exponent :=
    ofParts_congr hnonzero (by omega) (by rw [hscaled, hwhole])
  rw [hsame, ofParts_eq_ok_iff hlow hhigh]
  exact ⟨hmin, hmax, rfl, rfl, rfl⟩

/-- A value is that of its mantissa with zeros put behind it. -/
theorem ofParts_mul_pow {value : IssuedValue} (hz : ¬value.isZero = true) {k : Nat}
    {exponent : Int} (hmin : -2 ^ 31 ≤ exponent) (hexponent : value.exponent = exponent + k) :
    ofParts value.negative (value.mantissa * 10 ^ k) exponent = .ok value := by
  obtain ⟨hlow, hhigh, hmin', hmax'⟩ := bounds_of_not_isZero hz
  have hle : value.mantissa ≤ value.mantissa * 10 ^ k :=
    Nat.le_mul_of_pos_right _ (Nat.pow_pos (by omega))
  have hlong : scaleUp (value.mantissa * 10 ^ k) exponent = (value.mantissa * 10 ^ k, exponent) := by
    rw [scaleUp, if_pos (.inr (by omega))]
  have hwhole : scaleUp value.mantissa value.exponent = (value.mantissa, value.exponent) := by
    rw [scaleUp, if_pos (.inr hlow)]
  have hdone : scaleDown value.mantissa value.exponent = .ok (value.mantissa, value.exponent) := by
    rw [scaleDown, if_pos hhigh]
  have hsame : ofParts value.negative (value.mantissa * 10 ^ k) exponent
      = ofParts value.negative value.mantissa value.exponent := by
    apply ofParts_congr (by omega) (by omega)
    rw [hlong, hwhole, scaleDown_mul_pow hlow hhigh hmin (by omega), hdone, hexponent]
  rw [hsame, ofParts_eq_ok_iff hlow hhigh]
  exact ⟨hmin', hmax', rfl, rfl, rfl⟩

/-- A number of at most twenty digits has fewer than five zeros behind sixteen digits. -/
theorem lt_of_mul_pow_lt {value : IssuedValue} (hz : ¬value.isZero = true) {k : Nat}
    (h : value.mantissa * 10 ^ k < 10 ^ 20) : k < 5 := by
  have hle : 10 ^ 15 * 10 ^ k ≤ value.mantissa * 10 ^ k :=
    Nat.mul_le_mul_right _ (bounds_of_not_isZero hz).1
  have hpow : 10 ^ (15 + k) < 10 ^ 20 := by
    rw [Nat.pow_add]
    omega
  have hlt := (Nat.pow_lt_pow_iff_right (by omega)).mp hpow
  omega

/-- The exponent of a value tells how many zeros came and went, as if it had no bounds on the way.
-/
theorem exponent_eq_of_ofParts {mantissa k j : Nat} {exponent : Int} {value : IssuedValue}
    (hz : ¬value.isZero = true) (hsize : mantissa < 10 ^ 20)
    (hup : k = 0 ∨ mantissa * 10 ^ k < 10 ^ 16) (hpos : mantissa ≠ 0)
    (hdown : mantissa * 10 ^ k = value.mantissa * 10 ^ j)
    (he : value.exponent = min (max (saturate exponent - k) (-2 ^ 31) + j) (2 ^ 31 - 1)) :
    value.exponent = exponent - k + j := by
  obtain ⟨-, -, hmin, hmax⟩ := bounds_of_not_isZero hz
  have hk : k < 16 := by
    rcases hup with rfl | hup
    · omega
    · have hle : 10 ^ k ≤ mantissa * 10 ^ k := Nat.le_mul_of_pos_left _ (Nat.pos_of_ne_zero hpos)
      exact (Nat.pow_lt_pow_iff_right (by omega)).mp (Nat.lt_of_le_of_lt hle hup)
  have hj : j < 5 := by
    apply lt_of_mul_pow_lt hz
    rcases hup with rfl | hup <;> omega
  unfold saturate at he
  split at he
  · omega
  · split at he <;> omega

/-- A mantissa and an exponent, which may have been held within 32 bits, are those of a value
exactly if the value is the number that they spell. -/
theorem ofParts_saturate_eq_ok_iff {negative : Bool} {mantissa : Nat} {exponent : Int}
    {value : IssuedValue} (hpos : mantissa ≠ 0) (hsize : mantissa < 10 ^ 20) :
    ofParts negative mantissa (saturate exponent) = .ok value ↔
      ¬value.isZero = true ∧ value.toRat = signed negative (scaled mantissa exponent) := by
  constructor
  · intro h
    obtain ⟨hz, rfl, hdown⟩ := scaleDown_scaleUp_eq_of_ofParts hpos h
    obtain ⟨k, hscale, -, hup⟩ :=
      exists_scaleUp_eq hpos (saturate_bounds exponent).1 (saturate_bounds exponent).2
    have hbounds := saturate_bounds exponent
    rw [hscale] at hdown
    dsimp only at hdown
    obtain ⟨j, hmantissa, he⟩ := exists_of_scaleDown (by omega) (by omega) hdown
    have hexponent := exponent_eq_of_ofParts hz hsize hup hpos hmantissa he
    refine ⟨hz, ?_⟩
    have hnumber : scaled mantissa exponent = scaled value.mantissa value.exponent := calc
      scaled mantissa exponent = scaled mantissa (exponent - k + k) := by rw [Int.sub_add_cancel]
      _ = scaled (value.mantissa * 10 ^ j) (exponent - k) := by rw [← scaled_mul_pow, hmantissa]
      _ = scaled value.mantissa value.exponent := by rw [scaled_mul_pow, hexponent]
    rw [toRat, hnumber]
  · rintro ⟨hz, hnumber⟩
    obtain ⟨hlow, hhigh, hmin, hmax⟩ := bounds_of_not_isZero hz
    obtain ⟨rfl, hscaled⟩ := (signed_eq_iff (scaled_pos value.exponent (by omega))
      (scaled_pos exponent hpos)).mp hnumber
    rcases exists_pow_of_scaled_eq hscaled with ⟨k, rfl, hmantissa⟩ | ⟨k, hexponent, rfl⟩
    · have hk := (lt_of_scaled hz hmantissa).2
      rw [saturate_of_bounds (by omega) (by omega), ofParts_of_scaled hz hmantissa]
    · have hk := lt_of_mul_pow_lt hz hsize
      rw [saturate_of_bounds (by omega) (by omega), ofParts_mul_pow hz (by omega) hexponent]

/-- A mantissa and an exponent that are not those of a value are out of range. -/
theorem exists_range_of_ofParts {negative : Bool} {mantissa : Nat} {exponent : Int} {e : CodecError}
    (h : ofParts negative mantissa exponent = .error e) : ∃ cause, e = .range cause := by
  have hdown : ∀ (m : Nat) (x : Int), scaleDown m x = .error e → ∃ cause, e = .range cause := by
    intro m x
    induction m, x using scaleDown.induct with
    | case1 m x hdone =>
      rw [scaleDown, if_pos hdone]
      intro h
      cases h
    | case2 m x hmore hdigit =>
      rw [scaleDown, if_neg hmore, if_pos hdigit]
      rintro ⟨⟩
      exact ⟨_, rfl⟩
    | case3 m x hmore hdigit ih =>
      rw [scaleDown, if_neg hmore, if_neg hdigit]
      exact ih
  unfold ofParts at h
  split at h
  · cases h
  · rcases bind_eq_error_iff.mp h with herror | ⟨⟨m, x⟩, -, herror⟩
    · exact hdown _ _ herror
    · simp only at herror
      split at herror
      · cases herror
      · cases herror
        exact ⟨_, rfl⟩

end XrpLedger.IssuedValue
