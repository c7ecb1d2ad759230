import XrpLedger.Proofs.Amount.Scale

/-!
# Issued values in words of fixed width

`IssuedValue.ofParts` computes with numbers of any size. `IssuedValue.ofWords?` takes the same steps
with a mantissa in a word of 64 bits and an exponent in one of 32, and has no outcome where a
product leaves its word. None does, so that both ways to compute agree (`ofWords?_eq`): a mantissa
is multiplied only while it has fewer than sixteen digits.

What comes out depends on the number alone. A number has at most one mantissa of sixteen digits with
an exponent (`IsNormalForm.unique`), and a number that has one with the exponent in bounds is
brought to it, although exponents are held within 32 bits on the way
(`ofParts_eq_ok_iff_isNormalForm`). Every other number is out of range.
-/

set_option autoImplicit false

namespace XrpLedger.IssuedValue

/-! ## Words -/

/-- A mantissa in a word of 64 bits and an exponent in one of 32. -/
structure Words where
  mantissa : UInt64
  exponent : Int32

namespace Words

/-- An exponent less one, unless it is the least that a word holds. -/
def lowered (exponent : Int32) : Int32 :=
  if exponent = Int32.minValue then exponent else exponent - 1

/-- An exponent and one, unless it is the greatest that a word holds. -/
def raised (exponent : Int32) : Int32 :=
  if exponent = Int32.maxValue then exponent else exponent + 1

/-- The mantissa times ten, if the product fits its word, with the exponent lowered. -/
def timesTen? (words : Words) : Option Words :=
  if words.mantissa.toNat * 10 < 2 ^ 64 then some ⟨words.mantissa * 10, lowered words.exponent⟩
  else none

/-- A tenth of the mantissa, with the exponent raised. -/
def tenth (words : Words) : Words :=
  ⟨words.mantissa / 10, raised words.exponent⟩

/-- Lowering an exponent subtracts one and stays within 32 bits. -/
theorem toInt_lowered (exponent : Int32) :
    (lowered exponent).toInt = saturate (exponent.toInt - 1) := by
  have hmin := exponent.le_toInt
  have hmax := exponent.toInt_lt
  unfold lowered
  split
  · next h =>
    rw [h, Int32.toInt_minValue]
    rfl
  · next h =>
    have hne := mt Int32.toInt_inj.mp h
    rw [Int32.toInt_minValue] at hne
    rw [Int32.toInt_sub, Int32.toInt_one, saturate_of_bounds (by omega) (by omega)]
    apply Int.bmod_eq_of_le
    · omega
    · omega

/-- Raising an exponent adds one and stays within 32 bits. -/
theorem toInt_raised (exponent : Int32) :
    (raised exponent).toInt = saturate (exponent.toInt + 1) := by
  have hmin := exponent.le_toInt
  have hmax := exponent.toInt_lt
  unfold raised
  split
  · next h =>
    rw [h, Int32.toInt_maxValue]
    rfl
  · next h =>
    have hne := mt Int32.toInt_inj.mp h
    rw [Int32.toInt_maxValue] at hne
    rw [Int32.toInt_add, Int32.toInt_one, saturate_of_bounds (by omega) (by omega)]
    apply Int.bmod_eq_of_le
    · omega
    · omega

/-- Where the product with ten fits its word, it is that of the mantissa as a number. -/
theorem toNat_of_timesTen? {words next : Words} (h : words.timesTen? = some next) :
    next.mantissa.toNat = words.mantissa.toNat * 10 ∧
      next.exponent.toInt = saturate (words.exponent.toInt - 1) := by
  unfold timesTen? at h
  split at h
  · next hfits =>
    cases h
    refine ⟨?_, toInt_lowered words.exponent⟩
    rw [UInt64.toNat_mul]
    exact Nat.mod_eq_of_lt hfits
  · cases h

/-- A tenth of the mantissa is that of the mantissa as a number. -/
theorem toNat_tenth (words : Words) :
    words.tenth.mantissa.toNat = words.mantissa.toNat / 10 ∧
      words.tenth.exponent.toInt = saturate (words.exponent.toInt + 1) :=
  ⟨UInt64.toNat_div .., toInt_raised words.exponent⟩

/-- A mantissa is zero as a word exactly if it is as a number. -/
theorem mantissa_eq_zero_iff {words : Words} : words.mantissa = 0 ↔ words.mantissa.toNat = 0 := by
  rw [← UInt64.toNat_inj, UInt64.toNat_zero]

/-- A mantissa has at least sixteen digits as a word exactly if it has as a number. -/
theorem le_mantissa_iff {words : Words} :
    1000000000000000 ≤ words.mantissa ↔ 10 ^ 15 ≤ words.mantissa.toNat := by
  simp only [UInt64.le_iff_toNat_le, UInt64.reduceToNat, Nat.reducePow]

/-- A mantissa has at most sixteen digits as a word exactly if it has as a number. -/
theorem mantissa_le_iff {words : Words} :
    words.mantissa ≤ 9999999999999999 ↔ words.mantissa.toNat < 10 ^ 16 := by
  simp only [UInt64.le_iff_toNat_le, UInt64.reduceToNat]
  omega

/-- A mantissa ends in zero as a word exactly if it does as a number. -/
theorem mantissa_mod_iff {words : Words} :
    words.mantissa % 10 = 0 ↔ words.mantissa.toNat % 10 = 0 := by
  simp only [← UInt64.toNat_inj, UInt64.toNat_mod, UInt64.reduceToNat]

/-! ## The two loops in words -/

/-- The two numbers that the words hold. -/
def parts (words : Words) : Nat × Int :=
  (words.mantissa.toNat, words.exponent.toInt)

/-- Multiplies a mantissa by ten until it has sixteen digits, as long as the products fit. -/
def scaleUp? (words : Words) : Option Words :=
  if words.mantissa = 0 ∨ 1000000000000000 ≤ words.mantissa then some words
  else match _product : words.timesTen? with
    | none => none
    | some next => scaleUp? next
termination_by 10 ^ 15 - words.mantissa.toNat
decreasing_by
  rename_i hmore
  obtain ⟨hnext, -⟩ := toNat_of_timesTen? _product
  rw [mantissa_eq_zero_iff, le_mantissa_iff] at hmore
  omega

/-- Divides a mantissa by ten until it has at most sixteen digits; a digit that is not zero stays.
-/
def scaleDown (words : Words) : Except CodecError Words :=
  if words.mantissa ≤ 9999999999999999 then .ok words
  else if words.mantissa % 10 ≠ 0 then .error (.range .precision)
  else scaleDown words.tenth
termination_by words.mantissa.toNat
decreasing_by
  rename_i hmore _
  obtain ⟨hnext, -⟩ := words.toNat_tenth
  rw [mantissa_le_iff] at hmore
  omega

/-- Every product fits, since only a mantissa with fewer than sixteen digits is multiplied. -/
theorem exists_scaleUp?_eq (words : Words) :
    ∃ scaled, words.scaleUp? = some scaled ∧
      scaled.parts = IssuedValue.scaleUp words.mantissa.toNat words.exponent.toInt := by
  induction words using scaleUp?.induct with
  | case1 words hdone =>
    refine ⟨words, ?_, ?_⟩
    · rw [scaleUp?, if_pos hdone]
    · rw [mantissa_eq_zero_iff, le_mantissa_iff] at hdone
      rw [IssuedValue.scaleUp, if_pos hdone, parts]
  | case2 words hmore hover =>
    rw [mantissa_eq_zero_iff, le_mantissa_iff] at hmore
    rw [timesTen?, if_pos (by omega)] at hover
    cases hover
  | case3 words hmore next hproduct ih =>
    obtain ⟨scaled, hscaled, hparts⟩ := ih
    obtain ⟨hmantissa, hexponent⟩ := toNat_of_timesTen? hproduct
    refine ⟨scaled, ?_, ?_⟩
    · rw [scaleUp?, if_neg hmore]
      split
      · next hover =>
        rw [hproduct] at hover
        cases hover
      · next next' hproduct' =>
        cases hproduct.symm.trans hproduct'
        exact hscaled
    · rw [mantissa_eq_zero_iff, le_mantissa_iff] at hmore
      rw [hparts, hmantissa, hexponent, IssuedValue.scaleUp.eq_def words.mantissa.toNat, if_neg hmore]

/-- Scaling down in words is scaling down in numbers: a tenth always fits. -/
theorem map_scaleDown (words : Words) :
    words.scaleDown.map parts
      = IssuedValue.scaleDown words.mantissa.toNat words.exponent.toInt := by
  induction words using scaleDown.induct with
  | case1 words hdone =>
    rw [scaleDown, if_pos hdone]
    rw [mantissa_le_iff] at hdone
    rw [IssuedValue.scaleDown, if_pos hdone]
    rfl
  | case2 words hmore hdigit =>
    rw [scaleDown, if_neg hmore, if_pos hdigit]
    rw [mantissa_le_iff] at hmore
    rw [ne_eq, mantissa_mod_iff] at hdigit
    rw [IssuedValue.scaleDown, if_neg hmore, if_pos hdigit]
    rfl
  | case3 words hmore hdigit ih =>
    obtain ⟨hmantissa, hexponent⟩ := words.toNat_tenth
    rw [scaleDown, if_neg hmore, if_neg hdigit, ih, hmantissa, hexponent]
    rw [mantissa_le_iff] at hmore
    rw [ne_eq, mantissa_mod_iff] at hdigit
    rw [IssuedValue.scaleDown.eq_def words.mantissa.toNat, if_neg hmore, if_neg hdigit]

end Words

/-- The value `±mantissa × 10^exponent`, computed in words; none where a product leaves its word. -/
def ofWords? (negative : Bool) (words : Words) : Option (Except CodecError IssuedValue) :=
  if words.mantissa = 0 then some (.ok zero)
  else words.scaleUp?.map fun words => do
    let words ← words.scaleDown
    if normal : 10 ^ 15 ≤ words.mantissa.toNat ∧ words.mantissa.toNat < 10 ^ 16 ∧
        -96 ≤ words.exponent.toInt ∧ words.exponent.toInt ≤ 80 then
      return ⟨negative, words.mantissa.toNat, words.exponent.toInt, .inr normal⟩
    else throw (.range (.exponent words.exponent.toInt))

/-- Words are wide enough: no product leaves its word, and the outcome is that of computing with
numbers. -/
theorem ofWords?_eq (negative : Bool) (words : Words) :
    ofWords? negative words
      = some (ofParts negative words.mantissa.toNat words.exponent.toInt) := by
  unfold ofWords? ofParts
  by_cases hzero : words.mantissa = 0
  · rw [if_pos hzero, if_pos (Words.mantissa_eq_zero_iff.mp hzero)]
    rfl
  · obtain ⟨scaled, hscaled, hparts⟩ := words.exists_scaleUp?_eq
    have hdown := scaled.map_scaleDown
    rw [if_neg hzero, if_neg (mt Words.mantissa_eq_zero_iff.mpr hzero), hscaled, ← hparts,
      Option.map_some]
    dsimp only [Words.parts] at hdown ⊢
    rw [← hdown]
    cases scaled.scaleDown with
    | error e => rfl
    | ok last => rfl

/-! ## The outcome -/

/-- Whether a number is this mantissa of sixteen digits with this exponent, which is in bounds. -/
structure IsNormalForm (number : ℚ) (mantissa : Nat) (exponent : Int) : Prop where
  low : 10 ^ 15 ≤ mantissa
  high : mantissa < 10 ^ 16
  min : -96 ≤ exponent
  max : exponent ≤ 80
  number_eq : number = scaled mantissa exponent

/-- A mantissa of sixteen digits has no room for more zeros. -/
theorem eq_zero_of_sixteen_digits {m m' k : Nat} (hlow : 10 ^ 15 ≤ m') (hhigh : m < 10 ^ 16)
    (h : m = m' * 10 ^ k) : k = 0 := by
  by_contra hk
  have hpow : 10 ^ 1 ≤ 10 ^ k := Nat.pow_le_pow_right (by omega) (by omega)
  have hmul : 10 ^ 15 * 10 ^ 1 ≤ m' * 10 ^ k := Nat.mul_le_mul hlow hpow
  omega

/-- A number has one form at most. -/
theorem IsNormalForm.unique {number : ℚ} {m m' : Nat} {x x' : Int} (h : IsNormalForm number m x)
    (h' : IsNormalForm number m' x') : m = m' ∧ x = x' := by
  rcases exists_pow_of_scaled_eq (h.number_eq.symm.trans h'.number_eq) with
    ⟨k, hx, hm⟩ | ⟨k, hx, hm⟩
  · obtain rfl := eq_zero_of_sixteen_digits h'.low h.high hm
    omega
  · obtain rfl := eq_zero_of_sixteen_digits h.low h'.high hm
    omega

section Outcome

variable {negative : Bool} {mantissa : UInt64} {exponent : Int32}

/-- A mantissa that is not zero gives the value whose parts are the form of the number. -/
theorem ofParts_eq_ok_iff_isNormalForm {value : IssuedValue} (h : mantissa ≠ 0) :
    ofParts negative mantissa.toNat exponent.toInt = .ok value ↔
      value.negative = negative ∧
        IsNormalForm (scaled mantissa.toNat exponent.toInt) value.mantissa value.exponent := by
  have hpos : mantissa.toNat ≠ 0 := fun hzero => h (UInt64.toNat_inj.mp hzero)
  have hsize := mantissa.toNat_lt
  have hexponent := saturate_of_bounds exponent.le_toInt exponent.toInt_lt
  rw [← hexponent, ofParts_saturate_eq_ok_iff hpos (by omega), hexponent, toRat]
  constructor
  · rintro ⟨hz, hnumber⟩
    obtain ⟨hlow, hhigh, hmin, hmax⟩ := bounds_of_not_isZero hz
    obtain ⟨hsign, hscaled⟩ := (signed_eq_iff (scaled_pos value.exponent (by omega))
      (scaled_pos exponent.toInt hpos)).mp hnumber
    exact ⟨hsign, hlow, hhigh, hmin, hmax, hscaled.symm⟩
  · rintro ⟨hsign, hform⟩
    have hlow := hform.low
    refine ⟨?_, ?_⟩
    · intro hz
      have hzero : value.mantissa = 0 := of_decide_eq_true hz
      omega
    · rw [hsign, hform.number_eq]

/-- A number in the form of issued values is accepted. -/
theorem IsNormalForm.ofParts_isOk {m : Nat} {x : Int} (h : mantissa ≠ 0)
    (hform : IsNormalForm (scaled mantissa.toNat exponent.toInt) m x) :
    ∃ value, ofParts negative mantissa.toNat exponent.toInt = .ok value := by
  refine ⟨⟨negative, m, x, .inr ⟨hform.low, hform.high, hform.min, hform.max⟩⟩, ?_⟩
  apply (ofParts_eq_ok_iff_isNormalForm h).mpr
  exact ⟨rfl, hform⟩

end Outcome

/-- A mantissa of zero gives zero, whatever sign and exponent stand beside it. -/
theorem ofParts_zero (negative : Bool) (exponent : Int) : ofParts negative 0 exponent = .ok zero :=
  rfl

/-- The outcome for every mantissa of 64 bits and exponent of 32. There is a value exactly if the
mantissa is zero or the number has a mantissa of sixteen digits with an exponent in bounds, of which
it has no two. The value has these parts and the sign that is given, and is zero for the mantissa
zero; every other number is out of range. Exponents near the bounds of 32 bits are no exception, and
in words of this width no product is too large. -/
theorem ofParts_exact (negative : Bool) (mantissa : UInt64) (exponent : Int32) :
    ((∃ value, ofParts negative mantissa.toNat exponent.toInt = .ok value) ↔
      mantissa = 0 ∨ ∃ m x, IsNormalForm (scaled mantissa.toNat exponent.toInt) m x) ∧
    (∀ value, ofParts negative mantissa.toNat exponent.toInt = .ok value ↔
      mantissa = 0 ∧ value = zero ∨
        mantissa ≠ 0 ∧ value.negative = negative ∧
          IsNormalForm (scaled mantissa.toNat exponent.toInt) value.mantissa value.exponent) ∧
    (∀ m x m' x', IsNormalForm (scaled mantissa.toNat exponent.toInt) m x →
      IsNormalForm (scaled mantissa.toNat exponent.toInt) m' x' → m = m' ∧ x = x') ∧
    (∀ e, ofParts negative mantissa.toNat exponent.toInt = .error e → ∃ cause, e = .range cause) ∧
    ofWords? negative ⟨mantissa, exponent⟩
      = some (ofParts negative mantissa.toNat exponent.toInt) := by
  refine ⟨?_, ?_, fun m x m' x' => IsNormalForm.unique, fun e => exists_range_of_ofParts,
    ofWords?_eq negative ⟨mantissa, exponent⟩⟩
  · by_cases hzero : mantissa = 0
    · rw [hzero, UInt64.toNat_zero, ofParts_zero]
      exact iff_of_true ⟨zero, rfl⟩ (.inl rfl)
    · constructor
      · rintro ⟨value, hvalue⟩
        obtain ⟨-, hform⟩ := (ofParts_eq_ok_iff_isNormalForm hzero).mp hvalue
        exact .inr ⟨value.mantissa, value.exponent, hform⟩
      · rintro (h | ⟨m, x, hform⟩)
        · exact absurd h hzero
        · exact hform.ofParts_isOk hzero
  · intro value
    by_cases hzero : mantissa = 0
    · rw [hzero, UInt64.toNat_zero, ofParts_zero]
      simp [eq_comm]
    · rw [ofParts_eq_ok_iff_isNormalForm hzero]
      simp [hzero]

end XrpLedger.IssuedValue
