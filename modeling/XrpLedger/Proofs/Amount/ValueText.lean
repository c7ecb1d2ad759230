import XrpLedger.Proofs.Amount.Numeral

/-!
# Issued values as decimal text

An issued value is read back from its text. The text is positional near one and has an exponent
elsewhere; both are digits with or without a point and an exponent (`Parts.chars`), and both spell
the mantissa of the value without some of the zeros at its end (`Spells`). So both are the text of
the number that the value is.
-/

set_option autoImplicit false

namespace XrpLedger.IssuedValue

open Radix

/-! ## The text of parts -/

/-- What stands for an exponent: nothing for zero, or the letter and an exponent of 32 bits. -/
def IsMark (mark : List Char) (exponent : Int) : Prop :=
  (mark = [] ∧ exponent = 0) ∨
    (mark = 'e' :: signedDecimal exponent ∧ -2 ^ 31 ≤ exponent ∧ exponent < 2 ^ 31)

namespace Parts

/-- The characters from the point on; without digits behind it the point is left out. -/
def point (parts : Parts) : List Char :=
  if parts.fraction = [] then [] else '.' :: parts.fraction.map decimalChar

/-- The characters of the digits before and behind the point. -/
def number (parts : Parts) : List Char :=
  parts.whole.map decimalChar ++ parts.point

/-- The characters of parts, where `mark` stands for the exponent. -/
def chars (parts : Parts) (mark : List Char) : List Char :=
  (if parts.negative then ['-'] else []) ++ (parts.number ++ mark)

/-- Parts with digits before the point and no other numbers among the digits. -/
structure WellFormed (parts : Parts) : Prop where
  whole_ne_nil : parts.whole ≠ []
  whole_lt : ∀ d ∈ parts.whole, d < 10
  fraction_lt : ∀ d ∈ parts.fraction, d < 10

variable {parts : Parts} {mark : List Char}

/-- The characters of parts have the form of a number. -/
theorem spelled_chars (h : parts.WellFormed) (hmark : IsMark mark parts.exponent) :
    parts.Spelled (parts.chars mark) := by
  refine ⟨if parts.negative then ['-'] else [], parts.number ++ mark, ?_, ?_, rfl⟩
  · cases hnegative : parts.negative with
    | true => exact .inl ⟨rfl, rfl⟩
    | false => exact .inr ⟨.inl rfl, rfl⟩
  · constructor
    case digits_ne_nil => exact fun hnil => h.whole_ne_nil (List.append_eq_nil_iff.mp hnil).1
    case digits_lt => exact List.forall_mem_append.mpr ⟨h.whole_lt, h.fraction_lt⟩
    case chars =>
      refine ⟨parts.point, mark, ?_, ?_, List.append_assoc _ _ _⟩
      · unfold point
        split
        · next hnone => exact .inl ⟨rfl, hnone⟩
        · exact .inr rfl
      · rcases hmark with ⟨rfl, hzero⟩ | ⟨rfl, hmin, hmax⟩
        · exact .inl ⟨rfl, hzero⟩
        · exact .inr ⟨'e', _, .inl rfl, rfl, Integer.isText_signedDecimal _, hmin, hmax⟩

end Parts

/-! ## The text of a value -/

/-- Parts that spell a value: their digits are those of its mantissa without some zeros at the end,
which the exponent counts. -/
structure Spells (parts : Parts) (mark : List Char) (value : IssuedValue) : Prop where
  wellFormed : parts.WellFormed
  isMark : IsMark mark parts.exponent
  negative_eq : parts.negative = value.negative
  scale : ∃ k : Nat, value.mantissa = Radix.value 10 (parts.whole ++ parts.fraction) * 10 ^ k ∧
    parts.exponent - parts.fraction.length = value.exponent + k

/-- Parts that spell a value have its number. -/
theorem Spells.toRat_eq {parts : Parts} {mark : List Char} {value : IssuedValue}
    (h : Spells parts mark value) : parts.toRat = value.toRat := by
  obtain ⟨k, hmantissa, hexponent⟩ := h.scale
  rw [toRat, parts.toRat_eq, h.negative_eq, hmantissa, scaled_mul_pow, hexponent]

/-- Folding the zeros of a mantissa into its exponent moves as many as it raises the exponent by. -/
theorem exists_foldZeros_eq (mantissa : Nat) (exponent : Int) :
    ∃ k : Nat, mantissa = (foldZeros mantissa exponent).1 * 10 ^ k ∧
      (foldZeros mantissa exponent).2 = exponent + k := by
  induction mantissa, exponent using foldZeros.induct with
  | case1 mantissa exponent hdone =>
    rw [foldZeros, if_pos hdone]
    exact ⟨0, by simp, by simp⟩
  | case2 mantissa exponent hmore ih =>
    obtain ⟨k, hmantissa, hexponent⟩ := ih
    rw [foldZeros, if_neg hmore]
    refine ⟨k + 1, ?_, ?_⟩
    · rw [Nat.pow_succ, ← Nat.mul_assoc, ← hmantissa]
      omega
    · rw [hexponent]
      omega

/-- A value that is not zero is spelled by its mantissa without zeros at the end, with an exponent.
-/
theorem exists_spells_exponent {value : IssuedValue} (hz : ¬value.isZero = true) :
    ∃ parts mark, Spells parts mark value ∧ parts.number ++ mark
      = decimal (foldZeros value.mantissa value.exponent).1
        ++ 'e' :: signedDecimal (foldZeros value.mantissa value.exponent).2 := by
  obtain ⟨-, -, hmin, hmax⟩ := bounds_of_not_isZero hz
  obtain ⟨k, hmantissa, hexponent⟩ := exists_foldZeros_eq value.mantissa value.exponent
  have hk := (lt_of_scaled hz hmantissa).2
  generalize foldZeros value.mantissa value.exponent = folded at hmantissa hexponent
  obtain ⟨ds, hdecimal, hne, hlt, hvalue⟩ := exists_decimal_eq folded.1
  have hlow : -2 ^ 31 ≤ folded.2 := by omega
  have hhigh : folded.2 < 2 ^ 31 := by omega
  refine ⟨⟨value.negative, ds, [], folded.2⟩, 'e' :: signedDecimal folded.2, ?_, ?_⟩
  · constructor
    case wellFormed => exact ⟨hne, hlt, by simp⟩
    case isMark => exact .inr ⟨rfl, hlow, hhigh⟩
    case negative_eq => rfl
    case scale => exact ⟨k, by simpa [hvalue] using hmantissa, by simpa using hexponent⟩
  · rw [hdecimal]
    simp [Parts.number, Parts.point]

/-- The sixteen digits of a mantissa stand around the point, which their exponent counts back from
their end; where they do not reach it, zeros stand before them. -/
theorem exists_digits_around_point {mantissa : Nat} {exponent : Int} (hlow : 10 ^ 15 ≤ mantissa)
    (hhigh : mantissa < 10 ^ 16) (hexponent : exponent ≤ 0) :
    ∃ whole fraction : List Nat, whole ≠ [] ∧ (∀ d ∈ whole ++ fraction, d < 10) ∧
      Radix.value 10 (whole ++ fraction) = mantissa ∧ (fraction.length : Int) = -exponent ∧
      (if 0 < 16 + exponent then
          ((decimal mantissa).take (16 + exponent).toNat,
            (decimal mantissa).drop (16 + exponent).toNat)
        else (['0'], List.replicate (-(16 + exponent)).toNat '0' ++ decimal mantissa))
        = (whole.map decimalChar, fraction.map decimalChar) := by
  have hbase : 2 ≤ 10 := by omega
  have hlength : (digits 10 mantissa).length = 16 := length_digits_of_bounds hbase hlow hhigh
  have hlt : ∀ d ∈ digits 10 mantissa, d < 10 := fun _ => lt_of_mem_digits hbase
  have hvalue : Radix.value 10 (digits 10 mantissa) = mantissa := value_digits hbase mantissa
  rw [decimal_of_ne_zero (show mantissa ≠ 0 by omega)]
  by_cases hpoint : 0 < 16 + exponent
  · refine ⟨(digits 10 mantissa).take (16 + exponent).toNat,
      (digits 10 mantissa).drop (16 + exponent).toNat, ?_, ?_, ?_, ?_, ?_⟩
    · rw [← List.length_pos_iff, List.length_take]
      omega
    · rwa [List.take_append_drop]
    · rwa [List.take_append_drop]
    · rw [List.length_drop]
      omega
    · rw [if_pos hpoint, List.map_take, List.map_drop]
  -- the point stands in front of all digits, so that a zero comes before it and others behind it
  · refine ⟨[0], List.replicate (-(16 + exponent)).toNat 0 ++ digits 10 mantissa,
      ?_, ?_, ?_, ?_, ?_⟩
    · exact List.cons_ne_nil 0 []
    · intro d hd
      simp only [List.mem_append, List.mem_singleton, List.mem_replicate] at hd
      rcases hd with rfl | ⟨-, rfl⟩ | hd
      · omega
      · omega
      · exact hlt d hd
    · have hzeros : Radix.value 10 ([0] ++ List.replicate (-(16 + exponent)).toNat 0) = 0 := by
        apply value_eq_zero
        simp
      rw [← List.append_assoc, Radix.value_append, hzeros, hvalue, Nat.zero_mul, Nat.zero_add]
    · rw [List.length_append, List.length_replicate]
      omega
    · rw [if_neg hpoint, List.map_append, List.map_replicate]
      rfl

/-- The positional text has parts that spell the value. -/
theorem exists_spells_positional {value : IssuedValue} (hz : ¬value.isZero = true)
    (hexponent : value.exponent ≤ 0) :
    ∃ parts mark, Spells parts mark value ∧
      parts.number ++ mark = positional value.mantissa value.exponent := by
  obtain ⟨hlow, hhigh, -⟩ := bounds_of_not_isZero hz
  obtain ⟨whole, fraction, hne, hlt, hvalue, hlength, hchars⟩ :=
    exists_digits_around_point hlow hhigh hexponent
  rw [List.forall_mem_append] at hlt
  -- the zeros that are trimmed behind the point are those that the exponent of the parts counts
  obtain ⟨kept, k, hkept, htext⟩ := exists_trimZeros_map hlt.2
  refine ⟨⟨value.negative, whole, kept, 0⟩, [], ?_, ?_⟩
  · constructor
    case wellFormed =>
      exact ⟨hne, hlt.1, fun d hd => hlt.2 d (hkept ▸ List.mem_append_left _ hd)⟩
    case isMark => exact .inl ⟨rfl, rfl⟩
    case negative_eq => rfl
    case scale =>
      refine ⟨k, ?_, ?_⟩
      · rw [← hvalue, hkept, ← List.append_assoc, Radix.value_append,
          value_eq_zero fun _ => List.eq_of_mem_replicate, List.length_replicate, Nat.add_zero]
      · rw [hkept, List.length_append, List.length_replicate] at hlength
        simp only
        omega
  · simp only [positional, hchars, htext, Parts.number, Parts.point]
    cases kept with
    | nil => simp
    | cons d kept => simp

/-- The text of a value that is not zero, without its sign, spells the value. -/
theorem exists_spells_text {value : IssuedValue} (hz : ¬value.isZero = true) :
    ∃ parts mark, Spells parts mark value ∧ parts.number ++ mark = value.magnitudeText := by
  unfold magnitudeText
  by_cases hform : value.exponent ≠ 0 ∧ (value.exponent < -25 ∨ -5 < value.exponent)
  · rw [if_pos hform]
    exact exists_spells_exponent hz
  · rw [if_neg hform]
    exact exists_spells_positional hz (by omega)

/-- The text of a value has the form of a number and spells exactly the number that the value is. -/
theorem exists_spelled_text (value : IssuedValue) :
    ∃ parts : Parts, parts.Spelled value.text.toList ∧ parts.toRat = value.toRat := by
  unfold text
  by_cases hz : value.isZero = true
  · rw [if_pos hz, toRat_eq_zero_iff.mpr hz]
    refine ⟨⟨false, [0], [], 0⟩, ?_, ?_⟩
    · exact Parts.spelled_chars ⟨by simp, by simp, by simp⟩ (.inl ⟨rfl, rfl⟩)
    · simp [Parts.toRat, signed, Radix.value]
  · obtain ⟨parts, mark, hspells, hchars⟩ := exists_spells_text hz
    have htext : parts.chars mark
        = if value.negative then '-' :: value.magnitudeText else value.magnitudeText := by
      rw [Parts.chars, hspells.negative_eq, hchars]
      split <;> rfl
    refine ⟨parts, ?_, hspells.toRat_eq⟩
    rw [if_neg hz, ← htext, String.toList_ofList]
    exact Parts.spelled_chars hspells.wellFormed hspells.isMark

/-- Every issued value is read from its text. -/
theorem parse_text (value : IssuedValue) : parse value.text = .ok value := by
  obtain ⟨parts, hspelled, hnumber⟩ := exists_spelled_text value
  exact (parse_eq_ok_iff_of_spelled hspelled).mpr hnumber.symm

end XrpLedger.IssuedValue
