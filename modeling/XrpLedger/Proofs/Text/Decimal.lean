import XrpLedger.Proofs.Outcome
import XrpLedger.Proofs.Text.Radix
import XrpLedger.Text.Integer

/-!
# Numbers as decimal text

The readers take decimal text digit by digit, so it is described here as the characters of a list of
digits that spell the number. `Integer.IsText` says which texts spell an integer, and
`Integer.parse` reads exactly these in a range. The text that an integer is written as is one of
them, so the integer is read back from it.
-/

set_option autoImplicit false

namespace XrpLedger

namespace Radix

/-- The decimal text of a number that is not zero is that of its digits. -/
theorem decimal_of_ne_zero {n : Nat} (hn : n ≠ 0) : decimal n = (digits 10 n).map decimalChar :=
  if_neg hn

/-- Decimal text is spelled by at least one digit below ten, and the digits spell the number. -/
theorem exists_decimal_eq (n : Nat) :
    ∃ ds, decimal n = ds.map decimalChar ∧ ds ≠ [] ∧ (∀ d ∈ ds, d < 10) ∧ value 10 ds = n := by
  by_cases hn : n = 0
  · subst hn
    exact ⟨[0], rfl, by simp, by simp, rfl⟩
  · have hbase : 2 ≤ 10 := by omega
    exact ⟨digits 10 n, decimal_of_ne_zero hn, digits_ne_nil hbase hn,
      fun _ hd => lt_of_mem_digits hbase hd, value_digits hbase n⟩

/-- The characters of digits are the ten from zero to nine and none of the marks beside digits. -/
theorem decimalChar_ne_mark : ∀ d < 10, decimalChar d ∉ ['+', '-', '.', 'e', 'E'] := by
  decide

/-- Of a last character, only a zero is trimmed, and then all zeros before it. -/
theorem trimZeros_concat (cs : List Char) (c : Char) :
    trimZeros (cs ++ [c]) = if c = '0' then trimZeros cs else cs ++ [c] := by
  unfold trimZeros
  rw [List.reverse_append, List.reverse_singleton, List.singleton_append, List.dropWhile_cons]
  by_cases hc : c = '0'
  · rw [if_pos (decide_eq_true hc), if_pos hc]
  · rw [if_neg (by simpa using hc), if_neg hc, List.reverse_cons, List.reverse_reverse]

/-- The digits of a text without the zeros at its end are those in front of these zeros. -/
theorem exists_trimZeros_map {ds : List Nat} (hds : ∀ d ∈ ds, d < 10) :
    ∃ kept k, ds = kept ++ List.replicate k 0
      ∧ trimZeros (ds.map decimalChar) = kept.map decimalChar := by
  have hzero : ∀ d < 10, decimalChar d = '0' → d = 0 := by decide
  induction ds using List.reverseRecOn with
  | nil => exact ⟨[], 0, rfl, rfl⟩
  | append_singleton ds d ih =>
    rw [List.map_append, List.map_singleton, trimZeros_concat]
    by_cases hd : decimalChar d = '0'
    · obtain ⟨kept, k, hkept, htext⟩ := ih fun d hd => hds d (List.mem_append_left _ hd)
      have hd0 : d = 0 := hzero d (hds d List.mem_concat_self) hd
      refine ⟨kept, k + 1, ?_, ?_⟩
      · rw [hkept, hd0, List.replicate_succ', List.append_assoc]
      · rw [if_pos hd, htext]
    · refine ⟨ds ++ [d], 0, ?_, ?_⟩
      · rw [List.replicate_zero, List.append_nil]
      · rw [if_neg hd, List.map_append, List.map_singleton]

end Radix

namespace Integer

open Radix

/-- The character of a digit below ten has the value of that digit. -/
theorem digitValue?_decimalChar : ∀ d < 10, digitValue? (decimalChar d) = some d := by
  decide

/-- The characters of digits below ten have the values of these digits. -/
theorem digitValues?_map {ds : List Nat} (hds : ∀ d ∈ ds, d < 10) :
    digitValues? (ds.map decimalChar) = some ds := by
  unfold digitValues?
  induction ds with
  | nil => rfl
  | cons d ds ih =>
    rw [List.forall_mem_cons] at hds
    rw [List.map_cons, List.mapM_cons, digitValue?_decimalChar d hds.1, ih hds.2]
    rfl

/-- A character has a value exactly if it is that of a digit below ten. -/
theorem digitValue?_eq_some_iff {c : Char} {d : Nat} :
    digitValue? c = some d ↔ d < 10 ∧ c = decimalChar d := by
  constructor
  · intro h
    unfold digitValue? at h
    split at h
    · next hrange =>
      have hlow : 48 ≤ c.toNat := UInt32.le_iff_toNat_le.mp hrange.1
      have hhigh : c.toNat ≤ 57 := UInt32.le_iff_toNat_le.mp hrange.2
      cases h
      refine ⟨by omega, ?_⟩
      rw [decimalChar, Nat.add_sub_cancel' hlow, Char.ofNat_toNat]
    · cases h
  · rintro ⟨hd, rfl⟩
    exact digitValue?_decimalChar d hd

/-- Characters have values exactly if they are those of digits below ten. -/
theorem digitValues?_eq_some_iff {cs : List Char} {ds : List Nat} :
    digitValues? cs = some ds ↔ (∀ d ∈ ds, d < 10) ∧ cs = ds.map decimalChar := by
  constructor
  · intro h
    unfold digitValues? at h
    induction cs generalizing ds with
    | nil =>
      cases h
      exact ⟨by simp, rfl⟩
    | cons c cs ih =>
      rw [List.mapM_cons, Option.bind_eq_bind, Option.bind_eq_some_iff] at h
      obtain ⟨d, hd, hrest⟩ := h
      rw [Option.bind_eq_bind, Option.bind_eq_some_iff] at hrest
      obtain ⟨rest, hrest, hds⟩ := hrest
      cases hds
      obtain ⟨hlt, rfl⟩ := digitValue?_eq_some_iff.mp hd
      obtain ⟨hrests, rfl⟩ := ih hrest
      exact ⟨List.forall_mem_cons.mpr ⟨hlt, hrests⟩, rfl⟩
  · rintro ⟨hds, rfl⟩
    exact digitValues?_map hds

/-- Digits are read behind a number if what they spell together stays within the limit. -/
theorem magnitude_map {limit : Nat} (overflow : IntegerError) {sofar : Nat} {ds : List Nat}
    (hds : ∀ d ∈ ds, d < 10) (hlimit : sofar * 10 ^ ds.length + value 10 ds ≤ limit) :
    magnitude limit overflow sofar (ds.map decimalChar)
      = .ok (sofar * 10 ^ ds.length + value 10 ds) := by
  induction ds generalizing sofar with
  | nil => simp [magnitude, value]
  | cons d ds ih =>
    rw [List.forall_mem_cons] at hds
    -- the number grows with every digit, so it stays within the limit before the last one as well
    have hstep : sofar * 10 + d ≤ (sofar * 10 + d) * 10 ^ ds.length :=
      Nat.le_mul_of_pos_right _ (Nat.pow_pos (by omega))
    rw [shift_cons] at hlimit ⊢
    rw [List.map_cons, magnitude, digitValue?_decimalChar d hds.1]
    show (if sofar * 10 + d ≤ limit then _ else _) = _
    rw [if_pos (by omega), ih hds.2 hlimit]

/-- Characters are read behind a number exactly if they are digits and what they spell together
stays within the limit. -/
theorem magnitude_eq_ok_iff {limit : Nat} {overflow : IntegerError} {sofar n : Nat}
    {cs : List Char} (hsofar : sofar ≤ limit) :
    magnitude limit overflow sofar cs = .ok n ↔
      ∃ ds, (∀ d ∈ ds, d < 10) ∧ cs = ds.map decimalChar ∧
        n = sofar * 10 ^ ds.length + value 10 ds ∧ n ≤ limit := by
  constructor
  · intro h
    induction cs generalizing sofar with
    | nil =>
      cases h
      exact ⟨[], by simp, rfl, by simp [value], hsofar⟩
    | cons c cs ih =>
      rw [magnitude] at h
      split at h
      · cases h
      · next d hd =>
        split at h
        · next hle =>
          obtain ⟨hlt, rfl⟩ := digitValue?_eq_some_iff.mp hd
          obtain ⟨ds, hds, rfl, hn, hlimit⟩ := ih hle h
          refine ⟨d :: ds, List.forall_mem_cons.mpr ⟨hlt, hds⟩, rfl, ?_, hlimit⟩
          rw [shift_cons, hn]
        · cases h
  · rintro ⟨ds, hds, rfl, rfl, hlimit⟩
    exact magnitude_map overflow hds hlimit

/-- Characters are read as a number exactly if they are digits that spell one within the limit. -/
theorem magnitude_zero_eq_ok_iff {limit : Nat} {overflow : IntegerError} {cs : List Char}
    {n : Nat} :
    magnitude limit overflow 0 cs = .ok n ↔
      ∃ ds, (∀ d ∈ ds, d < 10) ∧ cs = ds.map decimalChar ∧ n = value 10 ds ∧ n ≤ limit := by
  simp only [magnitude_eq_ok_iff (Nat.zero_le limit), Nat.zero_mul, Nat.zero_add]

/-- Digits without a minus sign are read as the number that they spell, if it is within the bound.
-/
theorem map_magnitude_eq_ok_iff {high n : Int} {cs : List Char} (hhigh : 0 ≤ high) :
    (magnitude high.toNat .tooLarge 0 cs).map Int.ofNat = .ok n ↔
      ∃ ds, (∀ d ∈ ds, d < 10) ∧ cs = ds.map decimalChar ∧ n = value 10 ds ∧ n ≤ high := by
  rw [map_eq_ok_iff]
  constructor
  · rintro ⟨_, hread, rfl⟩
    obtain ⟨ds, hds, hcs, rfl, hlimit⟩ := magnitude_zero_eq_ok_iff.mp hread
    refine ⟨ds, hds, hcs, rfl, ?_⟩
    simp only [Int.ofNat_eq_natCast]
    omega
  · rintro ⟨ds, hds, hcs, rfl, hbound⟩
    exact ⟨value 10 ds, magnitude_zero_eq_ok_iff.mpr ⟨ds, hds, hcs, rfl, by omega⟩, rfl⟩

/-- Text without a sign in front is read as a magnitude. -/
theorem parse_unsigned {low high : Int} {cs : List Char} (hne : cs ≠ [])
    (hhead : ∀ c ∈ cs.head?, c ≠ '+' ∧ c ≠ '-') :
    parse low high (String.ofList cs) = (magnitude high.toNat .tooLarge 0 cs).map Int.ofNat := by
  unfold parse
  rw [String.toList_ofList]
  split <;> simp_all

/-- Text behind a plus sign is read as a magnitude. -/
theorem parse_plus {low high : Int} {cs : List Char} (hne : cs ≠ []) :
    parse low high (String.ofList ('+' :: cs))
      = (magnitude high.toNat .tooLarge 0 cs).map Int.ofNat := by
  unfold parse
  rw [String.toList_ofList]
  split <;> simp_all

/-- A text behind a minus sign is read as a number below zero, where the range has such. -/
theorem parse_minus {low high : Int} {cs : List Char} (hlow : low < 0) (hne : cs ≠ []) :
    parse low high (String.ofList ('-' :: cs))
      = (magnitude (-low).toNat .tooSmall 0 cs).map fun n => -(n : Int) := by
  unfold parse
  rw [String.toList_ofList]
  split <;> simp_all

/-- The text of digits does not start with a sign. -/
theorem head?_map_ne_sign {ds : List Nat} (hds : ∀ d ∈ ds, d < 10) :
    ∀ c ∈ (ds.map decimalChar).head?, c ≠ '+' ∧ c ≠ '-' := by
  intro c hc
  obtain ⟨d, hd, rfl⟩ := List.mem_map.mp (List.mem_of_mem_head? hc)
  have hmark := decimalChar_ne_mark d (hds d hd)
  simp only [List.mem_cons, not_or] at hmark
  exact ⟨hmark.1, hmark.2.1⟩

/-! ## Texts of integers -/

/-- A sign in front of digits: a minus sign if the number is negative, else a plus sign or none. -/
def IsSign (sign : List Char) (negative : Bool) : Prop :=
  (sign = ['-'] ∧ negative = true) ∨ ((sign = [] ∨ sign = ['+']) ∧ negative = false)

/-- Whether characters are decimal digits, at least one, behind a sign or none, and spell `n`. -/
def IsText (cs : List Char) (n : Int) : Prop :=
  ∃ sign negative ds, IsSign sign negative ∧ ds ≠ [] ∧ (∀ d ∈ ds, d < 10) ∧
    cs = sign ++ ds.map decimalChar ∧ n = if negative then -(value 10 ds : Int) else value 10 ds

/-- What is read of a text is an integer within the bounds that the text spells. -/
theorem isText_of_parse {low high n : Int} {text : String} (hlow : low < 0) (hhigh : 0 ≤ high)
    (h : parse low high text = .ok n) : IsText text.toList n ∧ low ≤ n ∧ n ≤ high := by
  unfold parse at h
  split at h
  · cases h
  · cases h
  · cases h
  -- behind a plus sign
  · next digits hne htext =>
    obtain ⟨ds, hds, rfl, rfl, hbound⟩ := (map_magnitude_eq_ok_iff hhigh).mp h
    refine ⟨⟨['+'], false, ds, .inr ⟨.inr rfl, rfl⟩, ?_, hds, htext, rfl⟩, by omega, hbound⟩
    rintro rfl
    exact hne rfl
  -- behind a minus sign
  · next digits hne htext =>
    rw [if_pos hlow] at h
    obtain ⟨_, hcast, rfl⟩ := map_eq_ok_iff.mp h
    obtain ⟨_, hread, hcast⟩ := bind_eq_ok_iff.mp hcast
    obtain rfl := pure_eq_ok_iff.mp hcast
    obtain ⟨ds, hds, rfl, rfl, hlimit⟩ := magnitude_zero_eq_ok_iff.mp hread
    refine ⟨⟨['-'], true, ds, .inl ⟨rfl, rfl⟩, ?_, hds, htext, rfl⟩, ?_⟩
    · rintro rfl
      exact hne rfl
    · omega
  -- without a sign
  · next hne _ _ _ _ =>
    obtain ⟨ds, hds, htext, rfl, hbound⟩ := (map_magnitude_eq_ok_iff hhigh).mp h
    refine ⟨⟨[], false, ds, .inr ⟨.inl rfl, rfl⟩, ?_, hds, htext, rfl⟩, by omega, hbound⟩
    rintro rfl
    exact hne htext

/-- An integer within the bounds is read from each of its texts. -/
theorem parse_of_isText {low high n : Int} {text : String} (hlow : low < 0)
    (h : IsText text.toList n) (hmin : low ≤ n) (hmax : n ≤ high) :
    parse low high text = .ok n := by
  obtain ⟨sign, negative, ds, hsign, hne, hds, htext, rfl⟩ := h
  have hdigits : ds.map decimalChar ≠ [] := fun hnil => hne (List.map_eq_nil_iff.mp hnil)
  rw [← String.ofList_toList (s := text), htext]
  rcases hsign with ⟨rfl, rfl⟩ | ⟨hplus, rfl⟩
  · rw [if_pos rfl] at hmin hmax ⊢
    rw [List.singleton_append, parse_minus hlow hdigits]
    refine map_eq_ok_iff.mpr ⟨_, bind_eq_ok_iff.mpr ⟨_, ?_, rfl⟩, rfl⟩
    exact magnitude_zero_eq_ok_iff.mpr ⟨ds, hds, rfl, rfl, by omega⟩
  · simp only [Bool.false_eq_true, if_false] at hmax ⊢
    have hread := (map_magnitude_eq_ok_iff (by omega)).mpr ⟨ds, hds, rfl, rfl, hmax⟩
    rcases hplus with rfl | rfl
    · rw [List.nil_append, parse_unsigned hdigits (head?_map_ne_sign hds), hread]
    · rw [List.singleton_append, parse_plus hdigits, hread]

/-- A text is read as an integer of a range that holds negative ones exactly if it spells it. -/
theorem parse_eq_ok_iff {low high n : Int} {text : String} (hlow : low < 0) (hhigh : 0 ≤ high) :
    parse low high text = .ok n ↔ IsText text.toList n ∧ low ≤ n ∧ n ≤ high :=
  ⟨isText_of_parse hlow hhigh, fun h => parse_of_isText hlow h.1 h.2.1 h.2.2⟩

/-- Characters are read as a number without a minus sign exactly if they are digits, at least one,
behind a plus sign or none, and the number is in the range. -/
theorem parse_zero_eq_ok_iff {high n : Int} {cs : List Char} (hhigh : 0 ≤ high) :
    parse 0 high (String.ofList cs) = .ok n ↔
      ∃ plus ds, (plus = [] ∨ plus = ['+']) ∧ ds ≠ [] ∧ (∀ d ∈ ds, d < 10) ∧
        cs = plus ++ ds.map decimalChar ∧ n = value 10 ds ∧ n ≤ high := by
  constructor
  · intro h
    unfold parse at h
    rw [String.toList_ofList] at h
    split at h
    · cases h
    · cases h
    · cases h
    · next digits hne =>
      obtain ⟨ds, hds, rfl, rfl, hbound⟩ := (map_magnitude_eq_ok_iff hhigh).mp h
      refine ⟨['+'], ds, .inr rfl, ?_, hds, rfl, rfl, hbound⟩
      rintro rfl
      exact hne rfl
    -- behind a minus sign there is nothing to read where the range starts at zero
    · rw [if_neg (Int.lt_irrefl 0)] at h
      cases h
    · next hne _ _ _ _ =>
      obtain ⟨ds, hds, rfl, rfl, hbound⟩ := (map_magnitude_eq_ok_iff hhigh).mp h
      refine ⟨[], ds, .inl rfl, ?_, hds, rfl, rfl, hbound⟩
      rintro rfl
      exact hne rfl
  · rintro ⟨plus, ds, hplus, hne, hds, rfl, rfl, hlimit⟩
    have hdigits : ds.map decimalChar ≠ [] := fun hnil => hne (List.map_eq_nil_iff.mp hnil)
    have hread := (map_magnitude_eq_ok_iff hhigh).mpr ⟨ds, hds, rfl, rfl, hlimit⟩
    rcases hplus with rfl | rfl
    · rw [List.nil_append, parse_unsigned hdigits (head?_map_ne_sign hds), hread]
    · rw [List.singleton_append, parse_plus hdigits, hread]

/-- A word is read from the texts of digits that spell it, with a plus sign in front or without. -/
theorem parseUInt64_eq_ok_iff {n : Nat} {cs : List Char} :
    parseUInt64 (String.ofList cs) = .ok n ↔
      ∃ plus ds, (plus = [] ∨ plus = ['+']) ∧ ds ≠ [] ∧ (∀ d ∈ ds, d < 10) ∧
        cs = plus ++ ds.map decimalChar ∧ n = value 10 ds ∧ n < 2 ^ 64 := by
  rw [parseUInt64, map_eq_ok_iff]
  constructor
  · rintro ⟨_, hparse, rfl⟩
    obtain ⟨plus, ds, hplus, hne, hds, hcs, rfl, hlimit⟩ :=
      (parse_zero_eq_ok_iff (by omega)).mp hparse
    exact ⟨plus, ds, hplus, hne, hds, hcs, rfl, by omega⟩
  · rintro ⟨plus, ds, hplus, hne, hds, hcs, rfl, hlimit⟩
    refine ⟨value 10 ds, ?_, rfl⟩
    exact (parse_zero_eq_ok_iff (by omega)).mpr ⟨plus, ds, hplus, hne, hds, hcs, rfl, by omega⟩

/-- The decimal text of an integer is one that spells it. -/
theorem isText_signedDecimal (n : Int) : IsText (signedDecimal n) n := by
  obtain ⟨ds, hdecimal, hne, hlt, hvalue⟩ := exists_decimal_eq n.natAbs
  unfold signedDecimal
  rw [hdecimal]
  by_cases hneg : n < 0
  · rw [if_pos hneg]
    exact ⟨['-'], true, ds, .inl ⟨rfl, rfl⟩, hne, hlt, rfl, by rw [if_pos rfl, hvalue]; omega⟩
  · rw [if_neg hneg]
    refine ⟨[], false, ds, .inr ⟨.inl rfl, rfl⟩, hne, hlt, rfl, ?_⟩
    rw [hvalue]
    simp only [Bool.false_eq_true, if_false]
    omega

/-- An integer is read back from its text in every range that holds it and negative ones. -/
theorem parse_signedDecimal {low high n : Int} (hneg : low < 0) (hlow : low ≤ n) (hhigh : n ≤ high) :
    parse low high (String.ofList (signedDecimal n)) = .ok n := by
  apply parse_of_isText hneg _ hlow hhigh
  rw [String.toList_ofList]
  exact isText_signedDecimal n

end Integer

end XrpLedger
