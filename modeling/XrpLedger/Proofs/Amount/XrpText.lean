import XrpLedger.Proofs.Amount.ValueText

/-!
# Amounts of XRP as text

A text in XRP is a sign or none, digits, at most six decimals and the unit. `Numeral` is what stands
in front of the unit, and `Numeral.Spelled` its form. The drops of an amount are the number of its
text, times a million, exactly.

The reader takes more than that form and less than all of its numbers. It looks for the minus sign
itself and leaves the digits before the point to the reader of integers, which takes a plus sign: so
a plus sign may stand behind a minus sign (`Numeral.Accepted`). And digits that do not fit 64 bits
are reported as a malformed integer, while any other number beyond all XRP there is is out of range.
-/

set_option autoImplicit false

namespace XrpLedger

namespace XrpAmount

open Radix
open IssuedValue (IsFraction signed span_append append_of_span isFraction_of_drop)

/-! ## Numbers in front of the unit -/

/-- A sign, digits before the point and digits behind it. -/
structure Numeral where
  negative : Bool
  whole : List Nat
  fraction : List Nat

namespace Numeral

/-- The number that the digits spell. -/
def toRat (number : Numeral) : ℚ :=
  signed number.negative
    (value 10 number.whole + value 10 number.fraction / 10 ^ number.fraction.length)

/-- The drops in that many XRP, whatever the sign. -/
def drops (number : Numeral) : Nat :=
  value 10 number.whole * 10 ^ 6 + value 10 number.fraction * 10 ^ (6 - number.fraction.length)

/-- Whether characters are the digits of a number, at least one before the point and at most six
behind it. -/
structure IsDigits (number : Numeral) (cs : List Char) : Prop where
  whole_ne_nil : number.whole ≠ []
  digits_lt : ∀ d ∈ number.whole ++ number.fraction, d < 10
  length_le : number.fraction.length ≤ 6
  chars : ∃ point, IsFraction point number.fraction ∧ cs = number.whole.map decimalChar ++ point

/-- Whether characters are a sign or none and the digits of the number. -/
def Spelled (number : Numeral) (cs : List Char) : Prop :=
  ∃ sign digits, Integer.IsSign sign number.negative ∧ number.IsDigits digits ∧ cs = sign ++ digits

/-- Whether characters spell the number, or put a minus and a plus sign in front of its digits. -/
def Accepted (number : Numeral) (cs : List Char) : Prop :=
  number.Spelled cs ∨
    number.negative = true ∧ ∃ digits, number.IsDigits digits ∧ cs = '-' :: '+' :: digits

/-- The amount of this many XRP, which is out of range beyond all XRP there is. -/
def toAmount (number : Numeral) (text : String) : Except CodecError XrpAmount :=
  if number.drops ≤ maxDrops then
    ofDrops (if number.negative then -(number.drops : Int) else number.drops)
  else throw (.range (.supply text))

variable {number : Numeral} {cs : List Char}

/-- Characters are taken that are a minus sign or none, then a plus sign or none, and the digits. -/
theorem accepted_iff :
    number.Accepted cs ↔ ∃ minus plus digits,
      (minus = ['-'] ∧ number.negative = true ∨ minus = [] ∧ number.negative = false) ∧
      (plus = [] ∨ plus = ['+']) ∧ number.IsDigits digits ∧ cs = minus ++ (plus ++ digits) := by
  constructor
  · rintro (⟨_, _, ⟨rfl, hneg⟩ | ⟨rfl | rfl, hpos⟩, hdigits, rfl⟩ | ⟨hneg, _, hdigits, rfl⟩)
    · exact ⟨['-'], [], _, .inl ⟨rfl, hneg⟩, .inl rfl, hdigits, rfl⟩
    · exact ⟨[], [], _, .inr ⟨rfl, hpos⟩, .inl rfl, hdigits, rfl⟩
    · exact ⟨[], ['+'], _, .inr ⟨rfl, hpos⟩, .inr rfl, hdigits, rfl⟩
    · exact ⟨['-'], ['+'], _, .inl ⟨rfl, hneg⟩, .inr rfl, hdigits, rfl⟩
  · rintro ⟨_, _, _, ⟨rfl, hneg⟩ | ⟨rfl, hpos⟩, rfl | rfl, hdigits, rfl⟩
    · exact .inl ⟨['-'], _, .inl ⟨rfl, hneg⟩, hdigits, rfl⟩
    · exact .inr ⟨hneg, _, hdigits, rfl⟩
    · exact .inl ⟨[], _, .inr ⟨.inl rfl, hpos⟩, hdigits, rfl⟩
    · exact .inl ⟨['+'], _, .inr ⟨.inr rfl, hpos⟩, hdigits, rfl⟩

/-- A million times the number is a whole number of drops. -/
theorem toRat_mul_eq (h : number.fraction.length ≤ 6) :
    number.toRat * 10 ^ 6 = signed number.negative number.drops := by
  have hne : (10 : ℚ) ^ number.fraction.length ≠ 0 := pow_ne_zero _ (by norm_num)
  have hpow : (10 : ℚ) ^ 6 = 10 ^ number.fraction.length * 10 ^ (6 - number.fraction.length) := by
    rw [← pow_add, Nat.add_sub_cancel' h]
  have hdrops : ((value 10 number.whole : ℚ)
      + value 10 number.fraction / 10 ^ number.fraction.length) * 10 ^ 6 = number.drops := by
    rw [drops, add_mul, Nat.cast_add, Nat.cast_mul, Nat.cast_mul, Nat.cast_pow, Nat.cast_pow,
      Nat.cast_ofNat]
    congr 1
    rw [hpow, ← mul_assoc, div_mul_cancel₀ _ hne]
  unfold toRat signed
  split
  · rw [neg_mul, hdrops]
  · exact hdrops

end Numeral

/-! ## Reading a text in XRP -/

/-- The minus sign in front of characters, and the characters behind it. -/
def splitMinus : List Char → Bool × List Char
  | '-' :: rest => (true, rest)
  | rest => (false, rest)

/-- What is read behind the minus sign. -/
def parseUnsigned (text : String) (negative : Bool) (cs : List Char) :
    Except CodecError XrpAmount := do
  let (whole, point) := cs.span fun c => c ≠ '.'
  match Integer.digitValues? (point.drop 1) with
  | none => throw (.format (.xrpText text))
  | some fraction =>
    if 6 < fraction.length then throw (.format (.xrpText text))
    else
      let xrp ← (Integer.parseUInt64 (String.ofList whole)).mapError fun cause =>
        CodecError.format (.integer cause)
      let drops := xrp * dropsPerXrp + fractionDrops fraction
      if drops ≤ maxDrops then ofDrops (if negative then -drops else drops)
      else throw (.range (.supply text))

/-- An amount in XRP is read by its minus sign first. -/
theorem parseXrp_eq (text : String) (cs : List Char) :
    parseXrp text cs = parseUnsigned text (splitMinus cs).1 (splitMinus cs).2 := by
  unfold parseXrp
  split
  next negative rest hsign =>
  have hsplit : splitMinus cs = (negative, rest) := hsign
  rw [hsplit]
  rfl

/-- What stands in front of the unit is found. -/
theorem inXrp?_append (front : List Char) : inXrp? (front ++ " XRP".toList) = some front := by
  have hsuffix : " XRP".toList.isSuffixOf (front ++ " XRP".toList) = true :=
    List.isSuffixOf_iff_suffix.mpr (List.suffix_append _ _)
  rw [inXrp?, if_pos hsuffix, List.length_append, Nat.add_sub_cancel, List.take_left']
  rfl

/-- Text in front of the unit is read as a number of XRP. -/
theorem parse_append_unit (front : String) :
    parse (front ++ " XRP") = parseXrp (front ++ " XRP") front.toList := by
  rw [parse, String.toList_append, inXrp?_append]

/-- At most six decimals are padded with zeros to six. -/
theorem fractionDrops_eq (fraction : List Nat) :
    fractionDrops fraction = value 10 fraction * 10 ^ (6 - fraction.length) := by
  rw [fractionDrops, value_append, value_eq_zero fun _ => List.eq_of_mem_replicate,
    List.length_replicate, Nat.add_zero]

section Reading

variable {number : Numeral} {text : String} {plus cs : List Char}

/-- The digits of a number that starts in 64 bits are read as that many XRP. -/
theorem parseUnsigned_of_isDigits (hplus : plus = [] ∨ plus = ['+']) (h : number.IsDigits cs)
    (hsmall : value 10 number.whole < 2 ^ 64) :
    parseUnsigned text number.negative (plus ++ cs) = number.toAmount text := by
  obtain ⟨point, hpoint, rfl⟩ := h.chars
  obtain ⟨hwhole, hfraction⟩ := List.forall_mem_append.mp h.digits_lt
  have hspan : (plus ++ (number.whole.map decimalChar ++ point)).span (fun c => c ≠ '.')
      = (plus ++ number.whole.map decimalChar, point) := by
    rw [← List.append_assoc]
    apply span_append
    · intro c hc
      rcases List.mem_append.mp hc with hsign | hdigit
      · rcases hplus with rfl | rfl
        · cases hsign
        · rw [List.mem_singleton.mp hsign]
          rfl
      · obtain ⟨d, hd, rfl⟩ := List.mem_map.mp hdigit
        have hmark := decimalChar_ne_mark d (hwhole d hd)
        simp_all
    · intro c hc
      rcases hpoint with ⟨rfl, -⟩ | rfl
      · cases hc
      · cases hc
        rfl
  have hread : Integer.parseUInt64 (String.ofList (plus ++ number.whole.map decimalChar))
      = .ok (value 10 number.whole) :=
    Integer.parseUInt64_eq_ok_iff.mpr
      ⟨plus, number.whole, hplus, h.whole_ne_nil, hwhole, rfl, rfl, hsmall⟩
  have hunit : dropsPerXrp = 10 ^ 6 := rfl
  rw [parseUnsigned, hspan]
  dsimp only
  rw [hpoint.drop_eq, Integer.digitValues?_map hfraction]
  dsimp only
  rw [if_neg (Nat.not_lt.mpr h.length_le), hread, mapError_ok_bind, fractionDrops_eq, hunit]
  rfl

/-- Other characters have a wrong form. -/
theorem isDigits_or_format (text : String) (negative : Bool) (cs : List Char) :
    (∃ (number : Numeral) (plus digits : List Char), number.negative = negative ∧
      (plus = [] ∨ plus = ['+']) ∧ number.IsDigits digits ∧ cs = plus ++ digits ∧
        value 10 number.whole < 2 ^ 64) ∨
      ∃ cause, parseUnsigned text negative cs = .error (.format cause) := by
  rw [parseUnsigned]
  generalize hspan : cs.span (fun c => c ≠ '.') = halves
  obtain ⟨whole, point⟩ := halves
  obtain ⟨rfl, hpoint⟩ := append_of_span hspan
  dsimp only
  split
  · exact .inr ⟨_, rfl⟩
  next fraction hfraction =>
  obtain ⟨hlt, hdrop⟩ := Integer.digitValues?_eq_some_iff.mp hfraction
  split
  · exact .inr ⟨_, rfl⟩
  next hlength =>
  cases hread : Integer.parseUInt64 (String.ofList whole) with
  | error cause => exact .inr ⟨.integer cause, rfl⟩
  | ok xrp =>
    obtain ⟨plus, ds, hplus, hne, hds, rfl, rfl, hsmall⟩ := Integer.parseUInt64_eq_ok_iff.mp hread
    have hdot : ∀ c ∈ point.head?, c = '.' := by
      intro c hc
      simpa using hpoint c hc
    refine .inl ⟨⟨negative, ds, fraction⟩, plus, _, rfl, hplus, ?_, List.append_assoc _ _ _, hsmall⟩
    exact ⟨hne, List.forall_mem_append.mpr ⟨hds, hlt⟩, Nat.le_of_not_lt hlength,
      point, isFraction_of_drop hdot hdrop, rfl⟩

/-- The digits of a number do not start with a sign. -/
theorem Numeral.IsDigits.head? (h : number.IsDigits cs) :
    ∀ c ∈ cs.head?, c ≠ '+' ∧ c ≠ '-' := by
  obtain ⟨point, -, rfl⟩ := h.chars
  have hwhole := (List.forall_mem_append.mp h.digits_lt).1
  have hne : number.whole.map decimalChar ≠ [] :=
    fun hnil => h.whole_ne_nil (List.map_eq_nil_iff.mp hnil)
  rw [List.head?_append_of_ne_nil _ hne]
  exact Integer.head?_map_ne_sign hwhole

/-- Characters that do not start with a minus sign are not negative. -/
theorem splitMinus_of_ne (h : ∀ c ∈ cs.head?, c ≠ '-') : splitMinus cs = (false, cs) := by
  unfold splitMinus
  split
  · simp at h
  · rfl

/-- Splitting off a minus sign gives the two parts of the characters. -/
theorem minus_of_splitMinus (cs : List Char) :
    ∃ minus, (minus = ['-'] ∧ (splitMinus cs).1 = true ∨ minus = [] ∧ (splitMinus cs).1 = false) ∧
      cs = minus ++ (splitMinus cs).2 := by
  unfold splitMinus
  split
  · exact ⟨['-'], .inl ⟨rfl, rfl⟩, rfl⟩
  · exact ⟨[], .inr ⟨rfl, rfl⟩, rfl⟩

/-- A number that starts in 64 bits is read as that many XRP. -/
theorem parse_of_accepted {front : String} (h : number.Accepted front.toList)
    (hsmall : value 10 number.whole < 2 ^ 64) :
    parse (front ++ " XRP") = number.toAmount (front ++ " XRP") := by
  obtain ⟨minus, plus, digits, hminus, hplus, hdigits, hfront⟩ := Numeral.accepted_iff.mp h
  have hbehind : ∀ c ∈ (plus ++ digits).head?, c ≠ '-' := by
    rcases hplus with rfl | rfl
    · exact fun c hc => (hdigits.head? c hc).2
    · rintro c ⟨⟩
      decide
  have hsplit : splitMinus (minus ++ (plus ++ digits)) = (number.negative, plus ++ digits) := by
    rcases hminus with ⟨rfl, hneg⟩ | ⟨rfl, hpos⟩
    · rw [hneg]
      rfl
    · rw [hpos]
      exact splitMinus_of_ne hbehind
  rw [parse_append_unit, parseXrp_eq, hfront, hsplit]
  exact parseUnsigned_of_isDigits hplus hdigits hsmall

/-- What is no number that starts in 64 bits has a wrong form. -/
theorem accepted_or_format (front : String) :
    (∃ number : Numeral, number.Accepted front.toList ∧ value 10 number.whole < 2 ^ 64) ∨
      ∃ cause, parse (front ++ " XRP") = .error (.format cause) := by
  obtain ⟨minus, hminus, hfront⟩ := minus_of_splitMinus front.toList
  rw [parse_append_unit, parseXrp_eq]
  rcases isDigits_or_format (front ++ " XRP") (splitMinus front.toList).1
      (splitMinus front.toList).2 with
    ⟨number, plus, digits, hnegative, hplus, hdigits, hbehind, hsmall⟩ | hformat
  · rw [← hnegative] at hminus
    have haccepted := Numeral.accepted_iff.mpr
      ⟨minus, plus, digits, hminus, hplus, hdigits, hbehind ▸ hfront⟩
    exact .inl ⟨number, haccepted, hsmall⟩
  · exact .inr hformat

/-! ## The amount of a number -/

/-- An accepted number has at most six decimals. -/
theorem Numeral.Accepted.length_le (h : number.Accepted cs) : number.fraction.length ≤ 6 := by
  obtain ⟨_, _, _, -, -, hdigits, -⟩ := accepted_iff.mp h
  exact hdigits.length_le

/-- The drops of an accepted number are a million times its magnitude. -/
theorem Numeral.Accepted.abs_toRat_mul (h : number.Accepted cs) :
    |number.toRat * 10 ^ 6| = (number.drops : ℚ) := by
  rw [toRat_mul_eq h.length_le, signed]
  split
  · rw [abs_neg, Nat.abs_cast]
  · rw [Nat.abs_cast]

/-- An amount is that of a number exactly if its drops are a million times the number. -/
theorem Numeral.Accepted.toAmount_eq_ok_iff (h : number.Accepted cs) (text : String)
    {amount : XrpAmount} :
    number.toAmount text = .ok amount ↔ (amount.drops : ℚ) = number.toRat * 10 ^ 6 := by
  have hsigned : number.toRat * 10 ^ 6
      = ((if number.negative then -(number.drops : Int) else number.drops : Int) : ℚ) := by
    rw [toRat_mul_eq h.length_le, signed]
    split <;> simp
  have hbound := amount.bounded
  rw [hsigned, Int.cast_inj, toAmount]
  split
  · exact ofDrops_eq_ok_iff
  · next hlarge =>
    refine iff_of_false (by simp) ?_
    intro hdrops
    apply hlarge
    rw [hdrops] at hbound
    split at hbound <;> omega

/-- A number has an amount, or it is beyond all XRP there is and out of range. -/
theorem Numeral.Accepted.toAmount_cases (h : number.Accepted cs) (text : String) :
    (|number.toRat * 10 ^ 6| ≤ (maxDrops : ℚ) ∧ ∃ amount, number.toAmount text = .ok amount) ∨
      ((maxDrops : ℚ) < |number.toRat * 10 ^ 6| ∧
        number.toAmount text = .error (.range (.supply text))) := by
  rw [h.abs_toRat_mul, Nat.cast_le, Nat.cast_lt, toAmount]
  split
  · next hsmall =>
    have hbounded : (if number.negative then -(number.drops : Int) else number.drops).natAbs
        ≤ maxDrops := by
      split <;> omega
    exact .inl ⟨hsmall, _, dif_pos hbounded⟩
  · next hlarge => exact .inr ⟨Nat.lt_of_not_le hlarge, rfl⟩

/-- A number that is not beyond all XRP there is starts in 64 bits. -/
theorem Numeral.Accepted.value_lt (h : number.Accepted cs)
    (hcap : |number.toRat * 10 ^ 6| ≤ (maxDrops : ℚ)) : value 10 number.whole < 2 ^ 64 := by
  rw [h.abs_toRat_mul, Nat.cast_le] at hcap
  have hwhole : value 10 number.whole * 10 ^ 6 ≤ maxDrops :=
    Nat.le_trans (Nat.le_add_right _ _) hcap
  unfold maxDrops at hwhole
  omega

/-! ## Texts in XRP and their amounts -/

/-- No amount has more drops than there are. -/
theorem abs_drops_le (amount : XrpAmount) : |(amount.drops : ℚ)| ≤ (maxDrops : ℚ) := by
  rw [← Int.cast_abs, Int.abs_eq_natAbs, Int.cast_natCast, Nat.cast_le]
  exact amount.bounded

/-- A text is read as the amount whose drops are a million times its number. -/
theorem parse_of_toRat_eq {front : String} {amount : XrpAmount} (h : number.Accepted front.toList)
    (hdrops : (amount.drops : ℚ) = number.toRat * 10 ^ 6) :
    parse (front ++ " XRP") = .ok amount := by
  have hcap : |number.toRat * 10 ^ 6| ≤ (maxDrops : ℚ) := hdrops ▸ amount.abs_drops_le
  rw [parse_of_accepted h (h.value_lt hcap), h.toAmount_eq_ok_iff]
  exact hdrops

/-- A text in XRP is read as an amount, or its number is beyond all XRP there is, or it is no number
that starts in 64 bits. -/
theorem parse_xrp_cases (front : String) :
    (∃ (number : Numeral) (amount : XrpAmount), number.Accepted front.toList ∧
      (amount.drops : ℚ) = number.toRat * 10 ^ 6 ∧ parse (front ++ " XRP") = .ok amount) ∨
    (∃ number : Numeral, (number.Accepted front.toList ∧ value 10 number.whole < 2 ^ 64 ∧
      (maxDrops : ℚ) < |number.toRat * 10 ^ 6|) ∧
        parse (front ++ " XRP") = .error (.range (.supply (front ++ " XRP")))) ∨
    ((¬∃ number : Numeral, number.Accepted front.toList ∧ value 10 number.whole < 2 ^ 64) ∧
      ∃ cause, parse (front ++ " XRP") = .error (.format cause)) := by
  by_cases hnumber : ∃ number : Numeral, number.Accepted front.toList ∧
      value 10 number.whole < 2 ^ 64
  · obtain ⟨number, h, hsmall⟩ := hnumber
    rw [parse_of_accepted h hsmall]
    rcases h.toAmount_cases (front ++ " XRP") with ⟨-, amount, hamount⟩ | ⟨hover, hrange⟩
    · exact .inl ⟨number, amount, h, (h.toAmount_eq_ok_iff _).mp hamount, hamount⟩
    · exact .inr (.inl ⟨number, ⟨h, hsmall, hover⟩, hrange⟩)
  · exact .inr (.inr ⟨hnumber, (accepted_or_format front).resolve_left hnumber⟩)

/-- A text in XRP is read as the amount of its number in drops, and only if it is accepted. -/
theorem parse_xrp_eq_ok_iff {front : String} {amount : XrpAmount} :
    parse (front ++ " XRP") = .ok amount ↔
      ∃ number : Numeral, number.Accepted front.toList ∧
        (amount.drops : ℚ) = number.toRat * 10 ^ 6 := by
  refine ⟨fun hok => ?_, fun ⟨_, h, hdrops⟩ => parse_of_toRat_eq h hdrops⟩
  rcases parse_xrp_cases front with
    ⟨number, read, h, hdrops, hread⟩ | ⟨_, -, hrange⟩ | ⟨-, _, hformat⟩
  · cases hok.symm.trans hread
    exact ⟨number, h, hdrops⟩
  · cases hok.symm.trans hrange
  · cases hok.symm.trans hformat

/-- A text in XRP is out of range exactly if its number is accepted, has a whole part of 64 bits and
exceeds all XRP there is. -/
theorem parse_xrp_range_iff {front : String} {cause : RangeError} :
    parse (front ++ " XRP") = .error (.range cause) ↔
      cause = .supply (front ++ " XRP") ∧ ∃ number : Numeral, number.Accepted front.toList ∧
        value 10 number.whole < 2 ^ 64 ∧ (maxDrops : ℚ) < |number.toRat * 10 ^ 6| := by
  constructor
  · intro herror
    rcases parse_xrp_cases front with
      ⟨_, _, -, -, hread⟩ | ⟨number, h, hrange⟩ | ⟨-, _, hformat⟩
    · cases herror.symm.trans hread
    · cases herror.symm.trans hrange
      exact ⟨rfl, number, h⟩
    · cases herror.symm.trans hformat
  · rintro ⟨rfl, number, h, hsmall, hover⟩
    rw [parse_of_accepted h hsmall]
    exact ((h.toAmount_cases _).resolve_left fun hcap => not_le.mpr hover hcap.1).2

/-- A text in XRP is malformed exactly if it is no accepted number with a whole part of 64 bits. -/
theorem parse_xrp_format_iff {front : String} :
    (∃ cause, parse (front ++ " XRP") = .error (.format cause)) ↔
      ¬∃ number : Numeral, number.Accepted front.toList ∧ value 10 number.whole < 2 ^ 64 := by
  refine ⟨fun ⟨cause, herror⟩ => ?_, (accepted_or_format front).resolve_left⟩
  rcases parse_xrp_cases front with ⟨_, _, -, -, hread⟩ | ⟨_, -, hrange⟩ | ⟨hnone, -⟩
  · cases herror.symm.trans hread
  · cases herror.symm.trans hrange
  · exact hnone

end Reading

/-- A text in XRP is read as the amount whose drops are a million times its number, exactly if there
is such an amount; a larger number is out of range if it starts in 64 bits, and everything else has
a wrong form. -/
theorem parse_xrp_exact (front : String) :
    (∀ amount, parse (front ++ " XRP") = .ok amount ↔
      ∃ number : Numeral, number.Accepted front.toList ∧
        (amount.drops : ℚ) = number.toRat * 10 ^ 6) ∧
    ((∃ amount, parse (front ++ " XRP") = .ok amount) ↔
      ∃ number : Numeral, number.Accepted front.toList ∧
        |number.toRat * 10 ^ 6| ≤ (maxDrops : ℚ)) ∧
    (∀ cause, parse (front ++ " XRP") = .error (.range cause) ↔
      cause = .supply (front ++ " XRP") ∧ ∃ number : Numeral, number.Accepted front.toList ∧
        value 10 number.whole < 2 ^ 64 ∧ (maxDrops : ℚ) < |number.toRat * 10 ^ 6|) ∧
    ((∃ cause, parse (front ++ " XRP") = .error (.format cause)) ↔
      ¬∃ number : Numeral, number.Accepted front.toList ∧ value 10 number.whole < 2 ^ 64) := by
  refine ⟨fun _ => parse_xrp_eq_ok_iff, ⟨?_, ?_⟩, fun _ => parse_xrp_range_iff,
    parse_xrp_format_iff⟩
  · rintro ⟨amount, hread⟩
    obtain ⟨number, h, hdrops⟩ := parse_xrp_eq_ok_iff.mp hread
    exact ⟨number, h, hdrops ▸ amount.abs_drops_le⟩
  · rintro ⟨number, h, hcap⟩
    rw [parse_of_accepted h (h.value_lt hcap)]
    exact ((h.toAmount_cases _).resolve_right fun hover => not_le.mpr hover.1 hcap).2

/-- The digits of a number do not start with a sign, so that it has at most one. -/
theorem Numeral.not_spelled_of_signs (number : Numeral) (cs : List Char) :
    ¬number.Spelled ('-' :: '+' :: cs) := by
  rintro ⟨sign, digits, hsign, hdigits, hcs⟩
  rcases hsign with ⟨rfl, -⟩ | ⟨rfl | rfl, -⟩
  · cases hcs
    exact (hdigits.head? '+' rfl).1 rfl
  · cases hcs
    exact (hdigits.head? '-' rfl).2 rfl
  · cases hcs

/-- Two signs are taken, although no number is spelled with both; and a number of twenty digits,
which is beyond all XRP there is, is reported as malformed. -/
theorem parse_xrp_two_signs_and_twenty_digits :
    ((∃ amount, parse ("-+1" ++ " XRP") = .ok amount) ∧
      ¬∃ number : Numeral, number.Spelled "-+1".toList) ∧
    ((∃ number : Numeral, number.Spelled "18446744073709551616".toList ∧
        (maxDrops : ℚ) < |number.toRat * 10 ^ 6|) ∧
      ∃ cause, parse ("18446744073709551616" ++ " XRP") = .error (.format cause)) := by
  refine ⟨⟨⟨⟨-1000000, by decide⟩, by decide⟩, ?_⟩, ⟨⟨⟨false,
    [1, 8, 4, 4, 6, 7, 4, 4, 0, 7, 3, 7, 0, 9, 5, 5, 1, 6, 1, 6], []⟩, ?_, ?_⟩, ⟨_, rfl⟩⟩⟩
  · rintro ⟨number, hnumber⟩
    exact number.not_spelled_of_signs _ hnumber
  · exact ⟨[], _, .inr ⟨.inl rfl, rfl⟩, ⟨by decide, by decide, by decide, [], .inl ⟨rfl, rfl⟩, rfl⟩,
      rfl⟩
  · norm_num [Numeral.toRat, signed, value, maxDrops]

/-! ## Writing an amount -/

/-- The decimals of a text are those of the drops that make up no whole XRP, without the zeros at
their end. -/
theorem exists_decimals_eq {fraction : Nat} (hne : fraction ≠ 0) (hlt : fraction < 10 ^ 6) :
    ∃ kept : List Nat, (∀ d ∈ kept, d < 10) ∧ kept.length ≤ 6 ∧
      value 10 kept * 10 ^ (6 - kept.length) = fraction ∧
      trimZeros (List.replicate (6 - (decimal fraction).length) '0' ++ decimal fraction)
        = kept.map decimalChar := by
  have hlength : (digits 10 fraction).length ≤ 6 := length_digits_le (by omega) hlt
  have hpadded : ∀ d ∈ List.replicate (6 - (digits 10 fraction).length) 0 ++ digits 10 fraction,
      d < 10 := by
    intro d hd
    rcases List.mem_append.mp hd with hzero | hdigit
    · rw [List.eq_of_mem_replicate hzero]
      omega
    · exact lt_of_mem_digits (by omega) hdigit
  -- six digits are what is kept and the zeros that were trimmed off their end
  obtain ⟨kept, k, hkept, htext⟩ := exists_trimZeros_map hpadded
  have hcount := congrArg List.length hkept
  simp only [List.length_append, List.length_replicate] at hcount
  have hvalue : value 10 kept * 10 ^ k = fraction := calc
    value 10 kept * 10 ^ k
    _ = value 10 (kept ++ List.replicate k 0) := by
        rw [value_append, value_eq_zero fun _ => List.eq_of_mem_replicate, List.length_replicate,
          Nat.add_zero]
    _ = value 10 (digits 10 fraction) := by
        rw [← hkept, value_append, value_eq_zero fun _ => List.eq_of_mem_replicate, Nat.zero_mul,
          Nat.zero_add]
    _ = fraction := value_digits (by omega) fraction
  refine ⟨kept, fun d hd => ?_, by omega, ?_, ?_⟩
  · exact hpadded d (hkept ▸ List.mem_append_left _ hd)
  · rw [show 6 - kept.length = k by omega, hvalue]
  · rw [decimal_of_ne_zero hne, List.length_map, ← htext, List.map_append, List.map_replicate]
    rfl

/-- The text of an amount is its sign, its whole part, at most six decimals and the unit. -/
theorem exists_text_eq (amount : XrpAmount) :
    ∃ (kept : List Nat) (point : List Char), (∀ d ∈ kept, d < 10) ∧ kept.length ≤ 6 ∧
      value 10 kept * 10 ^ (6 - kept.length) = amount.drops.natAbs % dropsPerXrp ∧
      IsFraction point kept ∧
      amount.text = String.ofList ((if amount.isNegative then ['-'] else [])
        ++ decimal (amount.drops.natAbs / dropsPerXrp) ++ point ++ " XRP".toList) := by
  by_cases hzero : amount.drops.natAbs % dropsPerXrp = 0
  -- without decimals there is no point either
  · refine ⟨[], [], by simp, by simp, ?_, .inl ⟨rfl, rfl⟩, ?_⟩
    · rw [hzero]
      rfl
    · simp only [text, hzero, if_true]
  · have hbound : amount.drops.natAbs % dropsPerXrp < 10 ^ 6 := Nat.mod_lt _ (by decide)
    obtain ⟨kept, hkept, hlength, hfraction, hchars⟩ := exists_decimals_eq hzero hbound
    refine ⟨kept, _, hkept, hlength, hfraction, .inr rfl, ?_⟩
    simp only [text, hzero, if_false, hchars]

/-- The text of an amount is that of a number of XRP, of which its drops are a million times. -/
theorem exists_spelled_text (amount : XrpAmount) :
    ∃ (front : String) (number : Numeral), amount.text = front ++ " XRP" ∧
      number.Spelled front.toList ∧ (amount.drops : ℚ) = number.toRat * 10 ^ 6 := by
  obtain ⟨whole, hwhole, hne, hlt, hvalue⟩ :=
    exists_decimal_eq (amount.drops.natAbs / dropsPerXrp)
  obtain ⟨kept, point, hkept, hlength, hfraction, hpoint, htext⟩ := amount.exists_text_eq
  have hdigits : (Numeral.mk amount.isNegative whole kept).IsDigits
      (whole.map decimalChar ++ point) :=
    ⟨hne, List.forall_mem_append.mpr ⟨hlt, hkept⟩, hlength, point, hpoint, rfl⟩
  refine ⟨String.ofList ((if amount.isNegative then ['-'] else [])
    ++ whole.map decimalChar ++ point), ⟨amount.isNegative, whole, kept⟩, ?_, ?_, ?_⟩
  · rw [htext, hwhole, String.ofList_append, String.ofList_toList]
  · rw [String.toList_ofList, List.append_assoc]
    refine ⟨_, _, ?_, hdigits, rfl⟩
    cases hnegative : amount.isNegative with
    | true => exact .inl ⟨rfl, rfl⟩
    | false => exact .inr ⟨.inl rfl, rfl⟩
  · have hdrops : (Numeral.mk amount.isNegative whole kept).drops = amount.drops.natAbs := by
      simp only [Numeral.drops, hvalue, hfraction]
      exact Nat.div_add_mod' _ _
    rw [Numeral.toRat_mul_eq hlength, hdrops, signed, isNegative]
    by_cases hneg : amount.drops < 0
    · rw [if_pos (decide_eq_true hneg), Nat.cast_natAbs, abs_of_neg hneg, Int.cast_neg, neg_neg]
    · rw [if_neg (by simpa using hneg), Nat.cast_natAbs, abs_of_nonneg (Int.not_lt.mp hneg)]

/-- An amount is read back from its text. -/
theorem parse_text (amount : XrpAmount) : parse amount.text = .ok amount := by
  obtain ⟨front, number, htext, hspelled, hdrops⟩ := amount.exists_spelled_text
  rw [htext]
  exact parse_of_toRat_eq (.inl hspelled) hdrops

end XrpAmount

/-- The text of an issued value spells the number that the value is and is read as the value, and
the text of an amount of XRP spells its XRP and is read as the amount. -/
theorem texts_spell_values :
    (∀ value : IssuedValue,
      (∃ parts : IssuedValue.Parts, parts.Spelled value.text.toList ∧
        parts.toRat = value.toRat) ∧ IssuedValue.parse value.text = .ok value) ∧
    ∀ amount : XrpAmount,
      (∃ (front : String) (number : XrpAmount.Numeral), amount.text = front ++ " XRP" ∧
        number.Spelled front.toList ∧ (amount.drops : ℚ) = number.toRat * 10 ^ 6) ∧
        XrpAmount.parse amount.text = .ok amount :=
  ⟨fun value => ⟨value.exists_spelled_text, value.parse_text⟩,
    fun amount => ⟨amount.exists_spelled_text, amount.parse_text⟩⟩

end XrpLedger
