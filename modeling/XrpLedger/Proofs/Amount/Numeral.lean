import XrpLedger.Proofs.Amount.Scale
import XrpLedger.Proofs.Text.Decimal

/-!
# Decimal text as a number

`Parts.Spelled` is the form of a decimal number: a sign or none, digits with or without a point, and
an exponent or none. `parts?` takes exactly the texts of this form apart (`parts?_eq_some_iff`), and
`Parts.toRat` is the number that they spell.

Reading collects the digits one after the other. What has been collected at any time stands for the
digits up to there (`Collected`): a mantissa that holds nineteen digits, or fewer, and the zeros
that came after these. A digit that finds no room and is not a zero makes the number too long for
any issued value (`Overlong`). So a text is read as the value that is its number, and fails only if
there is none.
-/

set_option autoImplicit false

namespace XrpLedger.IssuedValue

open Radix

/-! ## Taking a text apart -/

/-- Characters are split where the first of them fails the test. -/
theorem span_append {p : Char → Bool} {as bs : List Char} (has : ∀ c ∈ as, p c = true)
    (hbs : ∀ c ∈ bs.head?, p c = false) : (as ++ bs).span p = (as, bs) := by
  rw [List.span_eq_takeWhile_dropWhile, List.takeWhile_append_of_pos has,
    List.dropWhile_append_of_pos has]
  cases bs with
  | nil => simp
  | cons c bs =>
    have hc : p c = false := hbs c rfl
    simp [hc]

/-- Both parts of a split make up the whole, and the second starts with a failing character. -/
theorem append_of_span {p : Char → Bool} {cs as bs : List Char} (h : cs.span p = (as, bs)) :
    cs = as ++ bs ∧ ∀ c ∈ bs.head?, p c = false := by
  rw [List.span_eq_takeWhile_dropWhile] at h
  cases h
  refine ⟨List.takeWhile_append_dropWhile.symm, ?_⟩
  intro c hc
  have hnot := List.head?_dropWhile_not p cs
  rw [hc] at hnot
  exact hnot

/-- Digits behind a point; the point may be missing when there are none. -/
def IsFraction (point : List Char) (fraction : List Nat) : Prop :=
  (point = [] ∧ fraction = []) ∨ point = '.' :: fraction.map decimalChar

/-- What stands for an exponent: nothing for zero, or a letter and an integer of 32 bits. -/
def IsExponent (mark : List Char) (exponent : Int) : Prop :=
  (mark = [] ∧ exponent = 0) ∨
    ∃ letter digits, (letter = 'e' ∨ letter = 'E') ∧ mark = letter :: digits ∧
      Integer.IsText digits exponent ∧ -2 ^ 31 ≤ exponent ∧ exponent < 2 ^ 31

/-- Whether characters are parts of a number without its sign. -/
structure Parts.SpelledUnsigned (parts : Parts) (body : List Char) : Prop where
  /-- There is a digit before the point or behind it. -/
  digits_ne_nil : parts.whole ++ parts.fraction ≠ []
  digits_lt : ∀ d ∈ parts.whole ++ parts.fraction, d < 10
  chars : ∃ point mark, IsFraction point parts.fraction ∧ IsExponent mark parts.exponent ∧
    body = parts.whole.map decimalChar ++ (point ++ mark)

/-- Whether characters are the parts of a number. -/
def Parts.Spelled (parts : Parts) (cs : List Char) : Prop :=
  ∃ sign body, Integer.IsSign sign parts.negative ∧ parts.SpelledUnsigned body ∧ cs = sign ++ body

/-- The exponent that characters behind the digits stand for. -/
def exponent? : List Char → Option Int
  | [] => some 0
  | _ :: digits => (Integer.parseInt32 (String.ofList digits)).toOption

/-- The parts of a number behind its sign. -/
def unsignedParts? (negative : Bool) (body : List Char) : Option Parts := do
  let (number, mark) := body.span fun c => c ≠ 'e' && c ≠ 'E'
  let exponent ← exponent? mark
  let (whole, point) := number.span fun c => c ≠ '.'
  if whole.isEmpty ∧ (point.drop 1).isEmpty then none
  else return ⟨negative, ← Integer.digitValues? whole, ← Integer.digitValues? (point.drop 1),
    exponent⟩

/-- The sign in front of characters, and the characters behind it. -/
def splitSign : List Char → Bool × List Char
  | '-' :: rest => (true, rest)
  | '+' :: rest => (false, rest)
  | rest => (false, rest)

/-- A text is taken apart by its sign first. -/
theorem parts?_eq (cs : List Char) :
    parts? cs = unsignedParts? (splitSign cs).1 (splitSign cs).2 := by
  unfold parts? unsignedParts?
  split
  next negative body hsign =>
  have hsplit : splitSign cs = (negative, body) := hsign
  rw [hsplit]
  simp only
  split
  · next hmark => rw [hmark]; rfl
  · next hmark => rw [hmark]; rfl

/-- Characters that do not start with a sign are not negative. -/
theorem splitSign_of_ne {body : List Char} (h : ∀ c ∈ body.head?, c ≠ '+' ∧ c ≠ '-') :
    splitSign body = (false, body) := by
  unfold splitSign
  split
  · simp at h
  · simp at h
  · rfl

/-- What stands behind the digits is read as an exponent exactly if it is the text of that exponent.
-/
theorem exponent?_eq_some_iff {mark : List Char} {exponent : Int}
    (hmark : ∀ c ∈ mark.head?, c = 'e' ∨ c = 'E') :
    exponent? mark = some exponent ↔ IsExponent mark exponent := by
  cases mark with
  | nil => simp [exponent?, IsExponent, eq_comm]
  | cons letter digits =>
    have hparse : exponent? (letter :: digits) = some exponent ↔
        Integer.parseInt32 (String.ofList digits) = .ok exponent := by
      rw [exponent?]
      cases Integer.parseInt32 (String.ofList digits) <;> simp [Except.toOption]
    rw [hparse, Integer.parseInt32, Integer.parse_eq_ok_iff (by omega) (by omega),
      String.toList_ofList]
    constructor
    · rintro ⟨htext, hlow, hhigh⟩
      exact .inr ⟨letter, digits, hmark letter rfl, rfl, htext, hlow, by omega⟩
    · rintro (⟨hnil, -⟩ | ⟨_, _, -, hcons, htext, hlow, hhigh⟩)
      · cases hnil
      · cases hcons
        exact ⟨htext, hlow, by omega⟩

/-- The text of an exponent starts with the letter, if with anything. -/
theorem IsExponent.head? {mark : List Char} {exponent : Int} (h : IsExponent mark exponent) :
    ∀ c ∈ mark.head?, c = 'e' ∨ c = 'E' := by
  rcases h with ⟨rfl, -⟩ | ⟨letter, digits, hletter, rfl, -⟩
  · intro c hc
    cases hc
  · intro c hc
    cases hc
    exact hletter

/-- Behind the point stand the characters of the fraction's digits. -/
theorem IsFraction.drop_eq {point : List Char} {fraction : List Nat}
    (h : IsFraction point fraction) : point.drop 1 = fraction.map decimalChar := by
  rcases h with ⟨rfl, rfl⟩ | rfl <;> rfl

/-- Digits behind what is a point, if anything, are a fraction. -/
theorem isFraction_of_drop {point : List Char} {fraction : List Nat}
    (hpoint : ∀ c ∈ point.head?, c = '.') (h : point.drop 1 = fraction.map decimalChar) :
    IsFraction point fraction := by
  cases point with
  | nil => exact .inl ⟨rfl, List.map_eq_nil_iff.mp h.symm⟩
  | cons c rest =>
    rw [hpoint c rfl]
    exact .inr (congrArg ('.' :: ·) h)

/-- The digits before the point end there, and those behind it end at the exponent. -/
theorem span_number {whole fraction : List Nat} {point mark : List Char} {exponent : Int}
    (hlt : ∀ d ∈ whole ++ fraction, d < 10) (hpoint : IsFraction point fraction)
    (hmark : IsExponent mark exponent) :
    (whole.map decimalChar ++ point).span (fun c => c ≠ '.') = (whole.map decimalChar, point) ∧
      (whole.map decimalChar ++ point ++ mark).span (fun c => c ≠ 'e' && c ≠ 'E')
        = (whole.map decimalChar ++ point, mark) := by
  have hdigit : ∀ ds : List Nat, (∀ d ∈ ds, d < 10) →
      ∀ c ∈ ds.map decimalChar, c ≠ '.' ∧ c ≠ 'e' ∧ c ≠ 'E' := by
    intro ds hds c hc
    obtain ⟨d, hd, rfl⟩ := List.mem_map.mp hc
    have hne := decimalChar_ne_mark d (hds d hd)
    simp_all
  rw [List.forall_mem_append] at hlt
  constructor
  · apply span_append
    · intro c hc
      exact decide_eq_true (hdigit whole hlt.1 c hc).1
    · intro c hc
      rcases hpoint with ⟨rfl, -⟩ | rfl
      · cases hc
      · cases hc
        rfl
  · apply span_append
    · intro c hc
      rcases List.mem_append.mp hc with hc | hc
      · simpa using (hdigit whole hlt.1 c hc).2
      · rcases hpoint with ⟨rfl, -⟩ | rfl
        · cases hc
        · rcases List.mem_cons.mp hc with rfl | hc
          · rfl
          · simpa using (hdigit fraction hlt.2 c hc).2
    · intro c hc
      rcases hmark.head? c hc with rfl | rfl <;> rfl

/-- A spelled number without its sign is taken apart into its parts. -/
theorem unsignedParts?_of_spelled {parts : Parts} {body : List Char}
    (h : parts.SpelledUnsigned body) : unsignedParts? parts.negative body = some parts := by
  obtain ⟨point, mark, hpoint, hmark, rfl⟩ := h.chars
  obtain ⟨hwhole, hnumber⟩ := span_number h.digits_lt hpoint hmark
  have hexponent := (exponent?_eq_some_iff hmark.head?).mpr hmark
  have hlt := List.forall_mem_append.mp h.digits_lt
  have hsome : ¬((parts.whole.map decimalChar).isEmpty = true ∧
      (parts.fraction.map decimalChar).isEmpty = true) := by
    simpa using fun hw hf => h.digits_ne_nil (by rw [hw, hf]; rfl)
  rw [← List.append_assoc, unsignedParts?, hnumber]
  simp only [hexponent, hwhole, hpoint.drop_eq, hsome, if_false, Integer.digitValues?_map hlt.1,
    Integer.digitValues?_map hlt.2]
  rfl

/-- What is taken apart without its sign is spelled by its parts. -/
theorem spelled_of_unsignedParts? {negative : Bool} {parts : Parts} {body : List Char}
    (h : unsignedParts? negative body = some parts) :
    parts.negative = negative ∧ parts.SpelledUnsigned body := by
  rw [unsignedParts?] at h
  -- the characters are split at the letter, and what stands in front of it at the point
  split at h
  next number mark hbody =>
  obtain ⟨rfl, hmark⟩ := append_of_span hbody
  generalize hnumber : number.span (fun c => c ≠ '.') = halves at h
  obtain ⟨whole, point⟩ := halves
  obtain ⟨rfl, hpoint⟩ := append_of_span hnumber
  obtain ⟨exponent, hexponent, h⟩ := Option.bind_eq_some_iff.mp h
  dsimp only at h
  split at h
  · cases h
  next hsome =>
  obtain ⟨ds, hwhole, h⟩ := Option.bind_eq_some_iff.mp h
  obtain ⟨fs, hfraction, h⟩ := Option.bind_eq_some_iff.mp h
  cases h
  obtain ⟨hds, rfl⟩ := Integer.digitValues?_eq_some_iff.mp hwhole
  obtain ⟨hfs, hdrop⟩ := Integer.digitValues?_eq_some_iff.mp hfraction
  refine ⟨rfl, ?_⟩
  constructor
  case digits_ne_nil =>
    intro hnil
    obtain ⟨rfl, rfl⟩ := List.append_eq_nil_iff.mp hnil
    exact hsome (by simp [hdrop])
  case digits_lt => exact List.forall_mem_append.mpr ⟨hds, hfs⟩
  case chars =>
    have hletter : ∀ c ∈ mark.head?, c = 'e' ∨ c = 'E' := by
      intro c hc
      have hnot := hmark c hc
      by_cases he : c = 'e' <;> simp_all
    have hdot : ∀ c ∈ point.head?, c = '.' := by
      intro c hc
      simpa using hpoint c hc
    exact ⟨point, mark, isFraction_of_drop hdot hdrop,
      (exponent?_eq_some_iff hletter).mp hexponent, List.append_assoc _ _ _⟩

/-- A number without a sign starts with a digit or a point. -/
theorem Parts.SpelledUnsigned.head? {parts : Parts} {body : List Char}
    (h : parts.SpelledUnsigned body) : ∀ c ∈ body.head?, c ≠ '+' ∧ c ≠ '-' := by
  obtain ⟨point, mark, hpoint, -, rfl⟩ := h.chars
  have hlt := List.forall_mem_append.mp h.digits_lt
  cases hwhole : parts.whole with
  | nil =>
    rcases hpoint with ⟨-, hnil⟩ | rfl
    · exact absurd (by rw [hwhole, hnil]; rfl) h.digits_ne_nil
    · intro c hc
      cases hc
      decide
  | cons d ds =>
    intro c hc
    have hd : ∀ x ∈ [d], x < 10 := by simpa using hlt.1 d (hwhole ▸ List.mem_cons_self)
    exact Integer.head?_map_ne_sign hd c hc

/-- Splitting off the sign gives the two parts of the characters. -/
theorem sign_of_splitSign (cs : List Char) :
    ∃ sign, Integer.IsSign sign (splitSign cs).1 ∧ cs = sign ++ (splitSign cs).2 := by
  unfold splitSign
  split
  · exact ⟨['-'], .inl ⟨rfl, rfl⟩, rfl⟩
  · exact ⟨['+'], .inr ⟨.inr rfl, rfl⟩, rfl⟩
  · exact ⟨[], .inr ⟨.inl rfl, rfl⟩, rfl⟩

/-- A sign in front of characters without one is split off. -/
theorem splitSign_append {sign body : List Char} {negative : Bool}
    (hsign : Integer.IsSign sign negative) (hbody : ∀ c ∈ body.head?, c ≠ '+' ∧ c ≠ '-') :
    splitSign (sign ++ body) = (negative, body) := by
  rcases hsign with ⟨rfl, rfl⟩ | ⟨rfl | rfl, rfl⟩
  · rfl
  · exact splitSign_of_ne hbody
  · rfl

/-- The texts that are taken apart are those of numbers. -/
theorem parts?_eq_some_iff {cs : List Char} {parts : Parts} :
    parts? cs = some parts ↔ parts.Spelled cs := by
  rw [parts?_eq]
  constructor
  · intro h
    obtain ⟨hnegative, hbody⟩ := spelled_of_unsignedParts? h
    obtain ⟨sign, hsign, hchars⟩ := sign_of_splitSign cs
    exact ⟨sign, _, hnegative ▸ hsign, hbody, hchars⟩
  · rintro ⟨sign, body, hsign, hbody, rfl⟩
    rw [splitSign_append hsign hbody.head?]
    exact unsignedParts?_of_spelled hbody

/-! ## The number of a text -/

/-- The number that the parts spell. -/
def Parts.toRat (parts : Parts) : ℚ :=
  signed parts.negative
    ((value 10 parts.whole + value 10 parts.fraction / 10 ^ parts.fraction.length)
      * 10 ^ parts.exponent)

/-- Without a point the digits spell an integer, and those behind the point lower its exponent. -/
theorem Parts.toRat_eq (parts : Parts) :
    parts.toRat = signed parts.negative
      (scaled (value 10 (parts.whole ++ parts.fraction))
        (parts.exponent - parts.fraction.length)) := by
  have hne : (10 : ℚ) ^ parts.fraction.length ≠ 0 := pow_ne_zero _ (by norm_num)
  have hpow : (10 : ℚ) ^ (parts.exponent - parts.fraction.length)
      = 10 ^ parts.exponent / 10 ^ parts.fraction.length := by
    rw [zpow_sub₀ (by norm_num), zpow_natCast]
  rw [toRat, scaled, value_append, hpow, Nat.cast_add, Nat.cast_mul, Nat.cast_pow, Nat.cast_ofNat]
  congr 1
  calc ((value 10 parts.whole : ℚ) + value 10 parts.fraction / 10 ^ parts.fraction.length)
        * 10 ^ parts.exponent
    _ = (value 10 parts.whole * 10 ^ parts.fraction.length + value 10 parts.fraction)
          / 10 ^ parts.fraction.length * 10 ^ parts.exponent := by
        rw [add_div, mul_div_cancel_right₀ _ hne]
    _ = _ := by ring

/-! ## Collecting the digits -/

/-- What has been collected stands for the digits up to there, of which `behind` are behind the
point. Zeros that find no room are counted in the exponent. -/
structure Collected (exponent : Int) (consumed : List Nat) (behind : Nat) (sofar : Digits) :
    Prop where
  mantissa_lt : sofar.mantissa < 10 ^ 19
  zeros : ∃ k : Nat, value 10 consumed = sofar.mantissa * 10 ^ k ∧
    sofar.exponent = saturate (exponent - behind + k) ∧ (k = 0 ∨ 10 ^ 18 ≤ sofar.mantissa)

/-- Digits with one that is not zero behind the first eighteen significant ones. -/
def Overlong (ds : List Nat) : Prop :=
  ∃ front d back, ds = front ++ d :: back ∧ d ≠ 0 ∧ 10 ^ 18 ≤ value 10 front

/-- Digits that are too many stay so when more follow. -/
theorem Overlong.append {ds : List Nat} (h : Overlong ds) (more : List Nat) :
    Overlong (ds ++ more) := by
  obtain ⟨front, d, back, rfl, hd, hfront⟩ := h
  exact ⟨front, d, back ++ more, by simp, hd, hfront⟩

/-- Where an exponent is not above its bounds, it may be held within them before it is lowered. -/
theorem saturate_saturate_sub_one {exponent : Int} (h : exponent < 2 ^ 31) :
    saturate (saturate exponent - 1) = saturate (exponent - 1) := by
  unfold saturate
  repeat' split
  all_goals omega

/-- Where an exponent is not below its bounds, it may be held within them before it is raised. -/
theorem saturate_saturate_add_one {exponent : Int} (h : -2 ^ 31 ≤ exponent) :
    saturate (saturate exponent + 1) = saturate (exponent + 1) := by
  unfold saturate
  repeat' split
  all_goals omega

section Collecting

variable {exponent : Int} {consumed : List Nat} {behind : Nat} {sofar : Digits}

/-- Before the first digit, an exponent within bounds and no mantissa have been collected. -/
theorem collected_nil (hlow : -2 ^ 31 ≤ exponent) (hhigh : exponent < 2 ^ 31) :
    Collected exponent [] 0 ⟨0, exponent⟩ := by
  constructor
  case mantissa_lt => exact Nat.pow_pos (by omega)
  case zeros =>
    refine ⟨0, rfl, ?_, .inl rfl⟩
    simp [saturate_of_bounds hlow hhigh]

/-- A digit at the end counts one, and the digits before it ten times as much as they did. -/
theorem value_concat (ds : List Nat) (d : Nat) : value 10 (ds ++ [d]) = value 10 ds * 10 + d := by
  rw [value_append]
  simp [value]

/-- With room for it a digit is collected behind the mantissa. -/
theorem Collected.push_of_lt (h : Collected exponent consumed behind sofar)
    (hhigh : exponent < 2 ^ 31) (fractional : Bool) {d : Nat} (hd : d < 10)
    (hroom : sofar.mantissa < 10 ^ 18) :
    ∃ next, Digits.push fractional sofar d = .ok next ∧
      Collected exponent (consumed ++ [d]) (behind + if fractional then 1 else 0) next := by
  obtain ⟨k, hvalue, hexponent, hfull⟩ := h.zeros
  -- as long as there is room, no zero has been left out
  have hk : k = 0 := by omega
  rw [hk, Nat.cast_zero, Int.add_zero] at hexponent
  rw [hk, pow_zero, Nat.mul_one] at hvalue
  refine ⟨_, if_pos hroom, ?_⟩
  constructor
  case mantissa_lt =>
    simp only
    omega
  case zeros =>
    refine ⟨0, ?_, ?_, .inl rfl⟩
    · rw [value_concat, hvalue, pow_zero, Nat.mul_one]
    · rw [Nat.cast_zero, Int.add_zero]
      cases fractional with
      | false => simpa using hexponent
      | true =>
        have hstep : exponent - behind - 1 = exponent - (behind + 1 : Nat) := by omega
        simp only [if_true, hexponent]
        rw [saturate_saturate_sub_one (by omega), hstep]

/-- Without room for it a zero is counted in the exponent. -/
theorem Collected.push_zero (h : Collected exponent consumed behind sofar)
    (hlow : -2 ^ 31 ≤ exponent) {fractional : Bool} (hbehind : fractional = false → behind = 0)
    (hfull : ¬sofar.mantissa < 10 ^ 18) :
    ∃ next, Digits.push fractional sofar 0 = .ok next ∧
      Collected exponent (consumed ++ [0]) (behind + if fractional then 1 else 0) next := by
  obtain ⟨k, hvalue, hexponent, -⟩ := h.zeros
  have hpush := (if_neg hfull : Digits.push fractional sofar 0 = _)
  refine ⟨_, hpush.trans (if_pos rfl), ?_⟩
  constructor
  case mantissa_lt => exact h.mantissa_lt
  case zeros =>
    refine ⟨k + 1, ?_, ?_, .inr (Nat.le_of_not_lt hfull)⟩
    · rw [value_concat, hvalue]
      ring
    · cases fractional with
      | false =>
        have hnone := hbehind rfl
        have hstep : exponent - behind + k + 1 = exponent - (behind + 0 : Nat) + (k + 1 : Nat) := by
          omega
        simp only [Bool.false_eq_true, if_false, hexponent]
        rw [saturate_saturate_add_one (by omega), hstep]
      | true =>
        have hsame : exponent - behind + k = exponent - (behind + 1 : Nat) + (k + 1 : Nat) := by
          omega
        simp only [if_true, hexponent]
        rw [hsame]

/-- One more digit is collected, or it is not a zero and there is no room for it. -/
theorem Collected.push (h : Collected exponent consumed behind sofar) (hlow : -2 ^ 31 ≤ exponent)
    (hhigh : exponent < 2 ^ 31) {fractional : Bool} (hbehind : fractional = false → behind = 0)
    {d : Nat} (hd : d < 10) :
    (∃ next, Digits.push fractional sofar d = .ok next ∧
      Collected exponent (consumed ++ [d]) (behind + if fractional then 1 else 0) next) ∨
    (Digits.push fractional sofar d = .error (.range .precision) ∧ Overlong (consumed ++ [d])) := by
  by_cases hroom : sofar.mantissa < 10 ^ 18
  · exact .inl (h.push_of_lt hhigh fractional hd hroom)
  by_cases hzero : d = 0
  · subst hzero
    exact .inl (h.push_zero hlow hbehind hroom)
  obtain ⟨k, hvalue, -⟩ := h.zeros
  have hle : sofar.mantissa ≤ sofar.mantissa * 10 ^ k :=
    Nat.le_mul_of_pos_right _ (Nat.pow_pos (by omega))
  have hpush := (if_neg hroom : Digits.push fractional sofar d = _)
  exact .inr ⟨hpush.trans (if_neg hzero), consumed, d, [], rfl, hzero, by omega⟩

/-- Digits are collected one after the other, unless one finds no room. -/
theorem Collected.foldlM (h : Collected exponent consumed behind sofar) (hlow : -2 ^ 31 ≤ exponent)
    (hhigh : exponent < 2 ^ 31) {fractional : Bool} (hbehind : fractional = false → behind = 0)
    {ds : List Nat} (hds : ∀ d ∈ ds, d < 10) :
    (∃ last, ds.foldlM (Digits.push fractional) sofar = .ok last ∧
      Collected exponent (consumed ++ ds) (behind + if fractional then ds.length else 0) last) ∨
    (ds.foldlM (Digits.push fractional) sofar = .error (.range .precision) ∧
      Overlong (consumed ++ ds)) := by
  -- the digits that are left go down one by one, those that are collected go up
  induction ds generalizing consumed behind sofar with
  | nil => exact .inl ⟨sofar, rfl, by simpa using h⟩
  | cons d ds ih =>
    rw [List.forall_mem_cons] at hds
    have hassoc : consumed ++ d :: ds = consumed ++ [d] ++ ds := by simp
    rw [List.foldlM_cons, hassoc]
    rcases h.push hlow hhigh hbehind hds.1 with ⟨next, hpush, hnext⟩ | ⟨hpush, hlong⟩
    · have hcount : (behind + if fractional then 1 else 0) + (if fractional then ds.length else 0)
          = behind + if fractional then (d :: ds).length else 0 := by
        cases fractional with
        | false => rfl
        | true =>
          simp only [if_true, List.length_cons]
          omega
      have hstays : fractional = false → (behind + if fractional then 1 else 0) = 0 := by
        rintro rfl
        simpa using hbehind rfl
      rw [hpush, ← hcount]
      exact ih hnext hstays hds.2
    · rw [hpush]
      exact .inr ⟨rfl, hlong.append ds⟩

/-- What has been collected is read as the number of its digits. -/
theorem Collected.ofParts_eq_ok_iff (h : Collected exponent consumed behind sofar)
    {negative : Bool} {result : IssuedValue} :
    ofParts negative sofar.mantissa sofar.exponent = .ok result ↔
      result.toRat = signed negative (scaled (value 10 consumed) (exponent - behind)) := by
  obtain ⟨k, hvalue, hexponent, -⟩ := h.zeros
  by_cases hzero : sofar.mantissa = 0
  · rw [ofParts, if_pos hzero, pure_eq_ok_iff, hvalue, hzero, Nat.zero_mul, scaled_zero,
      signed_eq_zero_iff.mpr rfl, toRat_eq_zero_iff]
    exact ⟨fun h => h ▸ rfl, fun h => (eq_zero_of_isZero h).symm⟩
  · have hlt := h.mantissa_lt
    rw [hexponent, ofParts_saturate_eq_ok_iff hzero (by omega), hvalue, scaled_mul_pow]
    refine and_iff_right_of_imp ?_
    intro hnumber hz
    rw [toRat_eq_zero_iff.mpr hz, eq_comm, signed_eq_zero_iff] at hnumber
    exact (scaled_pos _ hzero).ne' hnumber

end Collecting

/-- If sixteen digits with zeros behind them make up a longer number, it has only zeros behind its
first eighteen digits. -/
theorem eq_zero_of_mul_pow_eq {front rest length mantissa k : Nat} (hfront : 10 ^ 18 ≤ front)
    (hrest : rest < 10 ^ length) (hmantissa : mantissa < 10 ^ 16)
    (h : front * 10 ^ length + rest = mantissa * 10 ^ k) : rest = 0 := by
  have hlength : length ≤ k := by
    by_contra hk
    have hzeros : 10 ^ k ≤ 10 ^ length := Nat.pow_le_pow_right (by omega) (by omega)
    have hsmall : mantissa * 10 ^ k ≤ 10 ^ 16 * 10 ^ length := Nat.mul_le_mul hmantissa.le hzeros
    have hlarge : 10 ^ 18 * 10 ^ length ≤ front * 10 ^ length := Nat.mul_le_mul_right _ hfront
    omega
  have hdvd : 10 ^ length ∣ front * 10 ^ length + rest :=
    h ▸ Dvd.dvd.mul_left (pow_dvd_pow 10 hlength) mantissa
  exact Nat.eq_zero_of_dvd_of_lt ((Nat.dvd_add_right (Nat.dvd_mul_left _ front)).mp hdvd) hrest

/-- Digits that are too long have more than sixteen that count, whatever the exponent. -/
theorem Overlong.not_representable {ds : List Nat} (h : Overlong ds) (hds : ∀ d ∈ ds, d < 10)
    (negative : Bool) (exponent : Int) :
    ¬Representable (signed negative (scaled (value 10 ds) exponent)) := by
  obtain ⟨front, d, back, rfl, hd, hfront⟩ := h
  have hsplit := @value_append 10 front (d :: back)
  have hlt : value 10 (d :: back) < 10 ^ (d :: back).length :=
    value_lt (by omega) fun d hd => hds d (List.mem_append_right _ hd)
  have hpos : 0 < value 10 (d :: back) := by
    rw [value_cons]
    exact Nat.add_pos_left (Nat.mul_pos (Nat.pos_of_ne_zero hd) (Nat.pow_pos (by omega))) _
  have hle : value 10 front ≤ value 10 front * 10 ^ (d :: back).length :=
    Nat.le_mul_of_pos_right _ (Nat.pow_pos (by omega))
  have hlong : 10 ^ 18 ≤ value 10 (front ++ d :: back) := by omega
  intro hnumber
  obtain ⟨mantissa, exponent', hmantissa, hscaled⟩ := hnumber.exists_scaled_eq (by omega)
  rcases exists_pow_of_scaled_eq hscaled with ⟨k, -, hn⟩ | ⟨k, -, hn⟩
  · exact hpos.ne' (eq_zero_of_mul_pow_eq hfront hlt hmantissa (hsplit ▸ hn))
  · have hmore : value 10 (front ++ d :: back) ≤ value 10 (front ++ d :: back) * 10 ^ k :=
      Nat.le_mul_of_pos_right _ (Nat.pow_pos (by omega))
    omega

/-! ## Reading a text -/

variable {text : String} {parts : Parts}

/-- The exponent of a spelled number has 32 bits. -/
theorem Parts.Spelled.exponent_bounds {cs : List Char} (h : parts.Spelled cs) :
    -2 ^ 31 ≤ parts.exponent ∧ parts.exponent < 2 ^ 31 := by
  obtain ⟨_, _, -, hbody, -⟩ := h
  obtain ⟨_, _, -, hmark, -⟩ := hbody.chars
  rcases hmark with ⟨-, hzero⟩ | ⟨_, _, -, -, -, hbounds⟩
  · omega
  · exact hbounds

/-- The digits of a spelled number are below ten. -/
theorem Parts.Spelled.digits_lt {cs : List Char} (h : parts.Spelled cs) :
    ∀ d ∈ parts.whole ++ parts.fraction, d < 10 := by
  obtain ⟨_, _, -, hbody, -⟩ := h
  exact hbody.digits_lt

/-- The digits of the parts, collected one after the other. -/
def Parts.collect (parts : Parts) : Except CodecError Digits := do
  let digits ← parts.whole.foldlM (Digits.push false) ⟨0, parts.exponent⟩
  parts.fraction.foldlM (Digits.push true) digits

/-- A spelled number is read by collecting its digits and normalizing what they give. -/
theorem parse_eq_collect (h : parts.Spelled text.toList) :
    parse text = parts.collect >>= fun digits =>
      ofParts parts.negative digits.mantissa digits.exponent := by
  rw [parse, parts?_eq_some_iff.mpr h, Parts.collect, bind_assoc]

/-- The digits of a number are all collected, or there are too many of them. -/
theorem Parts.Spelled.collect {cs : List Char} (h : parts.Spelled cs) :
    (∃ digits, parts.collect = .ok digits ∧
      Collected parts.exponent (parts.whole ++ parts.fraction) parts.fraction.length digits) ∨
    (parts.collect = .error (.range .precision) ∧ Overlong (parts.whole ++ parts.fraction)) := by
  obtain ⟨hlow, hhigh⟩ := h.exponent_bounds
  have hlt := List.forall_mem_append.mp h.digits_lt
  rw [Parts.collect]
  rcases (collected_nil hlow hhigh).foldlM hlow hhigh (fun _ => rfl) hlt.1 with
    ⟨digits, hwhole, hdigits⟩ | ⟨hwhole, hlong⟩
  -- the digits behind the point go on where those before it have come to
  · rw [hwhole]
    rcases hdigits.foldlM hlow hhigh (fun h : true = false => absurd h (by decide)) hlt.2 with
      ⟨last, hfraction, hlast⟩ | ⟨hfraction, hlong⟩
    · exact .inl ⟨last, hfraction, by simpa using hlast⟩
    · exact .inr ⟨hfraction, hlong⟩
  · rw [hwhole]
    exact .inr ⟨rfl, hlong.append parts.fraction⟩

/-- The text of a number is read as the value that is this number. -/
theorem parse_eq_ok_iff_of_spelled (h : parts.Spelled text.toList) {result : IssuedValue} :
    parse text = .ok result ↔ result.toRat = parts.toRat := by
  rw [parse_eq_collect h]
  rcases h.collect with ⟨digits, hcollect, hdigits⟩ | ⟨hcollect, hlong⟩
  · rw [hcollect, parts.toRat_eq, ← hdigits.ofParts_eq_ok_iff]
    rfl
  · have hnone := hlong.not_representable h.digits_lt parts.negative
      (parts.exponent - parts.fraction.length)
    rw [← parts.toRat_eq] at hnone
    rw [hcollect]
    constructor
    · intro herror
      cases herror
    · intro hnumber
      exact absurd (hnumber ▸ representable_toRat result) hnone

/-- A spelled number is read exactly if an issued value stands for it. -/
theorem exists_parse_eq_ok_iff_of_spelled (h : parts.Spelled text.toList) :
    (∃ result, parse text = .ok result) ↔ Representable parts.toRat := by
  constructor
  · rintro ⟨result, hresult⟩
    rw [← (parse_eq_ok_iff_of_spelled h).mp hresult]
    exact representable_toRat result
  · intro hnumber
    obtain ⟨result, hresult⟩ := hnumber.exists_value
    exact ⟨result, (parse_eq_ok_iff_of_spelled h).mpr hresult⟩

/-- The text of a number is read, or the number is out of range. -/
theorem exists_parse_eq_of_spelled (h : parts.Spelled text.toList) :
    (∃ result, parse text = .ok result) ∨ ∃ cause, parse text = .error (.range cause) := by
  rw [parse_eq_collect h]
  rcases h.collect with ⟨digits, hcollect, -⟩ | ⟨hcollect, -⟩
  · rw [hcollect]
    show (∃ result, ofParts parts.negative digits.mantissa digits.exponent = .ok result) ∨
      ∃ cause, ofParts parts.negative digits.mantissa digits.exponent = .error (.range cause)
    cases hresult : ofParts parts.negative digits.mantissa digits.exponent with
    | ok result => exact .inl ⟨result, rfl⟩
    | error e =>
      obtain ⟨cause, rfl⟩ := exists_range_of_ofParts hresult
      exact .inr ⟨cause, rfl⟩
  · rw [hcollect]
    exact .inr ⟨_, rfl⟩

/-- A text that is not a spelled number is malformed. -/
theorem parse_of_not_spelled (h : ¬∃ parts : Parts, parts.Spelled text.toList) :
    parse text = .error (.format (.decimalText text)) := by
  cases hparts : parts? text.toList with
  | none =>
    rw [parse, hparts]
    rfl
  | some parts => exact absurd ⟨parts, parts?_eq_some_iff.mp hparts⟩ h

/-- A text has at most one way to be taken apart. -/
theorem Parts.Spelled.unique {cs : List Char} {parts' : Parts} (h : parts.Spelled cs)
    (h' : parts'.Spelled cs) : parts = parts' :=
  Option.some.inj ((parts?_eq_some_iff.mpr h).symm.trans (parts?_eq_some_iff.mpr h'))

/-- A text spells one number only, so that what holds of some number that it spells holds of this
one. -/
theorem Parts.Spelled.exists_iff {cs : List Char} (h : parts.Spelled cs) {P : Parts → Prop} :
    (∃ parts' : Parts, parts'.Spelled cs ∧ P parts') ↔ P parts :=
  ⟨fun ⟨_, h', hP⟩ => h.unique h' ▸ hP, fun hP => ⟨parts, h, hP⟩⟩

/-- A text is read as an issued value exactly if it has the form of a number and an issued value is
that number; any other number is out of range, and any other text has a wrong form. -/
theorem parse_exact (text : String) :
    (∀ result, parse text = .ok result ↔
      ∃ parts : Parts, parts.Spelled text.toList ∧ result.toRat = parts.toRat) ∧
    ((∃ result, parse text = .ok result) ↔
      ∃ parts : Parts, parts.Spelled text.toList ∧ Representable parts.toRat) ∧
    (parse text = .ok zero ↔ ∃ parts : Parts, parts.Spelled text.toList ∧ parts.toRat = 0) ∧
    ((∃ cause, parse text = .error (.range cause)) ↔
      ∃ parts : Parts, parts.Spelled text.toList ∧ ¬Representable parts.toRat) ∧
    ((∃ cause, parse text = .error (.format cause)) ↔
      ¬∃ parts : Parts, parts.Spelled text.toList) := by
  by_cases hspelled : ∃ parts : Parts, parts.Spelled text.toList
  · obtain ⟨parts, h⟩ := hspelled
    have hzero : zero.toRat = 0 := toRat_eq_zero_iff.mpr rfl
    simp only [h.exists_iff]
    refine ⟨fun _ => parse_eq_ok_iff_of_spelled h, exists_parse_eq_ok_iff_of_spelled h, ?_, ?_, ?_⟩
    · rw [parse_eq_ok_iff_of_spelled h, hzero, eq_comm]
    · rw [← exists_parse_eq_ok_iff_of_spelled h]
      rcases exists_parse_eq_of_spelled h with ⟨result, hresult⟩ | ⟨cause, hcause⟩
      · simp [hresult]
      · simp [hcause]
    · have hsome : ∃ parts : Parts, parts.Spelled text.toList := ⟨parts, h⟩
      rcases exists_parse_eq_of_spelled h with ⟨result, hresult⟩ | ⟨cause, hcause⟩
      · simp [hresult, hsome]
      · simp [hcause, hsome]
  · have hnone : ∀ P : Parts → Prop,
        ¬∃ parts : Parts, parts.Spelled text.toList ∧ P parts :=
      fun _ ⟨parts, h, _⟩ => hspelled ⟨parts, h⟩
    simp [parse_of_not_spelled hspelled, hspelled, hnone]

end XrpLedger.IssuedValue
