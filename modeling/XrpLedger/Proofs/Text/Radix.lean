import Mathlib.Data.List.TakeWhile
import Mathlib.Data.Nat.Digits.Lemmas
import XrpLedger.Text.Radix

/-!
# Digits and the numbers they spell

The digits of a number are those of `Nat.digits`, most significant first. So a number is read back
from its digits, and digits are written again from the number they spell, up to the zeros in front
of them. Base58 counts these zeros; decimal text has none. Where they are counted, digits of any
base can be converted to another one and back.
-/

set_option autoImplicit false

namespace XrpLedger.Radix

variable {base : Nat}

/-- Digits in front of a tail are the base's digits, reversed to come most significant first. -/
theorem digitsOnto_eq (hbase : 2 ≤ base) (n : Nat) (tail : List Nat) :
    digitsOnto base n tail = (Nat.digits base n).reverse ++ tail := by
  induction n using Nat.strong_induction_on generalizing tail with
  | _ n ih =>
    rw [digitsOnto]
    -- the least significant digit is put in front of the tail, and the others in front of it
    by_cases hn : n = 0
    · subst hn
      rw [dif_pos (.inr rfl), Nat.digits_zero, List.reverse_nil, List.nil_append]
    · have hlt : n / base < n := Nat.div_lt_self (by omega) (by omega)
      have hdigits : Nat.digits base n = n % base :: Nat.digits base (n / base) :=
        Nat.digits_def' (by omega) (by omega)
      rw [dif_neg (by omega), ih (n / base) hlt, hdigits, List.reverse_cons, List.append_assoc,
        List.singleton_append]

/-- The digits are those of the library in the other order. -/
theorem digits_eq_reverse (hbase : 2 ≤ base) (n : Nat) :
    digits base n = (Nat.digits base n).reverse := by
  rw [digits, digitsOnto_eq hbase, List.append_nil]

/-- The digits of a number are below the base. -/
theorem lt_of_mem_digits (hbase : 2 ≤ base) {n d : Nat} (h : d ∈ digits base n) : d < base := by
  rw [digits_eq_reverse hbase, List.mem_reverse] at h
  exact Nat.digits_lt_base (by omega) h

/-- The digits of a number do not start with zero. -/
theorem head?_digits_ne_zero (hbase : 2 ≤ base) (n : Nat) : (digits base n).head? ≠ some 0 := by
  rw [digits_eq_reverse hbase, List.head?_reverse]
  by_cases hn : n = 0
  · subst hn
    simp
  · have hne : Nat.digits base n ≠ [] := Nat.digits_ne_nil_iff_ne_zero.mpr hn
    rw [List.getLast?_eq_some_getLast hne]
    intro h
    exact Nat.getLast_digit_ne_zero base hn (Option.some.inj h)

/-- A number that is not zero has digits. -/
theorem digits_ne_nil (hbase : 2 ≤ base) {n : Nat} (hn : n ≠ 0) : digits base n ≠ [] := by
  rw [digits_eq_reverse hbase, ne_eq, List.reverse_eq_nil_iff]
  exact Nat.digits_ne_nil_iff_ne_zero.mpr hn

/-- A number between two successive powers of the base has as many digits as the larger exponent. -/
theorem length_digits_of_bounds (hbase : 2 ≤ base) {n k : Nat} (hlow : base ^ k ≤ n)
    (hhigh : n < base ^ (k + 1)) : (digits base n).length = k + 1 := by
  rw [digits_eq_reverse hbase, List.length_reverse]
  have hle := (Nat.digits_length_le_iff (by omega) n).mpr hhigh
  have hlt := (Nat.lt_digits_length_iff (by omega) n).mpr hlow
  omega

/-- A number below a power of the base has at most as many digits as the exponent. -/
theorem length_digits_le (hbase : 2 ≤ base) {n k : Nat} (h : n < base ^ k) :
    (digits base n).length ≤ k := by
  rw [digits_eq_reverse hbase, List.length_reverse]
  exact (Nat.digits_length_le_iff (by omega) n).mpr h

/-- The number that digits spell is the one of their reversal, least significant digit first. -/
theorem value_eq_ofDigits (ds : List Nat) : value base ds = Nat.ofDigits base ds.reverse := by
  rw [value, Nat.ofDigits_eq_foldr, List.foldr_reverse]
  congr 1
  funext n d
  rw [Nat.cast_id, Nat.mul_comm, Nat.add_comm]

/-- Digits in front of others are shifted by as many places as there are others. -/
theorem value_append (as bs : List Nat) :
    value base (as ++ bs) = value base as * base ^ bs.length + value base bs := by
  simp only [value_eq_ofDigits, List.reverse_append, Nat.ofDigits_append, List.length_reverse]
  rw [Nat.add_comm, Nat.mul_comm]

/-- A digit is shifted by as many places as there are digits behind it. -/
theorem value_cons (d : Nat) (ds : List Nat) :
    value base (d :: ds) = d * base ^ ds.length + value base ds := by
  have h := @value_append base [d] ds
  simpa [value] using h

/-- A number shifted in front of digits takes in the first of them and is shifted one place less. -/
theorem shift_cons (n d : Nat) (ds : List Nat) :
    n * base ^ (d :: ds).length + value base (d :: ds)
      = (n * base + d) * base ^ ds.length + value base ds := by
  rw [value_cons, List.length_cons, Nat.pow_succ, Nat.add_mul, Nat.mul_assoc, Nat.mul_comm base,
    Nat.add_assoc]

/-- Zeros spell zero. -/
theorem value_eq_zero {zeros : List Nat} (h : ∀ d ∈ zeros, d = 0) : value base zeros = 0 := by
  rw [List.eq_replicate_of_mem h, value_eq_ofDigits, List.reverse_replicate,
    Nat.ofDigits_replicate_zero]

/-- Digits below the base spell a number below the power of the base for their count. -/
theorem value_lt (hbase : 1 < base) {ds : List Nat} (hlt : ∀ d ∈ ds, d < base) :
    value base ds < base ^ ds.length := by
  rw [value_eq_ofDigits, ← List.length_reverse]
  exact Nat.ofDigits_lt_base_pow_length hbase fun d hd => hlt d (List.mem_reverse.mp hd)

/-- The digits of a number spell it. -/
theorem value_digits (hbase : 2 ≤ base) (n : Nat) : value base (digits base n) = n := by
  rw [value_eq_ofDigits, digits_eq_reverse hbase, List.reverse_reverse, Nat.ofDigits_digits]

/-- Digits that do not start with a zero are those of the number that they spell. -/
theorem digits_value (hbase : 2 ≤ base) {ds : List Nat} (hlt : ∀ d ∈ ds, d < base)
    (hhead : ds.head? ≠ some 0) : digits base (value base ds) = ds := by
  have hlast : ∀ h : ds.reverse ≠ [], ds.reverse.getLast h ≠ 0 := by
    intro h hzero
    rw [← hzero, ← List.getLast?_eq_some_getLast, List.getLast?_reverse] at hhead
    exact hhead rfl
  rw [digits_eq_reverse hbase, value_eq_ofDigits,
    Nat.digits_ofDigits base (by omega) ds.reverse
      (fun d hd => hlt d (List.mem_reverse.mp hd)) hlast, List.reverse_reverse]

/-- Any digits are the zeros in front followed by the digits of the number. -/
theorem takeWhile_append_digits (hbase : 2 ≤ base) {ds : List Nat} (hlt : ∀ d ∈ ds, d < base) :
    ds.takeWhile (· = 0) ++ digits base (value base ds) = ds := by
  have hsplit : ds.takeWhile (· = 0) ++ ds.dropWhile (· = 0) = ds :=
    List.takeWhile_append_dropWhile
  have hzeros : value base (ds.takeWhile (· = 0)) = 0 := by
    apply value_eq_zero
    intro d hd
    simpa using List.mem_takeWhile_imp hd
  have hvalue : value base ds = value base (ds.dropWhile (· = 0)) := by
    conv_lhs => rw [← hsplit]
    rw [value_append, hzeros, Nat.zero_mul, Nat.zero_add]
  have hhead : (ds.dropWhile (· = 0)).head? ≠ some 0 := by
    intro h
    have hnot := List.head?_dropWhile_not (· = 0) ds
    rw [h] at hnot
    simp at hnot
  have hrest : ∀ d ∈ ds.dropWhile (· = 0), d < base :=
    fun d hd => hlt d ((List.dropWhile_suffix _).subset hd)
  rw [hvalue, digits_value hbase hrest hhead, hsplit]

/-- The zeros in front of the digits of a number can be told from them. -/
theorem takeWhile_zeros_append_digits (hbase : 2 ≤ base) {zeros : List Nat}
    (hzeros : ∀ d ∈ zeros, d = 0) (n : Nat) :
    (zeros ++ digits base n).takeWhile (· = 0) = zeros := by
  rw [List.takeWhile_append_of_pos fun d hd => decide_eq_true (hzeros d hd)]
  have hnone : (digits base n).takeWhile (· = 0) = [] := by
    have hhead := head?_digits_ne_zero hbase n
    cases hd : digits base n with
    | nil => rfl
    | cons d rest =>
      rw [hd, List.head?_cons] at hhead
      rw [List.takeWhile_cons_of_neg]
      intro h
      exact hhead (congrArg some (of_decide_eq_true h))
  rw [hnone, List.append_nil]

/-- Digits in another base: the zeros in front stay, and behind them stand the digits of the number.
-/
def convert (base base' : Nat) (ds : List Nat) : List Nat :=
  ds.takeWhile (· = 0) ++ digits base' (value base ds)

/-- Digits come back from another base, with as many zeros in front. -/
theorem convert_convert {base' : Nat} (hbase : 2 ≤ base) (hbase' : 2 ≤ base') {ds : List Nat}
    (hlt : ∀ d ∈ ds, d < base) : convert base' base (convert base base' ds) = ds := by
  have hzeros : ∀ d ∈ ds.takeWhile (· = 0), d = 0 := by
    intro d hd
    simpa using List.mem_takeWhile_imp hd
  have hfront : (convert base base' ds).takeWhile (· = 0) = ds.takeWhile (· = 0) :=
    takeWhile_zeros_append_digits hbase' hzeros (value base ds)
  have hvalue : value base' (convert base base' ds) = value base ds := by
    rw [convert, value_append, value_eq_zero hzeros, Nat.zero_mul, Nat.zero_add,
      value_digits hbase']
  rw [convert, hfront, hvalue, takeWhile_append_digits hbase hlt]

/-- Converted digits are below the base that they are converted to. -/
theorem lt_of_mem_convert {base' : Nat} (hbase' : 2 ≤ base') {ds : List Nat} {d : Nat}
    (hd : d ∈ convert base base' ds) : d < base' := by
  rcases List.mem_append.mp hd with hzero | hdigit
  · have heq : d = 0 := by simpa using List.mem_takeWhile_imp hzero
    omega
  · exact lt_of_mem_digits hbase' hdigit

end XrpLedger.Radix
