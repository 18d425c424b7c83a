import Mathlib.Data.Nat.Digits.Lemmas

/-!
# Numerals

The numeral of a number in a radix is its digit list, most significant digit first, without a leading
zero except for 0 itself. Zeros in front of it keep its value.
-/

namespace OsKernel.Library

variable {radix n : ℕ} {digits : List ℕ}

/-- A canonical digit list for the number. -/
structure IsNumeral (radix n : ℕ) (digits : List ℕ) : Prop where
  digit : ∀ d ∈ digits, d < radix
  value : Nat.ofDigits radix digits.reverse = n
  nonempty : digits ≠ []
  leading : digits.head? = some 0 → digits = [0]

/-- The digits of a number, most significant first. -/
def numeral (radix n : ℕ) : List ℕ := if n = 0 then [0] else (Nat.digits radix n).reverse

/-- The digits of a positive number. -/
theorem numeral_of_pos (hn : 0 < n) : numeral radix n = (Nat.digits radix n).reverse := if_neg hn.ne'

/-- The numeral of a positive number has no leading zero. -/
theorem head?_numeral_ne_zero (hn : 0 < n) : (numeral radix n).head? ≠ some 0 := by
  rw [numeral_of_pos hn, List.head?_reverse, List.getLast?_eq_some_getLast (Nat.digits_ne_nil_iff_ne_zero.mpr hn.ne')]
  intro heq
  exact Nat.getLast_digit_ne_zero radix hn.ne' (Option.some.inj heq)

/-- The numeral is canonical. -/
theorem isNumeral_numeral (hradix : 1 < radix) (n : ℕ) : IsNumeral radix n (numeral radix n) := by
  obtain rfl | hn := Nat.eq_zero_or_pos n
  · refine ⟨?_, Nat.ofDigits_singleton, List.cons_ne_nil _ _, fun _ => rfl⟩
    intro d hd
    rw [List.mem_singleton.mp hd]
    omega
  · refine ⟨?_, ?_, ?_, fun hhead => absurd hhead (head?_numeral_ne_zero hn)⟩
    · intro d hd
      rw [numeral_of_pos hn, List.mem_reverse] at hd
      exact Nat.digits_lt_base hradix hd
    · rw [numeral_of_pos hn, List.reverse_reverse, Nat.ofDigits_digits]
    · rw [numeral_of_pos hn, Ne, List.reverse_eq_nil_iff]
      exact Nat.digits_ne_nil_iff_ne_zero.mpr hn.ne'

/-- A number below a power of the radix has at most as many digits. -/
theorem length_numeral_le (hradix : 1 < radix) {k : ℕ} (hk : 0 < k) (hn : n < radix ^ k) :
    (numeral radix n).length ≤ k := by
  rw [numeral]
  split
  · exact hk
  · rw [List.length_reverse]
    exact (Nat.digits_length_le_iff hradix n).mpr hn

/-- Leading zeros keep the value. -/
theorem value_padded (k : ℕ) :
    Nat.ofDigits radix (List.replicate k 0 ++ digits).reverse = Nat.ofDigits radix digits.reverse := by
  rw [List.reverse_append, List.reverse_replicate, Nat.ofDigits_append_replicate_zero]

end OsKernel.Library
