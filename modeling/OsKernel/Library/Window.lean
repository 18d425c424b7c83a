import Mathlib.Data.Nat.ModEq
import Mathlib.Tactic.Common

/-!
# Consecutive addresses

The addresses from one on, in a finite address space in which they may wrap around. How many there
are can be read off from where they lie.
-/

namespace OsKernel.Library

/-- One of the `n` addresses from `a` on. -/
def InWindow (size a n addr : ℕ) : Prop := ∃ j < n, addr = (a + j) % size

variable {size a m n lo hi : ℕ}

/-- The addresses lie among the first `n` exactly when there are no more than `n`. -/
theorem window_subset_iff (hm : m ≤ size) :
    (∀ addr, InWindow size a m addr → InWindow size a n addr) ↔ m ≤ n := by
  constructor
  · intro hsubset
    by_contra hlt
    obtain ⟨j, hj, heq⟩ := hsubset ((a + n) % size) ⟨n, by omega, rfl⟩
    have hmod : n ≡ j [MOD size] := Nat.ModEq.add_left_cancel' a heq
    have hsame := hmod.eq_of_lt_of_lt (by omega) (by omega)
    omega
  · rintro hle addr ⟨j, hj, rfl⟩
    exact ⟨j, by omega, rfl⟩

/-- The addresses lie in an interval exactly when there are none, or the first does and they end inside. -/
theorem window_within_iff (ha : a < size) (hhi : hi < size) :
    (∀ addr, InWindow size a n addr → lo ≤ addr ∧ addr < hi) ↔ n = 0 ∨ lo ≤ a ∧ a + n ≤ hi := by
  constructor
  · intro hwithin
    by_cases hzero : n = 0
    · exact Or.inl hzero
    have hfirst := hwithin ((a + 0) % size) ⟨0, by omega, rfl⟩
    rw [Nat.add_zero, Nat.mod_eq_of_lt ha] at hfirst
    refine Or.inr ⟨hfirst.1, ?_⟩
    by_contra hpast
    have hlast := hwithin ((a + (hi - a)) % size) ⟨hi - a, by omega, rfl⟩
    rw [Nat.mod_eq_of_lt (by omega)] at hlast
    omega
  · rintro hfits addr ⟨j, hj, rfl⟩
    rw [Nat.mod_eq_of_lt (by omega)]
    omega

end OsKernel.Library
