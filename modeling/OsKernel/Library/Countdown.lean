import Mathlib.Data.List.Count
import Mathlib.Data.Nat.Basic
import Mathlib.Tactic.Common

/-!
# Countdowns with a reload value

A timer counts down by one at each turn; the turn that reaches 0 fires and reloads it with its
period. From a positive counter it fires first when the counter runs out, and then once in each
period.
-/

namespace OsKernel.Library

/-- What a turn leaves of a counter. -/
def reloaded (period left : ℕ) : ℕ := if left = 1 then period else left - 1

/-- Which of the next turns fire. -/
def fires (period : ℕ) : ℕ → ℕ → List Bool
  | _, 0 => []
  | left, n + 1 => decide (left = 1) :: fires period (reloaded period left) n

variable {period left : ℕ}

/-- A positive counter stays positive. -/
theorem reloaded_pos (hperiod : 0 < period) (hleft : 0 < left) : 0 < reloaded period left := by
  rw [reloaded]
  split
  · exact hperiod
  · omega

/-- The turns that fire are the one at which the counter runs out, and each full period later. -/
theorem fires_getElem? (hperiod : 0 < period) (hleft : 0 < left) {n i : ℕ} (hi : i < n) :
    (fires period left n)[i]? = some true ↔ ∃ m, i + 1 = left + m * period := by
  induction n generalizing left i with
  | zero => omega
  | succ n ih =>
    rw [fires]
    cases i with
    | zero =>
      rw [List.getElem?_cons_zero, Option.some_inj, decide_eq_true_iff]
      constructor
      · rintro rfl
        exact ⟨0, by omega⟩
      · rintro ⟨m, hm⟩
        omega
    | succ i =>
      rw [List.getElem?_cons_succ, ih (reloaded_pos hperiod hleft) (by omega), reloaded]
      by_cases hlast : left = 1
      · rw [if_pos hlast, hlast]
        constructor
        · rintro ⟨m, hm⟩
          exact ⟨m + 1, by rw [Nat.succ_mul]; omega⟩
        · rintro ⟨m, hm⟩
          cases m with
          | zero => omega
          | succ m => exact ⟨m, by rw [Nat.succ_mul] at hm; omega⟩
      · rw [if_neg hlast]
        constructor
        · rintro ⟨m, hm⟩
          exact ⟨m, by omega⟩
        · rintro ⟨m, hm⟩
          exact ⟨m, by omega⟩

/-- What is left after some turns. -/
def leftAfter (period first n : ℕ) : ℕ := if n < first then first - n else period - (n - first) % period

/-- The remainder of a successor. -/
theorem succ_mod (hperiod : 0 < period) (n : ℕ) :
    (n + 1) % period = if n % period + 1 = period then 0 else n % period + 1 := by
  have hlt := Nat.mod_lt n hperiod
  have hsplit : n + 1 = period * (n / period) + (n % period + 1) := by
    rw [← Nat.add_assoc, Nat.div_add_mod]
  conv_lhs => rw [hsplit, Nat.mul_add_mod]
  split
  case isTrue heq => rw [heq, Nat.mod_self]
  case isFalse hne => exact Nat.mod_eq_of_lt (by omega)

/-- The closed form counts down turn by turn. -/
theorem leftAfter_succ (hperiod : 0 < period) (first n : ℕ) :
    leftAfter period first (n + 1) = reloaded period (leftAfter period first n) := by
  have hlt := Nat.mod_lt (n - first) hperiod
  rw [leftAfter, leftAfter, reloaded]
  by_cases hbefore : n < first
  · rw [if_pos hbefore]
    by_cases hlast : n + 1 = first
    · rw [if_neg (by omega), if_pos (by omega), hlast, Nat.sub_self, Nat.zero_mod, Nat.sub_zero]
    · rw [if_pos (by omega), if_neg (by omega), Nat.sub_sub]
  · rw [if_neg hbefore, if_neg (by omega), Nat.sub_add_comm (by omega), succ_mod hperiod]
    split <;> split <;> omega

/-- A counter that started positive is positive after every turn. -/
theorem leftAfter_pos (hperiod : 0 < period) (first n : ℕ) : 0 < leftAfter period first n := by
  have hlt := Nat.mod_lt (n - first) hperiod
  rw [leftAfter]
  split <;> omega

/-- A first turn counts if it fires. -/
theorem count_fires_succ (n : ℕ) :
    (fires period left (n + 1)).count true =
      (fires period (reloaded period left) n).count true + if left = 1 then 1 else 0 := by
  rw [fires, List.count_cons]
  simp only [beq_iff_eq, decide_eq_true_iff]

/-- How many turns fire. -/
theorem count_fires (hperiod : 0 < period) (hleft : 0 < left) (n : ℕ) :
    (fires period left n).count true = if n < left then 0 else 1 + (n - left) / period := by
  induction n generalizing left with
  | zero => rw [fires, List.count_nil, if_pos hleft]
  | succ n ih =>
    rw [count_fires_succ, ih (reloaded_pos hperiod hleft), reloaded]
    by_cases hlast : left = 1
    · subst hlast
      rw [if_pos rfl, if_pos rfl, if_neg (Nat.not_lt.mpr (Nat.le_add_left 1 n)), Nat.add_sub_cancel]
      by_cases hn : n < period
      · rw [if_pos hn, Nat.div_eq_of_lt hn]
      · rw [if_neg hn, Nat.div_eq_sub_div hperiod (Nat.le_of_not_lt hn), Nat.add_comm 1, Nat.add_comm 1]
    · have hsub : n - (left - 1) = n + 1 - left := by omega
      have hlt : n < left - 1 ↔ n + 1 < left := by omega
      rw [if_neg hlast, if_neg hlast, hsub, Nat.add_zero]
      simp only [hlt]

end OsKernel.Library
