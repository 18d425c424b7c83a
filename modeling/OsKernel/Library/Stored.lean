import Mathlib.Data.Int.Cast.Basic
import Mathlib.Data.Int.Notation
import Mathlib.Data.List.Basic
import Mathlib.Logic.Function.Basic
import Mathlib.Tactic.Common

/-!
# Lists stored in memory

A list that memory holds from an address on, and how a store at its end makes it longer.
-/

namespace OsKernel.Library

variable {A : Type*} {f : ℤ → A} {i : ℤ} {first second : List A} {a : A}

/-- Memory holds the list from address `i` on. -/
def StoredAt (f : ℤ → A) : ℤ → List A → Prop
  | _, [] => True
  | i, a :: rest => f i = a ∧ StoredAt f (i + 1) rest

/-- The front of a stored list is stored. -/
theorem StoredAt.front (h : StoredAt f i (first ++ second)) : StoredAt f i first := by
  induction first generalizing i with
  | nil => trivial
  | cons a rest ih => exact ⟨h.1, ih h.2⟩

/-- A store past the end of the list leaves it stored. -/
theorem StoredAt.update (h : StoredAt f i first) {j : ℤ} (hj : i + first.length ≤ j) (a : A) :
    StoredAt (Function.update f j a) i first := by
  induction first generalizing i with
  | nil => trivial
  | cons b rest ih =>
    rw [List.length_cons] at hj
    refine ⟨?_, ih h.2 (by omega)⟩
    have hne : i ≠ j := by omega
    rw [Function.update_of_ne hne]
    exact h.1

/-- A store at the end of the list makes it longer. -/
theorem StoredAt.snoc (h : StoredAt f i first) (a : A) :
    StoredAt (Function.update f (i + first.length) a) i (first ++ [a]) := by
  induction first generalizing i with
  | nil => simp [StoredAt]
  | cons b rest ih =>
    have hlast : i + ((b :: rest).length : ℤ) = i + 1 + rest.length := by
      rw [List.length_cons]
      omega
    rw [hlast]
    refine ⟨?_, ih h.2⟩
    have hne : i ≠ i + 1 + rest.length := by omega
    rw [Function.update_of_ne hne]
    exact h.1

end OsKernel.Library
