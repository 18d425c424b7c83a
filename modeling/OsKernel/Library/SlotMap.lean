import Mathlib.Data.Fintype.Basic
import Mathlib.Data.List.FinRange
import Mathlib.Logic.Function.Basic
import Mathlib.Tactic.Common

/-!
# Maps that give out their least free slot

A finite table of slots, each free or holding a value. An allocation takes the least free slot from
some index on.
-/

namespace OsKernel.Library

/-- The first index that a search over a whole range finds is the least one that qualifies. -/
theorem find_finRange_eq_some {n : ℕ} {test : Fin n → Bool} {i : Fin n} :
    (List.finRange n).find? test = some i ↔ test i = true ∧ ∀ j < i, test j = false := by
  rw [List.find?_eq_some_iff_getElem]
  constructor
  · rintro ⟨hi, m, hm, rfl, hbefore⟩
    refine ⟨hi, fun j hj => ?_⟩
    simpa using hbefore j.val (by simpa [Fin.lt_def] using hj)
  · rintro ⟨hi, hbefore⟩
    refine ⟨hi, i.val, by simp, by simp, fun j hj => ?_⟩
    simpa using hbefore ⟨j, by omega⟩ hj

/-- A search over a whole range fails when no index qualifies. -/
theorem find_finRange_eq_none {n : ℕ} {test : Fin n → Bool} :
    (List.finRange n).find? test = none ↔ ∀ i, test i = false := by
  simp

/-- A table of slots. -/
abbrev SlotMap (n : ℕ) (V : Type*) := Fin n → Option V

namespace SlotMap

variable {n : ℕ} {V : Type*} {m : SlotMap n V} {lo : ℕ} {i : Fin n}

/-- The least free slot from index `lo` on. -/
def leastFree (m : SlotMap n V) (lo : ℕ) : Option (Fin n) :=
  (List.finRange n).find? fun i => lo ≤ i.val && (m i).isNone

/-- Put a value into a slot. -/
def hold (m : SlotMap n V) (i : Fin n) (v : V) : SlotMap n V := Function.update m i (some v)

/-- Free a slot. -/
def release (m : SlotMap n V) (i : Fin n) : SlotMap n V := Function.update m i none

/-- What it means to be the least free slot. -/
theorem leastFree_eq_some :
    m.leastFree lo = some i ↔ lo ≤ i.val ∧ m i = none ∧ ∀ j < i, lo ≤ j.val → m j ≠ none := by
  rw [leastFree, find_finRange_eq_some]
  simp [and_assoc, Option.isSome_iff_ne_none]

/-- There is no free slot. -/
theorem leastFree_eq_none : m.leastFree lo = none ↔ ∀ i : Fin n, lo ≤ i.val → m i ≠ none := by
  rw [leastFree, find_finRange_eq_none]
  simp [Option.isSome_iff_ne_none]

@[simp] theorem hold_self (m : SlotMap n V) (i : Fin n) (v : V) : m.hold i v i = some v := Function.update_self ..

/-- The other slots keep their values. -/
theorem hold_of_ne (m : SlotMap n V) {i j : Fin n} (h : j ≠ i) (v : V) : m.hold i v j = m j :=
  Function.update_of_ne h ..

@[simp] theorem release_self (m : SlotMap n V) (i : Fin n) : m.release i i = none := Function.update_self ..

/-- The other slots keep their values. -/
theorem release_of_ne (m : SlotMap n V) {i j : Fin n} (h : j ≠ i) : m.release i j = m j := Function.update_of_ne h ..

end SlotMap

end OsKernel.Library
