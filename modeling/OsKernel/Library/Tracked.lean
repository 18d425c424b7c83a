import Mathlib.Order.BooleanAlgebra.Set
import Mathlib.Data.Set.Insert
import Mathlib.Logic.Function.Basic

/-!
# A bit that tracks a set

One bit for a whole set can say that the set has a member. Putting a member in and setting the bit keeps
it true; taking members out does so only when the bit is cleared with the last of them.
-/

namespace OsKernel.Library

variable {X T : Type*} {b : Bool} {S R : Set X}

/-- The bit says whether the set has a member. -/
def Tracks (b : Bool) (S : Set X) : Prop := b = true ↔ S.Nonempty

/-- Putting a member in, with the bit set. -/
theorem tracks_insert (x : X) (S : Set X) : Tracks true (insert x S) :=
  ⟨fun _ => Set.insert_nonempty x S, fun _ => rfl⟩

/-- Taking members out, with the bit cleared. -/
theorem tracks_false_diff : Tracks false (S \ R) ↔ S ⊆ R := by
  rw [Tracks, Set.sdiff_nonempty]
  simp

/-- Taking members out, with the bit as it was. -/
theorem Tracks.diff (h : Tracks b S) : Tracks b (S \ R) ↔ (S ⊆ R → S = ∅) := by
  rw [Tracks, show b = true ↔ S.Nonempty from h, Set.sdiff_nonempty, Set.nonempty_iff_ne_empty]
  constructor
  · intro hiff hsub
    by_contra hne
    exact hiff.mp hne hsub
  · intro hempty
    constructor
    · exact fun hne hsub => hne (hempty hsub)
    · rintro hsub rfl
      exact hsub (Set.empty_subset R)

/-- In a family of tracked sets, one bit and its set may change. -/
theorem tracks_update [DecidableEq T] {bits : T → Bool} {sets : T → Set X} (h : ∀ t, Tracks (bits t) (sets t))
    (t : T) (b : Bool) (S : Set X) :
    (∀ u, Tracks (Function.update bits t b u) (Function.update sets t S u)) ↔ Tracks b S := by
  constructor
  · intro hall
    have hself := hall t
    rwa [Function.update_self, Function.update_self] at hself
  · intro hself u
    by_cases hu : u = t
    · subst u
      rwa [Function.update_self, Function.update_self]
    · rw [Function.update_of_ne hu, Function.update_of_ne hu]
      exact h u

end OsKernel.Library
