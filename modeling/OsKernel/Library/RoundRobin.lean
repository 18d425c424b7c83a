import OsKernel.Library.Run
import Mathlib.Algebra.Group.Fin.Basic
import Mathlib.Data.Fin.Basic
import Mathlib.Data.List.Count

/-!
# Turns around a circle

A turn goes around a circle of `n + 1` places: some events of a system pass it to the next place, which then holds what
is shared, and the others leave it where it is. Along a run each place gets its share of the turns, rounded up or down
by where the turn was at the beginning; so no place gets two turns more than another, and each gets one in any `n + 1`
passes.
-/

namespace OsKernel.Library

variable {S E : Type*} {n : ℕ}

/-- How often a pass in a run leaves a place with what is shared. -/
def turns (step : S → E → Option S) (holds : S → Fin (n + 1) → Prop) [∀ s p, Decidable (holds s p)]
    (passes : E → Bool) (place : Fin (n + 1)) : S → List E → ℕ
  | _, [] => 0
  | s, e :: rest =>
    match step s e with
    | none => 0
    | some s' => (if passes e ∧ holds s' place then 1 else 0) + turns step holds passes place s' rest

/-- From the states of an invariant, and under a condition on the steps, the events that pass the turn on hand what is
shared to the next place, and the others leave the turn where it is. -/
structure TakesTurns (step : S → E → Option S) (cond : S → E → Prop) (owner : S → Fin (n + 1))
    (holds : S → Fin (n + 1) → Prop) (passes : E → Bool) (inv : S → Prop) : Prop where
  keeps : ∀ s e s', inv s → cond s e → step s e = some s' → inv s'
  owner_eq : ∀ s e s', inv s → cond s e → step s e = some s' → owner s' = if passes e then owner s + 1 else owner s
  holds_iff : ∀ s e s', inv s → cond s e → step s e = some s' → passes e = true → ∀ p, holds s' p ↔ owner s' = p

/-- A place is one pass nearer behind a pass. -/
theorem distance_succ (place turn : Fin (n + 1)) :
    (place - (turn + 1 + 1)).val = if turn + 1 = place then n else (place - (turn + 1)).val - 1 := by
  rw [← sub_sub]
  split_ifs with hplace
  · rw [hplace, sub_self, zero_sub, Fin.coe_neg_one]
  · exact Fin.val_sub_one_of_ne_zero (sub_ne_zero.mpr (Ne.symm hplace))

section Shares

variable {step : S → E → Option S} {cond : S → E → Prop} {owner : S → Fin (n + 1)} {holds : S → Fin (n + 1) → Prop}
  [∀ s p, Decidable (holds s p)] {passes : E → Bool} {inv : S → Prop} {s s' : S} {events : List E}

/-- The share of a place: of the passes behind the first that reaches it, every `n + 1`st one. -/
theorem TakesTurns.turns_share (h : TakesTurns step cond owner holds passes inv) (hs : inv s)
    (hready : Along step cond s events) (hrun : run step s events = some s') (place : Fin (n + 1)) :
    (n + 1) * turns step holds passes place s events + (place - (owner s + 1)).val ≤ events.countP passes + n ∧
      events.countP passes ≤ (n + 1) * turns step holds passes place s events + (place - (owner s + 1)).val := by
  induction events generalizing s with
  | nil =>
    have hdistance := (place - (owner s + 1)).is_le
    rw [turns, List.countP_nil]
    omega
  | cons e rest ih =>
    obtain ⟨m, hm, hrest⟩ := run_cons.mp hrun
    obtain ⟨hcond, halong⟩ := hready
    have hnext := h.owner_eq s e m hs hcond hm
    obtain ⟨hle, hge⟩ := ih (h.keeps s e m hs hcond hm) (halong m hm) hrest
    rw [turns, hm]
    cases hpasses : passes e with
    | false =>
      rw [hpasses, if_neg Bool.false_ne_true] at hnext
      rw [hnext] at hle hge
      rw [List.countP_cons_of_neg (by rw [hpasses]; exact Bool.false_ne_true)]
      simp only [Bool.false_eq_true, false_and, if_false, Nat.zero_add]
      exact ⟨hle, hge⟩
    | true =>
      rw [hpasses, if_pos rfl] at hnext
      rw [hnext, distance_succ] at hle hge
      rw [List.countP_cons_of_pos hpasses]
      simp only [h.holds_iff s e m hs hcond hm hpasses, hnext, true_and, Nat.mul_add]
      generalize (n + 1) * turns step holds passes place m rest = before at hle hge
      -- The turn comes to the place, which is then the last one, or the place is one pass nearer.
      by_cases hplace : owner s + 1 = place
      · rw [if_pos hplace] at hle hge
        rw [if_pos hplace, hplace, sub_self, Fin.val_zero]
        omega
      · have hdistance : (place - (owner s + 1)).val ≠ 0 := fun hzero =>
          hplace (sub_eq_zero.mp (Fin.ext hzero)).symm
        rw [if_neg hplace] at hle hge
        rw [if_neg hplace]
        omega

/-- No place gets two turns more than another. -/
theorem TakesTurns.turns_fair (h : TakesTurns step cond owner holds passes inv) (hs : inv s)
    (hready : Along step cond s events) (hrun : run step s events = some s') (p q : Fin (n + 1)) :
    turns step holds passes p s events ≤ turns step holds passes q s events + 1 := by
  obtain ⟨hp, -⟩ := h.turns_share hs hready hrun p
  obtain ⟨-, hq⟩ := h.turns_share hs hready hrun q
  have hdistance := (q - (owner s + 1)).is_le
  have hlt : (n + 1) * turns step holds passes p s events < (n + 1) * (turns step holds passes q s events + 2) := by
    rw [Nat.mul_add]
    omega
  exact Nat.lt_succ_iff.mp (Nat.lt_of_mul_lt_mul_left hlt)

/-- In `n + 1` passes each place has a turn. -/
theorem TakesTurns.le_turns (h : TakesTurns step cond owner holds passes inv) (hs : inv s)
    (hready : Along step cond s events) (hrun : run step s events = some s') (place : Fin (n + 1)) {rounds : ℕ}
    (hrounds : (n + 1) * rounds ≤ events.countP passes) : rounds ≤ turns step holds passes place s events := by
  obtain ⟨-, hge⟩ := h.turns_share hs hready hrun place
  have hdistance := (place - (owner s + 1)).is_le
  have hlt : (n + 1) * rounds < (n + 1) * (turns step holds passes place s events + 1) := by
    rw [Nat.mul_add]
    omega
  exact Nat.lt_succ_iff.mp (Nat.lt_of_mul_lt_mul_left hlt)

end Shares

end OsKernel.Library
