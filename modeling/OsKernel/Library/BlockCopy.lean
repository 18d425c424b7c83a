import Mathlib.Logic.Function.Basic
import Mathlib.Tactic.Common

/-!
# Block copies through an address map

A memory maps places to bytes, and a program names places by numeric addresses through an
address map. Two addresses may name one place, so a copy is described by what it leaves at
the places of the destination range and by its frame. Copies of adjacent ranges compose when
the destination is separate from the source.
-/

namespace OsKernel.Library

variable {P B : Type*}

/-- `after` is `before` with the destination range holding the source range, all else kept. -/
structure Copied (place : ℕ → P) (dest src count : ℕ) (before after : P → B) : Prop where
  copy : ∀ k < count, after (place (dest + k)) = before (place (src + k))
  frame : ∀ p, (∀ k < count, p ≠ place (dest + k)) → after p = before p

/-- The destination addresses name distinct places, none of them in the source range. -/
structure Separate (place : ℕ → P) (dest src count : ℕ) : Prop where
  injective : ∀ i < count, ∀ j < count, place (dest + i) = place (dest + j) → i = j
  apart : ∀ i < count, ∀ j < count, place (dest + i) ≠ place (src + j)

variable {place : ℕ → P} {dest src count : ℕ} {before middle after : P → B}

/-- The empty copy changes nothing. -/
theorem Copied.zero : Copied place dest src 0 before before :=
  ⟨fun k hk => absurd hk (Nat.not_lt_zero k), fun _ _ => rfl⟩

/-- A separate range stays separate when it is cut at the front. -/
theorem Separate.drop {first second : ℕ} (h : Separate place dest src (first + second)) :
    Separate place (dest + first) (src + first) second := by
  refine ⟨fun i hi j hj heq => ?_, fun i hi j hj => ?_⟩
  · rw [Nat.add_assoc, Nat.add_assoc] at heq
    have := h.injective (first + i) (by omega) (first + j) (by omega) heq
    omega
  · rw [Nat.add_assoc, Nat.add_assoc]
    exact h.apart (first + i) (by omega) (first + j) (by omega)

/-- A separate range stays separate when it is cut at the back. -/
theorem Separate.take {first second : ℕ} (h : Separate place dest src (first + second)) :
    Separate place dest src first :=
  ⟨fun i hi j hj => h.injective i (by omega) j (by omega),
    fun i hi j hj => h.apart i (by omega) j (by omega)⟩

/-- Copying two adjacent pieces of a separate range copies the range. -/
theorem Copied.trans {first second : ℕ} (hsep : Separate place dest src (first + second))
    (hfirst : Copied place dest src first before middle)
    (hsecond : Copied place (dest + first) (src + first) second middle after) :
    Copied place dest src (first + second) before after := by
  refine ⟨fun k hk => ?_, fun p hp => ?_⟩
  · by_cases hlt : k < first
    · have hkeep : after (place (dest + k)) = middle (place (dest + k)) := by
        apply hsecond.frame
        intro i hi heq
        rw [Nat.add_assoc] at heq
        have := hsep.injective k hk (first + i) (by omega) heq
        omega
      rw [hkeep, hfirst.copy k hlt]
    · obtain ⟨i, rfl⟩ := Nat.exists_eq_add_of_le (Nat.le_of_not_lt hlt)
      have hcopy := hsecond.copy i (by omega)
      have hsource : middle (place (src + (first + i))) = before (place (src + (first + i))) := by
        apply hfirst.frame
        intro j hj heq
        exact hsep.apart j (by omega) (first + i) (by omega) heq.symm
      rw [← Nat.add_assoc, ← Nat.add_assoc, hcopy, Nat.add_assoc, hsource]
  · rw [hsecond.frame p fun k hk => by rw [Nat.add_assoc]; exact hp (first + k) (by omega),
      hfirst.frame p fun k hk => hp k (by omega)]

variable [DecidableEq P]

/-- One byte load followed by one byte store copies one byte. -/
theorem Copied.byte :
    Copied place dest src 1 before
      (Function.update before (place dest) (before (place src))) := by
  refine ⟨fun k hk => ?_, fun p hp => Function.update_of_ne (hp 0 Nat.one_pos) _ _⟩
  obtain rfl : k = 0 := by omega
  simp

/-- Store consecutive bytes, given by their offset in the stored word. -/
def storeBytes (place : ℕ → P) (dest : ℕ) (word : ℕ → B) : ℕ → (P → B) → P → B
  | 0, memory => memory
  | n + 1, memory => Function.update (storeBytes place dest word n memory) (place (dest + n)) (word n)

/-- A multi-byte store keeps every place outside its range. -/
theorem storeBytes_of_ne (word : ℕ → B) (n : ℕ) (p : P) (hp : ∀ k < n, p ≠ place (dest + k)) :
    storeBytes place dest word n before p = before p := by
  induction n with
  | zero => rfl
  | succ n ih =>
    rw [storeBytes, Function.update_of_ne (hp n (by omega)), ih fun k hk => hp k (by omega)]

/-- A multi-byte store at distinct places leaves the word there. -/
theorem storeBytes_apply (word : ℕ → B) (n : ℕ)
    (hinj : ∀ i < n, ∀ j < n, place (dest + i) = place (dest + j) → i = j) (k : ℕ) (hk : k < n) :
    storeBytes place dest word n before (place (dest + k)) = word k := by
  induction n with
  | zero => omega
  | succ n ih =>
    rw [storeBytes]
    by_cases hlast : k = n
    · subst k
      exact Function.update_self ..
    · rw [Function.update_of_ne fun heq => hlast (hinj k hk n (by omega) heq)]
      exact ih (fun i hi j hj => hinj i (by omega) j (by omega)) (by omega)

/-- One word load followed by one word store copies the word's bytes. -/
theorem Copied.word {size : ℕ} (hsep : Separate place dest src size) :
    Copied place dest src size before
      (storeBytes place dest (fun k => before (place (src + k))) size before) :=
  ⟨fun k hk => storeBytes_apply _ size hsep.injective k hk,
    fun p hp => storeBytes_of_ne _ size p hp⟩

end OsKernel.Library
