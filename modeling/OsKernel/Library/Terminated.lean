import Mathlib.Data.List.GetD
import Mathlib.Data.List.TakeWhile
import Mathlib.Logic.Function.Basic
import Mathlib.Tactic.Common

/-!
# Words with a terminator

A sequence spells a word when the word's letters stand at its start and the terminator behind them. The
word is unique, a finite sequence padded with terminators spells its part before the first one, and a
comparison that stops at a terminator decides whether two words are the same.
-/

namespace OsKernel.Library

variable {A : Type*} [Zero A]

/-- The sequence starts with the word, which has no terminator in it, and then a terminator. -/
structure Spells (s : ℕ → A) (word : List A) : Prop where
  letter : ∀ i < word.length, word[i]? = some (s i)
  terminated : s word.length = 0
  proper : 0 ∉ word

variable {s t : ℕ → A} {v w : List A}

/-- No letter of the word is a terminator. -/
theorem Spells.ne_zero (h : Spells s w) {i : ℕ} (hi : i < w.length) : s i ≠ 0 := by
  intro hzero
  have hletter := h.letter i hi
  rw [hzero] at hletter
  exact h.proper (List.mem_of_getElem? hletter)

/-- A position before which there is no terminator is in the word or right behind it. -/
theorem Spells.le_length (h : Spells s w) {k : ℕ} (hbefore : ∀ j < k, s j ≠ 0) : k ≤ w.length := by
  by_contra hlt
  exact hbefore w.length (not_le.mp hlt) h.terminated

/-- Two words of one length are the same exactly when the sequences agree as far as a comparison of at
most `n` letters, which stops at a terminator, looks. -/
theorem Spells.agree_iff (hs : Spells s v) (ht : Spells t w) (hlength : v.length = w.length) {n : ℕ}
    (hn : v.length ≤ n) : (∀ k < n, (∀ j < k, s j ≠ 0) → s k = t k) ↔ v = w := by
  constructor
  · intro hagree
    apply List.ext_getElem?
    intro k
    by_cases hk : k < v.length
    · rw [hs.letter k hk, ht.letter k (hlength ▸ hk)]
      exact congrArg some (hagree k (lt_of_lt_of_le hk hn) fun j hj => hs.ne_zero (lt_trans hj hk))
    · rw [List.getElem?_eq_none (not_lt.mp hk), List.getElem?_eq_none (hlength ▸ not_lt.mp hk)]
  · intro heq k _ hbefore
    subst heq
    rcases Nat.lt_or_eq_of_le (hs.le_length hbefore) with hk | rfl
    · exact Option.some.inj ((hs.letter k hk).symm.trans (ht.letter k hk))
    · rw [hs.terminated, ht.terminated]

/-- The word is unique. -/
theorem Spells.unique (hv : Spells s v) (hw : Spells s w) : v = w := by
  have hlength : v.length = w.length :=
    Nat.le_antisymm (hw.le_length fun j hj => hv.ne_zero hj) (hv.le_length fun j hj => hw.ne_zero hj)
  exact (hv.agree_iff hw hlength (le_refl _)).mp fun _ _ _ => rfl

/-- A list with terminators behind it spells its part before the first one. -/
theorem spells_cut [DecidableEq A] (l : List A) : Spells (fun i => l.getD i 0) (l.takeWhile (· ≠ 0)) := by
  refine ⟨?_, ?_, ?_⟩
  · intro i hi
    have hprefix := List.takeWhile_prefix (p := fun a : A => decide (a ≠ 0)) (l := l)
    have hl : i < l.length := lt_of_lt_of_le hi hprefix.length_le
    rw [List.getD_eq_getElem _ _ hl, List.getElem?_eq_getElem hi, hprefix.getElem hi]
  · induction l with
    | nil => rfl
    | cons a l ih =>
      by_cases ha : a = 0
      · subst ha
        rw [List.takeWhile_cons_of_neg (by simp)]
        rfl
      · rw [List.takeWhile_cons_of_pos (by simpa using ha), List.length_cons, List.getD_cons_succ]
        exact ih
  · intro hmem
    simpa using List.mem_takeWhile_imp hmem

/-- Letters stored at the start of a buffer, and a terminator behind them. -/
theorem spells_store (s : ℕ → A) (hproper : 0 ∉ w) :
    Spells (Function.update (fun i => w.getD i (s i)) w.length 0) w := by
  refine ⟨?_, Function.update_self .., hproper⟩
  intro i hi
  rw [Function.update_of_ne (Nat.ne_of_lt hi), List.getD_eq_getElem _ _ hi, List.getElem?_eq_getElem hi]

/-- Letters in front of a word. -/
theorem Spells.prepend {front : List A} (hfront : ∀ i < front.length, front[i]? = some (s i)) (hproper : 0 ∉ front)
    (h : Spells (fun k => s (front.length + k)) w) : Spells s (front ++ w) := by
  refine ⟨fun i hi => ?_, ?_, fun hmem => ?_⟩
  · rw [List.length_append] at hi
    by_cases hlt : i < front.length
    · rw [List.getElem?_append_left hlt, hfront i hlt]
    · obtain ⟨k, rfl⟩ := Nat.exists_eq_add_of_le (not_lt.mp hlt)
      rw [List.getElem?_append_right (Nat.le_add_right _ k), Nat.add_sub_cancel_left]
      exact h.letter k (Nat.lt_of_add_lt_add_left hi)
  · rw [List.length_append]
    exact h.terminated
  · rcases List.mem_append.mp hmem with hmem | hmem
    · exact hproper hmem
    · exact h.proper hmem

end OsKernel.Library
