import Mathlib.Data.List.DropRight
import Mathlib.Data.List.TakeWhile
import Mathlib.Tactic.Common

/-!
# The first word of a text

A text is letters and separators. Its first word is the first maximal run of letters; what follows that
run is looked at with its separators, or as letters only. None of this changes when separators are added
where there is one already, in front of the text or behind it.
-/

namespace OsKernel.Library

variable {A : Type*} [DecidableEq A]

/-- The first maximal run of letters. -/
def firstWord (sep : A) (text : List A) : List A := (text.dropWhile (· = sep)).takeWhile (· ≠ sep)

/-- What follows the first word. -/
def afterWord (sep : A) (text : List A) : List A := (text.dropWhile (· = sep)).dropWhile (· ≠ sep)

/-- The letters behind the first word. -/
def laterLetters (sep : A) (text : List A) : List A := (afterWord sep text).filter (· ≠ sep)

/-- What follows the first word, without separators around it. -/
def trimmedRest (sep : A) (text : List A) : List A :=
  ((afterWord sep text).dropWhile (· = sep)).rdropWhile (· = sep)

variable (sep : A) (a b text : List A)

/-- A separator in front of the text. -/
@[simp] theorem firstWord_sep_cons : firstWord sep (sep :: text) = firstWord sep text := by
  rw [firstWord, List.dropWhile_cons_of_pos (by simp)]
  rfl

/-- A separator in front of the text. -/
@[simp] theorem laterLetters_sep_cons : laterLetters sep (sep :: text) = laterLetters sep text := by
  rw [laterLetters, afterWord, List.dropWhile_cons_of_pos (by simp)]
  rfl

variable {sep}

/-- A letter in front starts the first word. -/
theorem firstWord_letter_cons {c : A} (hc : c ≠ sep) : firstWord sep (c :: text) = c :: text.takeWhile (· ≠ sep) := by
  rw [firstWord, List.dropWhile_cons_of_neg (by simpa using hc), List.takeWhile_cons_of_pos (by simpa using hc)]

/-- A letter in front starts the first word. -/
theorem laterLetters_letter_cons {c : A} (hc : c ≠ sep) :
    laterLetters sep (c :: text) = (text.dropWhile (· ≠ sep)).filter (· ≠ sep) := by
  rw [laterLetters, afterWord, List.dropWhile_cons_of_neg (by simpa using hc),
    List.dropWhile_cons_of_pos (by simpa using hc)]

/-- A run of letters ends at a separator. -/
theorem takeWhile_append_sep : (a ++ sep :: b).takeWhile (· ≠ sep) = a.takeWhile (· ≠ sep) := by
  induction a with
  | nil => simp
  | cons c a ih =>
    by_cases hc : c = sep
    · simp [hc]
    · simp only [List.cons_append, List.takeWhile_cons, ih]

/-- The letters from the end of a run of letters on, when there is a separator later. -/
theorem filter_dropWhile_append_sep :
    ((a ++ sep :: b).dropWhile (· ≠ sep)).filter (· ≠ sep) =
      (a.dropWhile (· ≠ sep)).filter (· ≠ sep) ++ b.filter (· ≠ sep) := by
  induction a with
  | nil => simp
  | cons c a ih =>
    by_cases hc : c = sep
    · simp [hc]
    · rw [List.cons_append, List.dropWhile_cons_of_pos (by simpa using hc), ih,
        List.dropWhile_cons_of_pos (by simpa using hc)]

/-- Separators are no letters. -/
theorem filter_replicate_sep (n : ℕ) : (List.replicate n sep ++ b).filter (· ≠ sep) = b.filter (· ≠ sep) := by
  rw [List.filter_append, List.filter_eq_nil_iff.mpr (by simp), List.nil_append]

/-- Separators in front change nothing. -/
theorem words_leading (n : ℕ) :
    firstWord sep (List.replicate n sep ++ b) = firstWord sep b ∧
      laterLetters sep (List.replicate n sep ++ b) = laterLetters sep b := by
  induction n with
  | zero => exact ⟨rfl, rfl⟩
  | succ n ih =>
    rw [List.replicate_succ, List.cons_append, firstWord_sep_cons, laterLetters_sep_cons]
    exact ih

/-- Separators added behind one change nothing. -/
theorem words_inserted (n : ℕ) :
    firstWord sep (a ++ sep :: (List.replicate n sep ++ b)) = firstWord sep (a ++ sep :: b) ∧
      laterLetters sep (a ++ sep :: (List.replicate n sep ++ b)) = laterLetters sep (a ++ sep :: b) := by
  induction a with
  | nil => simpa using words_leading b n
  | cons c a ih =>
    by_cases hc : c = sep
    · subst hc
      simpa using ih
    · simp only [List.cons_append, firstWord_letter_cons _ hc, laterLetters_letter_cons _ hc,
        takeWhile_append_sep, filter_dropWhile_append_sep, filter_replicate_sep, and_self]

/-- Separators at the end change nothing. -/
theorem words_trailing (n : ℕ) :
    firstWord sep (a ++ List.replicate n sep) = firstWord sep a ∧
      laterLetters sep (a ++ List.replicate n sep) = laterLetters sep a := by
  cases n with
  | zero => simp
  | succ n =>
    induction a with
    | nil => simpa using words_leading [] (n + 1)
    | cons c a ih =>
      by_cases hc : c = sep
      · subst hc
        simpa using ih
      · have hnil : (List.replicate n sep).filter (· ≠ sep) = [] := List.filter_eq_nil_iff.mpr (by simp)
        simp only [List.cons_append, List.replicate_succ, firstWord_letter_cons _ hc,
          laterLetters_letter_cons _ hc, takeWhile_append_sep, filter_dropWhile_append_sep, hnil,
          List.append_nil, and_self]

/-- A text of separators has no word and no letters. -/
theorem words_separators (n : ℕ) :
    firstWord sep (List.replicate n sep) = [] ∧ laterLetters sep (List.replicate n sep) = [] := by
  rw [← List.append_nil (List.replicate n sep)]
  exact words_leading [] n

/-- The letters of a text do not depend on the separators around it. -/
theorem filter_trimmedRest (sep : A) (text : List A) :
    (trimmedRest sep text).filter (· ≠ sep) = laterLetters sep text := by
  have hdrop (l : List A) : (l.dropWhile (· = sep)).filter (· ≠ sep) = l.filter (· ≠ sep) := by
    induction l with
    | nil => rfl
    | cons c l ih =>
      by_cases hc : c = sep
      · rw [List.dropWhile_cons_of_pos (by simpa using hc), ih, List.filter_cons_of_neg (by simpa using hc)]
      · rw [List.dropWhile_cons_of_neg (by simpa using hc)]
  rw [trimmedRest, List.rdropWhile, List.filter_reverse, hdrop, ← List.filter_reverse, List.reverse_reverse, hdrop]
  rfl

/-- The letters behind the first word are letters of the text. -/
theorem mem_laterLetters {sep : A} {text : List A} {c : A} (h : c ∈ laterLetters sep text) : c ∈ text ∧ c ≠ sep := by
  obtain ⟨hmem, hne⟩ := List.mem_filter.mp h
  exact ⟨(List.dropWhile_sublist _).subset ((List.dropWhile_sublist _).subset hmem), by simpa using hne⟩

/-- What follows the first word is nothing but separators exactly when it has no letters. -/
theorem trimmedRest_eq_nil_iff (sep : A) (text : List A) : trimmedRest sep text = [] ↔ laterLetters sep text = [] := by
  constructor
  · intro hnil
    rw [← filter_trimmedRest, hnil]
    rfl
  · intro hnone
    have hall : ∀ c ∈ afterWord sep text, decide (c = sep) = true := by
      simpa [laterLetters, List.filter_eq_nil_iff] using hnone
    rw [trimmedRest, List.dropWhile_eq_nil_iff.mpr hall]
    rfl

/-- What follows the first word is its letters when it has no separator inside. -/
theorem trimmedRest_eq_laterLetters {sep : A} {text : List A} (h : sep ∉ trimmedRest sep text) :
    trimmedRest sep text = laterLetters sep text := by
  rw [← filter_trimmedRest, List.filter_eq_self.mpr]
  intro c hc
  have hne : c ≠ sep := fun heq => h (heq ▸ hc)
  simpa using hne

end OsKernel.Library
