import Mathlib.Data.List.Basic
import Mathlib.Tactic.Common

/-!
# Texts in lines and pieces

A text is cut into lines at a separator, and a line into pieces of at most `n` letters for a reader whose
window has room for no more. What is done piece by piece can be done while the text goes by: the next line
or the next full piece is cut off at the front.
-/

namespace OsKernel.Library

variable {α β : Type*}

/-- The pieces of at most `n` letters of a line; behind a last full piece there is an empty one. -/
def pieces (n : ℕ) (line : List α) : List (List α) :=
  (List.range (line.length / n + 1)).map fun j => (line.drop (n * j)).take n

/-- What comes out of a text whose lines are gone through piece by piece. -/
def byPieces [BEq α] (sep : α) (n : ℕ) (f : List α → List β) (text : List α) : List β :=
  (text.splitOn sep).flatMap fun line => (pieces n line).flatMap f

variable {n : ℕ} {f : List α → List β} {line text : List α} {sep : α}

/-- The first full piece. -/
theorem pieces_append (hn : 0 < n) (hlength : line.length = n) (text : List α) :
    pieces n (line ++ text) = line :: pieces n text := by
  have hcount : (line ++ text).length / n + 1 = text.length / n + 1 + 1 := by
    rw [List.length_append, hlength, Nat.add_div_left _ hn]
  rw [pieces, hcount, List.range_succ_eq_map, List.map_cons, List.map_map, pieces]
  congr 1
  · rw [Nat.mul_zero, List.drop_zero, ← hlength, List.take_left]
  · refine List.map_congr_left fun j _ => ?_
    rw [Function.comp_apply, Nat.mul_succ, Nat.add_comm, ← hlength, ← List.drop_drop, List.drop_left]

/-- A line that fits is a piece. -/
theorem flatMap_pieces (hn : 0 < n) (hlength : line.length ≤ n) (hf : f [] = []) :
    (pieces n line).flatMap f = f line := by
  have hsmall (l : List α) (hl : l.length < n) : pieces n l = [l] := by
    rw [pieces, Nat.div_eq_of_lt hl, Nat.zero_add, List.range_one, List.map_singleton, Nat.mul_zero, List.drop_zero,
      List.take_of_length_le (Nat.le_of_lt hl)]
  rcases Nat.lt_or_eq_of_le hlength with hlt | heq
  · rw [hsmall line hlt, List.flatMap_singleton]
  · have hpieces := pieces_append hn heq ([] : List α)
    rw [List.append_nil] at hpieces
    rw [hpieces, hsmall [] hn, List.flatMap_cons, List.flatMap_singleton, hf, List.append_nil]

/-- Lines that fit are gone through one by one. -/
theorem byPieces_lines [BEq α] (hn : 0 < n) (hf : f [] = []) (hshort : ∀ line ∈ text.splitOn sep, line.length ≤ n) :
    byPieces sep n f text = (text.splitOn sep).flatMap f := by
  rw [byPieces, List.flatMap_def, List.flatMap_def]
  congr 1
  exact List.map_congr_left fun line hline => flatMap_pieces hn (hshort line hline) hf

section Texts

variable [BEq α] [LawfulBEq α]

/-- The first line of a text comes first. -/
theorem byPieces_line (hn : 0 < n) (hf : f [] = []) (hline : sep ∉ line) (hlength : line.length ≤ n) (text : List α) :
    byPieces sep n f (line ++ sep :: text) = f line ++ byPieces sep n f text := by
  rw [byPieces, List.splitOn_append_cons_self_of_not_mem hline, List.flatMap_cons, flatMap_pieces hn hlength hf]
  rfl

/-- The last line. -/
theorem byPieces_last (hn : 0 < n) (hf : f [] = []) (hline : sep ∉ line) (hlength : line.length ≤ n) :
    byPieces sep n f line = f line := by
  rw [byPieces, List.splitOn_eq_singleton hline, List.flatMap_singleton, flatMap_pieces hn hlength hf]

/-- Letters in front of a text belong to its first line. -/
theorem splitOn_append (hline : sep ∉ line) (text : List α) :
    (line ++ text).splitOn sep = (text.splitOn sep).modifyHead (line ++ ·) := by
  induction line with
  | nil =>
    rw [List.nil_append]
    cases text.splitOn sep <;> rfl
  | cons c line ih =>
    obtain ⟨hc, hrest⟩ := not_or.mp (List.mem_cons.not.mp hline)
    have hne : (c == sep) = false := beq_eq_false_iff_ne.mpr (Ne.symm hc)
    rw [List.cons_append, List.splitOn_cons_eq_if_modifyHead, hne, ih hrest, if_neg Bool.false_ne_true,
      List.modifyHead_modifyHead]
    rfl

/-- A full piece of a line comes first, wherever its line ends. -/
theorem byPieces_full (hn : 0 < n) (hline : sep ∉ line) (hlength : line.length = n) (text : List α) :
    byPieces sep n f (line ++ text) = f line ++ byPieces sep n f text := by
  rw [byPieces, splitOn_append hline, byPieces]
  obtain ⟨first, rest, hsplit⟩ := List.exists_cons_of_ne_nil (List.splitOn_ne_nil sep text)
  rw [hsplit, List.modifyHead_cons, List.flatMap_cons, pieces_append hn hlength, List.flatMap_cons, List.flatMap_cons,
    List.append_assoc]

/-- Nothing comes out of the empty text. -/
theorem byPieces_nil (hn : 0 < n) (hf : f [] = []) : byPieces sep n f [] = [] :=
  (byPieces_last hn hf (List.not_mem_nil) (Nat.zero_le n)).trans hf

end Texts

end OsKernel.Library
