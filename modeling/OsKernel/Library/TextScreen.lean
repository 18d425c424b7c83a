import Mathlib.Logic.Function.Iterate
import Mathlib.Order.Nat
import Mathlib.Tactic.Common

/-!
# A scrolling screen that can be untyped

Letters fill a screen row by row, and the screen moves up when its last row is full. For each row the
screen remembers the column where the cursor left it, so backspaces find their way back over row
ends. As many backspaces as strokes return to the start, which the scrolling has moved up; whatever
stood before the start is still there, and whatever was typed is blank. After letters, fewer backspaces
do not.
-/

namespace OsKernel.Library

/-- A screen with its cursor and the column where each row was left. -/
structure TextScreen (A : Type*) where
  cell : ℕ → ℕ → A
  x : ℕ
  y : ℕ
  left : ℕ → ℕ

/-- What is typed: a letter, which may look different in each column, or the end of a line. -/
inductive Stroke (A : Type*) where
  | letter (look : ℕ → A)
  | lineEnd

namespace TextScreen

variable {A : Type*}

/-- The cursor is on the screen, and so is every remembered column. -/
structure InRange (rows cols : ℕ) (s : TextScreen A) : Prop where
  x : s.x < cols
  y : s.y < rows
  left : ∀ r, r < rows → s.left r < cols

/-- Move the cursor. -/
def moveTo (x y : ℕ) (s : TextScreen A) : TextScreen A := { s with x, y }

/-- Fill the cell under the cursor. -/
def write (a : A) (s : TextScreen A) : TextScreen A :=
  { s with cell := fun r q => if r = s.y ∧ q = s.x then a else s.cell r q }

/-- Remember the column of the cursor for its row. -/
def leaveRow (s : TextScreen A) : TextScreen A := { s with left := Function.update s.left s.y s.x }

/-- Everything moves up by one row. -/
def scroll (rows : ℕ) (blank : A) (s : TextScreen A) : TextScreen A :=
  { s with
    cell := fun r q => if r + 1 < rows then s.cell (r + 1) q else blank
    left := fun r => if r + 1 < rows then s.left (r + 1) else 0 }

/-- The start of the next row, after a scroll on the last row. -/
def nextRow (rows : ℕ) (blank : A) (s : TextScreen A) : TextScreen A :=
  if s.y + 1 < rows then s.moveTo 0 (s.y + 1) else (s.scroll rows blank).moveTo 0 s.y

/-- One stroke. -/
def type (rows cols : ℕ) (blank : A) (s : TextScreen A) : Stroke A → TextScreen A
  | .letter look =>
    if s.x + 1 < cols then (s.write (look s.x)).moveTo (s.x + 1) s.y
    else (s.write (look s.x)).leaveRow.nextRow rows blank
  | .lineEnd => s.leaveRow.nextRow rows blank

/-- One backspace: nothing happens at the left top. -/
def back (blank : A) (s : TextScreen A) : TextScreen A :=
  if s.x = 0 ∧ s.y = 0 then s
  else if s.x = 0 then (s.moveTo (s.left (s.y - 1)) (s.y - 1)).write blank
  else (s.moveTo (s.x - 1) s.y).write blank

/-- Whether a stroke leaves its row. -/
def LeavesRow (cols : ℕ) (s : TextScreen A) : Stroke A → Prop
  | .letter _ => ¬s.x + 1 < cols
  | .lineEnd => True

instance (cols : ℕ) (s : TextScreen A) : (stroke : Stroke A) → Decidable (s.LeavesRow cols stroke)
  | .letter _ => inferInstanceAs (Decidable (¬s.x + 1 < cols))
  | .lineEnd => inferInstanceAs (Decidable True)

/-- How often a stroke scrolls. -/
def scrolls (rows cols : ℕ) (s : TextScreen A) (stroke : Stroke A) : ℕ :=
  if s.LeavesRow cols stroke ∧ ¬s.y + 1 < rows then 1 else 0

/-- Strokes one after the other. -/
def typeAll (rows cols : ℕ) (blank : A) : List (Stroke A) → TextScreen A → TextScreen A
  | [], s => s
  | stroke :: rest, s => typeAll rows cols blank rest (s.type rows cols blank stroke)

/-- How often strokes scroll. -/
def scrollCount (rows cols : ℕ) (blank : A) : List (Stroke A) → TextScreen A → ℕ
  | [], _ => 0
  | stroke :: rest, s =>
    s.scrolls rows cols stroke + scrollCount rows cols blank rest (s.type rows cols blank stroke)

/-- The first screen is the second moved up by `k` rows, as far as their common cursor. -/
structure MovedUp (k : ℕ) (r s : TextScreen A) : Prop where
  x : r.x = s.x
  y : r.y + k = s.y
  left : ∀ i, i < r.y → r.left i = s.left (i + k)
  cell : ∀ i q, i < r.y ∨ i = r.y ∧ q < r.x → r.cell i q = s.cell (i + k) q

variable {rows cols : ℕ} {blank : A} {s : TextScreen A}

@[simp] theorem moveTo_x (x y : ℕ) (s : TextScreen A) : (s.moveTo x y).x = x := rfl

@[simp] theorem moveTo_y (x y : ℕ) (s : TextScreen A) : (s.moveTo x y).y = y := rfl

@[simp] theorem moveTo_left (x y : ℕ) (s : TextScreen A) : (s.moveTo x y).left = s.left := rfl

@[simp] theorem moveTo_cell (x y : ℕ) (s : TextScreen A) : (s.moveTo x y).cell = s.cell := rfl

@[simp] theorem write_x (a : A) (s : TextScreen A) : (s.write a).x = s.x := rfl

@[simp] theorem write_y (a : A) (s : TextScreen A) : (s.write a).y = s.y := rfl

@[simp] theorem write_left (a : A) (s : TextScreen A) : (s.write a).left = s.left := rfl

@[simp] theorem leaveRow_x (s : TextScreen A) : s.leaveRow.x = s.x := rfl

@[simp] theorem leaveRow_y (s : TextScreen A) : s.leaveRow.y = s.y := rfl

@[simp] theorem leaveRow_cell (s : TextScreen A) : s.leaveRow.cell = s.cell := rfl

@[simp] theorem scroll_x (rows : ℕ) (blank : A) (s : TextScreen A) : (s.scroll rows blank).x = s.x := rfl

@[simp] theorem scroll_y (rows : ℕ) (blank : A) (s : TextScreen A) : (s.scroll rows blank).y = s.y := rfl

/-- The written cell. -/
theorem write_cell_self (a : A) (s : TextScreen A) : (s.write a).cell s.y s.x = a := if_pos ⟨rfl, rfl⟩

/-- Every other cell. -/
theorem write_cell_of_ne (a : A) {i q : ℕ} (h : ¬(i = s.y ∧ q = s.x)) : (s.write a).cell i q = s.cell i q := if_neg h

/-- The column remembered for the row of the cursor. -/
theorem leaveRow_left_self (s : TextScreen A) : s.leaveRow.left s.y = s.x := Function.update_self ..

/-- The column remembered for another row. -/
theorem leaveRow_left_of_ne {i : ℕ} (h : i ≠ s.y) : s.leaveRow.left i = s.left i := Function.update_of_ne h _ _

/-- A stroke that stays in its row. -/
theorem type_of_stays {look : ℕ → A} (h : s.x + 1 < cols) :
    s.type rows cols blank (.letter look) = (s.write (look s.x)).moveTo (s.x + 1) s.y := if_pos h

/-- A backspace inside a row. -/
theorem back_of_column (h : s.x ≠ 0) : s.back blank = (s.moveTo (s.x - 1) s.y).write blank := by
  rw [back, if_neg fun htop => h htop.1, if_neg h]

/-- A backspace over the end of a row. -/
theorem back_of_row (hx : s.x = 0) (hy : s.y ≠ 0) :
    s.back blank = (s.moveTo (s.left (s.y - 1)) (s.y - 1)).write blank := by
  rw [back, if_neg fun htop => hy htop.2, if_pos hx]

section Bounds

/-- Filling the cell under the cursor moves nothing. -/
theorem InRange.write (h : s.InRange rows cols) (a : A) : (s.write a).InRange rows cols := ⟨h.x, h.y, h.left⟩

/-- The remembered column is on the screen. -/
theorem InRange.leaveRow (h : s.InRange rows cols) : s.leaveRow.InRange rows cols := by
  refine ⟨h.x, h.y, fun r hr => ?_⟩
  by_cases hrow : r = s.y
  · rw [hrow, leaveRow_left_self]
    exact h.x
  · rw [leaveRow_left_of_ne hrow]
    exact h.left r hr

/-- The next row is on the screen. -/
theorem InRange.nextRow (h : s.InRange rows cols) : (s.nextRow rows blank).InRange rows cols := by
  have hcols : 0 < cols := Nat.zero_lt_of_lt h.x
  unfold TextScreen.nextRow
  split_ifs with hnext
  · exact ⟨hcols, hnext, h.left⟩
  · refine ⟨hcols, h.y, fun r hr => ?_⟩
    change (if r + 1 < rows then s.left (r + 1) else 0) < cols
    split_ifs with hbelow
    · exact h.left (r + 1) hbelow
    · exact hcols

/-- A stroke keeps the cursor on the screen. -/
theorem InRange.type (h : s.InRange rows cols) (stroke : Stroke A) :
    (s.type rows cols blank stroke).InRange rows cols := by
  cases stroke with
  | lineEnd => exact h.leaveRow.nextRow
  | letter look =>
    unfold TextScreen.type
    dsimp only
    split_ifs with hstays
    · exact ⟨hstays, h.y, h.left⟩
    · exact (h.write _).leaveRow.nextRow

/-- A backspace keeps the cursor on the screen. -/
theorem InRange.back (h : s.InRange rows cols) : (s.back blank).InRange rows cols := by
  have hx := h.x
  have hy := h.y
  unfold TextScreen.back
  split_ifs with htop hcolumn
  · exact h
  · exact ⟨h.left _ (by omega), by simp; omega, h.left⟩
  · exact ⟨by simp; omega, h.y, h.left⟩

end Bounds

section Untyping

variable {r : TextScreen A} {k : ℕ}

/-- The cell under the cursor is not compared. -/
theorem MovedUp.write (h : MovedUp k r s) (a : A) : MovedUp k (r.write a) s := by
  refine ⟨h.x, h.y, h.left, fun i q hbefore => ?_⟩
  rw [write_cell_of_ne a (by simp only [write_y, write_x] at hbefore; omega)]
  exact h.cell i q hbefore

/-- The cell under the cursor is not compared. -/
theorem MovedUp.of_write {a : A} (h : MovedUp k r (s.write a)) : MovedUp k r s := by
  have hx : r.x = s.x := h.x
  have hy : r.y + k = s.y := h.y
  refine ⟨hx, hy, h.left, fun i q hbefore => ?_⟩
  rw [h.cell i q hbefore, write_cell_of_ne a (by omega)]

/-- A letter inside a row is untyped. -/
theorem MovedUp.untype_stays {a : A} (h : MovedUp k r ((s.write a).moveTo (s.x + 1) s.y)) :
    MovedUp k (r.moveTo (r.x - 1) r.y) s := by
  have hx : r.x = s.x + 1 := h.x
  have hmoved : MovedUp k (r.moveTo (r.x - 1) r.y) (s.write a) := by
    refine ⟨by simp [hx], h.y, h.left, fun i q hbefore => h.cell i q ?_⟩
    simp only [moveTo_y, moveTo_x] at hbefore
    omega
  exact hmoved.of_write

/-- The start of a row that did not scroll is untyped. -/
theorem MovedUp.untype_nextRow (h : MovedUp k r (s.leaveRow.nextRow rows blank)) (hnext : s.y + 1 < rows)
    (hk : k ≤ s.y) : MovedUp k (r.moveTo (r.left (r.y - 1)) (r.y - 1)) s := by
  rw [nextRow, leaveRow_y, if_pos hnext] at h
  have hy : r.y + k = s.y + 1 := h.y
  have habove : r.y - 1 + k = s.y := by omega
  refine ⟨?_, habove, fun i hi => ?_, fun i q hbefore => h.cell i q ?_⟩
  · rw [moveTo_x, h.left (r.y - 1) (by omega), habove, moveTo_left, leaveRow_left_self]
  · simp only [moveTo_y] at hi
    rw [moveTo_left, h.left i (by omega), moveTo_left, leaveRow_left_of_ne (by omega)]
  · simp only [moveTo_y] at hbefore
    omega

/-- The start of a row that scrolled is untyped. -/
theorem MovedUp.untype_scroll (h : MovedUp k r (s.leaveRow.nextRow rows blank)) (hlast : ¬s.y + 1 < rows)
    (hrows : s.y < rows) (hk : k + 1 ≤ s.y) : MovedUp (k + 1) (r.moveTo (r.left (r.y - 1)) (r.y - 1)) s := by
  rw [nextRow, leaveRow_y, if_neg hlast] at h
  have hy : r.y + k = s.y := h.y
  have habove : r.y - 1 + (k + 1) = s.y := by omega
  have hleft (i : ℕ) (hi : i < r.y) : r.left i = s.leaveRow.left (i + k + 1) :=
    (h.left i hi).trans (if_pos (by omega))
  refine ⟨?_, habove, fun i hi => ?_, fun i q hbefore => ?_⟩
  · rw [moveTo_x, hleft (r.y - 1) (by omega), Nat.add_assoc, habove, leaveRow_left_self]
  · simp only [moveTo_y] at hi
    rw [moveTo_left, hleft i (by omega), leaveRow_left_of_ne (by omega), Nat.add_assoc]
  · simp only [moveTo_y] at hbefore
    have hcell := h.cell i q (by omega)
    exact hcell.trans (if_pos (by omega))

/-- A backspace blanks the cell it goes back to. -/
theorem back_cell_cursor (h : ¬(s.x = 0 ∧ s.y = 0)) :
    (s.back blank).cell (s.back blank).y (s.back blank).x = blank := by
  by_cases hx : s.x = 0
  · rw [back_of_row hx fun hy => h ⟨hx, hy⟩]
    exact write_cell_self ..
  · rw [back_of_column hx]
    exact write_cell_self ..

/-- A backspace leaves a blank cell blank. -/
theorem back_cell_blank {i q : ℕ} (h : s.cell i q = blank) : (s.back blank).cell i q = blank := by
  have hwrite (m : TextScreen A) (hm : m.cell i q = blank) : (m.write blank).cell i q = blank := by
    change (if i = m.y ∧ q = m.x then blank else m.cell i q) = blank
    split_ifs
    · rfl
    · exact hm
  unfold back
  split_ifs
  · exact h
  · exact hwrite _ h
  · exact hwrite _ h

/-- The end of a row is untyped by one backspace. -/
theorem MovedUp.untype_row (h : MovedUp k r (s.leaveRow.nextRow rows blank)) (hrows : s.y < rows)
    (hk : (if ¬s.y + 1 < rows then 1 else 0) + k ≤ s.y) :
    ¬(r.x = 0 ∧ r.y = 0) ∧ MovedUp ((if ¬s.y + 1 < rows then 1 else 0) + k) (r.back blank) s := by
  have hx : r.x = 0 := by
    rw [h.x, nextRow]
    split_ifs <;> rfl
  by_cases hnext : s.y + 1 < rows
  · rw [if_neg (not_not_intro hnext), Nat.zero_add] at hk ⊢
    have hmoved := h.untype_nextRow hnext hk
    have hy : r.y - 1 + k = s.y := hmoved.y
    have hbelow : r.y + k = s.y + 1 := by
      rw [h.y, nextRow, leaveRow_y, if_pos hnext, moveTo_y]
    refine ⟨fun htop => by omega, ?_⟩
    rw [back_of_row hx (by omega)]
    exact hmoved.write blank
  · rw [if_pos hnext, Nat.add_comm] at hk ⊢
    have hmoved := h.untype_scroll hnext hrows hk
    have hbelow : r.y + k = s.y := by
      rw [h.y, nextRow, leaveRow_y, if_neg hnext, moveTo_y]
    refine ⟨fun htop => by omega, ?_⟩
    rw [back_of_row hx (by omega)]
    exact hmoved.write blank

/-- A stroke is untyped by one backspace, provided that its row is still on the screen. -/
theorem MovedUp.untype {stroke : Stroke A} (h : MovedUp k r (s.type rows cols blank stroke)) (hrows : s.y < rows)
    (hk : s.scrolls rows cols stroke + k ≤ s.y) :
    ¬(r.x = 0 ∧ r.y = 0) ∧ MovedUp (s.scrolls rows cols stroke + k) (r.back blank) s := by
  have hleaves (hrow : s.LeavesRow cols stroke) :
      s.scrolls rows cols stroke = if ¬s.y + 1 < rows then 1 else 0 := by
    simp only [scrolls, hrow, true_and]
  cases stroke with
  | lineEnd =>
    rw [hleaves trivial] at hk ⊢
    exact h.untype_row hrows hk
  | letter look =>
    by_cases hstays : s.x + 1 < cols
    · have hnone : s.scrolls rows cols (.letter look) = 0 := if_neg fun hrow => hrow.1 hstays
      rw [type_of_stays hstays] at h
      have hx : r.x = s.x + 1 := h.x
      refine ⟨fun htop => by omega, ?_⟩
      rw [hnone, Nat.zero_add, back_of_column (by omega)]
      exact h.untype_stays.write blank
    · have htype : s.type rows cols blank (.letter look) = (s.write (look s.x)).leaveRow.nextRow rows blank :=
        if_neg hstays
      rw [hleaves hstays] at hk ⊢
      rw [htype] at h
      obtain ⟨htop, hmoved⟩ := h.untype_row hrows hk
      exact ⟨htop, hmoved.of_write⟩

/-- Nothing typed, nothing moved. -/
theorem MovedUp.refl (s : TextScreen A) : MovedUp 0 s s := ⟨rfl, rfl, fun _ _ => rfl, fun _ _ _ => rfl⟩

/-- The cursor never goes up. -/
theorem y_le_type (s : TextScreen A) (stroke : Stroke A) : s.y ≤ (s.type rows cols blank stroke).y := by
  have hrow (m : TextScreen A) : m.y ≤ (m.leaveRow.nextRow rows blank).y := by
    unfold nextRow
    split_ifs
    · exact Nat.le_succ m.y
    · exact le_rfl
  cases stroke with
  | lineEnd => exact hrow s
  | letter look =>
    unfold type
    dsimp only
    split_ifs
    · exact le_rfl
    · exact hrow (s.write (look s.x))

/-- As many backspaces as strokes bring the start back, moved up by the rows that scrolled off. -/
theorem untypeAll (strokes : List (Stroke A)) (s : TextScreen A) (h : s.InRange rows cols)
    (hk : scrollCount rows cols blank strokes s ≤ s.y) :
    MovedUp (scrollCount rows cols blank strokes s)
      ((back blank)^[strokes.length] (typeAll rows cols blank strokes s)) s := by
  induction strokes generalizing s with
  | nil => exact MovedUp.refl s
  | cons stroke rest ih =>
    rw [scrollCount] at hk ⊢
    have hrest := ih (s.type rows cols blank stroke) (h.type stroke)
      ((Nat.le_add_left ..).trans (hk.trans (y_le_type s stroke)))
    rw [List.length_cons, Function.iterate_succ_apply', typeAll]
    exact (hrest.untype h.y hk).2

/-- Strokes in two parts. -/
theorem typeAll_append (first second : List (Stroke A)) (s : TextScreen A) :
    typeAll rows cols blank (first ++ second) s =
      typeAll rows cols blank second (typeAll rows cols blank first s) := by
  induction first generalizing s with
  | nil => rfl
  | cons stroke rest ih => exact ih _

/-- The scrolls of strokes in two parts. -/
theorem scrollCount_append (first second : List (Stroke A)) (s : TextScreen A) :
    scrollCount rows cols blank (first ++ second) s =
      scrollCount rows cols blank first s + scrollCount rows cols blank second (typeAll rows cols blank first s) := by
  induction first generalizing s with
  | nil => rw [List.nil_append, scrollCount, typeAll, Nat.zero_add]
  | cons stroke rest ih => rw [List.cons_append, scrollCount, scrollCount, typeAll, ih, Nat.add_assoc]

/-- Strokes keep the cursor on the screen. -/
theorem InRange.typeAll (h : s.InRange rows cols) (blank : A) (strokes : List (Stroke A)) :
    (typeAll rows cols blank strokes s).InRange rows cols := by
  induction strokes generalizing s with
  | nil => exact h
  | cons stroke rest ih => exact ih (h.type stroke)

/-- The cursor never goes up. -/
theorem y_le_typeAll (s : TextScreen A) (strokes : List (Stroke A)) : s.y ≤ (typeAll rows cols blank strokes s).y := by
  induction strokes generalizing s with
  | nil => exact le_rfl
  | cons stroke rest ih => exact (y_le_type s stroke).trans (ih _)

/-- If strokes do not scroll off the row they start in, their later ones do not scroll off theirs. -/
theorem scrollCount_later_le {first second : List (Stroke A)}
    (hk : scrollCount rows cols blank (first ++ second) s ≤ s.y) :
    scrollCount rows cols blank second (typeAll rows cols blank first s) ≤ (typeAll rows cols blank first s).y := by
  rw [scrollCount_append] at hk
  exact (Nat.le_add_left ..).trans (hk.trans (y_le_typeAll s first))

/-- Backspaces leave a blank cell blank. -/
theorem iterate_back_cell_blank {i q : ℕ} (n : ℕ) (h : s.cell i q = blank) :
    ((back blank)^[n] s).cell i q = blank := by
  induction n with
  | zero => exact h
  | succ n ih =>
    rw [Function.iterate_succ_apply']
    exact back_cell_blank ih

/-- Every cell that was typed into is blank after the backspaces: the cell that a stroke found under the
cursor, moved up by the scrolls from that stroke on. -/
theorem untypeAll_cell (before after : List (Stroke A)) (stroke : Stroke A) (s : TextScreen A) (h : s.InRange rows cols)
    (hk : scrollCount rows cols blank (before ++ stroke :: after) s ≤ s.y) :
    ((back blank)^[(before ++ stroke :: after).length] (typeAll rows cols blank (before ++ stroke :: after) s)).cell
      ((typeAll rows cols blank before s).y -
        scrollCount rows cols blank (stroke :: after) (typeAll rows cols blank before s))
      (typeAll rows cols blank before s).x = blank := by
  have hm := h.typeAll blank before
  have hcount := scrollCount_later_le hk
  rw [typeAll_append, List.length_append, Function.iterate_add_apply]
  generalize typeAll rows cols blank before s = m at hm hcount ⊢
  rw [scrollCount] at hcount ⊢
  have hafter := untypeAll after (m.type rows cols blank stroke) (hm.type stroke)
    ((Nat.le_add_left ..).trans (hcount.trans (y_le_type m stroke)))
  obtain ⟨htop, hmoved⟩ := hafter.untype hm.y hcount
  rw [List.length_cons, Function.iterate_succ_apply', typeAll]
  apply iterate_back_cell_blank
  rw [← hmoved.x, ← Nat.eq_sub_of_add_eq hmoved.y]
  exact back_cell_cursor htop

end Untyping

section Positions

/-- A letter moves the cursor by one cell, counted with the rows that scroll off. -/
theorem type_position (blank : A) (h : s.InRange rows cols) (look : ℕ → A) :
    cols * ((s.type rows cols blank (.letter look)).y + s.scrolls rows cols (.letter look)) +
        (s.type rows cols blank (.letter look)).x =
      cols * s.y + s.x + 1 := by
  have hx := h.x
  by_cases hstays : s.x + 1 < cols
  · have hnone : s.scrolls rows cols (.letter look) = 0 := if_neg fun hrow => hrow.1 hstays
    rw [type_of_stays hstays, hnone]
    rfl
  · have hfull : s.x + 1 = cols := by omega
    have hrow : (s.type rows cols blank (.letter look)).x = 0 ∧
        (s.type rows cols blank (.letter look)).y + s.scrolls rows cols (.letter look) = s.y + 1 := by
      rw [type, if_neg hstays, nextRow, leaveRow_y, write_y, scrolls]
      by_cases hnext : s.y + 1 < rows
      · rw [if_pos hnext, if_neg fun hlast => hlast.2 hnext]
        exact ⟨rfl, rfl⟩
      · rw [if_neg hnext, if_pos ⟨hstays, hnext⟩]
        exact ⟨rfl, rfl⟩
    rw [hrow.1, hrow.2, Nat.mul_succ, Nat.add_zero]
    omega

/-- Letters move the cursor by as many cells. -/
theorem typeAll_position (blank : A) (h : s.InRange rows cols) {strokes : List (Stroke A)}
    (hletters : ∀ stroke ∈ strokes, ∃ look, stroke = .letter look) :
    cols * ((typeAll rows cols blank strokes s).y + scrollCount rows cols blank strokes s) +
        (typeAll rows cols blank strokes s).x =
      cols * s.y + s.x + strokes.length := by
  induction strokes generalizing s with
  | nil => rfl
  | cons stroke rest ih =>
    obtain ⟨look, rfl⟩ := hletters stroke List.mem_cons_self
    have hstep := type_position blank h look
    have hscreen : (s.type rows cols blank (.letter look)).InRange rows cols := h.type _
    have hrest := ih hscreen fun later hlater => hletters later (List.mem_cons_of_mem _ hlater)
    rw [typeAll, scrollCount, List.length_cons]
    rw [Nat.mul_add] at hstep hrest
    rw [Nat.mul_add, Nat.mul_add]
    omega

/-- Backspaces bring the cursor back to where letters started, moved up by the scrolls, exactly when they
are as many as the letters. -/
theorem returns_iff (h : s.InRange rows cols) {strokes : List (Stroke A)}
    (hletters : ∀ stroke ∈ strokes, ∃ look, stroke = .letter look)
    (hk : scrollCount rows cols blank strokes s ≤ s.y) {n : ℕ} (hn : n ≤ strokes.length) :
    (((back blank)^[n] (typeAll rows cols blank strokes s)).x = s.x ∧
        ((back blank)^[n] (typeAll rows cols blank strokes s)).y + scrollCount rows cols blank strokes s = s.y) ↔
      n = strokes.length := by
  constructor
  · -- the backspaces take back the last `n` letters, so the other letters must not have moved the cursor
    rintro ⟨hx, hy⟩
    obtain ⟨first, last, rfl, hlast⟩ : ∃ first last, strokes = first ++ last ∧ last.length = n :=
      ⟨_, _, (List.take_append_drop (strokes.length - n) strokes).symm, by rw [List.length_drop]; omega⟩
    subst hlast
    have hmoved := untypeAll last _ (h.typeAll blank first) (scrollCount_later_le hk)
    have hposition := typeAll_position blank h fun stroke hstroke => hletters stroke (List.mem_append_left last hstroke)
    rw [typeAll_append] at hx hy
    rw [scrollCount_append] at hy
    have hrow : (typeAll rows cols blank first s).y + scrollCount rows cols blank first s = s.y := by
      rw [← hmoved.y]
      omega
    rw [hrow, ← hmoved.x, hx] at hposition
    rw [List.length_append]
    omega
  · rintro rfl
    have hmoved := untypeAll strokes s h hk
    exact ⟨hmoved.x, hmoved.y⟩

end Positions

end TextScreen

end OsKernel.Library
