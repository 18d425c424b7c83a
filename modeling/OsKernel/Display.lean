import Mathlib.Algebra.Ring.Int.Defs
import Mathlib.Logic.Function.Basic
import Mathlib.Tactic.Common
import OsKernel.Paging

/-!
# The console writers

`putc` and `putc_keyboard` keep a cursor for each terminal, remember in `prev_x` where each row
was left, and write character cells of the terminal's video page. Addresses are kernel virtual
addresses; by the refinement of terminal switching each terminal's page there is its own screen.
An index outside `prev_x` is a fault.
-/

namespace OsKernel

def NUM_COLS : ℤ := 80
def NUM_ROWS : ℤ := 25
def ATTRIB : UInt8 := 0x7
def ASCII_SPACE : UInt8 := 0x20
def ASCII_BS : UInt8 := 0x08
def ASCII_TAB : UInt8 := 0x09
def ASCII_NL : UInt8 := 0x0A
def ASCII_CR : UInt8 := 0x0D

/-- `uint8_t attrib[3]`: the font colours of the three terminals. -/
def attrib : Fin 3 → UInt8
  | 0 => 0x1
  | 1 => 0x7
  | 2 => 0x4

/-- An array access outside its bounds. -/
inductive Fault where
  | prevX (index : ℤ)
  | keyBuffer (index : ℤ)
  deriving DecidableEq

/-- What a mapped result comes from. -/
theorem ok_of_map {A B : Type*} {f : A → B} {r : Except Fault A} {b : B} (h : r.map f = .ok b) :
    ∃ a, r = .ok a ∧ f a = b := by
  cases r with
  | error fault => cases h
  | ok a => exact ⟨a, rfl, Except.ok.inj h⟩

/-- What a sequence of calls comes from. -/
theorem ok_of_bind {A B : Type*} {f : A → Except Fault B} {r : Except Fault A} {b : B} (h : r.bind f = .ok b) :
    ∃ a, r = .ok a ∧ f a = .ok b := by
  cases r with
  | error fault => cases h
  | ok a => exact ⟨a, rfl, h⟩

/-- The cursor fields of `terminal_t`. -/
structure Cursor where
  screenX : ℤ
  screenY : ℤ
  prevX : ℤ → ℤ

/-- What the console writers read and write. -/
structure Display where
  cursor : Fin 3 → Cursor
  vmem : ℤ → UInt8
  cursorPos : ℤ

/-- `terms[t].vidmem`, which only `terminal_init` assigns. -/
def vidmem (t : Fin 3) : ℤ := START_VM_T + t * KB_4

/-- The address of the character byte of a cell; its attribute byte follows. -/
def cellAddr (t : Fin 3) (y x : ℤ) : ℤ := vidmem t + (NUM_COLS * y + x) * 2

/-- Replace one terminal's cursor. -/
def Display.setCursor (d : Display) (t : Fin 3) (c : Cursor) : Display :=
  { d with cursor := Function.update d.cursor t c }

/-- Write one byte of video memory. -/
def Display.poke (d : Display) (addr : ℤ) (b : UInt8) : Display :=
  { d with vmem := Function.update d.vmem addr b }

/-- Write a character and the terminal's attribute at the cursor. -/
def Display.putCell (d : Display) (t : Fin 3) (c : UInt8) : Display :=
  let addr := cellAddr t (d.cursor t).screenY (d.cursor t).screenX
  (d.poke addr c).poke (addr + 1) (attrib t)

/-- `terms[t].prev_x[index] = x` -/
def Display.storePrevX (d : Display) (t : Fin 3) (index x : ℤ) : Except Fault Display :=
  if 0 ≤ index ∧ index < NUM_ROWS then
    .ok (d.setCursor t
      { d.cursor t with prevX := Function.update (d.cursor t).prevX index x })
  else .error (.prevX index)

/-- `terms[t].prev_x[index]` -/
def Display.loadPrevX (d : Display) (t : Fin 3) (index : ℤ) : Except Fault ℤ :=
  if 0 ≤ index ∧ index < NUM_ROWS then .ok ((d.cursor t).prevX index)
  else .error (.prevX index)

/-- Set the cursor position. -/
def Display.moveTo (d : Display) (t : Fin 3) (x y : ℤ) : Display :=
  d.setCursor t { d.cursor t with screenX := x, screenY := y }

/-- One turn of the outer scroll loop; `cell` is the body of the inner loop. -/
def scrollRow (t : Fin 3) (cell : ℤ → ℤ → Display → Display) (d : Display) (i : ℤ) : Display :=
  let c := d.cursor t
  let moved := if i < NUM_ROWS - 1 then c.prevX (i + 1) else 0
  let d := d.setCursor t { c with prevX := Function.update c.prevX i moved }
  ((List.range 80).map Int.ofNat).foldl (fun d j => cell i j d) d

/-- The shape of both scroll routines: `prev_x[0]` first, then rows 1 to 24. -/
def scrollWith (t : Fin 3) (cell : ℤ → ℤ → Display → Display) (d : Display) : Display :=
  let c := d.cursor t
  let d := d.setCursor t { c with prevX := Function.update c.prevX 0 (c.prevX 1) }
  ((List.range' 1 24).map Int.ofNat).foldl (scrollRow t cell) d

/-- `vertical_scroll`, for `t = active_term`. -/
def verticalScroll (t : Fin 3) : Display → Display :=
  scrollWith t fun i j d =>
    let d := d.poke (cellAddr t (i - 1) j) (d.vmem (cellAddr t i j))
    let d := d.poke (cellAddr t (i - 1) j + 1) (attrib t)
    if i = NUM_ROWS - 1 then d.poke (cellAddr t i j) ASCII_SPACE else d

/-- `vertical_scroll_keyboard`, for `t = curr_term`: attributes are set on the last row only. -/
def verticalScrollKeyboard (t : Fin 3) : Display → Display :=
  scrollWith t fun i j d =>
    let d := d.poke (cellAddr t (i - 1) j) (d.vmem (cellAddr t i j))
    if i = NUM_ROWS - 1 then
      (d.poke (cellAddr t i j) ASCII_SPACE).poke (cellAddr t i j + 1) (attrib t)
    else d

/-- `update_cursor` and `update_cursor_key`: the position sent to the display controller. -/
def Display.updateCursor (d : Display) (t : Fin 3) : Display :=
  { d with cursorPos := ((d.cursor t).screenY * NUM_COLS + (d.cursor t).screenX) % 2 ^ 16 }

/-- The branch for a newline or carriage return; only a newline remembers its column. -/
def putLineEnd (scroll : Display → Display) (t : Fin 3) (c : UInt8) (d : Display) :
    Except Fault Display :=
  let x := (d.cursor t).screenX
  let y := (d.cursor t).screenY
  (if c = ASCII_NL then d.storePrevX t y x else .ok d).map fun d =>
    let d := if y = NUM_ROWS - 1 then scroll d else d.moveTo t x (y + 1)
    d.moveTo t 0 (d.cursor t).screenY

/-- The backspace branch away from the left top: at column 0 it goes back to the row above. -/
def putBackspace (t : Fin 3) (d : Display) : Except Fault Display :=
  let x := (d.cursor t).screenX
  let y := (d.cursor t).screenY
  if x = 0 then
    (d.loadPrevX t (y - 1)).map fun prev => (d.moveTo t prev (y - 1)).putCell t ASCII_SPACE
  else
    let x' := (x - 1).tmod NUM_COLS
    let y' := (y + x'.tdiv NUM_COLS).tmod NUM_ROWS
    .ok ((d.moveTo t x' y').putCell t ASCII_SPACE)

/-- The branch for a character in the last column. -/
def putLastColumn (scroll : Display → Display) (t : Fin 3) (c : UInt8) (d : Display) :
    Except Fault Display :=
  let x := (d.cursor t).screenX
  let y := (d.cursor t).screenY
  (d.storePrevX t y x).map fun d =>
    let d := d.putCell t c
    let d := if y < NUM_ROWS - 1 then d.moveTo t x (y + 1) else scroll d
    d.moveTo t 0 (d.cursor t).screenY

/-- The branch for a character before the last column. -/
def putMiddle (t : Fin 3) (c : UInt8) (d : Display) : Display :=
  let x' := ((d.cursor t).screenX + 1).tmod NUM_COLS
  let y' := ((d.cursor t).screenY + x'.tdiv NUM_COLS).tmod NUM_ROWS
  (d.putCell t (if c = 127 then ASCII_SPACE else c)).moveTo t x' y'

/-- The common body of the two writers on terminal `t`; `none` where it returns early. -/
def putcOn (scroll : Display → Display) (t : Fin 3) (c : UInt8) (d : Display) :
    Except Fault (Option Display) :=
  if c = 0 then .ok none
  else if c = ASCII_NL ∨ c = ASCII_CR then (putLineEnd scroll t c d).map some
  else if c = ASCII_BS then
    if (d.cursor t).screenX = 0 ∧ (d.cursor t).screenY = 0 then .ok none
    else (putBackspace t d).map some
  else if (d.cursor t).screenX = NUM_COLS - 1 then (putLastColumn scroll t c d).map some
  else .ok (some (putMiddle t c d))

/-- `putc`: writes terminal `active_term`, and moves the hardware cursor if it is displayed. -/
def putc (currTerm activeTerm : Fin 3) (c : UInt8) (d : Display) : Except Fault Display :=
  (putcOn (verticalScroll activeTerm) activeTerm c d).map fun
    | none => d
    | some d => if currTerm = activeTerm then d.updateCursor activeTerm else d

/-- `putc_keyboard`: writes terminal `curr_term`. -/
def putcKeyboard (currTerm : Fin 3) (c : UInt8) (d : Display) : Except Fault Display :=
  (putcOn (verticalScrollKeyboard currTerm) currTerm c d).map fun
    | none => d
    | some d => d.updateCursor currTerm

/-- `putc`, `n` times. -/
def putcTimes (currTerm activeTerm : Fin 3) (c : UInt8) : ℕ → Display → Except Fault Display
  | 0, d => .ok d
  | n + 1, d => (putc currTerm activeTerm c d).bind (putcTimes currTerm activeTerm c n)

/-- The loop of `terminal_write` from index `i`, with the number of characters left: `byte_read` at the
return. NULs are skipped, and a tab is printed as four spaces. -/
def terminalWriteFrom (currTerm activeTerm : Fin 3) (buf : ℕ → UInt8) (i byteRead : ℕ) :
    ℕ → Display → Except Fault (ℕ × Display)
  | 0, d => .ok (byteRead, d)
  | left + 1, d =>
    let c := buf i
    if c = 0 then terminalWriteFrom currTerm activeTerm buf (i + 1) byteRead left d
    else
      (if c = ASCII_TAB then putcTimes currTerm activeTerm ASCII_SPACE 4 d else putc currTerm activeTerm c d).bind
        (terminalWriteFrom currTerm activeTerm buf (i + 1) (byteRead + 1) left)

/-- `terminal_write` on a non-null buffer. -/
def terminalWrite (currTerm activeTerm : Fin 3) (buf : ℕ → UInt8) (nbytes : ℤ) (d : Display) :
    Except Fault (ℕ × Display) :=
  terminalWriteFrom currTerm activeTerm buf 0 0 nbytes.toNat d

/-- `clear_key`: blank the displayed terminal's page. -/
def clearKey (currTerm : Fin 3) (d : Display) : Display :=
  ((List.range 2000).map Int.ofNat).foldl
    (fun d i => (d.poke (vidmem currTerm + i * 2) ASCII_SPACE).poke (vidmem currTerm + i * 2 + 1) ATTRIB) d

/-- `reset_pos` -/
def resetPos (currTerm : Fin 3) (x y : ℤ) (d : Display) : Display := d.moveTo currTerm x y

/-- The bounds that keep a cursor on the screen and its `prev_x` accesses inside the array. -/
structure Cursor.InRange (c : Cursor) : Prop where
  x : 0 ≤ c.screenX ∧ c.screenX < NUM_COLS
  y : 0 ≤ c.screenY ∧ c.screenY < NUM_ROWS
  prevX : ∀ i, 0 ≤ i → i < NUM_ROWS → 0 ≤ c.prevX i ∧ c.prevX i < NUM_COLS

/-- Every terminal's cursor is in range. -/
def Display.InRange (d : Display) : Prop := ∀ t, (d.cursor t).InRange

section InRange

variable {d : Display} {t : Fin 3}

@[simp] theorem Display.poke_cursor (d : Display) (addr : ℤ) (b : UInt8) :
    (d.poke addr b).cursor = d.cursor := rfl

@[simp] theorem Display.putCell_cursor (d : Display) (t : Fin 3) (c : UInt8) :
    (d.putCell t c).cursor = d.cursor := rfl

@[simp] theorem Display.updateCursor_cursor (d : Display) (t : Fin 3) :
    (d.updateCursor t).cursor = d.cursor := rfl

@[simp] theorem Display.setCursor_self (d : Display) (t : Fin 3) (c : Cursor) :
    (d.setCursor t c).cursor t = c := Function.update_self ..

/-- Replacing one cursor by one in range keeps all in range. -/
theorem Display.InRange.setCursor (h : d.InRange) {c : Cursor} (hc : c.InRange) :
    (d.setCursor t c).InRange := by
  intro u
  by_cases hu : u = t
  · subst u
    rw [Display.setCursor_self]
    exact hc
  · have hkeep : (d.setCursor t c).cursor u = d.cursor u := Function.update_of_ne hu _ _
    rw [hkeep]
    exact h u

/-- Moving a cursor to a cell of the screen keeps all in range. -/
theorem Display.InRange.moveTo (h : d.InRange) {x y : ℤ} (hx : 0 ≤ x ∧ x < NUM_COLS)
    (hy : 0 ≤ y ∧ y < NUM_ROWS) : (d.moveTo t x y).InRange :=
  h.setCursor ⟨hx, hy, (h t).prevX⟩

/-- Writing a cell moves no cursor. -/
theorem Display.InRange.putCell (h : d.InRange) (c : UInt8) : (d.putCell t c).InRange := h

/-- The hardware cursor is no part of the bounds. -/
theorem Display.InRange.updateCursor (h : d.InRange) : (d.updateCursor t).InRange := h

/-- Remembering a column of the screen keeps all in range. -/
theorem Cursor.InRange.update {c : Cursor} (h : c.InRange) {i x : ℤ} (hx : 0 ≤ x ∧ x < NUM_COLS) :
    ({ c with prevX := Function.update c.prevX i x } : Cursor).InRange := by
  refine ⟨h.x, h.y, fun j hlow hhigh => ?_⟩
  by_cases hj : j = i
  · subst j
    simpa using hx
  · simpa [hj] using h.prevX j hlow hhigh

/-- A `prev_x` store at the current row stays inside the array. -/
theorem Display.InRange.storePrevX (h : d.InRange) :
    ∃ d', d.storePrevX t (d.cursor t).screenY (d.cursor t).screenX = .ok d' ∧ d'.InRange :=
  ⟨_, if_pos (h t).y, h.setCursor ((h t).update (h t).x)⟩

/-- A row of a scroll shifts one remembered column. -/
theorem Display.InRange.scrollRow (h : d.InRange) {cell : ℤ → ℤ → Display → Display}
    (hcell : ∀ i j d, (cell i j d).cursor = d.cursor) {i : ℤ} (hi : 0 ≤ i) :
    (scrollRow t cell d i).InRange := by
  have hmoved : 0 ≤ (if i < NUM_ROWS - 1 then (d.cursor t).prevX (i + 1) else 0) ∧
      (if i < NUM_ROWS - 1 then (d.cursor t).prevX (i + 1) else 0) < NUM_COLS := by
    split
    · exact (h t).prevX (i + 1) (by omega) (by omega)
    · exact ⟨le_rfl, by decide⟩
  refine List.foldlRecOn _ _ (h.setCursor ((h t).update hmoved)) fun d' hd' j _ => ?_
  intro u
  rw [hcell]
  exact hd' u

/-- Scrolling keeps the cursors in range. -/
theorem Display.InRange.scrollWith (h : d.InRange) {cell : ℤ → ℤ → Display → Display}
    (hcell : ∀ i j d, (cell i j d).cursor = d.cursor) : (scrollWith t cell d).InRange := by
  refine List.foldlRecOn _ _ (h.setCursor ((h t).update ((h t).prevX 1 (by decide) (by decide)))) ?_
  intro d' hd' i hi
  obtain ⟨n, -, rfl⟩ := List.mem_map.mp hi
  exact hd'.scrollRow hcell (Int.natCast_nonneg n)

theorem Display.InRange.verticalScroll (h : d.InRange) : (verticalScroll t d).InRange :=
  h.scrollWith fun i j d => by dsimp only; split <;> rfl

theorem Display.InRange.verticalScrollKeyboard (h : d.InRange) : (verticalScrollKeyboard t d).InRange :=
  h.scrollWith fun i j d => by dsimp only; split <;> rfl

/-- Returning to column 0 after a row change keeps the cursors in range. -/
theorem Display.InRange.lineStart (h : d.InRange) : (d.moveTo t 0 (d.cursor t).screenY).InRange :=
  h.moveTo (by decide) (h t).y

/-- The wrap-around arithmetic of both writers has no effect inside a row. -/
theorem sameRow {x y : ℤ} (hx : 0 ≤ x ∧ x < NUM_COLS) (hy : 0 ≤ y ∧ y < NUM_ROWS) :
    x.tmod NUM_COLS = x ∧ (y + (x.tmod NUM_COLS).tdiv NUM_COLS).tmod NUM_ROWS = y := by
  have hmod : x.tmod NUM_COLS = x := Int.tmod_eq_of_lt hx.1 hx.2
  refine ⟨hmod, ?_⟩
  rw [hmod, Int.tdiv_eq_zero_of_lt hx.1 hx.2, Int.add_zero, Int.tmod_eq_of_lt hy.1 hy.2]

/-- Either line end leaves the cursor at the start of a row. -/
theorem Display.InRange.putLineEnd {scroll : Display → Display}
    (hscroll : ∀ d : Display, d.InRange → (scroll d).InRange) (h : d.InRange) (c : UInt8) :
    ∃ d', putLineEnd scroll t c d = .ok d' ∧ d'.InRange := by
  obtain ⟨d₁, hd₁, hrange⟩ : ∃ d₁, (if c = ASCII_NL then
      d.storePrevX t (d.cursor t).screenY (d.cursor t).screenX else .ok d) = .ok d₁ ∧ d₁.InRange := by
    split
    · exact h.storePrevX
    · exact ⟨d, rfl, h⟩
  have hx := (h t).x
  have hy := (h t).y
  refine ⟨_, by simp only [OsKernel.putLineEnd, hd₁]; rfl, Display.InRange.lineStart ?_⟩
  split
  · exact hscroll d₁ hrange
  · exact hrange.moveTo hx (by omega)

/-- Backspace reads `prev_x` only below row 0. -/
theorem Display.InRange.putBackspace (h : d.InRange)
    (htop : ¬((d.cursor t).screenX = 0 ∧ (d.cursor t).screenY = 0)) :
    ∃ d', putBackspace t d = .ok d' ∧ d'.InRange := by
  obtain ⟨hx, hy, hprev⟩ := h t
  by_cases hcol : (d.cursor t).screenX = 0
  · have hrow : 0 ≤ (d.cursor t).screenY - 1 ∧ (d.cursor t).screenY - 1 < NUM_ROWS := by omega
    have hload : d.loadPrevX t ((d.cursor t).screenY - 1) =
        .ok ((d.cursor t).prevX ((d.cursor t).screenY - 1)) := if_pos hrow
    refine ⟨_, by simp only [OsKernel.putBackspace, if_pos hcol, hload]; rfl, ?_⟩
    exact (h.moveTo (hprev _ hrow.1 hrow.2) hrow).putCell ASCII_SPACE
  · have hleft : 0 ≤ (d.cursor t).screenX - 1 ∧ (d.cursor t).screenX - 1 < NUM_COLS := by omega
    obtain ⟨hcolumn, hrow⟩ := sameRow hleft hy
    refine ⟨_, by simp only [OsKernel.putBackspace, if_neg hcol]; rfl, ?_⟩
    rw [hrow, hcolumn]
    exact (h.moveTo hleft hy).putCell ASCII_SPACE

/-- The last column is remembered before the row changes. -/
theorem Display.InRange.putLastColumn {scroll : Display → Display}
    (hscroll : ∀ d : Display, d.InRange → (scroll d).InRange) (h : d.InRange) (c : UInt8) :
    ∃ d', putLastColumn scroll t c d = .ok d' ∧ d'.InRange := by
  obtain ⟨d₁, hd₁, hrange⟩ := h.storePrevX (t := t)
  have hx := (h t).x
  have hy := (h t).y
  refine ⟨_, by simp only [OsKernel.putLastColumn, hd₁]; rfl, Display.InRange.lineStart ?_⟩
  split
  · exact (hrange.putCell c).moveTo hx (by omega)
  · exact hscroll _ (hrange.putCell c)

/-- Before the last column the cursor moves right. -/
theorem Display.InRange.putMiddle (h : d.InRange) (hlast : (d.cursor t).screenX ≠ NUM_COLS - 1)
    (c : UInt8) : (putMiddle t c d).InRange := by
  have hx := (h t).x
  have hright : 0 ≤ (d.cursor t).screenX + 1 ∧ (d.cursor t).screenX + 1 < NUM_COLS := by omega
  obtain ⟨hcolumn, hrow⟩ := sameRow hright (h t).y
  rw [OsKernel.putMiddle, hrow, hcolumn]
  exact (h.putCell _).moveTo hright (h t).y

/-- The common writer never leaves the array and keeps the cursors in range. -/
theorem Display.InRange.putcOn {scroll : Display → Display}
    (hscroll : ∀ d : Display, d.InRange → (scroll d).InRange) (h : d.InRange) (c : UInt8) :
    ∃ r, putcOn scroll t c d = .ok r ∧ ∀ d' ∈ r, d'.InRange := by
  have hsome (r : Except Fault Display) (hr : ∃ d', r = .ok d' ∧ d'.InRange) :
      ∃ r', r.map some = .ok r' ∧ ∀ d' ∈ r', d'.InRange := by
    obtain ⟨d', rfl, hd'⟩ := hr
    exact ⟨some d', rfl, by simpa using hd'⟩
  unfold OsKernel.putcOn
  split_ifs with hnul hnl hbs htop hlast
  · exact ⟨none, rfl, by simp⟩
  · exact hsome _ (h.putLineEnd hscroll c)
  · exact ⟨none, rfl, by simp⟩
  · exact hsome _ (h.putBackspace htop)
  · exact hsome _ (h.putLastColumn hscroll c)
  · exact ⟨_, rfl, by simpa using h.putMiddle hlast c⟩

/-- The keyboard's writer never faults. -/
theorem Display.InRange.putcKeyboard (h : d.InRange) (currTerm : Fin 3) (c : UInt8) :
    ∃ d', putcKeyboard currTerm c d = .ok d' ∧ d'.InRange := by
  obtain ⟨r, hr, hrange⟩ := h.putcOn (t := currTerm) (fun _ hd => hd.verticalScrollKeyboard) c
  unfold OsKernel.putcKeyboard
  rw [hr]
  cases r with
  | none => exact ⟨d, rfl, h⟩
  | some d' => exact ⟨_, rfl, hrange d' rfl⟩

/-- The writer of the scheduled terminal never faults. -/
theorem Display.InRange.putc (h : d.InRange) (currTerm activeTerm : Fin 3) (c : UInt8) :
    ∃ d', putc currTerm activeTerm c d = .ok d' ∧ d'.InRange := by
  obtain ⟨r, hr, hrange⟩ := h.putcOn (t := activeTerm) (fun _ hd => hd.verticalScroll) c
  unfold OsKernel.putc
  rw [hr]
  cases r with
  | none => exact ⟨d, rfl, h⟩
  | some d' =>
    refine ⟨_, rfl, ?_⟩
    dsimp only
    split
    · exact (hrange d' rfl).updateCursor
    · exact hrange d' rfl

/-- Clearing the page moves no cursor. -/
theorem Display.InRange.clearKey (h : d.InRange) (currTerm : Fin 3) : (clearKey currTerm d).InRange :=
  List.foldlRecOn _ _ h fun _ hd _ _ => hd

end InRange

end OsKernel
