import OsKernel.CursorBounds
import OsKernel.ScreenCells

/-!
# Whether the two writers agree

Without a scroll `putc` and `putc_keyboard` are the same function of the terminal they write. Their
scroll routines leave the same cursor, columns and characters, and they leave the same attributes
exactly when all cells have the terminal's own attribute before. That is so after start-up and
after every writer, but not after Ctrl+L, which paints the page with `ATTRIB` on every terminal.
-/

namespace OsKernel

open Library

/-- The displays that `terminal_init` and then `color_init` leave. -/
def startDisplay (behind : Fin 3 → ℤ → ℤ) (vmem : ℤ → UInt8) (cursorPos : ℤ) : Display :=
  colorInit (initDisplay behind vmem cursorPos)

/-- Whether a byte scrolls the screen: a line end, or a character in the last column, on the last row. -/
def Scrolls (c : UInt8) (cursor : Cursor) : Prop :=
  cursor.screenY = NUM_ROWS - 1 ∧
    (c = ASCII_NL ∨ c = ASCII_CR ∨ (c ≠ 0 ∧ c ≠ ASCII_BS) ∧ cursor.screenX = NUM_COLS - 1)

instance (c : UInt8) (cursor : Cursor) : Decidable (Scrolls c cursor) := inferInstanceAs (Decidable (_ ∧ _))

/-- The two writers leave the same cursor, `prev_x`, characters and attributes on the displayed and
scheduled terminal. -/
def WritersAgree (t : Fin 3) (c : UInt8) (d : Display) : Prop :=
  ∃ d₁ d₂, putc t t c d = .ok d₁ ∧ putcKeyboard t c d = .ok d₂ ∧ Display.Agree t d₁ d₂

/-- Every cell has the terminal's own attribute. -/
def Display.Coloured (t : Fin 3) (d : Display) : Prop := ∀ y x, OnScreen y x → d.attribAt t y x = attrib t

/-- If the byte scrolls, every cell has the terminal's own attribute, except a cell that the byte writes. -/
def ColouredForScroll (t : Fin 3) (c : UInt8) (d : Display) : Prop :=
  Scrolls c (d.cursor t) → ∀ y x, OnScreen y x →
    (c = ASCII_NL ∨ c = ASCII_CR ∨ ¬(y = (d.cursor t).screenY ∧ x = (d.cursor t).screenX)) →
    d.attribAt t y x = attrib t

section Scroll

variable {t : Fin 3} {c : UInt8} {d : Display}

/-- `terms[t].prev_x[screen_y] = screen_x` -/
def Display.leaveRow (t : Fin 3) (d : Display) : Display :=
  d.setCursor t { d.cursor t with
    prevX := Function.update (d.cursor t).prevX (d.cursor t).screenY (d.cursor t).screenX }

/-- The cursor after it. -/
theorem Display.leaveRow_cursor (t : Fin 3) (d : Display) : (d.leaveRow t).cursor t = { d.cursor t with
    prevX := Function.update (d.cursor t).prevX (d.cursor t).screenY (d.cursor t).screenX } :=
  Display.setCursor_self ..

/-- The store is inside the array. -/
theorem Cursor.InRange.storePrevX (h : (d.cursor t).InRange) :
    d.storePrevX t (d.cursor t).screenY (d.cursor t).screenX = .ok (d.leaveRow t) := if_pos h.y

/-- The display at the call of the scroll routine. -/
def beforeScroll (t : Fin 3) (c : UInt8) (d : Display) : Display :=
  if c = ASCII_CR then d else if c = ASCII_NL then d.leaveRow t else (d.leaveRow t).putCell t c

/-- The return to the start of the row that follows a scroll. -/
def Display.lineStart (t : Fin 3) (d : Display) : Display := d.moveTo t 0 (d.cursor t).screenY

/-- Returning to the start of the row changes the column only. -/
theorem Display.agree_lineStart_iff {e : Display} (hcursor : d.cursor t = e.cursor t) :
    Display.Agree t ((d.lineStart t).updateCursor t) ((e.lineStart t).updateCursor t) ↔
      (∀ y x, OnScreen y x → d.charAt t y x = e.charAt t y x) ∧
        ∀ y x, OnScreen y x → d.attribAt t y x = e.attribAt t y x := by
  have hmoved : ((d.lineStart t).updateCursor t).cursor t = ((e.lineStart t).updateCursor t).cursor t := by
    rw [Display.updateCursor_cursor, Display.updateCursor_cursor, Display.lineStart, Display.lineStart, Display.moveTo,
      Display.moveTo, Display.setCursor_self, Display.setCursor_self, hcursor]
  rw [Display.agree_iff]
  exact ⟨fun h => h.2, fun h => ⟨hmoved, h⟩⟩

/-- A byte that scrolls: what comes before and after the routine does not depend on the routine. -/
theorem putcOn_of_scrolls (hrange : (d.cursor t).InRange) (h : Scrolls c (d.cursor t)) (scroll : Display → Display) :
    putcOn scroll t c d = .ok (some ((scroll (beforeScroll t c d)).lineStart t)) := by
  obtain ⟨hlast, hkind⟩ := h
  have hnul : c ≠ 0 := by
    rcases hkind with rfl | rfl | hcolumn
    · decide
    · decide
    · exact hcolumn.1.1
  unfold putcOn
  rw [if_neg hnul]
  by_cases hend : c = ASCII_NL ∨ c = ASCII_CR
  · rw [if_pos hend, putLineEnd]
    dsimp only
    rw [hrange.storePrevX]
    rcases hend with rfl | rfl
    · rw [if_pos rfl, Except.map, Except.map, if_pos hlast]
      rfl
    · rw [if_neg (by decide), Except.map, Except.map, if_pos hlast]
      rfl
  · have hcolumn : (c ≠ 0 ∧ c ≠ ASCII_BS) ∧ (d.cursor t).screenX = NUM_COLS - 1 := by
      rcases hkind with hnl | hcr | hcolumn
      · exact absurd (Or.inl hnl) hend
      · exact absurd (Or.inr hcr) hend
      · exact hcolumn
    have hbefore : beforeScroll t c d = (d.leaveRow t).putCell t c := by
      rw [beforeScroll, if_neg fun hcr => hend (Or.inr hcr), if_neg fun hnl => hend (Or.inl hnl)]
    rw [if_neg hend, if_neg hcolumn.1.2, if_pos hcolumn.2, putLastColumn, hrange.storePrevX, Except.map, Except.map,
      hbefore]
    dsimp only
    rw [if_neg (by omega)]
    rfl

/-- A byte that does not scroll. -/
theorem putcOn_of_not_scrolls (hrange : (d.cursor t).InRange) (h : ¬Scrolls c (d.cursor t))
    (scroll scroll' : Display → Display) : putcOn scroll t c d = putcOn scroll' t c d := by
  have hlow := hrange.y
  unfold putcOn
  split_ifs with hnul hend hbs htop hcolumn
  · rfl
  · have hlast : (d.cursor t).screenY ≠ NUM_ROWS - 1 := fun hlast =>
      h ⟨hlast, hend.elim Or.inl fun hcr => Or.inr (Or.inl hcr)⟩
    simp only [putLineEnd, if_neg hlast]
  · rfl
  · rfl
  · have hlast : (d.cursor t).screenY ≠ NUM_ROWS - 1 := fun hlast =>
      h ⟨hlast, Or.inr (Or.inr ⟨⟨hnul, hbs⟩, hcolumn⟩)⟩
    have habove : (d.cursor t).screenY < NUM_ROWS - 1 := by omega
    simp only [putLastColumn, if_pos habove]
  · rfl

/-- Only a character changes an attribute before the scroll, that of its own cell. -/
theorem beforeScroll_attribAt (hrange : (d.cursor t).InRange) {y x : ℤ} (hcell : OnScreen y x) :
    (beforeScroll t c d).attribAt t y x =
      if c = ASCII_NL ∨ c = ASCII_CR ∨ ¬(y = (d.cursor t).screenY ∧ x = (d.cursor t).screenX)
      then d.attribAt t y x else attrib t := by
  unfold beforeScroll
  by_cases hcr : c = ASCII_CR
  · rw [if_pos hcr, if_pos (Or.inr (Or.inl hcr))]
  · rw [if_neg hcr]
    by_cases hnl : c = ASCII_NL
    · rw [if_pos hnl, if_pos (Or.inl hnl)]
      rfl
    · rw [if_neg hnl, Display.putCell, Display.leaveRow_cursor]
      dsimp only
      rw [attribAt_poke _ t _ hrange.x hcell.2, attribAt_poke_char]
      change (if _ then attrib t else d.attribAt t y x) = _
      grind

/-- After a scroll the attributes agree exactly when they were uniform. -/
theorem scrolls_agree_iff (d : Display) :
    Display.Agree t (((verticalScroll t d).lineStart t).updateCursor t)
      (((verticalScrollKeyboard t d).lineStart t).updateCursor t) ↔ d.Coloured t := by
  have hscroll := verticalScroll_scrolls t d
  have hkeyboard := verticalScrollKeyboard_scrolls t d
  have hrows : NUM_ROWS = 25 := rfl
  -- `vertical_scroll` paints the rows above the last one, `vertical_scroll_keyboard` the last one.
  have habove (y x : ℤ) (hcell : OnScreen y x) (hy : y < NUM_ROWS - 1) :
      (verticalScroll t d).attribAt t y x = attrib t ∧
        (verticalScrollKeyboard t d).attribAt t y x = d.attribAt t y x := by
    have hlow := hcell.1.1
    refine ⟨hscroll.painted y x hcell ⟨(y + 1).toNat, by omega, by omega, by omega⟩, ?_⟩
    exact hkeyboard.unpainted y x hcell fun i _ _ hi => by omega
  have hlast (y x : ℤ) (hcell : OnScreen y x) (hy : ¬y < NUM_ROWS - 1) :
      (verticalScroll t d).attribAt t y x = d.attribAt t y x ∧
        (verticalScrollKeyboard t d).attribAt t y x = attrib t := by
    have hhigh := hcell.1.2
    refine ⟨hscroll.unpainted y x hcell fun i _ _ hi => by omega, ?_⟩
    exact hkeyboard.painted y x hcell ⟨24, by omega, le_rfl, by omega, by omega⟩
  rw [Display.agree_lineStart_iff (hscroll.cursor_eq hkeyboard)]
  constructor
  · intro h y x hcell
    have hattrib := h.2 y x hcell
    by_cases hy : y < NUM_ROWS - 1
    · rw [(habove y x hcell hy).1, (habove y x hcell hy).2] at hattrib
      exact hattrib.symm
    · rw [(hlast y x hcell hy).1, (hlast y x hcell hy).2] at hattrib
      exact hattrib
  · intro hcoloured
    refine ⟨fun y x hcell => ?_, fun y x hcell => ?_⟩
    · rw [hscroll.char y x hcell, hkeyboard.char y x hcell]
    · by_cases hy : y < NUM_ROWS - 1
      · rw [(habove y x hcell hy).1, (habove y x hcell hy).2, hcoloured y x hcell]
      · rw [(hlast y x hcell hy).1, (hlast y x hcell hy).2, hcoloured y x hcell]

/-- A byte that scrolls, on a display with its cursor on the screen. -/
theorem writersAgree_of_scrolls (hrange : (d.cursor t).InRange) (h : Scrolls c (d.cursor t)) :
    WritersAgree t c d ↔ (beforeScroll t c d).Coloured t := by
  have hputc : putc t t c d = .ok (((verticalScroll t (beforeScroll t c d)).lineStart t).updateCursor t) := by
    rw [putc, putcOn_of_scrolls hrange h, Except.map]
    dsimp only
    rw [if_pos rfl]
  have hkeyboard : putcKeyboard t c d =
      .ok (((verticalScrollKeyboard t (beforeScroll t c d)).lineStart t).updateCursor t) := by
    rw [putcKeyboard, putcOn_of_scrolls hrange h, Except.map]
  rw [← scrolls_agree_iff, WritersAgree, hputc, hkeyboard]
  constructor
  · intro ⟨d₁, d₂, h₁, h₂, hagree⟩
    cases h₁
    cases h₂
    exact hagree
  · intro hagree
    exact ⟨_, _, rfl, rfl, hagree⟩

/-- A byte that does not scroll. -/
theorem writersAgree_of_not_scrolls (hrange : d.InRange) (h : ¬Scrolls c (d.cursor t)) : WritersAgree t c d := by
  obtain ⟨d', hd', -⟩ := hrange.putcKeyboard t c
  have hsame : putc t t c d = putcKeyboard t c d := by
    rw [putc, putcKeyboard, putcOn_of_not_scrolls (hrange t) h (verticalScroll t) (verticalScrollKeyboard t)]
    congr 1
    funext r
    cases r with
    | none => rfl
    | some e => exact if_pos rfl
  exact ⟨d', d', hsame.trans hd', hd', Display.Agree.refl t d'⟩

/-- One byte on a display with its cursors on the screen. -/
theorem Display.InRange.writersAgree_byte (hrange : d.InRange) (t : Fin 3) (c : UInt8) :
    WritersAgree t c d ↔ ColouredForScroll t c d := by
  by_cases h : Scrolls c (d.cursor t)
  · rw [writersAgree_of_scrolls (hrange t) h]
    constructor
    · intro hcoloured _ y x hcell hkept
      have hattrib := hcoloured y x hcell
      rw [beforeScroll_attribAt (hrange t) hcell, if_pos hkept] at hattrib
      exact hattrib
    · intro hcoloured y x hcell
      rw [beforeScroll_attribAt (hrange t) hcell]
      split_ifs with hkept
      · exact hcoloured h y x hcell hkept
      · rfl
  · exact ⟨fun _ hscrolls => absurd hscrolls h, fun _ => writersAgree_of_not_scrolls hrange h⟩

end Scroll

section Colours

variable {t : Fin 3} {d : Display}

/-- An attribute byte that is painted in the terminal's colour. -/
theorem Display.Coloured.poke_attrib (h : d.Coloured t) (i j : ℤ) :
    (d.poke (cellAddr t i j + 1) (attrib t)).Coloured t := by
  intro y x hcell
  change Function.update d.vmem (cellAddr t i j + 1) (attrib t) (cellAddr t y x + 1) = attrib t
  rw [Function.update_apply]
  split_ifs
  · rfl
  · exact h y x hcell

/-- A character of the terminal. -/
theorem Display.Coloured.putCell (h : d.Coloured t) (c : UInt8) : (d.putCell t c).Coloured t := by
  apply Display.Coloured.poke_attrib
  intro y x hcell
  rw [attribAt_poke_char]
  exact h y x hcell

/-- A scroll of the terminal. -/
theorem RowsScrolled.coloured {paints : ℤ → ℤ → Prop} {m : ℕ} {d' : Display} (hrows : RowsScrolled t paints m d d')
    (h : d.Coloured t) : d'.Coloured t := by
  intro y x hcell
  by_cases hpaints : ∃ i : ℕ, 1 ≤ i ∧ i ≤ m ∧ paints i y
  · exact hrows.painted y x hcell hpaints
  · rw [hrows.unpainted y x hcell fun i hlow hhigh hi => hpaints ⟨i, hlow, hhigh, hi⟩]
    exact h y x hcell

/-- A move of the cursor. -/
theorem Display.Coloured.moveTo (h : d.Coloured t) (x y : ℤ) : (d.moveTo t x y).Coloured t := h

/-- A move of the hardware cursor. -/
theorem Display.Coloured.updateCursor (h : d.Coloured t) (u : Fin 3) : (d.updateCursor u).Coloured t := h

/-- A remembered column. -/
theorem Display.Coloured.storePrevX (h : d.Coloured t) {e : Display} {index x : ℤ}
    (he : d.storePrevX t index x = .ok e) : e.Coloured t := by
  unfold Display.storePrevX at he
  split_ifs at he
  cases he
  exact h

/-- A line end. -/
theorem Display.Coloured.putLineEnd {scroll : Display → Display}
    (hscroll : ∀ d : Display, d.Coloured t → (scroll d).Coloured t) (h : d.Coloured t) {c : UInt8} {d' : Display}
    (hd' : putLineEnd scroll t c d = .ok d') : d'.Coloured t := by
  obtain ⟨e, he, rfl⟩ := ok_of_map hd'
  have hstored : e.Coloured t := by
    split_ifs at he
    · exact h.storePrevX he
    · cases he
      exact h
  apply Display.Coloured.moveTo
  split_ifs
  · exact hscroll e hstored
  · exact hstored.moveTo _ _

/-- A backspace. -/
theorem Display.Coloured.putBackspace (h : d.Coloured t) {d' : Display} (hd' : putBackspace t d = .ok d') :
    d'.Coloured t := by
  unfold OsKernel.putBackspace at hd'
  dsimp only at hd'
  split_ifs at hd'
  · obtain ⟨prev, -, rfl⟩ := ok_of_map hd'
    exact (h.moveTo _ _).putCell _
  · cases hd'
    exact (h.moveTo _ _).putCell _

/-- A character in the last column. -/
theorem Display.Coloured.putLastColumn {scroll : Display → Display}
    (hscroll : ∀ d : Display, d.Coloured t → (scroll d).Coloured t) (h : d.Coloured t) {c : UInt8} {d' : Display}
    (hd' : putLastColumn scroll t c d = .ok d') : d'.Coloured t := by
  obtain ⟨e, he, rfl⟩ := ok_of_map hd'
  have hwritten := (h.storePrevX he).putCell c
  apply Display.Coloured.moveTo
  split_ifs
  · exact hwritten.moveTo _ _
  · exact hscroll _ hwritten

/-- The common body of the writers. -/
theorem Display.Coloured.putcOn {scroll : Display → Display}
    (hscroll : ∀ d : Display, d.Coloured t → (scroll d).Coloured t) (h : d.Coloured t) {c : UInt8}
    {r : Option Display} (hr : putcOn scroll t c d = .ok r) : ∀ d' ∈ r, d'.Coloured t := by
  intro d' hd'
  unfold OsKernel.putcOn at hr
  split_ifs at hr
  · cases hr
    cases hd'
  · obtain ⟨m, hm, rfl⟩ := ok_of_map hr
    cases hd'
    exact h.putLineEnd hscroll hm
  · cases hr
    cases hd'
  · obtain ⟨m, hm, rfl⟩ := ok_of_map hr
    cases hd'
    exact h.putBackspace hm
  · obtain ⟨m, hm, rfl⟩ := ok_of_map hr
    cases hd'
    exact h.putLastColumn hscroll hm
  · cases hr
    cases hd'
    exact (h.putCell _).moveTo _ _

/-- `putc_keyboard` keeps the colour. -/
theorem Display.Coloured.putcKeyboard (h : d.Coloured t) {c : UInt8} {d' : Display}
    (hd' : putcKeyboard t c d = .ok d') : d'.Coloured t := by
  obtain ⟨r, hr, rfl⟩ := ok_of_map hd'
  have hwritten := h.putcOn (fun d hd => (verticalScrollKeyboard_scrolls t d).coloured hd) hr
  cases r with
  | none => exact h
  | some e => exact hwritten e rfl

/-- `putc` keeps the colour. -/
theorem Display.Coloured.putc (h : d.Coloured t) {u : Fin 3} {c : UInt8} {d' : Display}
    (hd' : putc u t c d = .ok d') : d'.Coloured t := by
  obtain ⟨r, hr, rfl⟩ := ok_of_map hd'
  have hwritten := h.putcOn (fun d hd => (verticalScroll_scrolls t d).coloured hd) hr
  cases r with
  | none => exact h
  | some e =>
    dsimp only
    split_ifs
    · exact hwritten e rfl
    · exact hwritten e rfl

/-- A character printed several times. -/
theorem Display.Coloured.putcTimes (h : d.Coloured t) {u : Fin 3} {c : UInt8} {n : ℕ} {d' : Display}
    (hd' : putcTimes u t c n d = .ok d') : d'.Coloured t := by
  induction n generalizing d with
  | zero =>
    cases hd'
    exact h
  | succ n ih =>
    obtain ⟨e, he, hrest⟩ := ok_of_bind hd'
    exact ih (h.putc he) hrest

/-- `terminal_write` keeps the colour. -/
theorem Display.Coloured.terminalWriteFrom (h : d.Coloured t) {u : Fin 3} {buf : ℕ → UInt8} {i byteRead left : ℕ}
    {r : ℕ × Display} (hr : terminalWriteFrom u t buf i byteRead left d = .ok r) : r.2.Coloured t := by
  induction left generalizing i byteRead d with
  | zero =>
    cases hr
    exact h
  | succ left ih =>
    rw [OsKernel.terminalWriteFrom] at hr
    split_ifs at hr
    · exact ih h hr
    · obtain ⟨e, he, hrest⟩ := ok_of_bind hr
      exact ih (h.putcTimes he) hrest
    · obtain ⟨e, he, hrest⟩ := ok_of_bind hr
      exact ih (h.putc he) hrest

/-- A Ctrl+L on the terminal only where `ATTRIB` is the terminal's own attribute. -/
def KeepsColour (t : Fin 3) (e : DisplayEvent) : Prop := e = .clearScreen t → attrib t = ATTRIB

/-- A call that keeps the colour. -/
theorem Display.Coloured.displayStep (h : d.Coloured t) (hrange : d.InRange) {e : DisplayEvent} {d' : Display}
    (hkeeps : KeepsColour t e) (hd' : displayStep d e = some d') : d'.Coloured t := by
  by_cases hother : e.terminal = t
  · subst hother
    cases e with
    | putc currTerm activeTerm c =>
      obtain ⟨d₁, hd₁, -⟩ := hrange.putc currTerm activeTerm c
      rw [OsKernel.displayStep, hd₁] at hd'
      cases hd'
      exact h.putc hd₁
    | putcKeyboard currTerm c =>
      obtain ⟨d₁, hd₁, -⟩ := hrange.putcKeyboard currTerm c
      rw [OsKernel.displayStep, hd₁] at hd'
      cases hd'
      exact h.putcKeyboard hd₁
    | terminalWrite currTerm activeTerm buf nbytes =>
      cases hr : OsKernel.terminalWrite currTerm activeTerm buf nbytes d with
      | error fault =>
        rw [OsKernel.displayStep, hr] at hd'
        cases hd'
      | ok r =>
        rw [OsKernel.displayStep, hr] at hd'
        cases hd'
        exact h.terminalWriteFrom hr
    | clearScreen currTerm =>
      have hblank : (clearKey currTerm d).Coloured currTerm := by
        intro y x hcell
        exact (attribAt_clearKey currTerm d hcell).trans (hkeeps rfl).symm
      cases hd'
      exact (hblank.moveTo 0 0).updateCursor currTerm
  · obtain ⟨d₁, hd₁, -, hkept⟩ := hrange.displayStep e
    cases hd₁.symm.trans hd'
    intro y x hcell
    rw [(Display.agree_iff.mp (hkept.agree (Ne.symm hother))).2.2 y x hcell]
    exact h y x hcell

/-- After start-up every page has its terminal's colour, and the cursors are on the screen. -/
theorem startDisplay_coloured (behind : Fin 3 → ℤ → ℤ) (vmem : ℤ → UInt8) (cursorPos : ℤ) (t : Fin 3) :
    (startDisplay behind vmem cursorPos).InRange ∧ (startDisplay behind vmem cursorPos).Coloured t := by
  refine ⟨?_, fun y x hcell => attribAt_colorInit t _ hcell⟩
  intro u
  rw [startDisplay, colorInit_cursor]
  exact initDisplay_inRange behind vmem cursorPos u

end Colours

/-- In every display reached from start-up by writers and Ctrl+L on any terminals, the two writers agree
on a byte unless it scrolls a page where a cell that it does not write has another attribute than
the terminal's own. In a run where Ctrl+L clears the terminal only if `ATTRIB` is its attribute, they
agree on every byte. -/
theorem writersAgree_iff (behind : Fin 3 → ℤ → ℤ) (vmem : ℤ → UInt8) (cursorPos : ℤ) (t : Fin 3)
    (events : List DisplayEvent) :
    ∃ d, run displayStep (startDisplay behind vmem cursorPos) events = some d ∧
      (∀ c, WritersAgree t c d ↔ ColouredForScroll t c d) ∧
      (Along displayStep (fun _ => KeepsColour t) (startDisplay behind vmem cursorPos) events →
        ∀ c, WritersAgree t c d) := by
  obtain ⟨hstart, hcoloured⟩ := startDisplay_coloured behind vmem cursorPos t
  obtain ⟨d, hrun, hrange⟩ := hstart.run events
  refine ⟨d, hrun, fun c => hrange.writersAgree_byte t c, fun hkeeps c => ?_⟩
  rw [hrange.writersAgree_byte t c]
  have hinv : d.InRange ∧ d.Coloured t := by
    apply run_invariant_of_along ?_ ⟨hstart, hcoloured⟩ hkeeps hrun
    intro d e d' hinv hkeeps hd'
    exact ⟨hinv.1.of_displayStep hd', hinv.2.displayStep hinv.1 hkeeps hd'⟩
  exact fun _ y x hcell _ => hinv.2 y x hcell

/-- A newline above the last row goes down and writes no cell. -/
theorem newline_goes_down {d : Display} (h : d.InRange) {t : Fin 3} (hy : (d.cursor t).screenY < NUM_ROWS - 1) :
    ∃ d', displayStep d (.putcKeyboard t ASCII_NL) = some d' ∧ d'.InRange ∧
      (d'.cursor t).screenY = (d.cursor t).screenY + 1 ∧ d'.vmem = d.vmem := by
  have hstep : ∃ d', displayStep d (.putcKeyboard t ASCII_NL) = some d' ∧
      (d'.cursor t).screenY = (d.cursor t).screenY + 1 ∧ d'.vmem = d.vmem := by
    rw [displayStep, putcKeyboard, putcOn, if_neg (by decide), if_pos (Or.inl rfl), putLineEnd]
    dsimp only
    rw [if_pos rfl, (h t).storePrevX, Except.map, if_neg (by omega)]
    refine ⟨_, rfl, ?_, rfl⟩
    rw [Display.updateCursor_cursor, Display.moveTo, Display.setCursor_self, Display.moveTo, Display.setCursor_self]
  obtain ⟨d', hd', hdown, hcells⟩ := hstep
  exact ⟨d', hd', h.of_displayStep hd', hdown, hcells⟩

/-- Newlines down to the last row. -/
theorem newlines_go_down {d : Display} (h : d.InRange) {t : Fin 3} {n : ℕ}
    (hn : (d.cursor t).screenY + n ≤ NUM_ROWS - 1) :
    ∃ d', run displayStep d (List.replicate n (.putcKeyboard t ASCII_NL)) = some d' ∧ d'.InRange ∧
      (d'.cursor t).screenY = (d.cursor t).screenY + n ∧ d'.vmem = d.vmem := by
  induction n generalizing d with
  | zero => exact ⟨d, rfl, h, by simp, rfl⟩
  | succ n ih =>
    obtain ⟨m, hm, hrange, hdown, hcells⟩ := newline_goes_down h (t := t) (by omega)
    obtain ⟨d', hrun, hrange', hrow, hkept⟩ := ih hrange (by omega)
    refine ⟨d', ?_, hrange', by omega, hkept.trans hcells⟩
    rw [List.replicate_succ]
    exact run_cons.mpr ⟨m, hm, hrun⟩

/-- Ctrl+L on terminal 0 and 24 newlines: another newline scrolls a page that has the attribute `ATTRIB`. -/
theorem writersAgree_afterClear :
    ∃ d, run displayStep (startDisplay (fun _ _ => 0) (fun _ => 0) 0)
        (.clearScreen 0 :: List.replicate 24 (.putcKeyboard 0 ASCII_NL)) = some d ∧ ¬WritersAgree 0 ASCII_NL d := by
  generalize hd₀ : startDisplay (fun _ _ => 0) (fun _ => 0) 0 = d₀
  have hstart : d₀.InRange := hd₀ ▸ (startDisplay_coloured (fun _ _ => 0) (fun _ => 0) 0 0).1
  have hclear := hstart.clearScreen 0
  have htop : ((clearScreen 0 d₀).cursor 0).screenY = 0 := by
    rw [clearScreen, Display.updateCursor_cursor, resetPos, Display.moveTo, Display.setCursor_self]
  obtain ⟨d, hrun, hrange, hrow, hcells⟩ := newlines_go_down hclear (t := 0) (n := 24) (by rw [htop]; decide)
  refine ⟨d, run_cons.mpr ⟨_, rfl, hrun⟩, ?_⟩
  rw [hrange.writersAgree_byte]
  intro hcoloured
  have hscrolls : Scrolls ASCII_NL (d.cursor 0) := by
    refine ⟨?_, Or.inl rfl⟩
    rw [hrow, htop]
    rfl
  have hcell : OnScreen 0 0 := ⟨⟨le_rfl, by decide⟩, le_rfl, by decide⟩
  have hattrib : d.attribAt 0 0 0 = attrib 0 := hcoloured hscrolls 0 0 hcell (Or.inl rfl)
  have hblank : (clearKey 0 d₀).attribAt 0 0 0 = ATTRIB := attribAt_clearKey 0 d₀ hcell
  have hkept : (clearScreen 0 d₀).vmem = (clearKey 0 d₀).vmem := by
    rw [clearScreen]
    generalize clearKey 0 d₀ = blanked
    rfl
  rw [Display.attribAt, hcells, hkept] at hattrib
  have hne : attrib 0 ≠ ATTRIB := by decide
  exact hne (hattrib.symm.trans hblank)

end OsKernel
