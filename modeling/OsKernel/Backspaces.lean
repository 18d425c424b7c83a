import OsKernel.Library.TextScreen
import OsKernel.WriterAgreement

/-!
# Backspaces undo output

`putc_keyboard` is a scrolling screen that can be untyped: a display shows such a screen, each byte
is one stroke on it and `\b` is one backspace. So as many backspaces as bytes bring back the cursor
and what stood before it, whatever mixture of full rows, newlines and scrolls the output was.
-/

namespace OsKernel

open Library

/-- The bytes given to `putc_keyboard` one after the other. -/
def putcKeyboardAll (t : Fin 3) : List UInt8 → Display → Except Fault Display
  | [], d => .ok d
  | c :: rest, d => (putcKeyboard t c d).bind (putcKeyboardAll t rest)

/-- How often the bytes scroll the screen. -/
def scrollCount (t : Fin 3) : List UInt8 → Display → ℕ
  | [], _ => 0
  | c :: rest, d =>
    (if Scrolls c (d.cursor t) then 1 else 0) +
      match putcKeyboard t c d with
      | .ok d' => scrollCount t rest d'
      | .error _ => 0

/-- A byte as a stroke; 127 is a space everywhere but in the last column. -/
def strokeOf (c : UInt8) : Stroke UInt8 :=
  if c = ASCII_NL then .lineEnd else .letter fun x => if c = 127 ∧ x ≠ 79 then ASCII_SPACE else c

/-- A display shows a screen on a terminal. -/
structure Depicts (t : Fin 3) (d : Display) (s : TextScreen UInt8) : Prop where
  x : (d.cursor t).screenX = s.x
  y : (d.cursor t).screenY = s.y
  left : ∀ r : ℕ, r < 25 → (d.cursor t).prevX r = s.left r
  cell : ∀ r q : ℕ, r < 25 → q < 80 → d.charAt t r q = s.cell r q

/-- What a display shows on a terminal. -/
def Display.screen (t : Fin 3) (d : Display) : TextScreen UInt8 where
  cell r q := d.charAt t r q
  x := (d.cursor t).screenX.toNat
  y := (d.cursor t).screenY.toNat
  left r := ((d.cursor t).prevX r).toNat

section Depicts

variable {t : Fin 3} {d : Display} {s : TextScreen UInt8}

/-- The number of rows and columns. -/
theorem screen_size : NUM_ROWS = 25 ∧ NUM_COLS = 80 := ⟨rfl, rfl⟩

/-- A display whose cursor is on the screen shows a screen whose cursor is there. -/
theorem Cursor.InRange.depicts (h : (d.cursor t).InRange) : Depicts t d (d.screen t) ∧ (d.screen t).InRange 25 80 := by
  obtain ⟨hx, hy, hprev⟩ := h
  obtain ⟨hrows, hcols⟩ := screen_size
  refine ⟨⟨?_, ?_, fun r hr => ?_, fun _ _ _ _ => rfl⟩, ⟨?_, ?_, fun r hr => ?_⟩⟩
  · exact (Int.toNat_of_nonneg hx.1).symm
  · exact (Int.toNat_of_nonneg hy.1).symm
  · exact (Int.toNat_of_nonneg (hprev r (Int.natCast_nonneg r) (by omega)).1).symm
  · simp only [Display.screen]
    omega
  · simp only [Display.screen]
    omega
  · have hcolumn := hprev r (Int.natCast_nonneg r) (by omega)
    simp only [Display.screen]
    omega

/-- A display that shows a screen with its cursor on it has its cursor there. -/
theorem Depicts.inRange (h : Depicts t d s) (hs : s.InRange 25 80) : (d.cursor t).InRange := by
  obtain ⟨hrows, hcols⟩ := screen_size
  have hx := hs.x
  have hy := hs.y
  refine ⟨?_, ?_, fun i hlow hhigh => ?_⟩
  · rw [h.x]
    omega
  · rw [h.y]
    omega
  · obtain ⟨r, rfl⟩ := Int.eq_ofNat_of_zero_le hlow
    have hcolumn := hs.left r (by omega)
    rw [h.left r (by omega)]
    omega

/-- A move of the cursor. -/
theorem Depicts.moveTo (h : Depicts t d s) {x y : ℤ} {x' y' : ℕ} (hx : x = x') (hy : y = y') :
    Depicts t (d.moveTo t x y) (s.moveTo x' y') := by
  subst hx hy
  have hcursor : (d.moveTo t x' y').cursor t = { d.cursor t with screenX := x', screenY := y' } :=
    Display.setCursor_self ..
  refine ⟨by rw [hcursor]; rfl, by rw [hcursor]; rfl, fun r hr => ?_, h.cell⟩
  rw [hcursor]
  exact h.left r hr

/-- A move of the hardware cursor. -/
theorem Depicts.updateCursor (h : Depicts t d s) (u : Fin 3) : Depicts t (d.updateCursor u) s :=
  ⟨h.x, h.y, h.left, h.cell⟩

/-- The column remembered for the row. -/
theorem Depicts.leaveRow (h : Depicts t d s) : Depicts t (d.leaveRow t) s.leaveRow := by
  have hcursor := Display.leaveRow_cursor t d
  refine ⟨by rw [hcursor]; exact h.x, by rw [hcursor]; exact h.y, fun r hr => ?_, h.cell⟩
  rw [hcursor]
  dsimp only
  rw [h.x, h.y]
  by_cases hrow : r = s.y
  · rw [hrow, Function.update_self, TextScreen.leaveRow_left_self]
  · rw [Function.update_of_ne (by exact_mod_cast hrow), TextScreen.leaveRow_left_of_ne hrow, h.left r hr]

/-- A character written under the cursor. -/
theorem Depicts.putCell (h : Depicts t d s) (hs : s.InRange 25 80) (c : UInt8) :
    Depicts t (d.putCell t c) (s.write c) := by
  refine ⟨h.x, h.y, h.left, fun r q hr hq => ?_⟩
  have hcolumn : 0 ≤ (q : ℤ) ∧ (q : ℤ) < NUM_COLS := ⟨Int.natCast_nonneg q, by rw [screen_size.2]; omega⟩
  rw [Display.putCell, charAt_poke_attrib, charAt_poke d t c (h.inRange hs).x hcolumn, h.x, h.y, h.cell r q hr hq]
  change _ = if r = s.y ∧ q = s.x then c else s.cell r q
  simp only [Int.natCast_inj]

/-- A scroll. -/
theorem Depicts.scroll (h : Depicts t d s) : Depicts t (verticalScrollKeyboard t d) (s.scroll 25 ASCII_SPACE) := by
  have hscroll := verticalScrollKeyboard_scrolls t d
  obtain ⟨hrows, hcols⟩ := screen_size
  refine ⟨hscroll.screenX.trans h.x, hscroll.screenY.trans h.y, fun r hr => ?_, fun r q hr hq => ?_⟩
  · rw [hscroll.prevX, if_pos (by omega)]
    change _ = ((if r + 1 < 25 then s.left (r + 1) else 0 : ℕ) : ℤ)
    by_cases hlast : r + 1 < 25
    · rw [if_pos (by omega), if_pos hlast, ← h.left (r + 1) hlast]
      rfl
    · rw [if_neg (by omega), if_neg hlast]
      rfl
  · rw [hscroll.char r q ⟨by omega, by omega⟩]
    change _ = if r + 1 < 25 then s.cell (r + 1) q else ASCII_SPACE
    by_cases hlast : r + 1 < 25
    · rw [if_pos (by omega), if_pos hlast, ← h.cell (r + 1) q hlast hq]
      rfl
    · rw [if_neg (by omega), if_neg hlast, if_pos (by omega)]

/-- The start of the row. -/
theorem Depicts.lineStart (h : Depicts t d s) : Depicts t (d.lineStart t) (s.moveTo 0 s.y) := h.moveTo rfl h.y

/-- The next row, after a scroll on the last row. -/
theorem Depicts.nextRow (h : Depicts t d s) {e : Display} (hlast : ¬s.y + 1 < 25 → e = verticalScrollKeyboard t d)
    (hdown : s.y + 1 < 25 → e = d.moveTo t (d.cursor t).screenX ((d.cursor t).screenY + 1)) :
    Depicts t (e.lineStart t) (s.nextRow 25 ASCII_SPACE) := by
  unfold TextScreen.nextRow
  split_ifs with hnext
  · rw [hdown hnext]
    have hy : (d.cursor t).screenY + 1 = (s.y + 1 : ℕ) := by
      rw [h.y]
      rfl
    exact (h.moveTo h.x hy).lineStart
  · rw [hlast hnext]
    exact h.scroll.lineStart

/-- A newline. -/
theorem Depicts.putLineEnd (h : Depicts t d s) (hs : s.InRange 25 80) :
    ∃ e, putLineEnd (verticalScrollKeyboard t) t ASCII_NL d = .ok e ∧
      Depicts t e (s.leaveRow.nextRow 25 ASCII_SPACE) := by
  obtain ⟨hrows, -⟩ := screen_size
  have hy := h.y
  rw [OsKernel.putLineEnd, if_pos rfl, (h.inRange hs).storePrevX, Except.map]
  refine ⟨_, rfl, h.leaveRow.nextRow (fun hlast => if_pos ?_) fun hnext => (if_neg ?_).trans ?_⟩
  · have hbound := hs.y
    change ¬s.y + 1 < 25 at hlast
    omega
  · change s.y + 1 < 25 at hnext
    omega
  · rw [Display.leaveRow_cursor]

/-- A letter in the last column. -/
theorem Depicts.putLastColumn (h : Depicts t d s) (hs : s.InRange 25 80) (c : UInt8) :
    ∃ e, putLastColumn (verticalScrollKeyboard t) t c d = .ok e ∧
      Depicts t e ((s.write c).leaveRow.nextRow 25 ASCII_SPACE) := by
  obtain ⟨hrows, -⟩ := screen_size
  have hy := h.y
  have hwritten : Depicts t ((d.leaveRow t).putCell t c) (s.write c).leaveRow := h.leaveRow.putCell hs.leaveRow c
  rw [OsKernel.putLastColumn, (h.inRange hs).storePrevX, Except.map]
  refine ⟨_, rfl, hwritten.nextRow (fun hlast => if_neg ?_) fun hnext => (if_pos ?_).trans ?_⟩
  · change ¬s.y + 1 < 25 at hlast
    omega
  · change s.y + 1 < 25 at hnext
    omega
  · rw [Display.putCell_cursor, Display.leaveRow_cursor]

/-- A letter before the last column. -/
theorem Depicts.putMiddle (h : Depicts t d s) (hs : s.InRange 25 80) (hstays : s.x + 1 < 80) (c : UInt8) :
    Depicts t (putMiddle t c d) ((s.write (if c = 127 then ASCII_SPACE else c)).moveTo (s.x + 1) s.y) := by
  obtain ⟨-, hcols⟩ := screen_size
  have hx := h.x
  have hright : 0 ≤ (d.cursor t).screenX + 1 ∧ (d.cursor t).screenX + 1 < NUM_COLS := by omega
  obtain ⟨hcolumn, hrow⟩ := sameRow hright (h.inRange hs).y
  rw [OsKernel.putMiddle, hrow, hcolumn]
  apply (h.putCell hs _).moveTo ?_ h.y
  rw [hx]
  rfl

/-- `putc_keyboard` moves the hardware cursor after the common body. -/
theorem putcKeyboard_of_some {d' : Display} {c : UInt8}
    (hd' : putcOn (verticalScrollKeyboard t) t c d = .ok (some d')) :
    putcKeyboard t c d = .ok (d'.updateCursor t) := by
  rw [putcKeyboard, hd', Except.map]

/-- A byte that is not a NUL, a carriage return or a backspace is one stroke. -/
theorem Depicts.putcKeyboard (h : Depicts t d s) (hs : s.InRange 25 80) {c : UInt8}
    (hc : c ≠ 0 ∧ c ≠ ASCII_CR ∧ c ≠ ASCII_BS) :
    ∃ d', putcKeyboard t c d = .ok d' ∧ Depicts t d' (s.type 25 80 ASCII_SPACE (strokeOf c)) := by
  obtain ⟨-, hcols⟩ := screen_size
  obtain ⟨hnul, hcr, hbs⟩ := hc
  have hx := h.x
  have hbound := hs.x
  suffices hbody : ∃ e, putcOn (verticalScrollKeyboard t) t c d = .ok (some e) ∧
      Depicts t e (s.type 25 80 ASCII_SPACE (strokeOf c)) by
    obtain ⟨e, he, hdepicts⟩ := hbody
    exact ⟨_, putcKeyboard_of_some he, hdepicts.updateCursor t⟩
  unfold putcOn strokeOf
  rw [if_neg hnul]
  by_cases hnl : c = ASCII_NL
  · subst hnl
    obtain ⟨e, he, hdepicts⟩ := h.putLineEnd hs
    rw [if_pos (Or.inl rfl), if_pos rfl, he]
    exact ⟨e, rfl, hdepicts⟩
  · have hend : ¬(c = ASCII_NL ∨ c = ASCII_CR) := not_or.mpr ⟨hnl, hcr⟩
    rw [if_neg hend, if_neg hbs, if_neg hnl]
    by_cases hlast : s.x = 79
    · obtain ⟨e, he, hdepicts⟩ := h.putLastColumn hs c
      have hleaves : ¬s.x + 1 < 80 := by omega
      rw [if_pos (by omega), he, TextScreen.type, if_neg hleaves, if_neg fun hdel => hdel.2 hlast]
      exact ⟨e, rfl, hdepicts⟩
    · have hstays : s.x + 1 < 80 := by omega
      have hlook : (if c = 127 ∧ s.x ≠ 79 then ASCII_SPACE else c) = if c = 127 then ASCII_SPACE else c := by
        simp only [ne_eq, hlast, not_false_eq_true, and_true]
      rw [if_neg (by omega), TextScreen.type_of_stays hstays, hlook]
      exact ⟨_, rfl, h.putMiddle hs hstays c⟩

/-- A byte scrolls where its stroke does. -/
theorem Depicts.scrolls (h : Depicts t d s) (hs : s.InRange 25 80) {c : UInt8}
    (hc : c ≠ 0 ∧ c ≠ ASCII_CR ∧ c ≠ ASCII_BS) :
    (if Scrolls c (d.cursor t) then 1 else 0) = s.scrolls 25 80 (strokeOf c) := by
  obtain ⟨hrows, hcols⟩ := screen_size
  obtain ⟨hnul, hcr, hbs⟩ := hc
  have hx := h.x
  have hy := h.y
  have hxbound := hs.x
  have hybound := hs.y
  have hiff : Scrolls c (d.cursor t) ↔ s.LeavesRow 80 (strokeOf c) ∧ ¬s.y + 1 < 25 := by
    unfold strokeOf Scrolls
    by_cases hnl : c = ASCII_NL
    · rw [if_pos hnl]
      simp only [hnl, true_or, and_true, TextScreen.LeavesRow, true_and]
      omega
    · rw [if_neg hnl]
      simp only [hnl, hcr, hnul, hbs, false_or, ne_eq, not_false_eq_true, and_self, true_and, TextScreen.LeavesRow]
      omega
  unfold TextScreen.scrolls
  exact if_congr hiff rfl rfl

/-- A backspace byte is one backspace. -/
theorem Depicts.backspace (h : Depicts t d s) (hs : s.InRange 25 80) :
    ∃ d', OsKernel.putcKeyboard t ASCII_BS d = .ok d' ∧ Depicts t d' (s.back ASCII_SPACE) := by
  obtain ⟨hrows, hcols⟩ := screen_size
  have hx := h.x
  have hy := h.y
  have hrange := h.inRange hs
  by_cases htop : s.x = 0 ∧ s.y = 0
  · refine ⟨d, ?_, ?_⟩
    · have hleft : (d.cursor t).screenX = 0 ∧ (d.cursor t).screenY = 0 := by omega
      rw [OsKernel.putcKeyboard, putcOn, if_neg (by decide), if_neg (by decide), if_pos rfl, if_pos hleft]
      rfl
    · rw [TextScreen.back, if_pos htop]
      exact h
  · suffices hbody : ∃ e, putBackspace t d = .ok e ∧ Depicts t e (s.back ASCII_SPACE) by
      obtain ⟨e, he, hdepicts⟩ := hbody
      have hnot : ¬((d.cursor t).screenX = 0 ∧ (d.cursor t).screenY = 0) := by omega
      have hbody : putcOn (verticalScrollKeyboard t) t ASCII_BS d = .ok (some e) := by
        rw [putcOn, if_neg (by decide), if_neg (by decide), if_pos rfl, if_neg hnot, he]
        rfl
      exact ⟨_, putcKeyboard_of_some hbody, hdepicts.updateCursor t⟩
    unfold putBackspace
    by_cases hcolumn : s.x = 0
    · have hrow : s.y ≠ 0 := fun hrow => htop ⟨hcolumn, hrow⟩
      have habove : (d.cursor t).screenY - 1 = (s.y - 1 : ℕ) := by omega
      have habove' : s.y - 1 < 25 := (Nat.sub_le s.y 1).trans_lt hs.y
      have hload : d.loadPrevX t ((d.cursor t).screenY - 1) = .ok ((d.cursor t).prevX ((d.cursor t).screenY - 1)) :=
        if_pos (by omega)
      have hprev : (d.cursor t).prevX ((d.cursor t).screenY - 1) = s.left (s.y - 1) := by
        rw [habove, h.left (s.y - 1) habove']
      dsimp only
      rw [if_pos (by omega), hload, TextScreen.back_of_row hcolumn hrow]
      have hmoved : (s.moveTo (s.left (s.y - 1)) (s.y - 1)).InRange 25 80 := ⟨hs.left _ habove', habove', hs.left⟩
      exact ⟨_, rfl, (h.moveTo hprev habove).putCell hmoved ASCII_SPACE⟩
    · have hxbound := hs.x
      have hleft : 0 ≤ (d.cursor t).screenX - 1 ∧ (d.cursor t).screenX - 1 < NUM_COLS := by omega
      obtain ⟨hsame, hrow⟩ := sameRow hleft hrange.y
      rw [hsame] at hrow
      have hcol : ¬(d.cursor t).screenX = 0 := by omega
      simp only [if_neg hcol, hsame, hrow]
      rw [TextScreen.back_of_column hcolumn]
      have hmoved : (s.moveTo (s.x - 1) s.y).InRange 25 80 := ⟨by simp only [TextScreen.moveTo_x]; omega, hs.y, hs.left⟩
      exact ⟨_, rfl, (h.moveTo (by omega) hy).putCell hmoved ASCII_SPACE⟩

/-- Bytes are strokes. -/
theorem Depicts.putcKeyboardAll (h : Depicts t d s) (hs : s.InRange 25 80) {bytes : List UInt8}
    (hbytes : ∀ c ∈ bytes, c ≠ 0 ∧ c ≠ ASCII_CR ∧ c ≠ ASCII_BS) :
    ∃ d', putcKeyboardAll t bytes d = .ok d' ∧
      Depicts t d' (TextScreen.typeAll 25 80 ASCII_SPACE (bytes.map strokeOf) s) ∧
      scrollCount t bytes d = TextScreen.scrollCount 25 80 ASCII_SPACE (bytes.map strokeOf) s := by
  induction bytes generalizing d s with
  | nil => exact ⟨d, rfl, h, rfl⟩
  | cons c rest ih =>
    have hc := hbytes c List.mem_cons_self
    obtain ⟨m, hm, hdepicts⟩ := h.putcKeyboard hs hc
    obtain ⟨d', hd', hlast, hcount⟩ := ih hdepicts (hs.type _) fun b hb => hbytes b (List.mem_cons_of_mem c hb)
    refine ⟨d', ?_, hlast, ?_⟩
    · rw [OsKernel.putcKeyboardAll, hm]
      exact hd'
    · rw [scrollCount, hm, List.map_cons, TextScreen.scrollCount, h.scrolls hs hc]
      exact congrArg _ hcount

/-- Backspace bytes are backspaces. -/
theorem Depicts.backspaces (h : Depicts t d s) (hs : s.InRange 25 80) (n : ℕ) :
    ∃ d', OsKernel.putcKeyboardAll t (List.replicate n ASCII_BS) d = .ok d' ∧
      Depicts t d' ((TextScreen.back ASCII_SPACE)^[n] s) := by
  induction n generalizing d s with
  | zero => exact ⟨d, rfl, h⟩
  | succ n ih =>
    obtain ⟨m, hm, hdepicts⟩ := h.backspace hs
    obtain ⟨d', hd', hlast⟩ := ih hdepicts hs.back
    refine ⟨d', ?_, hlast⟩
    rw [List.replicate_succ, OsKernel.putcKeyboardAll, hm]
    exact hd'

/-- What stands before the cursor of a screen that was moved up. -/
theorem Depicts.movedUp {d' : Display} {s' : TextScreen UInt8} {k : ℕ} (h : Depicts t d s)
    (hmoved : TextScreen.MovedUp k s' s) (h' : Depicts t d' s') {y x : ℤ} (hcell : OnScreen y x)
    (hbefore : y < (d.cursor t).screenY ∨ y = (d.cursor t).screenY ∧ x < (d.cursor t).screenX) (hlow : (k : ℤ) ≤ y) :
    d'.charAt t (y - k) x = d.charAt t y x := by
  obtain ⟨hrows, hcols⟩ := screen_size
  obtain ⟨⟨hylow, hyhigh⟩, hxlow, hxhigh⟩ := hcell
  obtain ⟨r, rfl⟩ := Int.eq_ofNat_of_zero_le hylow
  obtain ⟨q, rfl⟩ := Int.eq_ofNat_of_zero_le hxlow
  have hrow := hmoved.y
  have hcolumn := hmoved.x
  rw [h.y, h.x] at hbefore
  have habove : (r : ℤ) - k = (r - k : ℕ) := by omega
  rw [habove, h'.cell _ _ (by omega) (by omega), h.cell r q (by omega) (by omega), hmoved.cell (r - k) q (by omega),
    Nat.sub_add_cancel (by omega)]

/-- Bytes in two parts. -/
theorem putcKeyboardAll_append (t : Fin 3) (first second : List UInt8) (d : Display) :
    OsKernel.putcKeyboardAll t (first ++ second) d =
      (OsKernel.putcKeyboardAll t first d).bind (OsKernel.putcKeyboardAll t second) := by
  induction first generalizing d with
  | nil => rfl
  | cons c rest ih =>
    rw [List.cons_append, OsKernel.putcKeyboardAll, OsKernel.putcKeyboardAll]
    cases OsKernel.putcKeyboard t c d with
    | error fault => rfl
    | ok m => exact ih m

/-- A cell that a byte was written into is on the screen and blank after as many backspaces as bytes. -/
theorem Depicts.writtenBlank {d₂ : Display} (h : Depicts t d s) (hs : s.InRange 25 80)
    {before after : List UInt8} {c : UInt8} (hbytes : ∀ b ∈ before ++ c :: after, b ≠ 0 ∧ b ≠ ASCII_CR ∧ b ≠ ASCII_BS)
    (hk : (scrollCount t (before ++ c :: after) d : ℤ) ≤ (d.cursor t).screenY)
    (h₂ : Depicts t d₂ ((TextScreen.back ASCII_SPACE)^[(before ++ c :: after).length]
      (TextScreen.typeAll 25 80 ASCII_SPACE ((before ++ c :: after).map strokeOf) s))) :
    ∃ m, OsKernel.putcKeyboardAll t before d = .ok m ∧
      OnScreen ((m.cursor t).screenY - scrollCount t (c :: after) m) (m.cursor t).screenX ∧
      d₂.charAt t ((m.cursor t).screenY - scrollCount t (c :: after) m) (m.cursor t).screenX = ASCII_SPACE := by
  obtain ⟨-, -, -, hcount⟩ := h.putcKeyboardAll hs hbytes
  obtain ⟨m, hm, hdepictsm, -⟩ := h.putcKeyboardAll hs fun b hb => hbytes b (List.mem_append_left _ hb)
  have hscreenm := hs.typeAll ASCII_SPACE (before.map strokeOf)
  obtain ⟨-, -, -, hcountm⟩ := hdepictsm.putcKeyboardAll hscreenm fun b hb => hbytes b (List.mem_append_right _ hb)
  rw [hcount, h.y, Int.ofNat_le] at hk
  rw [List.map_append, List.map_cons] at hk h₂
  have hblank := TextScreen.untypeAll_cell _ _ _ s hs hk
  have hle := TextScreen.scrollCount_later_le hk
  rw [List.length_append, List.length_cons, List.length_map, List.length_map] at hblank
  rw [List.length_append, List.length_cons] at h₂
  rw [← List.map_cons, ← hcountm] at hblank hle
  generalize TextScreen.typeAll 25 80 ASCII_SPACE (before.map strokeOf) s = start at *
  have hrow : (m.cursor t).screenY - scrollCount t (c :: after) m = (start.y - scrollCount t (c :: after) m : ℕ) := by
    rw [hdepictsm.y]
    omega
  obtain ⟨hrows, hcols⟩ := screen_size
  have hy := hscreenm.y
  have hx := hscreenm.x
  refine ⟨m, hm, ?_, ?_⟩
  · rw [hrow, hdepictsm.x]
    exact ⟨by omega, by omega⟩
  · rw [hrow, hdepictsm.x, h₂.cell _ _ (by omega) hx]
    exact hblank

end Depicts

/-- On any display with a terminal's cursor and remembered columns in range, let bytes other than NUL,
carriage return and backspace scroll the screen no more often than there are rows above the cursor. After
the bytes and as many backspaces the cursor is back at the start, moved up by the scrolls. Each cell
that a byte was written into, moved up by the scrolls from that byte on, is on the screen and blank, and each
cell before the start holds its old character, moved up likewise. -/
theorem backspaces_undo_output (t : Fin 3) (d : Display) (s : List UInt8) (hrange : (d.cursor t).InRange)
    (hs : ∀ c ∈ s, c ≠ 0 ∧ c ≠ ASCII_CR ∧ c ≠ ASCII_BS) (hk : (scrollCount t s d : ℤ) ≤ (d.cursor t).screenY) :
    ∃ d₁ d₂, putcKeyboardAll t s d = .ok d₁ ∧ putcKeyboardAll t (List.replicate s.length ASCII_BS) d₁ = .ok d₂ ∧
      (d₂.cursor t).screenX = (d.cursor t).screenX ∧
      (d₂.cursor t).screenY = (d.cursor t).screenY - scrollCount t s d ∧
      (∀ before c after, s = before ++ c :: after → c ≠ ASCII_NL →
        ∃ m, putcKeyboardAll t before d = .ok m ∧
          OnScreen ((m.cursor t).screenY - scrollCount t (c :: after) m) (m.cursor t).screenX ∧
          d₂.charAt t ((m.cursor t).screenY - scrollCount t (c :: after) m) (m.cursor t).screenX = ASCII_SPACE) ∧
      ∀ y x, OnScreen y x →
        y < (d.cursor t).screenY ∨ y = (d.cursor t).screenY ∧ x < (d.cursor t).screenX →
        (scrollCount t s d : ℤ) ≤ y → d₂.charAt t (y - scrollCount t s d) x = d.charAt t y x := by
  obtain ⟨hdepicts, hscreen⟩ := hrange.depicts
  generalize d.screen t = start at hdepicts hscreen
  obtain ⟨d₁, hd₁, hdepicts₁, hcount⟩ := hdepicts.putcKeyboardAll hscreen hs
  obtain ⟨d₂, hd₂, hdepicts₂⟩ := hdepicts₁.backspaces (hscreen.typeAll ASCII_SPACE _) s.length
  have hk' := hk
  rw [hcount, hdepicts.y, Int.ofNat_le] at hk'
  have hmoved := TextScreen.untypeAll (s.map strokeOf) start hscreen hk'
  rw [List.length_map] at hmoved
  refine ⟨d₁, d₂, hd₁, hd₂, ?_, ?_, fun before c after hsplit _ => ?_, fun y x hcell hbefore hlow => ?_⟩
  · rw [hdepicts₂.x, hmoved.x, hdepicts.x]
  · have hrow := hmoved.y
    rw [hdepicts₂.y, hcount, hdepicts.y]
    omega
  · subst hsplit
    exact hdepicts.writtenBlank hscreen hs hk hdepicts₂
  · rw [hcount] at hlow ⊢
    exact hdepicts.movedUp hmoved hdepicts₂ hcell hbefore hlow

/-- A letter and a newline on the last row, which scrolls, and two backspaces. -/
theorem backspaces_undo_output_lastRow :
    ∃ d₁ d₂,
      putcKeyboardAll 0 [0x42, ASCII_NL] ((initDisplay (fun _ _ => 0) (fun _ => 0x2A) 0).moveTo 0 5 24) = .ok d₁ ∧
      putcKeyboardAll 0 [ASCII_BS, ASCII_BS] d₁ = .ok d₂ ∧ (d₂.cursor 0).screenX = 5 ∧ (d₂.cursor 0).screenY = 23 ∧
      d₂.charAt 0 23 5 = ASCII_SPACE ∧ d₂.charAt 0 23 4 = 0x2A := by
  have hrange : ((initDisplay (fun _ _ => 0) (fun _ => 0x2A) 0).moveTo 0 5 24).InRange :=
    (initDisplay_inRange _ _ _).moveTo (by decide) (by decide)
  have hcount : scrollCount 0 [0x42, ASCII_NL] ((initDisplay (fun _ _ => 0) (fun _ => 0x2A) 0).moveTo 0 5 24) = 1 := by
    decide
  have hbytes : ∀ c ∈ [0x42, ASCII_NL], c ≠ 0 ∧ c ≠ ASCII_CR ∧ c ≠ ASCII_BS := by
    rw [List.forall_mem_cons, List.forall_mem_singleton]
    decide
  obtain ⟨d₁, d₂, h₁, h₂, hx, hy, hwritten, hbefore⟩ := backspaces_undo_output 0
    ((initDisplay (fun _ _ => 0) (fun _ => 0x2A) 0).moveTo 0 5 24) [0x42, ASCII_NL] (hrange 0) hbytes
    (by rw [hcount]; decide)
  refine ⟨d₁, d₂, h₁, h₂, hx, ?_, ?_, ?_⟩
  · rw [hy, hcount]
    rfl
  · obtain ⟨m, hm, -, hblank⟩ := hwritten [] 0x42 [ASCII_NL] rfl (by decide)
    cases hm
    rw [hcount] at hblank
    exact hblank
  · have hcell := hbefore 24 4 ⟨by decide, by decide⟩ (Or.inr ⟨rfl, by decide⟩) (by rw [hcount]; decide)
    rw [hcount] at hcell
    exact hcell

end OsKernel
