import OsKernel.VideoPage

/-!
# The screen cell by cell

A cell is a character byte and an attribute byte. `putc` and `putc_keyboard` scroll with separate
routines. Both move the characters and the remembered columns up by one row and blank the last row,
but `vertical_scroll` sets the attributes of the rows it moves into, and `vertical_scroll_keyboard` those
of the last row only; neither moves an attribute.
-/

namespace OsKernel

/-- A cell of the screen. -/
def OnScreen (y x : ℤ) : Prop := (0 ≤ y ∧ y < NUM_ROWS) ∧ 0 ≤ x ∧ x < NUM_COLS

/-- The character in a cell. -/
def Display.charAt (d : Display) (t : Fin 3) (y x : ℤ) : UInt8 := d.vmem (cellAddr t y x)

/-- The attribute of a cell. -/
def Display.attribAt (d : Display) (t : Fin 3) (y x : ℤ) : UInt8 := d.vmem (cellAddr t y x + 1)

/-- `color_init`: the attributes of each terminal's page. -/
def colorInit (d : Display) : Display :=
  ((List.range 2000).map Int.ofNat).foldl
    (fun d i =>
      let d := d.poke (vidmem 0 + i * 2 + 1) (attrib 0)
      let d := d.poke (vidmem 1 + i * 2 + 1) (attrib 1)
      d.poke (vidmem 2 + i * 2 + 1) (attrib 2)) d

section Cells

variable {t : Fin 3} {d e : Display} {i j y x : ℤ}

/-- Columns do not overlap. -/
theorem cellAddr_inj (hj : 0 ≤ j ∧ j < NUM_COLS) (hx : 0 ≤ x ∧ x < NUM_COLS) :
    cellAddr t y x = cellAddr t i j ↔ y = i ∧ x = j := by
  simp only [cellAddr, NUM_COLS] at *
  omega

/-- A character byte is no attribute byte. -/
theorem cellAddr_ne_attrib (t : Fin 3) (i j y x : ℤ) : cellAddr t y x ≠ cellAddr t i j + 1 := by
  simp only [cellAddr]
  omega

/-- A stored character. -/
theorem charAt_poke (d : Display) (t : Fin 3) (b : UInt8) (hj : 0 ≤ j ∧ j < NUM_COLS) (hx : 0 ≤ x ∧ x < NUM_COLS) :
    (d.poke (cellAddr t i j) b).charAt t y x = if y = i ∧ x = j then b else d.charAt t y x := by
  change Function.update d.vmem (cellAddr t i j) b (cellAddr t y x) = _
  rw [Function.update_apply]
  simp only [cellAddr_inj hj hx]
  rfl

/-- A stored attribute. -/
theorem attribAt_poke (d : Display) (t : Fin 3) (b : UInt8) (hj : 0 ≤ j ∧ j < NUM_COLS) (hx : 0 ≤ x ∧ x < NUM_COLS) :
    (d.poke (cellAddr t i j + 1) b).attribAt t y x = if y = i ∧ x = j then b else d.attribAt t y x := by
  change Function.update d.vmem (cellAddr t i j + 1) b (cellAddr t y x + 1) = _
  rw [Function.update_apply]
  simp only [Int.add_left_inj, cellAddr_inj hj hx]
  rfl

/-- A stored attribute is no character. -/
@[simp] theorem charAt_poke_attrib (d : Display) (t : Fin 3) (b : UInt8) (i j y x : ℤ) :
    (d.poke (cellAddr t i j + 1) b).charAt t y x = d.charAt t y x :=
  Function.update_of_ne (cellAddr_ne_attrib t i j y x) _ _

/-- A stored character is no attribute. -/
@[simp] theorem attribAt_poke_char (d : Display) (t : Fin 3) (b : UInt8) (i j y x : ℤ) :
    (d.poke (cellAddr t i j) b).attribAt t y x = d.attribAt t y x :=
  Function.update_of_ne (cellAddr_ne_attrib t y x i j).symm _ _

/-- The page consists of the cells. -/
theorem InPage.cell {addr : ℤ} (h : InPage t addr) :
    ∃ y x, OnScreen y x ∧ (addr = cellAddr t y x ∨ addr = cellAddr t y x + 1) := by
  refine ⟨(addr - vidmem t) / 160, (addr - vidmem t) % 160 / 2, ?_, ?_⟩
  · simp only [InPage, OnScreen, NUM_ROWS, NUM_COLS] at *
    omega
  · simp only [cellAddr, NUM_COLS]
    omega

/-- Displays agree on a terminal when its cursor and its cells agree. -/
theorem Display.agree_iff :
    Display.Agree t d e ↔ d.cursor t = e.cursor t ∧
      (∀ y x, OnScreen y x → d.charAt t y x = e.charAt t y x) ∧
      ∀ y x, OnScreen y x → d.attribAt t y x = e.attribAt t y x := by
  constructor
  · intro h
    refine ⟨h.cursor, fun y x hcell => ?_, fun y x hcell => ?_⟩
    · exact h.page _ (cellAddr_inPage t hcell.1 hcell.2).1
    · exact h.page _ (cellAddr_inPage t hcell.1 hcell.2).2
  · intro h
    refine ⟨h.1, fun addr haddr => ?_⟩
    obtain ⟨y, x, hcell, rfl | rfl⟩ := haddr.cell
    · exact h.2.1 y x hcell
    · exact h.2.2 y x hcell

end Cells

section Scrolling

variable {t : Fin 3} {paints : ℤ → ℤ → Prop} {cell : ℤ → ℤ → Display → Display}

/-- The effect of the body of a scroll routine on the cells; row `i` paints the rows `paints i`. -/
structure ScrollsCell (t : Fin 3) (paints : ℤ → ℤ → Prop) (cell : ℤ → ℤ → Display → Display) : Prop where
  cursor : ∀ i j d, (cell i j d).cursor = d.cursor
  char : ∀ i j d y x, 0 ≤ j ∧ j < NUM_COLS → 0 ≤ x ∧ x < NUM_COLS → (cell i j d).charAt t y x =
    if y = i - 1 ∧ x = j then d.charAt t i j
    else if (y = i ∧ x = j) ∧ i = NUM_ROWS - 1 then ASCII_SPACE else d.charAt t y x
  painted : ∀ i j d y x, 0 ≤ j ∧ j < NUM_COLS → 0 ≤ x ∧ x < NUM_COLS → x = j → paints i y →
    (cell i j d).attribAt t y x = attrib t
  unpainted : ∀ i j d y x, 0 ≤ j ∧ j < NUM_COLS → 0 ≤ x ∧ x < NUM_COLS → ¬(x = j ∧ paints i y) →
    (cell i j d).attribAt t y x = d.attribAt t y x

/-- What the first `n` columns of row `i` leave. -/
structure ColumnsScrolled (t : Fin 3) (paints : ℤ → ℤ → Prop) (i : ℤ) (n : ℕ) (d d' : Display) : Prop where
  cursor : d'.cursor = d.cursor
  char : ∀ y x, 0 ≤ x ∧ x < NUM_COLS → d'.charAt t y x =
    if x < n ∧ y = i - 1 then d.charAt t i x
    else if x < n ∧ y = i ∧ i = NUM_ROWS - 1 then ASCII_SPACE else d.charAt t y x
  painted : ∀ y x, 0 ≤ x ∧ x < NUM_COLS → x < n → paints i y → d'.attribAt t y x = attrib t
  unpainted : ∀ y x, 0 ≤ x ∧ x < NUM_COLS → ¬(x < n ∧ paints i y) → d'.attribAt t y x = d.attribAt t y x

/-- The inner scroll loop. -/
theorem ScrollsCell.columns (h : ScrollsCell t paints cell) (i : ℤ) (d : Display) {n : ℕ} (hn : n ≤ 80) :
    ColumnsScrolled t paints i n d (((List.range n).map Int.ofNat).foldl (fun d j => cell i j d) d) := by
  induction n with
  | zero =>
    refine ⟨rfl, fun y x hx => ?_, fun y x hx hlt => ?_, fun _ _ _ _ => rfl⟩
    · rw [if_neg (by omega), if_neg (by omega)]
      rfl
    · omega
  | succ n ih =>
    have hbefore := ih (Nat.le_of_succ_le hn)
    have hj : 0 ≤ (n : ℤ) ∧ (n : ℤ) < NUM_COLS := by
      simp only [NUM_COLS]
      omega
    rw [List.range_succ, List.map_append, List.foldl_append]
    generalize ((List.range n).map Int.ofNat).foldl (fun d j => cell i j d) d = m at hbefore ⊢
    change ColumnsScrolled t paints i (n + 1) d (cell i n m)
    refine ⟨(h.cursor ..).trans hbefore.cursor, fun y x hx => ?_, fun y x hx hlt hpaints => ?_, fun y x hx hfree => ?_⟩
    · rw [h.char i n m y x hj hx, hbefore.char i n hj, hbefore.char y x hx]
      grind
    · by_cases hcolumn : x = n
      · exact h.painted i n m y x hj hx hcolumn hpaints
      · rw [h.unpainted i n m y x hj hx fun hat => hcolumn hat.1]
        exact hbefore.painted y x hx (by omega) hpaints
    · have hcolumn : ¬(x = n ∧ paints i y) := fun hat => hfree ⟨by omega, hat.2⟩
      rw [h.unpainted i n m y x hj hx hcolumn]
      exact hbefore.unpainted y x hx fun hat => hfree ⟨by omega, hat.2⟩

/-- What the rows up to `m` of a scroll leave. -/
structure RowsScrolled (t : Fin 3) (paints : ℤ → ℤ → Prop) (m : ℕ) (d d' : Display) : Prop where
  screenX : (d'.cursor t).screenX = (d.cursor t).screenX
  screenY : (d'.cursor t).screenY = (d.cursor t).screenY
  prevX : ∀ i, (d'.cursor t).prevX i =
    if 0 ≤ i ∧ i ≤ m then if i < NUM_ROWS - 1 then (d.cursor t).prevX (i + 1) else 0 else (d.cursor t).prevX i
  char : ∀ y x, OnScreen y x → d'.charAt t y x =
    if y < m then d.charAt t (y + 1) x
    else if y = m ∧ y = NUM_ROWS - 1 then ASCII_SPACE else d.charAt t y x
  painted : ∀ y x, OnScreen y x → (∃ i : ℕ, 1 ≤ i ∧ i ≤ m ∧ paints i y) → d'.attribAt t y x = attrib t
  unpainted : ∀ y x, OnScreen y x → (∀ i : ℕ, 1 ≤ i → i ≤ m → ¬paints i y) → d'.attribAt t y x = d.attribAt t y x

/-- Scrolls of one display leave the same cursor, whatever they paint. -/
theorem RowsScrolled.cursor_eq {paints' : ℤ → ℤ → Prop} {m : ℕ} {d d' e' : Display} (h : RowsScrolled t paints m d d')
    (h' : RowsScrolled t paints' m d e') : d'.cursor t = e'.cursor t := by
  have hx := h.screenX.trans h'.screenX.symm
  have hy := h.screenY.trans h'.screenY.symm
  have hprev : (d'.cursor t).prevX = (e'.cursor t).prevX := funext fun i => (h.prevX i).trans (h'.prevX i).symm
  generalize d'.cursor t = c at hx hy hprev ⊢
  generalize e'.cursor t = c' at hx hy hprev ⊢
  cases c
  cases c'
  rw [Cursor.mk.injEq]
  exact ⟨hx, hy, hprev⟩

/-- One more turn of the outer scroll loop. -/
theorem RowsScrolled.scrollRow {m : ℕ} {d d' : Display} (hrows : RowsScrolled t paints m d d')
    (h : ScrollsCell t paints cell) (hm : m < 24) :
    RowsScrolled t paints (m + 1) d (scrollRow t cell d' ((m + 1 : ℕ) : ℤ)) := by
  have hsize : NUM_ROWS = 25 := rfl
  have hcolumns := h.columns (m + 1 : ℕ) (d'.setCursor t { d'.cursor t with
    prevX := Function.update (d'.cursor t).prevX (m + 1 : ℕ)
      (if ((m + 1 : ℕ) : ℤ) < NUM_ROWS - 1 then (d'.cursor t).prevX ((m + 1 : ℕ) + 1) else 0) }) (le_refl 80)
  unfold OsKernel.scrollRow
  generalize ((List.range 80).map Int.ofNat).foldl _ _ = e at hcolumns ⊢
  have hcursor := congrFun hcolumns.cursor t
  rw [Display.setCursor_self] at hcursor
  refine ⟨?_, ?_, fun i => ?_, fun y x hcell => ?_, fun y x hcell hpaints => ?_, fun y x hcell hfree => ?_⟩
  · rw [hcursor]
    exact hrows.screenX
  · rw [hcursor]
    exact hrows.screenY
  · rw [hcursor]
    simp only [Function.update_apply, hrows.prevX]
    grind
  · have hbelow : OnScreen (m + 1 : ℕ) x := ⟨by omega, hcell.2⟩
    have hx : x < (80 : ℕ) := hcell.2.2
    rw [hcolumns.char y x hcell.2]
    change (if _ then d'.charAt t (m + 1 : ℕ) x else if _ then ASCII_SPACE else d'.charAt t y x) = _
    rw [hrows.char y x hcell, hrows.char _ x hbelow]
    grind
  · by_cases hnow : paints (m + 1 : ℕ) y
    · exact hcolumns.painted y x hcell.2 hcell.2.2 hnow
    · rw [hcolumns.unpainted y x hcell.2 fun hat => hnow hat.2]
      obtain ⟨i, hlow, hhigh, hi⟩ := hpaints
      rcases Nat.lt_or_eq_of_le hhigh with hbefore | rfl
      · exact hrows.painted y x hcell ⟨i, hlow, Nat.le_of_lt_succ hbefore, hi⟩
      · exact absurd hi hnow
  · rw [hcolumns.unpainted y x hcell.2 fun hat => hfree (m + 1) (Nat.le_add_left 1 m) le_rfl hat.2]
    exact hrows.unpainted y x hcell fun i hlow hhigh => hfree i hlow (Nat.le_succ_of_le hhigh)

/-- A scroll routine. -/
theorem ScrollsCell.scrollWith (h : ScrollsCell t paints cell) (d : Display) :
    RowsScrolled t paints 24 d (scrollWith t cell d) := by
  have hloop (m : ℕ) (hm : m ≤ 24) : RowsScrolled t paints m d
      (((List.range' 1 m).map Int.ofNat).foldl (scrollRow t cell)
        (d.setCursor t
          { d.cursor t with prevX := Function.update (d.cursor t).prevX 0 ((d.cursor t).prevX 1) })) := by
    induction m with
    | zero =>
      refine ⟨?_, ?_, fun i => ?_, fun y x hcell => ?_, fun y x _ hpaints => ?_, fun _ _ _ _ => rfl⟩
      · simp
      · simp
      · simp only [List.range'_zero, List.map_nil, List.foldl_nil, Display.setCursor_self, Function.update_apply,
          NUM_ROWS]
        grind
      · have hy := hcell.1.1
        have hrows : NUM_ROWS = 25 := rfl
        rw [if_neg (by omega), if_neg (by omega)]
        rfl
      · obtain ⟨i, hlow, hhigh, -⟩ := hpaints
        omega
    | succ m ih =>
      rw [List.range'_1_concat, List.map_append, List.foldl_append]
      have hstep := (ih (Nat.le_of_succ_le hm)).scrollRow h hm
      rw [Nat.add_comm m 1] at hstep
      rw [Nat.add_comm m 1]
      exact hstep
  exact hloop 24 le_rfl

/-- `vertical_scroll` paints the row it moves into. -/
theorem verticalScroll_scrolls (t : Fin 3) (d : Display) :
    RowsScrolled t (fun i y => y = i - 1) 24 d (verticalScroll t d) := by
  refine ScrollsCell.scrollWith ⟨fun i j d => ?_, fun i j d y x hj hx => ?_, fun i j d y x hj hx hat hy => ?_,
    fun i j d y x hj hx hfree => ?_⟩ d
  · dsimp only
    split_ifs <;> rfl
  · dsimp only
    by_cases hlast : i = NUM_ROWS - 1
    · rw [if_pos hlast, charAt_poke _ t _ hj hx, charAt_poke_attrib, charAt_poke _ t _ hj hx]
      change (if _ then ASCII_SPACE else if _ then d.charAt t i j else _) = _
      grind
    · rw [if_neg hlast, charAt_poke_attrib, charAt_poke _ t _ hj hx]
      change (if _ then d.charAt t i j else _) = _
      grind
  · dsimp only
    split_ifs
    · rw [attribAt_poke_char, attribAt_poke _ t _ hj hx, if_pos ⟨hy, hat⟩]
    · rw [attribAt_poke _ t _ hj hx, if_pos ⟨hy, hat⟩]
  · dsimp only
    split_ifs
    · rw [attribAt_poke_char, attribAt_poke _ t _ hj hx, if_neg fun hat => hfree hat.symm, attribAt_poke_char]
    · rw [attribAt_poke _ t _ hj hx, if_neg fun hat => hfree hat.symm, attribAt_poke_char]

/-- `vertical_scroll_keyboard` paints the last row. -/
theorem verticalScrollKeyboard_scrolls (t : Fin 3) (d : Display) :
    RowsScrolled t (fun i y => y = i ∧ i = NUM_ROWS - 1) 24 d (verticalScrollKeyboard t d) := by
  refine ScrollsCell.scrollWith ⟨fun i j d => ?_, fun i j d y x hj hx => ?_, fun i j d y x hj hx hat hy => ?_,
    fun i j d y x hj hx hfree => ?_⟩ d
  · dsimp only
    split_ifs <;> rfl
  · dsimp only
    by_cases hlast : i = NUM_ROWS - 1
    · rw [if_pos hlast, charAt_poke_attrib, charAt_poke _ t _ hj hx, charAt_poke _ t _ hj hx]
      change (if _ then ASCII_SPACE else if _ then d.charAt t i j else _) = _
      grind
    · rw [if_neg hlast, charAt_poke _ t _ hj hx]
      change (if _ then d.charAt t i j else _) = _
      grind
  · dsimp only
    rw [if_pos hy.2, attribAt_poke _ t _ hj hx, if_pos ⟨hy.1, hat⟩]
  · dsimp only
    split_ifs with hlast
    · rw [attribAt_poke _ t _ hj hx, if_neg fun hat => hfree ⟨hat.2, hat.1, hlast⟩, attribAt_poke_char,
        attribAt_poke_char]
    · rw [attribAt_poke_char]

end Scrolling

section Colours

variable {t : Fin 3} {d : Display} {y x : ℤ}

/-- An attribute stored by the index of its cell. -/
theorem attribAt_poke_index (d : Display) (t : Fin 3) (b : UInt8) (n : ℕ) (y x : ℤ) :
    (d.poke (vidmem t + (n : ℤ) * 2 + 1) b).attribAt t y x =
      if NUM_COLS * y + x = n then b else d.attribAt t y x := by
  have haddr : cellAddr t y x + 1 = vidmem t + (n : ℤ) * 2 + 1 ↔ NUM_COLS * y + x = n := by
    simp only [cellAddr]
    omega
  change Function.update d.vmem (vidmem t + (n : ℤ) * 2 + 1) b (cellAddr t y x + 1) = _
  rw [Function.update_apply]
  simp only [haddr]
  rfl

/-- An attribute stored in the page of another terminal. -/
theorem attribAt_poke_other {u : Fin 3} (hu : u ≠ t) (b : UInt8) {n : ℕ} (hn : n < 2000) (hcell : OnScreen y x) :
    (d.poke (vidmem u + (n : ℤ) * 2 + 1) b).attribAt t y x = d.attribAt t y x := by
  have hpage : InPage u (vidmem u + (n : ℤ) * 2 + 1) := by
    simp only [InPage]
    omega
  have hne : cellAddr t y x + 1 ≠ vidmem u + (n : ℤ) * 2 + 1 := by
    intro heq
    exact hpage.disjoint hu.symm (heq ▸ (cellAddr_inPage t hcell.1 hcell.2).2)
  change Function.update d.vmem (vidmem u + (n : ℤ) * 2 + 1) b (cellAddr t y x + 1) = _
  rw [Function.update_of_ne hne]
  rfl

/-- A loop over `count` cells that paints one cell in each turn. -/
theorem attribAt_foldl {body : Display → ℤ → Display} {b : UInt8} {count : ℕ} (d : Display)
    (hlow : 0 ≤ NUM_COLS * y + x) (hhigh : NUM_COLS * y + x < count) (hbody : ∀ (d : Display) (n : ℕ), n < count →
      (body d n).attribAt t y x = if NUM_COLS * y + x = n then b else d.attribAt t y x) :
    (((List.range count).map Int.ofNat).foldl body d).attribAt t y x = b := by
  have hloop (n : ℕ) (hn : n ≤ count) : (((List.range n).map Int.ofNat).foldl body d).attribAt t y x =
      if NUM_COLS * y + x < n then b else d.attribAt t y x := by
    induction n with
    | zero =>
      rw [if_neg (by omega)]
      rfl
    | succ n ih =>
      rw [List.range_succ, List.map_append, List.foldl_append]
      refine (hbody _ n hn).trans ?_
      rw [ih (Nat.le_of_succ_le hn)]
      grind
  rw [hloop count le_rfl, if_pos hhigh]

/-- The cells in reading order. -/
theorem OnScreen.index (h : OnScreen y x) : 0 ≤ NUM_COLS * y + x ∧ NUM_COLS * y + x < (2000 : ℕ) := by
  simp only [OnScreen, NUM_COLS, NUM_ROWS] at *
  omega

/-- `clear_key` leaves the attribute `ATTRIB` in every cell. -/
theorem attribAt_clearKey (t : Fin 3) (d : Display) (hcell : OnScreen y x) :
    (clearKey t d).attribAt t y x = ATTRIB := by
  rw [clearKey]
  refine attribAt_foldl d hcell.index.1 hcell.index.2 fun d n _ => ?_
  rw [attribAt_poke_index]
  have hchar : vidmem t + (n : ℤ) * 2 = cellAddr t 0 n := by
    simp only [cellAddr]
    omega
  rw [hchar, attribAt_poke_char]

/-- `color_init` leaves the terminal's own attribute in every cell. -/
theorem attribAt_colorInit (t : Fin 3) (d : Display) (hcell : OnScreen y x) :
    (colorInit d).attribAt t y x = attrib t := by
  rw [colorInit]
  refine attribAt_foldl d hcell.index.1 hcell.index.2 fun d n hn => ?_
  dsimp only
  have h01 : (0 : Fin 3) ≠ 1 := by decide
  have h02 : (0 : Fin 3) ≠ 2 := by decide
  have h12 : (1 : Fin 3) ≠ 2 := by decide
  match t with
  | 0 =>
    rw [attribAt_poke_other h02.symm _ hn hcell, attribAt_poke_other h01.symm _ hn hcell, attribAt_poke_index]
  | 1 =>
    rw [attribAt_poke_other h12.symm _ hn hcell, attribAt_poke_index, attribAt_poke_other h01 _ hn hcell]
  | 2 =>
    rw [attribAt_poke_index, attribAt_poke_other h12 _ hn hcell, attribAt_poke_other h02 _ hn hcell]

/-- `color_init` moves no cursor. -/
theorem colorInit_cursor (d : Display) : (colorInit d).cursor = d.cursor := by
  rw [colorInit]
  generalize (List.range 2000).map Int.ofNat = indices
  induction indices generalizing d with
  | nil => rfl
  | cons i rest ih => exact ih _

end Colours

end OsKernel
