import OsKernel.LineBuffer

/-!
# What a console writer touches

Everything a writer does on terminal `t` is made of stores into the first 4000 bytes of that
terminal's page and changes of its cursor. It reads nothing else either: two displays that agree on
the terminal still agree after it.
-/

namespace OsKernel

/-- The character cells of a terminal's page. -/
def InPage (t : Fin 3) (addr : ℤ) : Prop := vidmem t ≤ addr ∧ addr < vidmem t + 4000

/-- A row of the screen, as an index of `prev_x`. -/
def IsRow (i : ℤ) : Prop := 0 ≤ i ∧ i < NUM_ROWS

/-- Two displays show the same on a terminal. -/
structure Display.Agree (t : Fin 3) (d e : Display) : Prop where
  cursor : d.cursor t = e.cursor t
  page : ∀ addr, InPage t addr → d.vmem addr = e.vmem addr

/-- Everything but a terminal's cursor, its remembered columns and its cells is unchanged. -/
structure Display.Kept (t : Fin 3) (d d' : Display) : Prop where
  cursor : ∀ u, u ≠ t → d'.cursor u = d.cursor u
  prevX : ∀ i, ¬IsRow i → (d'.cursor t).prevX i = (d.cursor t).prevX i
  vmem : ∀ addr, ¬InPage t addr → d'.vmem addr = d.vmem addr

/-- The same writes on two displays: the first keeps the rest, and they agree afterwards. -/
structure Display.Paired (t : Fin 3) (d e d' e' : Display) : Prop where
  agree : Display.Agree t d' e'
  kept : Display.Kept t d d'

/-- Two calls of a writer that end alike. -/
def Display.BothOk (t : Fin 3) (d e : Display) (r r' : Except Fault Display) : Prop :=
  ∃ d' e', r = .ok d' ∧ r' = .ok e' ∧ Display.Paired t d e d' e'

section Primitives

variable {t : Fin 3} {d e d' e' : Display}

/-- The pages do not overlap. -/
theorem InPage.disjoint {u : Fin 3} (hu : u ≠ t) {addr : ℤ} (h : InPage t addr) : ¬InPage u addr := by
  have hval : (u : ℤ) ≠ t := fun heq => hu (Fin.ext (by exact_mod_cast heq))
  simp only [InPage, vidmem, START_VM_T, KB_4] at h ⊢
  omega

/-- The two bytes of a cell of the screen. -/
theorem cellAddr_inPage (t : Fin 3) {y x : ℤ} (hy : 0 ≤ y ∧ y < NUM_ROWS) (hx : 0 ≤ x ∧ x < NUM_COLS) :
    InPage t (cellAddr t y x) ∧ InPage t (cellAddr t y x + 1) := by
  simp only [InPage, cellAddr, NUM_ROWS, NUM_COLS] at *
  omega

/-- What a writer on another terminal leaves. -/
theorem Display.Kept.agree {u : Fin 3} (h : Display.Kept t d d') (hu : u ≠ t) : Display.Agree u d' d :=
  ⟨h.cursor u hu, fun addr haddr => h.vmem addr fun ht => haddr.disjoint hu.symm ht⟩

theorem Display.Agree.refl (t : Fin 3) (d : Display) : Display.Agree t d d := ⟨rfl, fun _ _ => rfl⟩

theorem Display.Agree.trans {f : Display} (h : Display.Agree t d e) (h' : Display.Agree t e f) : Display.Agree t d f :=
  ⟨h.cursor.trans h'.cursor, fun addr haddr => (h.page addr haddr).trans (h'.page addr haddr)⟩

/-- No write at all. -/
theorem Display.Agree.paired (h : Display.Agree t d e) : Display.Paired t d e d e :=
  ⟨h, fun _ _ => rfl, fun _ _ => rfl, fun _ _ => rfl⟩

/-- Writes after writes. -/
theorem Display.Paired.trans {d'' e'' : Display} (h : Display.Paired t d e d' e')
    (h' : Display.Paired t d' e' d'' e'') : Display.Paired t d e d'' e'' := by
  refine ⟨h'.agree, fun u hu => ?_, fun i hi => ?_, fun addr haddr => ?_⟩
  · rw [h'.kept.cursor u hu, h.kept.cursor u hu]
  · rw [h'.kept.prevX i hi, h.kept.prevX i hi]
  · rw [h'.kept.vmem addr haddr, h.kept.vmem addr haddr]

/-- A store into the page. -/
theorem Display.Agree.poke (h : Display.Agree t d e) {addr : ℤ} (haddr : InPage t addr) {b b' : UInt8} (hb : b = b') :
    Display.Paired t d e (d.poke addr b) (e.poke addr b') := by
  subst hb
  refine ⟨⟨h.cursor, fun a ha => ?_⟩, fun _ _ => rfl, fun _ _ => rfl, fun a ha => ?_⟩
  · by_cases heq : a = addr
    · subst a
      simp [Display.poke]
    · simp [Display.poke, heq, h.page a ha]
  · have hne : a ≠ addr := by
      rintro rfl
      exact ha haddr
    simp [Display.poke, hne]

/-- A change of the cursor that keeps what lies behind `prev_x`. -/
theorem Display.Agree.setCursor (h : Display.Agree t d e) {c : Cursor}
    (hc : ∀ i, ¬IsRow i → c.prevX i = (d.cursor t).prevX i) :
    Display.Paired t d e (d.setCursor t c) (e.setCursor t c) := by
  refine ⟨⟨?_, h.page⟩, fun u hu => Function.update_of_ne hu _ _, fun i hi => ?_, fun _ _ => rfl⟩
  · rw [Display.setCursor_self, Display.setCursor_self]
  · rw [Display.setCursor_self, hc i hi]

/-- A move of the cursor. -/
theorem Display.Agree.moveTo (h : Display.Agree t d e) (x y : ℤ) :
    Display.Paired t d e (d.moveTo t x y) (e.moveTo t x y) := by
  rw [Display.moveTo, Display.moveTo, ← h.cursor]
  exact h.setCursor fun _ _ => rfl

/-- A column remembered for a row. -/
theorem Display.Agree.update (h : Display.Agree t d e) {i : ℤ} (hi : IsRow i) (x : ℤ) :
    Display.Paired t d e (d.setCursor t { d.cursor t with prevX := Function.update (d.cursor t).prevX i x })
      (e.setCursor t { e.cursor t with prevX := Function.update (e.cursor t).prevX i x }) := by
  rw [← h.cursor]
  refine h.setCursor fun j hj => ?_
  have hne : j ≠ i := by
    rintro rfl
    exact hj hi
  simp [hne]

/-- A character written at a cursor on the screen. -/
theorem Display.Agree.putCell (h : Display.Agree t d e) (hrange : (d.cursor t).InRange) (c : UInt8) :
    Display.Paired t d e (d.putCell t c) (e.putCell t c) := by
  obtain ⟨hchar, hattrib⟩ := cellAddr_inPage t hrange.y hrange.x
  rw [Display.putCell, Display.putCell, ← h.cursor]
  have hfirst := h.poke hchar (rfl : c = c)
  exact hfirst.trans (hfirst.agree.poke hattrib rfl)

/-- The cursor returned to the start of its row. -/
theorem Display.Paired.lineStart (h : Display.Paired t d e d' e') :
    Display.Paired t d e (d'.moveTo t 0 (d'.cursor t).screenY) (e'.moveTo t 0 (e'.cursor t).screenY) := by
  rw [← h.agree.cursor]
  exact h.trans (h.agree.moveTo 0 _)

/-- The hardware cursor is no part of a terminal. -/
theorem Display.Agree.updateCursor (h : Display.Agree t d e) (u v : Fin 3) :
    Display.Paired t d e (d.updateCursor u) (e.updateCursor v) :=
  ⟨⟨h.cursor, h.page⟩, fun _ _ => rfl, fun _ _ => rfl, fun _ _ => rfl⟩

/-- A loop whose turns are such writes. -/
theorem Display.Agree.foldl {A : Type*} (h : Display.Agree t d e) {body : Display → A → Display} (items : List A)
    (hbody : ∀ a ∈ items, ∀ d e, Display.Agree t d e → Display.Paired t d e (body d a) (body e a)) :
    Display.Paired t d e (items.foldl body d) (items.foldl body e) := by
  induction items generalizing d e with
  | nil => exact h.paired
  | cons a rest ih =>
    have hfirst := hbody a List.mem_cons_self d e h
    exact hfirst.trans (ih hfirst.agree fun b hb => hbody b (List.mem_cons_of_mem a hb))

end Primitives

section Writers

variable {t : Fin 3} {d e : Display}

/-- The inner loop body of a scroll routine. -/
def CellPaired (t : Fin 3) (cell : ℤ → ℤ → Display → Display) : Prop :=
  ∀ i j : ℕ, 1 ≤ i → i < 25 → j < 80 → ∀ d e, Display.Agree t d e → Display.Paired t d e (cell i j d) (cell i j e)

/-- A turn of the outer scroll loop. -/
theorem Display.Agree.scrollRow (h : Display.Agree t d e) {cell : ℤ → ℤ → Display → Display}
    (hcell : CellPaired t cell) {i : ℕ} (hi : 1 ≤ i ∧ i < 25) :
    Display.Paired t d e (scrollRow t cell d i) (scrollRow t cell e i) := by
  have hrow : IsRow i := by
    simp only [IsRow, NUM_ROWS]
    omega
  have hmoved := h.update hrow (if (i : ℤ) < NUM_ROWS - 1 then (d.cursor t).prevX (i + 1) else 0)
  unfold OsKernel.scrollRow
  rw [← h.cursor] at hmoved ⊢
  refine hmoved.trans (hmoved.agree.foldl _ fun a ha d e hde => ?_)
  obtain ⟨j, hj, rfl⟩ := List.mem_map.mp ha
  exact hcell i j hi.1 hi.2 (List.mem_range.mp hj) d e hde

/-- A scroll routine. -/
theorem Display.Agree.scrollWith (h : Display.Agree t d e) {cell : ℤ → ℤ → Display → Display}
    (hcell : CellPaired t cell) : Display.Paired t d e (scrollWith t cell d) (scrollWith t cell e) := by
  have hrow : IsRow 0 := ⟨le_rfl, by decide⟩
  have hmoved := h.update hrow ((d.cursor t).prevX 1)
  unfold OsKernel.scrollWith
  rw [← h.cursor] at hmoved ⊢
  refine hmoved.trans (hmoved.agree.foldl _ fun a ha d e hde => ?_)
  obtain ⟨i, hi, rfl⟩ := List.mem_map.mp ha
  have hbounds : 1 ≤ i ∧ i < 25 := by
    simpa using List.mem_range'_1.mp hi
  exact hde.scrollRow hcell hbounds

/-- The addresses of a scrolled cell and of the cell above it. -/
theorem scrolled_inPage (t : Fin 3) {i j : ℕ} (hi : 1 ≤ i ∧ i < 25) (hj : j < 80) :
    InPage t (cellAddr t i j) ∧ InPage t (cellAddr t i j + 1) ∧
      InPage t (cellAddr t (i - 1) j) ∧ InPage t (cellAddr t (i - 1) j + 1) := by
  have hcol : 0 ≤ (j : ℤ) ∧ (j : ℤ) < NUM_COLS := by
    simp only [NUM_COLS]
    omega
  have hrow : 0 ≤ (i : ℤ) ∧ (i : ℤ) < NUM_ROWS := by
    simp only [NUM_ROWS]
    omega
  have habove : 0 ≤ (i : ℤ) - 1 ∧ (i : ℤ) - 1 < NUM_ROWS := by
    omega
  exact ⟨(cellAddr_inPage t hrow hcol).1, (cellAddr_inPage t hrow hcol).2, cellAddr_inPage t habove hcol⟩

theorem Display.Agree.verticalScroll (h : Display.Agree t d e) :
    Display.Paired t d e (verticalScroll t d) (verticalScroll t e) := by
  refine h.scrollWith fun i j hlo hhi hj d e hde => ?_
  obtain ⟨hcell, -, habove, hattrib⟩ := scrolled_inPage t ⟨hlo, hhi⟩ hj
  have hcopy := hde.poke habove (hde.page _ hcell)
  have hcolour := hcopy.trans (hcopy.agree.poke hattrib (rfl : attrib t = attrib t))
  dsimp only
  split
  · exact hcolour.trans (hcolour.agree.poke hcell rfl)
  · exact hcolour

theorem Display.Agree.verticalScrollKeyboard (h : Display.Agree t d e) :
    Display.Paired t d e (verticalScrollKeyboard t d) (verticalScrollKeyboard t e) := by
  refine h.scrollWith fun i j hlo hhi hj d e hde => ?_
  obtain ⟨hcell, hattrib, habove, -⟩ := scrolled_inPage t ⟨hlo, hhi⟩ hj
  have hcopy := hde.poke habove (hde.page _ hcell)
  dsimp only
  split
  · have hblank := hcopy.trans (hcopy.agree.poke hcell (rfl : ASCII_SPACE = ASCII_SPACE))
    exact hblank.trans (hblank.agree.poke hattrib rfl)
  · exact hcopy

/-- A scroll routine pairs whatever displays agree. -/
def ScrollPaired (t : Fin 3) (scroll : Display → Display) : Prop :=
  ∀ d e, Display.Agree t d e → Display.Paired t d e (scroll d) (scroll e)

/-- Both line ends. -/
theorem Display.Agree.putLineEnd {scroll : Display → Display} (hscroll : ScrollPaired t scroll)
    (h : Display.Agree t d e) (hrange : (d.cursor t).InRange) (c : UInt8) :
    Display.BothOk t d e (putLineEnd scroll t c d) (putLineEnd scroll t c e) := by
  obtain ⟨d₁, e₁, hd₁, he₁, hfirst⟩ : Display.BothOk t d e
      (if c = ASCII_NL then d.storePrevX t (d.cursor t).screenY (d.cursor t).screenX else .ok d)
      (if c = ASCII_NL then e.storePrevX t (e.cursor t).screenY (e.cursor t).screenX else .ok e) := by
    rw [← h.cursor]
    split
    · refine ⟨_, _, if_pos hrange.y, if_pos hrange.y, ?_⟩
      exact h.update hrange.y (d.cursor t).screenX
    · exact ⟨d, e, rfl, rfl, h.paired⟩
  have hsecond : Display.Paired t d e
      (if (d.cursor t).screenY = NUM_ROWS - 1 then scroll d₁
        else d₁.moveTo t (d.cursor t).screenX ((d.cursor t).screenY + 1))
      (if (d.cursor t).screenY = NUM_ROWS - 1 then scroll e₁
        else e₁.moveTo t (d.cursor t).screenX ((d.cursor t).screenY + 1)) := by
    split
    · exact hfirst.trans (hscroll _ _ hfirst.agree)
    · exact hfirst.trans (hfirst.agree.moveTo _ _)
  refine ⟨_, _, by simp only [OsKernel.putLineEnd, hd₁]; rfl, by simp only [OsKernel.putLineEnd, he₁]; rfl, ?_⟩
  rw [← h.cursor]
  exact hsecond.lineStart

/-- Backspace away from the left top. -/
theorem Display.Agree.putBackspace (h : Display.Agree t d e) (hrange : (d.cursor t).InRange)
    (htop : ¬((d.cursor t).screenX = 0 ∧ (d.cursor t).screenY = 0)) :
    Display.BothOk t d e (putBackspace t d) (putBackspace t e) := by
  obtain ⟨hx, hy, hprev⟩ := hrange
  unfold OsKernel.putBackspace Display.loadPrevX
  rw [← h.cursor]
  by_cases hcol : (d.cursor t).screenX = 0
  · have hrow : 0 ≤ (d.cursor t).screenY - 1 ∧ (d.cursor t).screenY - 1 < NUM_ROWS := by omega
    simp only [if_pos hcol, if_pos hrow]
    refine ⟨_, _, rfl, rfl, ?_⟩
    have hmoved := h.moveTo ((d.cursor t).prevX ((d.cursor t).screenY - 1)) ((d.cursor t).screenY - 1)
    refine hmoved.trans (hmoved.agree.putCell ?_ ASCII_SPACE)
    rw [Display.moveTo, Display.setCursor_self]
    exact ⟨hprev _ hrow.1 hrow.2, hrow, hprev⟩
  · have hleft : 0 ≤ (d.cursor t).screenX - 1 ∧ (d.cursor t).screenX - 1 < NUM_COLS := by omega
    obtain ⟨hcolumn, hrow⟩ := sameRow hleft hy
    rw [hcolumn] at hrow
    simp only [if_neg hcol, hcolumn, hrow]
    refine ⟨_, _, rfl, rfl, ?_⟩
    have hmoved := h.moveTo ((d.cursor t).screenX - 1) (d.cursor t).screenY
    refine hmoved.trans (hmoved.agree.putCell ?_ ASCII_SPACE)
    rw [Display.moveTo, Display.setCursor_self]
    exact ⟨hleft, hy, hprev⟩

/-- A character in the last column. -/
theorem Display.Agree.putLastColumn {scroll : Display → Display} (hscroll : ScrollPaired t scroll)
    (h : Display.Agree t d e) (hrange : (d.cursor t).InRange) (c : UInt8) :
    Display.BothOk t d e (putLastColumn scroll t c d) (putLastColumn scroll t c e) := by
  have hstored := h.update hrange.y (d.cursor t).screenX
  have hwritten := hstored.trans (hstored.agree.putCell (by
    rw [Display.setCursor_self]
    exact hrange.update hrange.x) c)
  unfold OsKernel.putLastColumn Display.storePrevX
  rw [← h.cursor] at hwritten ⊢
  simp only [if_pos hrange.y]
  refine ⟨_, _, rfl, rfl, Display.Paired.lineStart ?_⟩
  split
  · exact hwritten.trans (hwritten.agree.moveTo _ _)
  · exact hwritten.trans (hscroll _ _ hwritten.agree)

/-- A character before the last column. -/
theorem Display.Agree.putMiddle (h : Display.Agree t d e) (hrange : (d.cursor t).InRange) (c : UInt8) :
    Display.Paired t d e (putMiddle t c d) (putMiddle t c e) := by
  have hwritten := h.putCell hrange (if c = 127 then ASCII_SPACE else c)
  unfold OsKernel.putMiddle
  rw [← h.cursor]
  exact hwritten.trans (hwritten.agree.moveTo _ _)

/-- The common writer on two displays that agree: both return early, or both write. -/
theorem Display.Agree.putcOn {scroll : Display → Display} (hscroll : ScrollPaired t scroll)
    (h : Display.Agree t d e) (hrange : (d.cursor t).InRange) (c : UInt8) :
    (putcOn scroll t c d = .ok none ∧ putcOn scroll t c e = .ok none) ∨
      ∃ d' e', putcOn scroll t c d = .ok (some d') ∧ putcOn scroll t c e = .ok (some e') ∧
        Display.Paired t d e d' e' := by
  have hsome (r r' : Except Fault Display) (hr : Display.BothOk t d e r r') :
      ∃ d' e', r.map some = .ok (some d') ∧ r'.map some = .ok (some e') ∧ Display.Paired t d e d' e' := by
    obtain ⟨d', e', rfl, rfl, hpaired⟩ := hr
    exact ⟨d', e', rfl, rfl, hpaired⟩
  unfold OsKernel.putcOn
  rw [← h.cursor]
  split_ifs with hnul hnl hbs htop hlast
  · exact Or.inl ⟨rfl, rfl⟩
  · exact Or.inr (hsome _ _ (h.putLineEnd hscroll hrange c))
  · exact Or.inl ⟨rfl, rfl⟩
  · exact Or.inr (hsome _ _ (h.putBackspace hrange htop))
  · exact Or.inr (hsome _ _ (h.putLastColumn hscroll hrange c))
  · exact Or.inr ⟨_, _, rfl, rfl, h.putMiddle hrange c⟩

/-- `putc` for the scheduled terminal, whatever terminals are displayed. -/
theorem Display.Agree.putc (h : Display.Agree t d e) (hrange : (d.cursor t).InRange) (u v : Fin 3) (c : UInt8) :
    Display.BothOk t d e (putc u t c d) (putc v t c e) := by
  unfold OsKernel.putc
  rcases h.putcOn (fun _ _ hde => hde.verticalScroll) hrange c with ⟨hd, he⟩ | ⟨d', e', hd, he, hpaired⟩
  · rw [hd, he]
    exact ⟨d, e, rfl, rfl, h.paired⟩
  · rw [hd, he]
    refine ⟨_, _, rfl, rfl, ?_⟩
    dsimp only
    split_ifs
    · exact hpaired.trans (hpaired.agree.updateCursor t t)
    · exact hpaired.trans ⟨⟨hpaired.agree.cursor, hpaired.agree.page⟩, fun _ _ => rfl, fun _ _ => rfl, fun _ _ => rfl⟩
    · exact hpaired.trans ⟨⟨hpaired.agree.cursor, hpaired.agree.page⟩, fun _ _ => rfl, fun _ _ => rfl, fun _ _ => rfl⟩
    · exact hpaired

/-- Two writers that end alike, the first with its cursors on the screen. -/
def Display.BothInRange (t : Fin 3) (d e : Display) (r r' : Except Fault Display) : Prop :=
  ∃ d' e', r = .ok d' ∧ r' = .ok e' ∧ Display.Paired t d e d' e' ∧ d'.InRange

/-- `putc` keeps the cursors on the screen. -/
theorem Display.Agree.putc_inRange (h : Display.Agree t d e) (hrange : d.InRange) (u v : Fin 3) (c : UInt8) :
    Display.BothInRange t d e (OsKernel.putc u t c d) (OsKernel.putc v t c e) := by
  obtain ⟨d', e', hd, he, hpaired⟩ := h.putc (hrange t) u v c
  obtain ⟨d₁, hd₁, hrange'⟩ := hrange.putc u t c
  obtain rfl : d' = d₁ := Except.ok.inj (hd.symm.trans hd₁)
  exact ⟨d', e', hd, he, hpaired, hrange'⟩

/-- A character printed several times. -/
theorem Display.Agree.putcTimes (h : Display.Agree t d e) (hrange : d.InRange) (u v : Fin 3) (c : UInt8) (n : ℕ) :
    Display.BothInRange t d e (putcTimes u t c n d) (putcTimes v t c n e) := by
  induction n generalizing d e with
  | zero => exact ⟨d, e, rfl, rfl, h.paired, hrange⟩
  | succ n ih =>
    obtain ⟨d₁, e₁, hd₁, he₁, hfirst, hrange₁⟩ := h.putc_inRange hrange u v c
    obtain ⟨d₂, e₂, hd₂, he₂, hrest, hrange₂⟩ := ih hfirst.agree hrange₁
    refine ⟨d₂, e₂, ?_, ?_, hfirst.trans hrest, hrange₂⟩
    · rw [OsKernel.putcTimes, hd₁]
      exact hd₂
    · rw [OsKernel.putcTimes, he₁]
      exact he₂

/-- The loop of `terminal_write`. -/
theorem Display.Agree.terminalWriteFrom (h : Display.Agree t d e) (hrange : d.InRange) (u v : Fin 3)
    (buf : ℕ → UInt8) (i byteRead left : ℕ) :
    ∃ n d' e', terminalWriteFrom u t buf i byteRead left d = .ok (n, d') ∧
      terminalWriteFrom v t buf i byteRead left e = .ok (n, e') ∧ Display.Paired t d e d' e' ∧ d'.InRange := by
  induction left generalizing i byteRead d e with
  | zero => exact ⟨byteRead, d, e, rfl, rfl, h.paired, hrange⟩
  | succ left ih =>
    unfold OsKernel.terminalWriteFrom
    by_cases hnul : buf i = 0
    · simp only [if_pos hnul]
      exact ih h hrange (i + 1) byteRead
    · obtain ⟨d₁, e₁, hd₁, he₁, hfirst, hrange₁⟩ : Display.BothInRange t d e
          (if buf i = ASCII_TAB then OsKernel.putcTimes u t ASCII_SPACE 4 d else OsKernel.putc u t (buf i) d)
          (if buf i = ASCII_TAB then OsKernel.putcTimes v t ASCII_SPACE 4 e else OsKernel.putc v t (buf i) e) := by
        split
        · exact h.putcTimes hrange u v ASCII_SPACE 4
        · exact h.putc_inRange hrange u v (buf i)
      obtain ⟨n, d₂, e₂, hd₂, he₂, hrest, hrange₂⟩ := ih hfirst.agree hrange₁ (i + 1) (byteRead + 1)
      simp only [if_neg hnul]
      rw [hd₁, he₁]
      exact ⟨n, d₂, e₂, hd₂, he₂, hfirst.trans hrest, hrange₂⟩

/-- `putc_keyboard` for the displayed terminal. -/
theorem Display.Agree.putcKeyboard (h : Display.Agree t d e) (hrange : (d.cursor t).InRange) (c : UInt8) :
    Display.BothOk t d e (putcKeyboard t c d) (putcKeyboard t c e) := by
  unfold OsKernel.putcKeyboard
  rcases h.putcOn (fun _ _ hde => hde.verticalScrollKeyboard) hrange c with ⟨hd, he⟩ | ⟨d', e', hd, he, hpaired⟩
  · rw [hd, he]
    exact ⟨d, e, rfl, rfl, h.paired⟩
  · rw [hd, he]
    exact ⟨_, _, rfl, rfl, hpaired.trans (hpaired.agree.updateCursor t t)⟩

/-- `clear_key` blanks the page. -/
theorem Display.Agree.clearKey (h : Display.Agree t d e) : Display.Paired t d e (clearKey t d) (clearKey t e) := by
  refine h.foldl _ fun a ha d e hde => ?_
  obtain ⟨i, hi, rfl⟩ := List.mem_map.mp ha
  have hlt := List.mem_range.mp hi
  have hchar : InPage t (vidmem t + Int.ofNat i * 2) := by
    simp only [InPage, Int.ofNat_eq_natCast]
    omega
  have hattrib : InPage t (vidmem t + Int.ofNat i * 2 + 1) := by
    simp only [InPage, Int.ofNat_eq_natCast]
    omega
  have hfirst := hde.poke hchar (rfl : ASCII_SPACE = ASCII_SPACE)
  exact hfirst.trans (hfirst.agree.poke hattrib rfl)

/-- Ctrl+L on the screen. -/
theorem Display.Agree.clearScreen (h : Display.Agree t d e) :
    Display.Paired t d e (clearScreen t d) (clearScreen t e) := by
  have hblank := h.clearKey
  have hmoved := hblank.trans (hblank.agree.moveTo 0 0)
  exact hmoved.trans (hmoved.agree.updateCursor t t)

end Writers

end OsKernel
