import OsKernel.Backspaces
import OsKernel.ModifierKeys

/-!
# Tabs and backspaces

A Tab is one character of the line and four cells of the screen. To take one back, Backspace looks for a
tab in the global `keyboard_buffer`, which nothing writes, so every Backspace takes back one character
and one cell. The counters of the line stay right, and the screen does as long as no Tab was typed.
-/

namespace OsKernel

open Library

/-- The keys that put a character on the line. -/
def typesChar (key : UInt8) : Bool := printableKeys.contains key || key == TAB

/-- They are the printable keys and Tab. -/
theorem typesChar_iff {key : UInt8} : typesChar key = true ↔ key ∈ printableKeys ∨ key = TAB := by
  rw [typesChar, Bool.or_eq_true, List.contains_iff_mem, beq_iff_eq]

namespace Editor

/-- The bytes that a key gives to `putc_keyboard`, with no tab in the global buffer. -/
def echo (e : Editor) (keyPress : UInt8) : List UInt8 :=
  if keyPress = BACKSPACE then if e.line = [] then [] else [ASCII_BS]
  else if keyPress = TAB then List.replicate 4 ASCII_SPACE
  else if keyPress ∈ printableKeys then [keyboardChar keyPress (e.mods.select keyPress).capital]
  else []

/-- The bytes of keys one after the other. -/
def echoAll (e : Editor) : List Keystroke → List UInt8
  | [] => []
  | k :: rest => e.echo k.keyPress ++ (e.stroke k.keyPress).echoAll rest

/-- The editor after keys one after the other. -/
def strokeAll (e : Editor) (keys : List Keystroke) : Editor := keys.foldl (fun e k => e.stroke k.keyPress) e

section Keys

variable {e : Editor} {keyPress : UInt8}

/-- The keys that edit the line are the ones of the handler's last branch. -/
theorem edits_iff (keyPress : UInt8) (m : Modifiers) :
    (¬(keyPress = UNKNOWN ∨ keyPress = KEYPAD) ∧ (m.checkFunctionKey keyPress).1 = false ∧ keyPress < KEY_SIZE ∧
        keyPress > 1) ↔
      keyPress = ENTER ∨ keyPress = BACKSPACE ∨ keyPress = TAB ∨ keyPress ∈ printableKeys := by
  constructor
  · have hflags (m' : Modifiers) : (m.checkFunctionKey keyPress).1 = (m'.checkFunctionKey keyPress).1 := by
      unfold Modifiers.checkFunctionKey
      split_ifs <;> rfl
    have hall : ∀ code : Fin 256,
        (¬(UInt8.ofFin code = UNKNOWN ∨ UInt8.ofFin code = KEYPAD) ∧
            ((terminalInit fun _ => 0).mods.checkFunctionKey (UInt8.ofFin code)).1 = false ∧
            UInt8.ofFin code < KEY_SIZE ∧ UInt8.ofFin code > 1) →
          UInt8.ofFin code = ENTER ∨ UInt8.ofFin code = BACKSPACE ∨ UInt8.ofFin code = TAB ∨
            UInt8.ofFin code ∈ printableKeys := by
      decide +kernel
    rw [hflags (terminalInit fun _ => 0).mods]
    exact hall keyPress.toFin
  · rintro (rfl | rfl | rfl | hprintable)
    · exact ⟨by decide, rfl, by decide, by decide⟩
    · exact ⟨by decide, rfl, by decide, by decide⟩
    · exact ⟨by decide, rfl, by decide, by decide⟩
    · obtain ⟨hunknown, hkeypad, -, -, -, hsize, hlarge, -⟩ := printable_plain hprintable
      exact ⟨not_or.mpr ⟨hunknown, hkeypad⟩, printable_not_function hprintable m, hsize, hlarge⟩

/-- What a key does to the line. -/
theorem stroke_line (henter : keyPress ≠ ENTER) :
    (e.stroke keyPress).line =
      if keyPress = BACKSPACE then e.line.dropLast
      else if keyPress = TAB then e.line ++ [ASCII_TAB]
      else if keyPress ∈ printableKeys then e.line ++ [keyboardChar keyPress (e.mods.select keyPress).capital]
      else e.line := by
  have hedits := edits_iff keyPress e.mods
  rw [or_iff_right henter] at hedits
  unfold stroke
  by_cases hkey : keyPress = BACKSPACE ∨ keyPress = TAB ∨ keyPress ∈ printableKeys
  · obtain ⟨hknown, hfunction, hrange⟩ := hedits.mpr hkey
    rw [if_neg hknown, hfunction, if_neg Bool.false_ne_true, if_pos hrange, edit]
    split_ifs with hback htab hprintable
    · rfl
    · rfl
    · rfl
    · exact absurd (hkey.resolve_left hback |>.resolve_left htab) hprintable
  · have hsilent : (if keyPress = UNKNOWN ∨ keyPress = KEYPAD then e
        else if (e.mods.checkFunctionKey keyPress).1 then { e with mods := (e.mods.checkFunctionKey keyPress).2 }
        else if keyPress < KEY_SIZE ∧ keyPress > 1 then e.edit keyPress else e).line = e.line := by
      split_ifs with hunknown hfunction hrange
      · rfl
      · rfl
      · exact absurd (hedits.mp ⟨hunknown, Bool.eq_false_of_not_eq_true hfunction, hrange⟩) hkey
      · rfl
    simp only [not_or] at hkey
    rw [hsilent, if_neg hkey.1, if_neg hkey.2.1, if_neg hkey.2.2]

/-- A key that leaves the line as it is gives no byte. -/
theorem echo_of_line_eq (henter : keyPress ≠ ENTER) (hline : (e.stroke keyPress).line = e.line) :
    e.echo keyPress = [] := by
  rw [stroke_line henter] at hline
  unfold echo
  split_ifs at hline ⊢ with hback hempty htab hprintable
  · rfl
  · have hlen := List.length_pos_of_ne_nil hempty
    have hdropped := congrArg List.length hline
    rw [List.length_dropLast] at hdropped
    omega
  · exact absurd hline (by simp)
  · exact absurd hline (by simp)
  · rfl

/-- A key of the line that is not Backspace. -/
theorem stroke_length (henter : keyPress ≠ ENTER) (hback : keyPress ≠ BACKSPACE) :
    (e.stroke keyPress).line.length = e.line.length + if typesChar keyPress then 1 else 0 := by
  rw [stroke_line henter, if_neg hback]
  by_cases htab : keyPress = TAB
  · rw [if_pos htab, htab, List.length_append]
    rfl
  · by_cases hprintable : keyPress ∈ printableKeys
    · have htypes : typesChar keyPress = true := typesChar_iff.mpr (.inl hprintable)
      rw [if_neg htab, if_pos hprintable, if_pos htypes, List.length_append]
      rfl
    · have hquiet : ¬typesChar keyPress = true := fun htypes => (typesChar_iff.mp htypes).elim hprintable htab
      rw [if_neg htab, if_neg hprintable, if_neg hquiet]
      rfl

/-- How many bytes such a key gives: a Tab three more than characters. -/
theorem echo_length (hback : keyPress ≠ BACKSPACE) :
    (e.echo keyPress).length = (if typesChar keyPress then 1 else 0) + 3 * if keyPress = TAB then 1 else 0 := by
  rw [echo, if_neg hback]
  by_cases htab : keyPress = TAB
  · rw [if_pos htab, if_pos htab, htab]
    rfl
  · rw [if_neg htab, if_neg htab]
    by_cases hprintable : keyPress ∈ printableKeys
    · have htypes : typesChar keyPress = true := typesChar_iff.mpr (.inl hprintable)
      rw [if_pos hprintable, if_pos htypes]
      rfl
    · have hquiet : ¬typesChar keyPress = true := fun htypes => (typesChar_iff.mp htypes).elim hprintable htab
      rw [if_neg hprintable, if_neg hquiet]
      rfl

/-- Such a key gives bytes that fill cells. -/
theorem echo_fills (hback : keyPress ≠ BACKSPACE) :
    ∀ c ∈ e.echo keyPress, c ≠ ASCII_NL ∧ c ≠ 0 ∧ c ≠ ASCII_CR ∧ c ≠ ASCII_BS := by
  intro c hc
  rw [echo, if_neg hback] at hc
  split_ifs at hc with htab hprintable
  · rw [List.eq_of_mem_replicate hc]
    decide
  · rw [List.mem_singleton] at hc
    subst hc
    generalize (e.mods.select keyPress).capital = capital
    have hboth : ∀ capital, keyboardChar keyPress capital ≠ ASCII_NL ∧ keyboardChar keyPress capital ≠ 0 ∧
        keyboardChar keyPress capital ≠ ASCII_CR ∧ keyboardChar keyPress capital ≠ ASCII_BS :=
      of_decide_eq_true (printable_all (p := fun key => decide (∀ capital, keyboardChar key capital ≠ ASCII_NL ∧
        keyboardChar key capital ≠ 0 ∧ keyboardChar key capital ≠ ASCII_CR ∧ keyboardChar key capital ≠ ASCII_BS))
        (by decide) hprintable)
    exact hboth capital
  · exact absurd hc List.not_mem_nil

end Keys

section Sequences

variable {e : Editor} {keys : List Keystroke}

/-- No key of a sequence that fits is Enter. -/
theorem ne_enter_of_fits (hfits : Round.Fits e (keys.map .key)) : ∀ k ∈ keys, k.keyPress ≠ ENTER := by
  induction keys generalizing e with
  | nil => exact fun k hk => absurd hk List.not_mem_nil
  | cons first rest ih =>
    intro k hk
    rcases List.mem_cons.mp hk with rfl | hk
    · exact hfits.1.1
    · exact ih hfits.2.2 k hk

/-- Without Backspace the line grows by the characters typed. -/
theorem strokeAll_length (henter : ∀ k ∈ keys, k.keyPress ≠ ENTER) (hback : ∀ k ∈ keys, k.keyPress ≠ BACKSPACE) :
    (e.strokeAll keys).line.length = e.line.length + keys.countP (typesChar ·.keyPress) := by
  induction keys generalizing e with
  | nil => rfl
  | cons k rest ih =>
    rw [List.forall_mem_cons] at henter hback
    have hrest := ih (e := e.stroke k.keyPress) henter.2 hback.2
    rw [stroke_length henter.1 hback.1] at hrest
    rw [List.countP_cons, strokeAll, List.foldl_cons]
    exact hrest.trans (by omega)

/-- Without Backspace there are as many bytes as characters, and three more for each Tab. -/
theorem echoAll_length (hback : ∀ k ∈ keys, k.keyPress ≠ BACKSPACE) :
    (e.echoAll keys).length = keys.countP (typesChar ·.keyPress) + 3 * keys.countP (·.keyPress = TAB) := by
  induction keys generalizing e with
  | nil => rfl
  | cons k rest ih =>
    rw [List.forall_mem_cons] at hback
    rw [echoAll, List.length_append, ih hback.2, echo_length hback.1, List.countP_cons, List.countP_cons]
    simp only [decide_eq_true_eq]
    omega

/-- There are as many bytes as characters exactly when no Tab is typed. -/
theorem echoAll_length_iff (hback : ∀ k ∈ keys, k.keyPress ≠ BACKSPACE) :
    keys.countP (typesChar ·.keyPress) = (e.echoAll keys).length ↔ ∀ k ∈ keys, k.keyPress ≠ TAB := by
  have hlength := echoAll_length (e := e) hback
  have hnone : keys.countP (·.keyPress = TAB) = 0 ↔ ∀ k ∈ keys, k.keyPress ≠ TAB := by
    simp only [List.countP_eq_zero, decide_eq_true_eq, ne_eq]
  rw [← hnone]
  omega

/-- Without Backspace all bytes fill cells. -/
theorem echoAll_fills (hback : ∀ k ∈ keys, k.keyPress ≠ BACKSPACE) :
    ∀ c ∈ e.echoAll keys, c ≠ ASCII_NL ∧ c ≠ 0 ∧ c ≠ ASCII_CR ∧ c ≠ ASCII_BS := by
  induction keys generalizing e with
  | nil => exact fun c hc => absurd hc List.not_mem_nil
  | cons k rest ih =>
    rw [List.forall_mem_cons] at hback
    intro c hc
    rcases List.mem_append.mp hc with hfirst | hrest
    · exact echo_fills hback.1 c hfirst
    · exact ih hback.2 c hrest

/-- Keys in two parts. -/
theorem strokeAll_append (first second : List Keystroke) :
    e.strokeAll (first ++ second) = (e.strokeAll first).strokeAll second := List.foldl_append ..

/-- The bytes of keys in two parts. -/
theorem echoAll_append (first second : List Keystroke) :
    e.echoAll (first ++ second) = e.echoAll first ++ (e.strokeAll first).echoAll second := by
  induction first generalizing e with
  | nil => rfl
  | cons k rest ih =>
    rw [List.cons_append, echoAll, echoAll, ih, List.append_assoc]
    rfl

/-- Backspaces among keys that type nothing: one byte and one character less for each. -/
theorem erase_line (henter : ∀ k ∈ keys, k.keyPress ≠ ENTER) (hquiet : ∀ k ∈ keys, typesChar k.keyPress = false)
    (hcount : keys.countP (·.keyPress = BACKSPACE) ≤ e.line.length) :
    e.echoAll keys = List.replicate (keys.countP (·.keyPress = BACKSPACE)) ASCII_BS ∧
      (e.strokeAll keys).line.length = e.line.length - keys.countP (·.keyPress = BACKSPACE) := by
  induction keys generalizing e with
  | nil => exact ⟨rfl, rfl⟩
  | cons k rest ih =>
    rw [List.forall_mem_cons] at henter hquiet
    rw [List.countP_cons] at hcount ⊢
    rw [echoAll, strokeAll, List.foldl_cons]
    by_cases hback : k.keyPress = BACKSPACE
    · have hline : (e.stroke k.keyPress).line = e.line.dropLast := by rw [stroke_line henter.1, if_pos hback]
      have hlen := congrArg List.length hline
      rw [List.length_dropLast] at hlen
      have hone : (if decide (k.keyPress = BACKSPACE) = true then 1 else 0) = 1 := if_pos (decide_eq_true hback)
      rw [hone] at hcount ⊢
      have hne : e.line ≠ [] := List.ne_nil_of_length_pos (by omega)
      obtain ⟨hecho, hstrokes⟩ := ih (e := e.stroke k.keyPress) henter.2 hquiet.2 (by omega)
      rw [strokeAll] at hstrokes
      rw [echo, if_pos hback, if_neg hne, hecho, hstrokes, List.replicate_succ, hlen]
      exact ⟨rfl, by omega⟩
    · have hline : (e.stroke k.keyPress).line = e.line := by
        obtain ⟨hprintable, htab⟩ := not_or.mp fun htypes => Bool.eq_false_iff.mp hquiet.1 (typesChar_iff.mpr htypes)
        rw [stroke_line henter.1, if_neg hback, if_neg htab, if_neg hprintable]
      have hnone : (if decide (k.keyPress = BACKSPACE) = true then 1 else 0) = 0 := if_neg (by simpa using hback)
      rw [hnone, Nat.add_zero] at hcount ⊢
      rw [echo_of_line_eq henter.1 hline, List.nil_append, ← hline]
      exact ih henter.2 hquiet.2 (by rwa [hline])

end Sequences

end Editor

/-- The counters of the displayed terminal agree with the editor's line, and the global buffer holds no
tab. -/
structure Console.Counts (s : Console) (e : Editor) : Prop where
  mods : s.mods = e.mods
  bufIdx : (s.line s.currTerm).bufIdx = e.line.length
  numChar : (s.line s.currTerm).numChar = e.line.length
  globalBuffer : s.keyboardBuffer = fun _ => 0

section Strokes

variable {s : Console} {e : Editor} {d : Display}

/-- Echoing a character is giving it to `putc_keyboard`. -/
theorem Console.echo_eq {c : UInt8} {n : ℕ} (h : putcKeyboardAll s.currTerm (List.replicate n c) s.display = .ok d) :
    s.echo c n = .ok { s with display := d } := by
  induction n generalizing s with
  | zero =>
    cases h
    rfl
  | succ n ih =>
    obtain ⟨m, hm, hrest⟩ := ok_of_bind h
    rw [Console.echo, hm]
    exact ih (s := { s with display := m }) hrest

/-- A replaced line of the displayed terminal. -/
theorem Console.counts_setLine {l : LineBuffer} (hmods : s.mods = e.mods) (hbufIdx : l.bufIdx = e.line.length)
    (hnumChar : l.numChar = e.line.length) (hglobal : s.keyboardBuffer = fun _ => 0) : (s.setLine l).Counts e := by
  have hline : (s.setLine l).line (s.setLine l).currTerm = l := s.setLine_self l
  exact ⟨hmods, by rw [hline, hbufIdx], by rw [hline, hnumChar], hglobal⟩

/-- A character stored below the capacity is counted. -/
theorem Console.Counts.push (h : s.Counts e) (hroom : e.line.length < 127) (d : Display) (mods : Modifiers)
    (c : UInt8) :
    ∃ l, (s.line s.currTerm).pushBelow (KB_BUFFER_SIZE - 1) c = .ok l ∧
      (({ s with display := d, mods } : Console).setLine { l with numChar := l.numChar + 1 }).Counts
        { mods, line := e.line ++ [c] } := by
  have hbufIdx := h.bufIdx
  have hnumChar := h.numChar
  have hlt : (s.line s.currTerm).bufIdx < KB_BUFFER_SIZE - 1 := by
    rw [hbufIdx, KB_BUFFER_SIZE]
    omega
  refine ⟨_, LineBuffer.pushBelow_of_lt (by omega) belowCapacity hlt c, Console.counts_setLine rfl ?_ ?_ h.globalBuffer⟩
  · rw [List.length_append, List.length_singleton]
    dsimp only
    omega
  · rw [List.length_append, List.length_singleton]
    dsimp only
    omega

/-- A Backspace takes back one character and one cell. -/
theorem Console.Counts.backspace (h : s.Counts e)
    (hd : putcKeyboardAll s.currTerm (e.echo BACKSPACE) s.display = .ok d) :
    ∃ s', s.keyBackspace = .ok s' ∧ s'.currTerm = s.currTerm ∧ s'.display = d ∧
      s'.Counts { e with line := e.line.dropLast } := by
  have hbufIdx := h.bufIdx
  have hnumChar := h.numChar
  rw [Editor.echo, if_pos rfl] at hd
  by_cases hempty : e.line = []
  · rw [if_pos hempty] at hd
    cases hd
    have hnone : ¬(s.line s.currTerm).numChar > 0 := by
      rw [hnumChar, hempty]
      exact lt_irrefl 0
    refine ⟨s, Console.keyBackspace_none hnone, rfl, rfl, ?_⟩
    rw [hempty, List.dropLast_nil, ← hempty]
    exact h
  · rw [if_neg hempty] at hd
    have hlen := List.length_pos_of_ne_nil hempty
    -- the global buffer holds 0 there, so the handler takes the character for no tab
    have hone : s.eraseCount = 1 := by
      rw [Console.eraseCount, h.globalBuffer, if_neg fun htab => absurd htab.2 (show (0 : UInt8) ≠ ASCII_TAB by decide)]
    have hecho : s.echo (keyboardChar BACKSPACE false) s.eraseCount = .ok { s with display := d } := by
      rw [hone]
      exact Console.echo_eq hd
    refine ⟨_, Console.keyBackspace_eq hecho (by omega), rfl, rfl,
      Console.counts_setLine h.mods ?_ ?_ h.globalBuffer⟩
    · rw [List.length_dropLast]
      dsimp only
      omega
    · rw [List.length_dropLast]
      dsimp only
      omega

/-- A Tab fills four cells and stores one character. -/
theorem Console.Counts.tab (h : s.Counts e) (hroom : e.line.length < 127)
    (hd : putcKeyboardAll s.currTerm (e.echo TAB) s.display = .ok d) :
    ∃ s', s.keyTab = .ok s' ∧ s'.currTerm = s.currTerm ∧ s'.display = d ∧
      s'.Counts { e with line := e.line ++ [ASCII_TAB] } := by
  obtain ⟨l, hl, hcounts⟩ := h.push hroom d s.mods ASCII_TAB
  have hlt : (s.line s.currTerm).bufIdx < KB_BUFFER_SIZE - 1 := by
    rw [h.bufIdx, KB_BUFFER_SIZE]
    omega
  rw [← h.mods]
  exact ⟨_, Console.keyTab_eq (Console.echo_eq hd) hlt hl, rfl, rfl, hcounts⟩

/-- A printable key fills one cell and stores one character. -/
theorem Console.Counts.char (h : s.Counts e) (hroom : e.line.length < 127) {keyPress : UInt8}
    (hd : putcKeyboardAll s.currTerm [keyboardChar keyPress (e.mods.select keyPress).capital] s.display = .ok d) :
    ∃ s', s.keyChar keyPress = .ok s' ∧ s'.currTerm = s.currTerm ∧ s'.display = d ∧
      s'.Counts { mods := e.mods.select keyPress
                  line := e.line ++ [keyboardChar keyPress (e.mods.select keyPress).capital] } := by
  rw [← h.mods] at hd ⊢
  obtain ⟨l, hl, hcounts⟩ := h.push hroom d (s.mods.select keyPress)
    (keyboardChar keyPress (s.mods.select keyPress).capital)
  exact ⟨_, Console.keyChar_eq (Console.echo_eq (n := 1) hd) hl, rfl, rfl, hcounts⟩

/-- A key that edits the line. -/
theorem Console.Counts.edit (h : s.Counts e) {keyPress : UInt8} (henter : keyPress ≠ ENTER)
    (hedit : e.stroke keyPress = e.edit keyPress) (hfits : (e.edit keyPress).line.length ≤ 127)
    (hd : putcKeyboardAll s.currTerm (e.echo keyPress) s.display = .ok d) :
    ∃ s', s.keyStroke keyPress = .ok s' ∧ s'.currTerm = s.currTerm ∧ s'.display = d ∧ s'.Counts (e.edit keyPress) := by
  have hline := e.stroke_line henter
  rw [hedit] at hline
  unfold Console.keyStroke
  unfold Editor.edit at hfits hline ⊢
  rw [if_neg henter]
  by_cases hback : keyPress = BACKSPACE
  · subst hback
    rw [if_pos rfl, if_pos rfl]
    exact h.backspace hd
  rw [if_neg hback] at hfits hline ⊢
  rw [if_neg hback] at hline ⊢
  by_cases htab : keyPress = TAB
  · subst htab
    rw [if_pos rfl, if_pos rfl]
    rw [if_pos rfl, List.length_append, List.length_singleton] at hfits
    exact h.tab hfits hd
  rw [if_neg htab] at hfits hline ⊢
  rw [if_neg htab] at hline ⊢
  by_cases hprintable : keyPress ∈ printableKeys
  · rw [Editor.echo, if_neg hback, if_neg htab, if_pos hprintable] at hd
    rw [List.length_append, List.length_singleton] at hfits
    exact h.char hfits hd
  · rw [if_neg hprintable] at hline
    exact absurd hline (by simp)

/-- A key that is no command: the counters follow the editor, and the screen shows the key's bytes. -/
theorem Console.Counts.stroke (h : s.Counts e) {k : Keystroke} (htypes : e.Types k.keyPress)
    (hfits : (e.stroke k.keyPress).line.length ≤ 127)
    (hd : putcKeyboardAll s.currTerm (e.echo k.keyPress) s.display = .ok d) :
    ∃ s', consoleStep s k.event = some s' ∧ s'.currTerm = s.currTerm ∧ s'.display = d ∧
      s'.Counts (e.stroke k.keyPress) := by
  rcases consoleStep_cases h.mods k htypes with ⟨mods, hstroke, hs'⟩ | ⟨hedit, hs'⟩
  · have hline : (e.stroke k.keyPress).line = e.line := by rw [hstroke]
    rw [Editor.echo_of_line_eq htypes.1 hline] at hd
    cases hd
    rw [hstroke]
    exact ⟨_, hs', rfl, rfl, rfl, h.bufIdx, h.numChar, h.globalBuffer⟩
  · obtain ⟨s', hstroke, hlast⟩ := h.edit htypes.1 hedit (by rwa [← hedit]) hd
    rw [hedit]
    exact ⟨s', hs' s' hstroke, hlast⟩

/-- Keys that are no commands, one after the other. -/
theorem Console.Counts.run (h : s.Counts e) {keys : List Keystroke} (hfits : Round.Fits e (keys.map .key))
    (hd : putcKeyboardAll s.currTerm (e.echoAll keys) s.display = .ok d) :
    ∃ s', Library.run consoleStep s (keys.map Keystroke.event) = some s' ∧ s'.currTerm = s.currTerm ∧
      s'.display = d ∧ s'.Counts (e.strokeAll keys) := by
  induction keys generalizing s e with
  | nil =>
    cases hd
    exact ⟨s, rfl, rfl, rfl, h⟩
  | cons k rest ih =>
    obtain ⟨htypes, hlength, hrest⟩ := hfits
    rw [Editor.echoAll, putcKeyboardAll_append] at hd
    obtain ⟨m, hm, hlast⟩ := ok_of_bind hd
    obtain ⟨s₁, hs₁, hcurr₁, hdisplay₁, hcounts₁⟩ := h.stroke htypes hlength hm
    rw [← hcurr₁, ← hdisplay₁] at hlast
    obtain ⟨s', hrun, hcurr, hdisplay, hcounts⟩ := ih hcounts₁ hrest hlast
    exact ⟨s', run_cons.mpr ⟨s₁, hs₁, hrun⟩, hcurr.trans hcurr₁, hdisplay, hcounts⟩

/-- The handler does not write the global buffer. -/
theorem keyboardHandler_globalBuffer {statusKey keyPress : UInt8} {r : Console × Bool}
    (hr : keyboardHandler s statusKey keyPress = .ok r) : r.1.keyboardBuffer = s.keyboardBuffer := by
  rw [keyboardHandler] at hr
  dsimp only at hr
  split_ifs at hr with hstatus hunknown hfunction
  · cases hr
    rfl
  · cases hr
    rfl
  · cases hr
    rfl
  · exact (Console.keyPressed_keeps hr).globalBuffer

/-- No event writes it. -/
theorem consoleStep_globalBuffer {s' : Console} {event : ConsoleEvent} (hs' : consoleStep s event = some s') :
    s'.keyboardBuffer = s.keyboardBuffer := by
  cases event with
  | key statusKey keyPress =>
    obtain ⟨r, hr, rfl⟩ := consoleStep_handler hs'
    exact keyboardHandler_globalBuffer hr
  | readStart t =>
    cases hs'
    rfl
  | readFinish t nbytes =>
    rw [consoleStep] at hs'
    split at hs'
    · cases hs'
      rfl
    · cases hs'
      rfl

/-- In every run from the start the global buffer is empty. -/
theorem run_globalBuffer {vmem : ℤ → UInt8} {s' : Console} {events : List ConsoleEvent}
    (hrun : Library.run consoleStep (terminalInit vmem) events = some s') : s'.keyboardBuffer = fun _ => 0 := by
  have hstep (s : Console) (event : ConsoleEvent) (s' : Console) (hbuffer : s.keyboardBuffer = fun _ => 0)
      (hs' : consoleStep s event = some s') : s'.keyboardBuffer = fun _ => 0 :=
    (consoleStep_globalBuffer hs').trans hbuffer
  exact run_invariant hstep rfl hrun

end Strokes

/-- The displayed terminal is at the start of a line: nothing is counted, its cursor is on the screen, and
the global buffer holds what it held at the start. -/
structure Console.EmptyLine (s : Console) : Prop where
  bufIdx : (s.line s.currTerm).bufIdx = 0
  numChar : (s.line s.currTerm).numChar = 0
  cursor : (s.display.cursor s.currTerm).InRange
  globalBuffer : s.keyboardBuffer = fun _ => 0

/-- The bytes echoed from `s` on are undone in `s'`: the counters are 0, the cursor is where the line
started, moved up by the scrolls, and each cell that a byte was echoed into, moved up by the scrolls
from that byte on, is on the screen and blank. -/
structure LineUndone (s s' : Console) (bytes : List UInt8) : Prop where
  bufIdx : (s'.line s.currTerm).bufIdx = 0
  numChar : (s'.line s.currTerm).numChar = 0
  screenX : (s'.display.cursor s.currTerm).screenX = (s.display.cursor s.currTerm).screenX
  screenY : (s'.display.cursor s.currTerm).screenY =
    (s.display.cursor s.currTerm).screenY - scrollCount s.currTerm bytes s.display
  blank : ∀ before c after, bytes = before ++ c :: after →
    ∃ m, putcKeyboardAll s.currTerm before s.display = .ok m ∧
      OnScreen ((m.cursor s.currTerm).screenY - scrollCount s.currTerm (c :: after) m) (m.cursor s.currTerm).screenX ∧
      s'.display.charAt s.currTerm ((m.cursor s.currTerm).screenY - scrollCount s.currTerm (c :: after) m)
        (m.cursor s.currTerm).screenX = ASCII_SPACE

section Undoing

variable {t : Fin 3} {d d₂ : Display} {start : TextScreen UInt8} {bytes : List UInt8}

/-- After backspaces, no more than bytes, the cursor is back at the start, moved up by the scrolls, exactly
when they are as many as the bytes. -/
theorem Depicts.returns_iff (h : Depicts t d start) (hs : start.InRange 25 80)
    (hbytes : ∀ c ∈ bytes, c ≠ ASCII_NL ∧ c ≠ 0 ∧ c ≠ ASCII_CR ∧ c ≠ ASCII_BS)
    (hk : (scrollCount t bytes d : ℤ) ≤ (d.cursor t).screenY) {n : ℕ} (hn : n ≤ bytes.length)
    (h₂ : Depicts t d₂ ((TextScreen.back ASCII_SPACE)^[n]
      (TextScreen.typeAll 25 80 ASCII_SPACE (bytes.map strokeOf) start))) :
    ((d₂.cursor t).screenX = (d.cursor t).screenX ∧
        (d₂.cursor t).screenY = (d.cursor t).screenY - scrollCount t bytes d) ↔ n = bytes.length := by
  have hletters : ∀ stroke ∈ bytes.map strokeOf, ∃ look, stroke = .letter look := by
    intro stroke hstroke
    obtain ⟨c, hc, rfl⟩ := List.mem_map.mp hstroke
    exact ⟨_, if_neg (hbytes c hc).1⟩
  obtain ⟨-, -, -, hcount⟩ := h.putcKeyboardAll hs fun c hc => (hbytes c hc).2
  rw [hcount, h.y, Int.ofNat_le] at hk
  have hreturns := TextScreen.returns_iff hs hletters hk (hn.trans_eq (List.length_map strokeOf).symm)
  rw [List.length_map] at hreturns
  rw [← hreturns, hcount, h₂.x, h₂.y, h.x, h.y]
  omega

end Undoing

/-- The editor of an empty line. -/
def Console.emptyEditor (s : Console) : Editor := { mods := s.mods, line := [] }

section Lines

variable {s : Console} {typed erasing : List Keystroke}

/-- Keys that type characters and as many Backspaces bring the counters back to 0; the screen shows the
echo, and then one backspace for each character. -/
theorem Console.EmptyLine.run (hline : s.EmptyLine)
    (hfits : Round.Fits s.emptyEditor ((typed ++ erasing).map .key))
    (htyped : ∀ k ∈ typed, k.keyPress ≠ BACKSPACE) (herasing : ∀ k ∈ erasing, typesChar k.keyPress = false)
    (hcount : erasing.countP (·.keyPress = BACKSPACE) = typed.countP (typesChar ·.keyPress)) {d : Display}
    (hd : putcKeyboardAll s.currTerm (s.emptyEditor.echoAll typed ++
      List.replicate (typed.countP (typesChar ·.keyPress)) ASCII_BS) s.display = .ok d) :
    ∃ s', Library.run consoleStep s ((typed ++ erasing).map Keystroke.event) = some s' ∧ s'.display = d ∧
      (s'.line s.currTerm).bufIdx = 0 ∧ (s'.line s.currTerm).numChar = 0 := by
  have henter := Editor.ne_enter_of_fits hfits
  have hgrown : (s.emptyEditor.strokeAll typed).line.length = typed.countP (typesChar ·.keyPress) :=
    (Editor.strokeAll_length (fun k hk => henter k (List.mem_append_left _ hk)) htyped).trans (Nat.zero_add _)
  obtain ⟨herased, hshrunk⟩ := Editor.erase_line (e := s.emptyEditor.strokeAll typed)
    (fun k hk => henter k (List.mem_append_right _ hk)) herasing (by rw [hgrown, hcount])
  rw [hcount, hgrown, Nat.sub_self] at hshrunk
  rw [← hcount, ← herased, ← Editor.echoAll_append] at hd
  have hcounts : s.Counts s.emptyEditor := ⟨rfl, hline.bufIdx, hline.numChar, hline.globalBuffer⟩
  obtain ⟨s', hrun, hcurr, hdisplay, hcounts'⟩ := hcounts.run hfits hd
  have hbufIdx := hcounts'.bufIdx
  have hnumChar := hcounts'.numChar
  rw [Editor.strokeAll_append, hshrunk, hcurr] at hbufIdx hnumChar
  exact ⟨s', hrun, hdisplay, hbufIdx, hnumChar⟩

end Lines

/-- From an empty line let keys without a command be typed, whose echo does not scroll the start off the
screen, and then as many Backspaces as they typed characters. What they echoed is undone exactly when no
Tab was among them. -/
theorem tabBackspace_iff {s : Console} (hline : s.EmptyLine) {typed erasing : List Keystroke}
    (hfits : Round.Fits s.emptyEditor ((typed ++ erasing).map .key))
    (htyped : ∀ k ∈ typed, k.keyPress ≠ BACKSPACE) (herasing : ∀ k ∈ erasing, typesChar k.keyPress = false)
    (hcount : erasing.countP (·.keyPress = BACKSPACE) = typed.countP (typesChar ·.keyPress))
    (hscroll : (scrollCount s.currTerm (s.emptyEditor.echoAll typed) s.display : ℤ) ≤
      (s.display.cursor s.currTerm).screenY) :
    ∃ s', Library.run consoleStep s ((typed ++ erasing).map Keystroke.event) = some s' ∧
      (LineUndone s s' (s.emptyEditor.echoAll typed) ↔ ∀ k ∈ typed, k.keyPress ≠ TAB) := by
  obtain ⟨hdepicts, hscreen⟩ := hline.cursor.depicts
  generalize s.display.screen s.currTerm = start at hdepicts hscreen
  have hfills := Editor.echoAll_fills (e := s.emptyEditor) htyped
  have hlength := Editor.echoAll_length (e := s.emptyEditor) htyped
  obtain ⟨d₁, hd₁, hdepicts₁, -⟩ := hdepicts.putcKeyboardAll hscreen fun c hc => (hfills c hc).2
  obtain ⟨d₂, hd₂, hdepicts₂⟩ := hdepicts₁.backspaces (hscreen.typeAll ASCII_SPACE _)
    (typed.countP (typesChar ·.keyPress))
  have hd : putcKeyboardAll s.currTerm (s.emptyEditor.echoAll typed ++
      List.replicate (typed.countP (typesChar ·.keyPress)) ASCII_BS) s.display = .ok d₂ := by
    rw [putcKeyboardAll_append, hd₁]
    exact hd₂
  obtain ⟨s', hrun, rfl, hbufIdx, hnumChar⟩ := hline.run hfits htyped herasing hcount hd
  have hreturns := hdepicts.returns_iff hscreen hfills hscroll (by omega) hdepicts₂
  refine ⟨s', hrun, ?_⟩
  rw [← Editor.echoAll_length_iff htyped, ← hreturns]
  constructor
  · exact fun hundone => ⟨hundone.screenX, hundone.screenY⟩
  · intro hstart
    rw [hreturns.mp hstart] at hdepicts₂
    refine ⟨hbufIdx, hnumChar, hstart.1, hstart.2, fun before c after hsplit => ?_⟩
    rw [hsplit] at hfills hscroll hdepicts₂
    exact hdepicts.writtenBlank hscreen (fun b hb => (hfills b hb).2) hscroll hdepicts₂

/-- The start of a terminal. -/
theorem terminalInit_emptyLine (vmem : ℤ → UInt8) : (terminalInit vmem).EmptyLine :=
  ⟨rfl, rfl, (terminalInit_good vmem).display 0, rfl⟩

/-- An upper-case letter and its release, and a Backspace. -/
theorem tabBackspace_letter :
    ∃ s', Library.run consoleStep (terminalInit fun _ => 0)
        (([keyOf LEFT_SHIFT, keyOf 0x1E, keyOf 0x9E] ++ [keyOf LEFT_SHIFT_REL, keyOf BACKSPACE]).map Keystroke.event) =
      some s' ∧
      (LineUndone (terminalInit fun _ => 0) s' ((terminalInit fun _ => 0).emptyEditor.echoAll
          [keyOf LEFT_SHIFT, keyOf 0x1E, keyOf 0x9E]) ↔
        ∀ k ∈ [keyOf LEFT_SHIFT, keyOf 0x1E, keyOf 0x9E], k.keyPress ≠ TAB) :=
  tabBackspace_iff (terminalInit_emptyLine _) (by decide) (by decide) (by decide) (by decide) (by decide)

/-- A Tab and a Backspace on a fresh terminal: the counters are 0 again, but the cursor is in column 3. -/
theorem tabBackspace_wrong :
    (terminalInit fun _ => 0).EmptyLine ∧
      Round.Fits (terminalInit fun _ => 0).emptyEditor (([keyOf TAB] ++ [keyOf BACKSPACE]).map .key) ∧
      [keyOf BACKSPACE].countP (·.keyPress = BACKSPACE) = [keyOf TAB].countP (typesChar ·.keyPress) ∧
      scrollCount 0 ((terminalInit fun _ => 0).emptyEditor.echoAll [keyOf TAB]) (terminalInit fun _ => 0).display = 0 ∧
      ∃ s', Library.run consoleStep (terminalInit fun _ => 0)
          (([keyOf TAB] ++ [keyOf BACKSPACE]).map Keystroke.event) = some s' ∧
        (s'.line 0).bufIdx = 0 ∧ (s'.line 0).numChar = 0 ∧ (s'.display.cursor 0).screenX = 3 ∧
        ¬LineUndone (terminalInit fun _ => 0) s' ((terminalInit fun _ => 0).emptyEditor.echoAll [keyOf TAB]) :=
  ⟨terminalInit_emptyLine _, by decide, by decide, by decide, _, rfl, rfl, rfl, rfl,
    fun hundone => absurd hundone.screenX (by decide)⟩

end OsKernel
