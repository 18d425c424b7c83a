import OsKernel.Library.Purge
import OsKernel.VideoPage

/-!
# Isolation of the terminals in the drivers

Lines, Enter flags, cursors and pages are kept for each terminal, and a keystroke, a read or a write
on one terminal touches no other. Only `read_flag` is shared: Ctrl+L keeps the typed characters of
its terminal while any terminal's read waits. Without that the terminals do not interfere.
-/

namespace OsKernel

open Library

/-- What two consoles show of a terminal. -/
structure Console.Alike (t : Fin 3) (s p : Console) : Prop where
  display : Display.Agree t s.display p.display
  line : s.line t = p.line t
  enterFlag : s.enterFlag t = p.enterFlag t

/-- Only the line, the flag and the screen of one terminal may have changed. -/
structure Console.Kept (v : Fin 3) (s s' : Console) : Prop where
  others : ∀ w, w ≠ v → Console.Alike w s' s
  keyboardBuffer : s'.keyboardBuffer = s.keyboardBuffer
  readFlag : s'.readFlag = s.readFlag

/-- Two calls of a driver on terminal `v` end alike, and the first changes nothing else. -/
def Console.BothAlike (v : Fin 3) (s : Console) (r r' : Except Fault Console) : Prop :=
  ∃ s' p', r = .ok s' ∧ r' = .ok p' ∧ Console.Alike v s' p' ∧ Console.Kept v s s'

/-- The console while a terminal is displayed, with the flags that the modifier keys left. -/
abbrev Console.on (s : Console) (v : Fin 3) (mods : Modifiers) : Console := { s with currTerm := v, mods }

/-- What a key leaves on its terminal. -/
structure Console.Put (v : Fin 3) (s : Console) (d : Display) (l : LineBuffer) (enter : Bool) (s' : Console) :
    Prop where
  display : s'.display = d
  line : s'.line = Function.update s.line v l
  enterFlag : s'.enterFlag = Function.update s.enterFlag v enter
  keyboardBuffer : s'.keyboardBuffer = s.keyboardBuffer
  readFlag : s'.readFlag = s.readFlag

section Pairs

variable {v : Fin 3} {s p s' p' : Console} {d e : Display} {mods : Modifiers}

theorem Console.Alike.refl (t : Fin 3) (s : Console) : Console.Alike t s s := ⟨Display.Agree.refl t _, rfl, rfl⟩

theorem Console.Alike.symm {t : Fin 3} (h : Console.Alike t s p) : Console.Alike t p s :=
  ⟨⟨h.display.cursor.symm, fun addr haddr => (h.display.page addr haddr).symm⟩, h.line.symm, h.enterFlag.symm⟩

theorem Console.Alike.trans {t : Fin 3} {q : Console} (h : Console.Alike t s p) (h' : Console.Alike t p q) :
    Console.Alike t s q :=
  ⟨h.display.trans h'.display, h.line.trans h'.line, h.enterFlag.trans h'.enterFlag⟩

/-- Keeping everything else. -/
theorem Console.Put.kept {l : LineBuffer} {enter : Bool} (hput : Console.Put v s d l enter s')
    (hdisplay : Display.Kept v s.display d) : Console.Kept v s s' := by
  refine ⟨fun w hw => ⟨?_, ?_, ?_⟩, hput.keyboardBuffer, hput.readFlag⟩
  · rw [hput.display]
    exact hdisplay.agree hw
  · rw [hput.line, Function.update_of_ne hw]
  · rw [hput.enterFlag, Function.update_of_ne hw]

/-- The same left on both consoles. -/
theorem Console.Put.alike {l : LineBuffer} {enter : Bool} (hput : Console.Put v s d l enter s')
    (hput' : Console.Put v p e l enter p') (hdisplay : Display.Agree v d e) : Console.Alike v s' p' := by
  refine ⟨?_, ?_, ?_⟩
  · rw [hput.display, hput'.display]
    exact hdisplay
  · rw [hput.line, hput'.line, Function.update_self, Function.update_self]
  · rw [hput.enterFlag, hput'.enterFlag, Function.update_self, Function.update_self]

/-- Both at once. -/
theorem Console.Put.bothAlike {l : LineBuffer} {enter : Bool} (hput : Console.Put v s d l enter s')
    (hput' : Console.Put v p e l enter p') (hpaired : Display.Paired v s.display p.display d e) :
    Console.BothAlike v s (.ok s') (.ok p') :=
  ⟨s', p', rfl, rfl, hput.alike hput' hpaired.agree, hput.kept hpaired.kept⟩

/-- A character echoed on both consoles. -/
theorem Console.Alike.echo (h : Console.Alike v s p) (hrange : s.display.InRange) (mods : Modifiers)
    (c : UInt8) (n : ℕ) :
    ∃ d e, (s.on v mods).echo c n = .ok { s.on v mods with display := d } ∧
      (p.on v mods).echo c n = .ok { p.on v mods with display := e } ∧
      Display.Paired v s.display p.display d e := by
  induction n generalizing s p with
  | zero => exact ⟨s.display, p.display, rfl, rfl, h.display.paired⟩
  | succ n ih =>
    obtain ⟨d, e, hd, he, hpaired⟩ := h.display.putcKeyboard (hrange v) c
    obtain ⟨d₁, hd₁, hrange₁⟩ := hrange.putcKeyboard v c
    obtain rfl : d = d₁ := Except.ok.inj (hd.symm.trans hd₁)
    have hnext : Console.Alike v { s with display := d } { p with display := e } :=
      ⟨hpaired.agree, h.line, h.enterFlag⟩
    obtain ⟨d', e', hd', he', hrest⟩ := ih hnext hrange₁
    refine ⟨d', e', ?_, ?_, hpaired.trans hrest⟩
    · rw [Console.echo, show putcKeyboard (s.on v mods).currTerm c (s.on v mods).display = .ok d from hd]
      exact hd'
    · rw [Console.echo, show putcKeyboard (p.on v mods).currTerm c (p.on v mods).display = .ok e from he]
      exact he'

/-- A key that raises the Enter flag. -/
theorem Console.put_enter (s : Console) (v : Fin 3) (mods : Modifiers) (d : Display) (l : LineBuffer) :
    Console.Put v s d l true (Console.setLine
      { s.on v mods with display := d, enterFlag := Function.update (s.on v mods).enterFlag v true } l) :=
  ⟨rfl, rfl, rfl, rfl, rfl⟩

/-- Enter. -/
theorem Console.Alike.keyEnter (h : Console.Alike v s p) (hgood : s.Good) :
    Console.BothAlike v s (s.on v mods).keyEnter (p.on v mods).keyEnter := by
  obtain ⟨d, e, hd, he, hpaired⟩ := h.echo hgood.display mods (keyboardChar ENTER false) 1
  obtain ⟨l, hl, -⟩ := (hgood.line v).pushBelow le_rfl (keyboardChar ENTER false)
  have hl' := hl
  rw [h.line] at hl'
  rw [Console.keyEnter_eq hd hl, Console.keyEnter_eq he hl']
  exact (s.put_enter v mods d _).bothAlike (p.put_enter v mods e _) hpaired

/-- A key that leaves the Enter flag. -/
theorem Console.put_line (s : Console) (v : Fin 3) (mods : Modifiers) (d : Display) (l : LineBuffer) :
    Console.Put v s d l (s.enterFlag v) (Console.setLine { s.on v mods with display := d } l) :=
  ⟨rfl, rfl, (Function.update_eq_self v s.enterFlag).symm, rfl, rfl⟩

/-- The same line and screen left on both consoles. -/
theorem Console.Alike.setLine (h : Console.Alike v s p) (mods : Modifiers) {l l' : LineBuffer} (hl : l = l')
    (hpaired : Display.Paired v s.display p.display d e) :
    Console.BothAlike v s (.ok (Console.setLine { s.on v mods with display := d } l))
      (.ok (Console.setLine { p.on v mods with display := e } l')) := by
  subst hl
  have hput := s.put_line v mods d l
  rw [h.enterFlag] at hput
  exact hput.bothAlike (p.put_line v mods e l) hpaired

/-- Tab. -/
theorem Console.Alike.keyTab (h : Console.Alike v s p) (hgood : s.Good) :
    Console.BothAlike v s (s.on v mods).keyTab (p.on v mods).keyTab := by
  obtain ⟨d, e, hd, he, hpaired⟩ := h.echo hgood.display mods ASCII_SPACE 4
  by_cases hroom : (s.line v).bufIdx < KB_BUFFER_SIZE - 1
  · obtain ⟨l, hl, -⟩ := (hgood.line v).pushBelow belowCapacity (keyboardChar TAB true)
    have hl' := hl
    have hroom' := hroom
    rw [h.line] at hl' hroom'
    rw [Console.keyTab_eq hd hroom hl, Console.keyTab_eq he hroom' hl']
    exact h.setLine mods rfl hpaired
  · have hroom' := hroom
    rw [h.line] at hroom'
    rw [Console.keyTab_full hd hroom, Console.keyTab_full he hroom']
    refine h.setLine mods ?_ hpaired
    exact congrArg (fun l : LineBuffer => { l with numChar := l.numChar + 4 }) h.line

/-- Backspace, where the unused `keyboard_buffer` is the same. -/
theorem Console.Alike.keyBackspace (h : Console.Alike v s p) (hgood : s.Good)
    (hbuffer : s.keyboardBuffer = p.keyboardBuffer) :
    Console.BothAlike v s (s.on v mods).keyBackspace (p.on v mods).keyBackspace := by
  by_cases hcount : (s.line v).numChar > 0
  · have hcount' := hcount
    have herase : (p.on v mods).eraseCount = (s.on v mods).eraseCount :=
      congrArg₂ (fun (b : ℤ → UInt8) (l : LineBuffer) => if l.bufIdx > 0 ∧ b (l.bufIdx - 1) = ASCII_TAB then 4 else 1)
        hbuffer.symm h.line.symm
    rw [h.line] at hcount'
    obtain ⟨d, e, hd, he, hpaired⟩ :=
      h.echo hgood.display mods (keyboardChar BACKSPACE false) (s.on v mods).eraseCount
    rw [← herase] at he
    rw [Console.keyBackspace_eq hd hcount, Console.keyBackspace_eq he hcount']
    refine h.setLine mods ?_ hpaired
    exact congrArg (fun l : LineBuffer => { l with bufIdx := l.bufIdx - 1, numChar := l.numChar - 1 }) h.line
  · have hcount' := hcount
    rw [h.line] at hcount'
    rw [Console.keyBackspace_none hcount, Console.keyBackspace_none hcount']
    exact ⟨_, _, rfl, rfl, ⟨h.display, h.line, h.enterFlag⟩, fun _ _ => ⟨Display.Agree.refl _ _, rfl, rfl⟩, rfl, rfl⟩

/-- Any other key. -/
theorem Console.Alike.keyChar (h : Console.Alike v s p) (hgood : s.Good) (keyPress : UInt8) :
    Console.BothAlike v s ((s.on v mods).keyChar keyPress) ((p.on v mods).keyChar keyPress) := by
  obtain ⟨d, e, hd, he, hpaired⟩ := h.echo hgood.display (mods.select keyPress)
    (keyboardChar keyPress (mods.select keyPress).capital) 1
  obtain ⟨l, hl, -⟩ := (hgood.line v).pushBelow belowCapacity
    (keyboardChar keyPress (mods.select keyPress).capital)
  have hl' := hl
  rw [h.line] at hl'
  have hs := Console.keyChar_eq (s := s.on v mods) hd hl
  have hp := Console.keyChar_eq (s := p.on v mods) he hl'
  rw [hs, hp]
  exact h.setLine (mods.select keyPress) rfl hpaired

/-- The keys that edit the line. -/
theorem Console.Alike.keyStroke (h : Console.Alike v s p) (hgood : s.Good)
    (hbuffer : s.keyboardBuffer = p.keyboardBuffer) (keyPress : UInt8) :
    Console.BothAlike v s ((s.on v mods).keyStroke keyPress) ((p.on v mods).keyStroke keyPress) := by
  unfold Console.keyStroke
  split_ifs
  · exact h.keyEnter hgood
  · exact h.keyBackspace hgood hbuffer
  · exact h.keyTab hgood
  · exact h.keyChar hgood keyPress

/-- What Ctrl+L does. -/
theorem Console.keyClear_eq (s : Console) (v : Fin 3) (mods : Modifiers) :
    (s.on v mods).keyClear = Console.setLine { s.on v mods with display := clearScreen v s.display }
      { s.line v with numChar := 0, bufIdx := if s.readFlag then (s.line v).bufIdx else 0 } := by
  simp only [Console.keyClear, Console.setLine]

/-- Ctrl+L, when both consoles clear the typed characters, neither does, or there are none. -/
theorem Console.Alike.keyClear (h : Console.Alike v s p)
    (hflag : s.readFlag = p.readFlag ∨ (s.line v).bufIdx = 0) :
    Console.BothAlike v s (.ok (s.on v mods).keyClear) (.ok (p.on v mods).keyClear) := by
  rw [Console.keyClear_eq, Console.keyClear_eq]
  refine h.setLine mods ?_ h.display.clearScreen
  have hcleared : (if s.readFlag then (s.line v).bufIdx else 0) = if p.readFlag then (p.line v).bufIdx else 0 := by
    rw [← h.line]
    rcases hflag with heq | hempty
    · rw [heq]
    · rw [hempty, ite_self, ite_self]
  exact congrArg₂ (fun (l : LineBuffer) (i : ℤ) => { l with numChar := 0, bufIdx := i }) h.line hcleared

/-- A call that leaves the line and the screen. -/
theorem Console.Alike.quiet (h : Console.Alike v s p) (mods : Modifiers) :
    Console.BothAlike v s (.ok (s.on v mods)) (.ok (p.on v mods)) := by
  refine ⟨_, _, rfl, rfl, ⟨h.display, h.line, h.enterFlag⟩, fun w _ => ?_, rfl, rfl⟩
  exact ⟨Display.Agree.refl w s.display, rfl, rfl⟩

/-- A terminal switch moves the hardware cursor. -/
theorem Console.Alike.switchTo (h : Console.Alike v s p) (mods : Modifiers) (termId : Fin 3) :
    Console.BothAlike v s (.ok ((s.on v mods).switchTo termId)) (.ok ((p.on v mods).switchTo termId)) := by
  unfold Console.switchTo
  dsimp only
  by_cases hsame : termId = v
  · rw [if_pos hsame, if_pos hsame]
    exact h.quiet mods
  · rw [if_neg hsame, if_neg hsame]
    have hmoved := h.display.updateCursor termId termId
    refine ⟨_, _, rfl, rfl, ⟨hmoved.agree, h.line, h.enterFlag⟩, fun w hw => ?_, rfl, rfl⟩
    exact ⟨hmoved.kept.agree hw, rfl, rfl⟩

/-- The part of the handler after the function keys. -/
theorem Console.Alike.keyPressed (h : Console.Alike v s p) (hgood : s.Good)
    (hbuffer : s.keyboardBuffer = p.keyboardBuffer) {keyPress : UInt8}
    (hclear : mods.ctrlFlag = true → keyPress = L_PRESS → s.readFlag = p.readFlag ∨ (s.line v).bufIdx = 0) :
    Console.BothAlike v s (((s.on v mods).keyPressed keyPress).map Prod.fst)
      (((p.on v mods).keyPressed keyPress).map Prod.fst) := by
  unfold Console.keyPressed
  dsimp only
  generalize (if keyPress = F1 then (0 : Fin 3) else if keyPress = F2 then 1 else 2) = termId
  split_ifs with halt hkey hctrl hhalt
  · exact h.switchTo mods _
  · exact h.keyClear (hclear hctrl.1 hctrl.2)
  · exact h.quiet mods
  · obtain ⟨s', p', hs', hp', halike⟩ : Console.BothAlike v s ((s.on v mods).keyStroke keyPress)
        ((p.on v mods).keyStroke keyPress) := h.keyStroke hgood hbuffer keyPress
    exact ⟨s', p', by rw [hs']; rfl, by rw [hp']; rfl, halike⟩
  · exact h.quiet mods

/-- The whole handler. -/
theorem Console.Alike.keyboardHandler (h : Console.Alike v s p) (hgood : s.Good)
    (hbuffer : s.keyboardBuffer = p.keyboardBuffer) {statusKey keyPress : UInt8}
    (hclear : statusKey &&& 0x1 ≠ 0 → mods.ctrlFlag = true → keyPress = L_PRESS →
      s.readFlag = p.readFlag ∨ (s.line v).bufIdx = 0) :
    Console.BothAlike v s ((keyboardHandler (s.on v mods) statusKey keyPress).map Prod.fst)
      ((keyboardHandler (p.on v mods) statusKey keyPress).map Prod.fst) := by
  unfold OsKernel.keyboardHandler
  dsimp only
  by_cases hstatus : statusKey &&& 0x1 = 0
  · rw [if_pos hstatus, if_pos hstatus]
    exact h.quiet mods
  rw [if_neg hstatus, if_neg hstatus]
  by_cases hunknown : keyPress = UNKNOWN ∨ keyPress = KEYPAD
  · rw [if_pos hunknown, if_pos hunknown]
    exact h.quiet mods
  rw [if_neg hunknown, if_neg hunknown]
  by_cases hfunction : (mods.checkFunctionKey keyPress).1 = true
  · rw [if_pos hfunction, if_pos hfunction]
    exact h.quiet (mods.checkFunctionKey keyPress).2
  · rw [if_neg hfunction, if_neg hfunction, Modifiers.checkFunctionKey_snd (Bool.eq_false_iff.mpr hfunction)]
    exact h.keyPressed hgood hbuffer (hclear hstatus)

end Pairs

/-- What happens to a terminal: a key while it is displayed, with the flags that the modifier keys left,
one half of a read by its process, or a write by its process. -/
inductive TerminalEvent where
  | key (v : Fin 3) (mods : Modifiers) (statusKey keyPress : UInt8)
  | readStart (v : Fin 3)
  | readFinish (v : Fin 3) (nbytes : ℤ)
  | write (v currTerm : Fin 3) (buf : ℕ → UInt8) (nbytes : ℤ)

/-- The terminal it happens to. -/
def TerminalEvent.terminal : TerminalEvent → Fin 3
  | .key v _ _ _ | .readStart v | .readFinish v _ | .write v _ _ _ => v

/-- The events of one terminal. -/
def TerminalEvent.isOf (u : Fin 3) (e : TerminalEvent) : Bool := e.terminal = u

/-- One event; `none` is a fault. -/
def terminalStep (s : Console) : TerminalEvent → Option Console
  | .key v mods statusKey keyPress => consoleStep (s.on v mods) (.key statusKey keyPress)
  | .readStart v => consoleStep s (.readStart v)
  | .readFinish v nbytes => consoleStep s (.readFinish v nbytes)
  | .write v currTerm buf nbytes =>
    (terminalWrite currTerm v buf nbytes s.display).toOption.map fun r => { s with display := r.2 }

/-- `read_flag` after an event, from its value before. -/
def TerminalEvent.readFlag (s : Console) (flag : Bool) : TerminalEvent → Bool
  | .readStart _ => true
  | .readFinish v _ => if s.enterFlag v then false else flag
  | .key _ _ _ _ | .write _ _ _ _ => flag

/-- A Ctrl+L finds `read_flag` at a given value, or nothing typed. -/
def ClearsAs (s : Console) (flag : Bool) : TerminalEvent → Prop
  | .key v mods statusKey keyPress =>
    statusKey &&& 0x1 ≠ 0 → mods.ctrlFlag = true → keyPress = L_PRESS →
      s.readFlag = flag ∨ (s.line v).bufIdx = 0
  | _ => True

/-- A Backspace that has a counted character to delete also has a stored one. -/
def ErasesStored (s : Console) : TerminalEvent → Prop
  | .key v mods statusKey keyPress => BackspaceHasChar (s.on v mods) (.key statusKey keyPress)
  | _ => True

/-- A step, with `read_flag` as the events of all terminals but `u` would have left it. -/
def isolationStep (u : Fin 3) (s : Console × Bool) (e : TerminalEvent) : Option (Console × Bool) :=
  (terminalStep s.1 e).map fun s' => (s', if e.terminal = u then s.2 else e.readFlag s.1 s.2)

/-- Backspace erases stored characters, and a Ctrl+L of any terminal but `u` finds `read_flag` as the
reads of all terminals but `u` left it, or nothing typed. -/
def Isolated (u : Fin 3) (s : Console × Bool) (e : TerminalEvent) : Prop :=
  ErasesStored s.1 e ∧ (e.terminal ≠ u → ClearsAs s.1 s.2 e)

instance (s : Console) (flag : Bool) : ∀ e, Decidable (ClearsAs s flag e)
  | .key v mods statusKey keyPress =>
    inferInstanceAs (Decidable (statusKey &&& 0x1 ≠ 0 → mods.ctrlFlag = true → keyPress = L_PRESS →
      s.readFlag = flag ∨ (s.line v).bufIdx = 0))
  | .readStart _ => isTrue trivial
  | .readFinish _ _ => isTrue trivial
  | .write _ _ _ _ => isTrue trivial

instance (s : Console) : ∀ e, Decidable (ErasesStored s e)
  | .key v _ statusKey keyPress =>
    inferInstanceAs (Decidable (statusKey &&& 0x1 ≠ 0 → keyPress = BACKSPACE →
      0 < (s.line v).numChar → 0 < (s.line v).bufIdx))
  | .readStart _ => isTrue trivial
  | .readFinish _ _ => isTrue trivial
  | .write _ _ _ _ => isTrue trivial

instance (u : Fin 3) (s : Console × Bool) (e : TerminalEvent) : Decidable (Isolated u s e) :=
  inferInstanceAs (Decidable (_ ∧ _))

/-- What an event leaves: the other terminals, and `read_flag` by its rule. -/
structure Console.Stepped (e : TerminalEvent) (s s' : Console) : Prop where
  others : ∀ w, w ≠ e.terminal → Console.Alike w s' s
  keyboardBuffer : s'.keyboardBuffer = s.keyboardBuffer
  readFlag : s'.readFlag = e.readFlag s s.readFlag

/-- An event with the same effect on two consoles. -/
def BothStepped (e : TerminalEvent) (s p : Console) : Prop :=
  ∃ s' p', terminalStep s e = some s' ∧ terminalStep p e = some p' ∧ Console.Alike e.terminal s' p' ∧
    Console.Stepped e s s'

/-- The run and the run without `u` show the same of all other terminals. -/
structure IsolationAgree (u : Fin 3) (s : Console × Bool) (p : Console) : Prop where
  alike : ∀ t, t ≠ u → Console.Alike t s.1 p
  keyboardBuffer : s.1.keyboardBuffer = p.keyboardBuffer
  readFlag : p.readFlag = s.2
  good : s.1.Good
  purgedGood : p.Good

section Steps

variable {u : Fin 3} {s p s' : Console} {e : TerminalEvent}

/-- No event faults, and all keep the console good. -/
theorem Console.Good.event (h : s.Good) (herases : ErasesStored s e) :
    ∃ s', terminalStep s e = some s' ∧ s'.Good := by
  have hevent (s : Console) (h : s.Good) (e : ConsoleEvent) (he : BackspaceHasChar s e) :
      ∃ s', consoleStep s e = some s' ∧ s'.Good := by
    obtain ⟨s', hs', hrange, hiff⟩ := h.step e
    exact ⟨s', hs', hrange, hiff.mpr he⟩
  cases e with
  | key v mods statusKey keyPress => exact hevent (s.on v mods) ⟨h.display, h.line⟩ (.key statusKey keyPress) herases
  | readStart v => exact hevent s h (.readStart v) trivial
  | readFinish v nbytes => exact hevent s h (.readFinish v nbytes) trivial
  | write v currTerm buf nbytes =>
    obtain ⟨n, d, -, hd, -, -, hrange⟩ := (Display.Agree.refl v s.display).terminalWriteFrom h.display
      currTerm currTerm buf 0 0 nbytes.toNat
    refine ⟨{ s with display := d }, ?_, hrange, h.line⟩
    rw [terminalStep, terminalWrite, hd]
    rfl

/-- A key whose handler returns. -/
theorem consoleStep_key {statusKey keyPress : UInt8}
    (h : (keyboardHandler s statusKey keyPress).map Prod.fst = .ok s') :
    consoleStep s (.key statusKey keyPress) = some s' := by
  rw [consoleStep]
  cases hr : keyboardHandler s statusKey keyPress with
  | error fault =>
    rw [hr] at h
    cases h
  | ok r =>
    rw [hr] at h
    cases h
    rfl

/-- The completion of a read on two consoles. -/
theorem Console.Alike.terminalReadFinish {v : Fin 3} (h : Console.Alike v s p) (nbytes : ℤ) :
    Console.Alike v (terminalReadFinish s v nbytes).2 (terminalReadFinish p v nbytes).2 := by
  refine ⟨h.display, ?_, ?_⟩
  · simp only [OsKernel.terminalReadFinish, Function.update_self, h.line]
  · simp only [OsKernel.terminalReadFinish, Function.update_self]

/-- The completion of a read leaves the other terminals. -/
theorem terminalReadFinish_stepped (s : Console) {v : Fin 3} (nbytes : ℤ) (hflag : s.enterFlag v = true) :
    Console.Stepped (.readFinish v nbytes) s (terminalReadFinish s v nbytes).2 := by
  refine ⟨fun w hw => ⟨Display.Agree.refl w s.display, ?_, ?_⟩, rfl, (if_pos hflag).symm⟩
  · exact Function.update_of_ne hw _ _
  · exact Function.update_of_ne hw _ _

/-- The second half of a read on two consoles: both complete it, or both wait. -/
theorem Console.Alike.readFinish {v : Fin 3} (h : Console.Alike v s p) (nbytes : ℤ) :
    BothStepped (.readFinish v nbytes) s p := by
  by_cases hflag : s.enterFlag v = true
  · have hflag' := hflag
    rw [h.enterFlag] at hflag'
    exact ⟨_, _, if_pos hflag, if_pos hflag', h.terminalReadFinish nbytes, terminalReadFinish_stepped s nbytes hflag⟩
  · have hflag' := hflag
    rw [h.enterFlag] at hflag'
    refine ⟨s, p, if_neg hflag, if_neg hflag', h, fun w _ => Console.Alike.refl w s, rfl, ?_⟩
    exact (if_neg hflag).symm

/-- A write on two consoles. -/
theorem Console.Alike.write {v : Fin 3} (h : Console.Alike v s p) (hgood : s.Good) (currTerm : Fin 3)
    (buf : ℕ → UInt8) (nbytes : ℤ) : BothStepped (.write v currTerm buf nbytes) s p := by
  obtain ⟨n, d, d', hd, hd', hpaired, -⟩ := h.display.terminalWriteFrom hgood.display
    currTerm currTerm buf 0 0 nbytes.toNat
  refine ⟨{ s with display := d }, { p with display := d' }, ?_, ?_, ⟨hpaired.agree, h.line, h.enterFlag⟩,
    fun w hw => ⟨hpaired.kept.agree hw, rfl, rfl⟩, rfl, rfl⟩
  · rw [terminalStep, terminalWrite, hd]
    rfl
  · rw [terminalStep, terminalWrite, hd']
    rfl

/-- An event on two consoles that show the same of its terminal. -/
theorem Console.Alike.event (h : Console.Alike e.terminal s p) (hgood : s.Good)
    (hbuffer : s.keyboardBuffer = p.keyboardBuffer) (hclear : ClearsAs s p.readFlag e) : BothStepped e s p := by
  cases e with
  | key v mods statusKey keyPress =>
    obtain ⟨s', p', hs', hp', halike, hkept⟩ := h.keyboardHandler hgood hbuffer hclear
    exact ⟨s', p', consoleStep_key hs', consoleStep_key hp', halike, hkept.others, hkept.keyboardBuffer, hkept.readFlag⟩
  | readStart v =>
    refine ⟨_, _, rfl, rfl, ⟨h.display, h.line, h.enterFlag⟩, fun w _ => ?_, rfl, rfl⟩
    exact ⟨Display.Agree.refl w s.display, rfl, rfl⟩
  | readFinish v nbytes => exact h.readFinish nbytes
  | write v currTerm buf nbytes => exact h.write hgood currTerm buf nbytes

/-- What any event leaves. -/
theorem Console.Good.stepped (h : s.Good) (hs' : terminalStep s e = some s') : Console.Stepped e s s' := by
  have hclear : ClearsAs s s.readFlag e := by
    cases e with
    | key v mods statusKey keyPress => exact fun _ _ _ => Or.inl rfl
    | readStart v => trivial
    | readFinish v nbytes => trivial
    | write v currTerm buf nbytes => trivial
  obtain ⟨s₁, -, hs₁, -, -, hstepped⟩ := (Console.Alike.refl e.terminal s).event h rfl hclear
  cases hs₁.symm.trans hs'
  exact hstepped

/-- A stored character on one console is one on the other. -/
theorem ErasesStored.of_alike (herases : ErasesStored s e) (h : Console.Alike e.terminal s p) : ErasesStored p e := by
  cases e with
  | key v mods statusKey keyPress =>
    intro hstatus hkey hcount
    have hline : s.line v = p.line v := h.line
    have hstored := herases hstatus hkey
    dsimp only at hstored hcount ⊢
    rw [hline] at hstored
    exact hstored hcount
  | readStart v => trivial
  | readFinish v nbytes => trivial
  | write v currTerm buf nbytes => trivial

/-- `read_flag` depends on nothing but the event's own terminal. -/
theorem Console.Alike.readFlag (h : Console.Alike e.terminal s p) (flag : Bool) :
    e.readFlag p flag = e.readFlag s flag := by
  cases e with
  | readFinish v nbytes =>
    have hflag : s.enterFlag v = p.enterFlag v := h.enterFlag
    simp only [TerminalEvent.readFlag, hflag]
  | key v mods statusKey keyPress => rfl
  | readStart v => rfl
  | write v currTerm buf nbytes => rfl

/-- An event of `u` changes nothing of the others. -/
theorem IsolationAgree.hidden {r r' : Console × Bool} (h : IsolationAgree u r p) (hcond : Isolated u r e)
    (he : e.terminal = u) (hr' : isolationStep u r e = some r') : IsolationAgree u r' p := by
  obtain ⟨s', hs', hgood⟩ := h.good.event hcond.1
  have hstepped := h.good.stepped hs'
  rw [isolationStep, hs', Option.map_some, if_pos he] at hr'
  cases hr'
  refine ⟨fun t ht => ?_, hstepped.keyboardBuffer.trans h.keyboardBuffer, h.readFlag, hgood, h.purgedGood⟩
  exact (hstepped.others t (by rw [he]; exact ht)).trans (h.alike t ht)

/-- An event of another terminal, in both runs. -/
theorem IsolationAgree.visible {r r' : Console × Bool} (h : IsolationAgree u r p) (hcond : Isolated u r e)
    (he : e.terminal ≠ u) (hr' : isolationStep u r e = some r') :
    ∃ p', terminalStep p e = some p' ∧ IsolationAgree u r' p' := by
  have halike := h.alike e.terminal he
  have hclear : ClearsAs r.1 p.readFlag e := by
    rw [h.readFlag]
    exact hcond.2 he
  obtain ⟨s', p', hs', hp', hboth, hstepped⟩ := halike.event h.good h.keyboardBuffer hclear
  obtain ⟨s₁, hs₁, hgood⟩ := h.good.event hcond.1
  obtain rfl : s' = s₁ := Option.some.inj (hs'.symm.trans hs₁)
  obtain ⟨p₁, hp₁, hpurged⟩ := h.purgedGood.event (hcond.1.of_alike halike)
  obtain rfl : p' = p₁ := Option.some.inj (hp'.symm.trans hp₁)
  have hquiet := h.purgedGood.stepped hp'
  rw [isolationStep, hs', Option.map_some, if_neg he] at hr'
  cases hr'
  refine ⟨p', hp', fun t ht => ?_, ?_, ?_, hgood, hpurged⟩
  · by_cases hterminal : t = e.terminal
    · rw [hterminal]
      exact hboth
    · exact ((hstepped.others t hterminal).trans (h.alike t ht)).trans (hquiet.others t hterminal).symm
  · rw [hstepped.keyboardBuffer, hquiet.keyboardBuffer, h.keyboardBuffer]
  · rw [hquiet.readFlag, h.readFlag]
    exact halike.readFlag r.2

/-- The console part of a step. -/
theorem isolationStep_fst (u : Fin 3) (r : Console × Bool) (e : TerminalEvent) :
    (isolationStep u r e).map Prod.fst = terminalStep r.1 e := by
  rw [isolationStep, Option.map_map]
  exact Option.map_id'

end Steps

/-- In every interleaving in which each Ctrl+L of a terminal other than `u` finds `read_flag` as the reads
of those terminals left it, or nothing typed, both the run and the run without the events of `u`
complete, and every terminal but `u` ends with the same line, Enter flag, cursor and screen. -/
theorem terminals_isolated {t u : Fin 3} (htu : t ≠ u) (vmem : ℤ → UInt8) {events : List TerminalEvent}
    (hcond : Along (isolationStep u) (Isolated u) (terminalInit vmem, false) events) :
    ∃ s p, run terminalStep (terminalInit vmem) events = some s ∧
      run terminalStep (terminalInit vmem) (purge (TerminalEvent.isOf u) events) = some p ∧
      Console.Alike t s p := by
  have hgood := terminalInit_good vmem
  have hstart : IsolationAgree u (terminalInit vmem, false) (terminalInit vmem) :=
    ⟨fun t _ => Console.Alike.refl t _, rfl, rfl, hgood, hgood⟩
  have hstep (r : Console × Bool) (e : TerminalEvent) (r' : Console × Bool) (h : r.1.Good) (he : Isolated u r e)
      (hr' : isolationStep u r e = some r') : r'.1.Good := by
    obtain ⟨s', hs', hnext⟩ := h.event he.1
    rw [isolationStep, hs'] at hr'
    cases hr'
    exact hnext
  have hsome (r : Console × Bool) (e : TerminalEvent) (h : r.1.Good) (he : Isolated u r e) :
      (isolationStep u r e).isSome := by
    obtain ⟨s', hs', -⟩ := h.event he.1
    rw [isolationStep, hs']
    rfl
  obtain ⟨r, hr, -⟩ := run_isSome_of_along hstep hsome (show Console.Good _ from hgood) hcond
  have hhidden (r : Console × Bool) (p : Console) (e : TerminalEvent) (r' : Console × Bool) (h : IsolationAgree u r p)
      (hcond : Isolated u r e) (he : e.isOf u = true) (hr' : isolationStep u r e = some r') : IsolationAgree u r' p :=
    h.hidden hcond (of_decide_eq_true he) hr'
  have hvisible (r : Console × Bool) (p : Console) (e : TerminalEvent) (r' : Console × Bool) (h : IsolationAgree u r p)
      (hcond : Isolated u r e) (he : e.isOf u = false) (hr' : isolationStep u r e = some r') :
      ∃ p', terminalStep p e = some p' ∧ IsolationAgree u r' p' := h.visible hcond (of_decide_eq_false he) hr'
  obtain ⟨p, hp, hagree⟩ := run_purge hhidden hvisible hstart hcond hr
  have hview := run_view (isolationStep_fst u) (terminalInit vmem, false) events
  rw [hr] at hview
  exact ⟨r.1, p, hview.symm, hp, hagree.alike t htu⟩

/-- The flags while no modifier key is held. -/
def noModifiers : Modifiers := (terminalInit fun _ => 0).mods

/-- A read of terminal 1 completes while terminal 0 still waits in one; a character is typed on terminal 0,
and Ctrl+L pressed. -/
def clearedEvents : List TerminalEvent :=
  [.readStart 0, .readStart 1, .key 1 noModifiers 1 ENTER, .readFinish 1 128, .key 0 noModifiers 1 0x1E,
    .key 0 { noModifiers with ctrlFlag := true } 1 L_PRESS]

/-- The same keys on terminal 0 before the other read completes. -/
def waitingEvents : List TerminalEvent :=
  [.readStart 0, .readStart 1, .key 0 noModifiers 1 0x1E, .key 0 { noModifiers with ctrlFlag := true } 1 L_PRESS,
    .key 1 noModifiers 1 ENTER, .readFinish 1 128]

/-- While both reads wait, Ctrl+L on terminal 0 keeps what is typed there. -/
theorem terminals_isolated_waiting :
    ∃ s p, run terminalStep (terminalInit fun _ => 0) waitingEvents = some s ∧
      run terminalStep (terminalInit fun _ => 0) (purge (TerminalEvent.isOf 1) waitingEvents) = some p ∧
      Console.Alike 0 s p :=
  terminals_isolated (by decide) (fun _ => 0) (by decide +kernel)

/-- The typed character is lost, but it stays without the events of terminal 1. -/
theorem terminals_readFlag :
    ((run terminalStep (terminalInit fun _ => 0) clearedEvents).map fun s => (s.line 0).bufIdx) = some 0 ∧
      ((run terminalStep (terminalInit fun _ => 0) (purge (TerminalEvent.isOf 1) clearedEvents)).map fun p =>
        (p.line 0).bufIdx) = some 1 ∧
      ¬∃ s p, run terminalStep (terminalInit fun _ => 0) clearedEvents = some s ∧
        run terminalStep (terminalInit fun _ => 0) (purge (TerminalEvent.isOf 1) clearedEvents) = some p ∧
        Console.Alike 0 s p := by
  have hfull : ((run terminalStep (terminalInit fun _ => 0) clearedEvents).map fun s =>
      (s.line 0).bufIdx) = some 0 := by decide +kernel
  have hpurged : ((run terminalStep (terminalInit fun _ => 0) (purge (TerminalEvent.isOf 1) clearedEvents)).map fun p =>
      (p.line 0).bufIdx) = some 1 := by decide +kernel
  refine ⟨hfull, hpurged, ?_⟩
  rintro ⟨s, p, hs, hp, halike⟩
  rw [hs, Option.map_some] at hfull
  rw [hp, Option.map_some] at hpurged
  have hempty := Option.some.inj hfull
  rw [halike.line, Option.some.inj hpurged] at hempty
  exact absurd hempty (by decide)

end OsKernel
