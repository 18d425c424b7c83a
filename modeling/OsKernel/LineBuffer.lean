import OsKernel.Library.Run
import OsKernel.Keyboard

/-!
# The keyboard line buffer

`buf_idx` and `num_char` follow different rules, and Backspace is guarded by one of them while it
decrements both. The stores of the handler stay inside `key_buffer` exactly as long as no
Backspace is handled with characters counted but none stored.
-/

namespace OsKernel

open Library

/-- The bounds of the buffer's index. -/
def LineBuffer.InBounds (l : LineBuffer) : Prop := 0 ≤ l.bufIdx ∧ l.bufIdx ≤ KB_BUFFER_SIZE

/-- The invariant of a good run: cursors on the screen, line buffers in bounds. -/
structure Console.Good (s : Console) : Prop where
  display : s.display.InRange
  line : ∀ t, (s.line t).InBounds

/-- The event stores only inside `key_buffer` and leaves every terminal in bounds. -/
def LineSafe (s : Console) (e : ConsoleEvent) : Prop :=
  ∃ s', consoleStep s e = some s' ∧ ∀ t, (s'.line t).InBounds

/-- A Backspace that has a counted character to delete also has a stored one. -/
def BackspaceHasChar (s : Console) : ConsoleEvent → Prop
  | .key statusKey keyPress =>
    statusKey &&& 0x1 ≠ 0 → keyPress = BACKSPACE →
      0 < (s.line s.currTerm).numChar → 0 < (s.line s.currTerm).bufIdx
  | _ => True

section Keys

variable {s : Console}

/-- Every key but Enter leaves the last cell free. -/
theorem belowCapacity : KB_BUFFER_SIZE - 1 ≤ KB_BUFFER_SIZE := by
  omega

/-- Echoing changes only the display and never faults. -/
theorem Console.echo_ok (h : s.display.InRange) (c : UInt8) (n : ℕ) :
    ∃ d, s.echo c n = .ok { s with display := d } ∧ d.InRange := by
  induction n generalizing s with
  | zero => exact ⟨s.display, rfl, h⟩
  | succ n ih =>
    obtain ⟨d, hd, hrange⟩ := h.putcKeyboard s.currTerm c
    obtain ⟨d', hd', hrange'⟩ := ih (s := { s with display := d }) hrange
    refine ⟨d', ?_, hrange'⟩
    rw [Console.echo, hd]
    exact hd'

/-- Replacing the displayed terminal's line by one in bounds keeps all in bounds. -/
theorem Console.Good.setLine (h : s.Good) {l : LineBuffer} (hl : l.InBounds) : (s.setLine l).Good := by
  refine ⟨h.display, fun t => ?_⟩
  by_cases ht : t = s.currTerm
  · subst t
    simpa [Console.setLine] using hl
  · simpa [Console.setLine, ht] using h.line t

/-- A store below a bound of at most the capacity stays inside the buffer. -/
theorem LineBuffer.InBounds.pushBelow {l : LineBuffer} (h : l.InBounds) {bound : ℤ}
    (hbound : bound ≤ KB_BUFFER_SIZE) (c : UInt8) :
    ∃ l', l.pushBelow bound c = .ok l' ∧ l'.InBounds := by
  unfold LineBuffer.pushBelow
  split
  · rename_i hlt
    have hin : 0 ≤ l.bufIdx ∧ l.bufIdx < KB_BUFFER_SIZE := ⟨h.1, by omega⟩
    refine ⟨_, if_pos hin, ?_⟩
    simp only [LineBuffer.InBounds]
    omega
  · exact ⟨l, rfl, h⟩

/-- The flags after the handler has chosen between the two characters of a key. -/
def Modifiers.select (m : Modifiers) (keyPress : UInt8) : Modifiers :=
  if isLetterKey keyPress then m.checkCapital else m.checkSwitch

section Effects

variable {d : Display} {l : LineBuffer} {keyPress : UInt8}

/-- What Enter does, when its newline is stored or not. -/
theorem Console.keyEnter_eq (hd : s.echo (keyboardChar ENTER false) 1 = .ok { s with display := d })
    (hl : (s.line s.currTerm).pushBelow KB_BUFFER_SIZE (keyboardChar ENTER false) = .ok l) :
    s.keyEnter = .ok (({ s with
      display := d, enterFlag := Function.update s.enterFlag s.currTerm true } : Console).setLine
        { l with numChar := 0 }) := by
  simp only [Console.keyEnter, hd, hl, bind, Except.bind]
  rfl

/-- What Tab does below the capacity. -/
theorem Console.keyTab_eq (hd : s.echo ASCII_SPACE 4 = .ok { s with display := d })
    (hroom : (s.line s.currTerm).bufIdx < KB_BUFFER_SIZE - 1)
    (hl : (s.line s.currTerm).pushBelow (KB_BUFFER_SIZE - 1) (keyboardChar TAB true) = .ok l) :
    s.keyTab = .ok (({ s with display := d } : Console).setLine { l with numChar := l.numChar + 1 }) := by
  rw [LineBuffer.pushBelow, if_pos hroom] at hl
  simp only [Console.keyTab, hd, hl, bind, Except.bind, if_pos hroom]
  rfl

/-- What Tab does past the capacity. -/
theorem Console.keyTab_full (hd : s.echo ASCII_SPACE 4 = .ok { s with display := d })
    (hroom : ¬(s.line s.currTerm).bufIdx < KB_BUFFER_SIZE - 1) :
    s.keyTab = .ok (({ s with display := d } : Console).setLine
      { s.line s.currTerm with numChar := (s.line s.currTerm).numChar + 4 }) := by
  simp only [Console.keyTab, hd, bind, Except.bind, if_neg hroom]
  rfl

/-- What any other key does, when its character is stored or not. -/
theorem Console.keyChar_eq
    (hd : Console.echo { s with mods := s.mods.select keyPress }
        (keyboardChar keyPress (s.mods.select keyPress).capital) 1 =
      .ok { s with mods := s.mods.select keyPress, display := d })
    (hl : (s.line s.currTerm).pushBelow (KB_BUFFER_SIZE - 1)
      (keyboardChar keyPress (s.mods.select keyPress).capital) = .ok l) :
    s.keyChar keyPress = .ok (({ s with display := d, mods := s.mods.select keyPress } : Console).setLine
      { l with numChar := l.numChar + 1 }) := by
  simp only [Modifiers.select] at hd hl
  simp only [Console.keyChar, bind, Except.bind, hd, hl]
  rfl

/-- How often Backspace is echoed. -/
def Console.eraseCount (s : Console) : ℕ :=
  if (s.line s.currTerm).bufIdx > 0 ∧ s.keyboardBuffer ((s.line s.currTerm).bufIdx - 1) = ASCII_TAB then 4 else 1

/-- What Backspace does with characters counted. -/
theorem Console.keyBackspace_eq (hd : s.echo (keyboardChar BACKSPACE false) s.eraseCount = .ok { s with display := d })
    (hcount : (s.line s.currTerm).numChar > 0) :
    s.keyBackspace = .ok (({ s with display := d } : Console).setLine
      { s.line s.currTerm with
        bufIdx := (s.line s.currTerm).bufIdx - 1
        numChar := (s.line s.currTerm).numChar - 1 }) := by
  rw [Console.eraseCount] at hd
  simp only [Console.keyBackspace, if_pos hcount, hd, bind, Except.bind]
  rfl

/-- What Backspace does with no character counted. -/
theorem Console.keyBackspace_none (hcount : ¬(s.line s.currTerm).numChar > 0) : s.keyBackspace = .ok s := by
  simp only [Console.keyBackspace, if_neg hcount]
  rfl

end Effects

/-- Enter on a display with its cursors on the screen. -/
theorem Console.keyEnter_ok (h : s.display.InRange) {l : LineBuffer}
    (hl : (s.line s.currTerm).pushBelow KB_BUFFER_SIZE (keyboardChar ENTER false) = .ok l) :
    ∃ d, s.keyEnter = .ok (({ s with
      display := d, enterFlag := Function.update s.enterFlag s.currTerm true } : Console).setLine
        { l with numChar := 0 }) ∧ d.InRange := by
  obtain ⟨d, hd, hrange⟩ := s.echo_ok h (keyboardChar ENTER false) 1
  exact ⟨d, Console.keyEnter_eq hd hl, hrange⟩

/-- Tab below the capacity. -/
theorem Console.keyTab_ok (h : s.display.InRange) {l : LineBuffer}
    (hroom : (s.line s.currTerm).bufIdx < KB_BUFFER_SIZE - 1)
    (hl : (s.line s.currTerm).pushBelow (KB_BUFFER_SIZE - 1) (keyboardChar TAB true) = .ok l) :
    ∃ d, s.keyTab = .ok (({ s with display := d } : Console).setLine { l with numChar := l.numChar + 1 }) ∧
      d.InRange := by
  obtain ⟨d, hd, hrange⟩ := s.echo_ok h ASCII_SPACE 4
  exact ⟨d, Console.keyTab_eq hd hroom hl, hrange⟩

/-- Any other key. -/
theorem Console.keyChar_ok (h : s.display.InRange) {l : LineBuffer} {keyPress : UInt8}
    (hl : (s.line s.currTerm).pushBelow (KB_BUFFER_SIZE - 1)
      (keyboardChar keyPress (s.mods.select keyPress).capital) = .ok l) :
    ∃ d, s.keyChar keyPress = .ok (({ s with display := d, mods := s.mods.select keyPress } : Console).setLine
      { l with numChar := l.numChar + 1 }) ∧ d.InRange := by
  obtain ⟨d, hd, hrange⟩ := Console.echo_ok (s := { s with mods := s.mods.select keyPress }) h
    (keyboardChar keyPress (s.mods.select keyPress).capital) 1
  exact ⟨d, Console.keyChar_eq hd hl, hrange⟩

/-- Backspace with characters counted. -/
theorem Console.keyBackspace_ok (h : s.display.InRange) (hcount : (s.line s.currTerm).numChar > 0) :
    ∃ d, s.keyBackspace = .ok (({ s with display := d } : Console).setLine
      { s.line s.currTerm with
        bufIdx := (s.line s.currTerm).bufIdx - 1
        numChar := (s.line s.currTerm).numChar - 1 }) ∧ d.InRange := by
  obtain ⟨d, hd, hrange⟩ := s.echo_ok h (keyboardChar BACKSPACE false) s.eraseCount
  exact ⟨d, Console.keyBackspace_eq hd hcount, hrange⟩

/-- Enter keeps the bounds. -/
theorem Console.Good.keyEnter (h : s.Good) : ∃ s', s.keyEnter = .ok s' ∧ s'.Good := by
  obtain ⟨l, hl, hbounds⟩ := (h.line s.currTerm).pushBelow le_rfl (keyboardChar ENTER false)
  obtain ⟨d, hs', hrange⟩ := Console.keyEnter_ok h.display hl
  have hgood : ({ s with display := d, enterFlag := Function.update s.enterFlag s.currTerm true } :
    Console).Good := ⟨hrange, h.line⟩
  exact ⟨_, hs', hgood.setLine hbounds⟩

/-- Tab keeps the bounds. -/
theorem Console.Good.keyTab (h : s.Good) : ∃ s', s.keyTab = .ok s' ∧ s'.Good := by
  have hline := h.line s.currTerm
  by_cases hroom : (s.line s.currTerm).bufIdx < KB_BUFFER_SIZE - 1
  · obtain ⟨l, hl, hbounds⟩ := hline.pushBelow belowCapacity (keyboardChar TAB true)
    obtain ⟨d, hs', hrange⟩ := Console.keyTab_ok h.display hroom hl
    have hgood : ({ s with display := d } : Console).Good := ⟨hrange, h.line⟩
    exact ⟨_, hs', hgood.setLine hbounds⟩
  · obtain ⟨d, hd, hrange⟩ := s.echo_ok h.display ASCII_SPACE 4
    have hgood : ({ s with display := d } : Console).Good := ⟨hrange, h.line⟩
    exact ⟨_, Console.keyTab_full hd hroom, hgood.setLine hline⟩

/-- Any other key keeps the bounds. -/
theorem Console.Good.keyChar (h : s.Good) (keyPress : UInt8) :
    ∃ s', s.keyChar keyPress = .ok s' ∧ s'.Good := by
  obtain ⟨l, hl, hbounds⟩ := (h.line s.currTerm).pushBelow belowCapacity
    (keyboardChar keyPress (s.mods.select keyPress).capital)
  obtain ⟨d, hs', hrange⟩ := Console.keyChar_ok h.display hl
  have hgood : ({ s with display := d, mods := s.mods.select keyPress } : Console).Good := ⟨hrange, h.line⟩
  exact ⟨_, hs', hgood.setLine hbounds⟩

/-- Backspace decrements `buf_idx` exactly when characters are counted. -/
theorem Console.Good.keyBackspace (h : s.Good) :
    ∃ s', s.keyBackspace = .ok s' ∧ s'.display.InRange ∧
      ((∀ t, (s'.line t).InBounds) ↔
        (0 < (s.line s.currTerm).numChar → 0 < (s.line s.currTerm).bufIdx)) := by
  have hline := h.line s.currTerm
  by_cases hcount : (s.line s.currTerm).numChar > 0
  · obtain ⟨d, hs', hrange⟩ := Console.keyBackspace_ok h.display hcount
    have hgood : ({ s with display := d } : Console).Good := ⟨hrange, h.line⟩
    refine ⟨_, hs', hrange, ?_⟩
    constructor
    · intro hafter _
      have hcurr := (hafter s.currTerm).1
      simp only [Console.setLine, Function.update_self] at hcurr
      omega
    · intro hstored
      have hpos := hstored hcount
      have hbounds : ({ s.line s.currTerm with
          bufIdx := (s.line s.currTerm).bufIdx - 1
          numChar := (s.line s.currTerm).numChar - 1 } : LineBuffer).InBounds := by
        have hhigh := hline.2
        simp only [LineBuffer.InBounds]
        omega
      exact (hgood.setLine hbounds).line
  · exact ⟨s, Console.keyBackspace_none hcount, h.display, fun _ hpos => absurd hpos hcount, fun _ => h.line⟩

/-- Clearing the screen puts the cursor at the left top. -/
theorem Display.InRange.clearScreen {d : Display} (h : d.InRange) (currTerm : Fin 3) :
    (clearScreen currTerm d).InRange :=
  ((h.clearKey currTerm).moveTo (t := currTerm) (by decide) (by decide)).updateCursor

/-- Ctrl+L keeps the bounds whether or not a read is waiting. -/
theorem Console.Good.keyClear (h : s.Good) : s.keyClear.Good := by
  let bufIdx := if s.readFlag then (s.line s.currTerm).bufIdx else 0
  have hcleared : ({ s.line s.currTerm with numChar := 0, bufIdx } : LineBuffer).InBounds := by
    simp only [LineBuffer.InBounds, bufIdx]
    split
    · exact h.line s.currTerm
    · decide
  exact ⟨h.display.clearScreen s.currTerm, (h.setLine hcleared).line⟩

/-- Changing the displayed terminal keeps the bounds. -/
theorem Console.Good.switchTo (h : s.Good) (termId : Fin 3) : (s.switchTo termId).Good := by
  unfold Console.switchTo
  split
  · exact h
  · exact ⟨h.display, h.line⟩

/-- The handler on one key: no fault except by the wrong Backspace. -/
theorem Console.Good.keyPressed (h : s.Good) (keyPress : UInt8) :
    ∃ r, s.keyPressed keyPress = .ok r ∧ r.1.display.InRange ∧
      ((∀ t, (r.1.line t).InBounds) ↔ (keyPress = BACKSPACE →
        0 < (s.line s.currTerm).numChar → 0 < (s.line s.currTerm).bufIdx)) := by
  have hquiet (r : Console × Bool) (hr : r.1.Good) (hkey : keyPress ≠ BACKSPACE) :
      r.1.display.InRange ∧ ((∀ t, (r.1.line t).InBounds) ↔ (keyPress = BACKSPACE →
        0 < (s.line s.currTerm).numChar → 0 < (s.line s.currTerm).bufIdx)) :=
    ⟨hr.display, fun _ heq => absurd heq hkey, fun _ => hr.line⟩
  have hstroke (r : Except Fault Console) (hr : ∃ s', r = .ok s' ∧ s'.Good) (hkey : keyPress ≠ BACKSPACE) :
      ∃ r', r.map (·, false) = .ok r' ∧ r'.1.display.InRange ∧
        ((∀ t, (r'.1.line t).InBounds) ↔ (keyPress = BACKSPACE →
          0 < (s.line s.currTerm).numChar → 0 < (s.line s.currTerm).bufIdx)) := by
    obtain ⟨s', rfl, hs'⟩ := hr
    exact ⟨(s', false), rfl, hquiet _ hs' hkey⟩
  unfold Console.keyPressed Console.keyStroke
  generalize (if keyPress = F1 then (0 : Fin 3) else if keyPress = F2 then 1 else 2) = termId
  split_ifs with halt hkey hclear hhalt henter hback htab
  · exact ⟨_, rfl, hquiet _ (h.switchTo _) (by rintro rfl; exact absurd halt.2.1 (by decide))⟩
  · exact ⟨_, rfl, hquiet _ h.keyClear (by rw [hclear.2]; decide)⟩
  · exact ⟨_, rfl, hquiet _ h (by rw [hhalt.2]; decide)⟩
  · exact hstroke _ h.keyEnter (by rw [henter]; decide)
  · obtain ⟨s', hs', hrange, hiff⟩ := h.keyBackspace
    refine ⟨(s', false), by rw [hs']; rfl, hrange, ?_⟩
    rw [hiff]
    simp [hback]
  · exact hstroke _ h.keyTab hback
  · exact hstroke _ (h.keyChar keyPress) hback
  · exact ⟨_, rfl, hquiet _ h (by rintro rfl; exact hkey ⟨by decide, by decide⟩)⟩

/-- Backspace is no function key. -/
theorem Modifiers.checkFunctionKey_backspace (m : Modifiers) : m.checkFunctionKey BACKSPACE = (false, m) := rfl

/-- A key that is no function key leaves the flags. -/
theorem Modifiers.checkFunctionKey_snd {m : Modifiers} {keyPress : UInt8}
    (h : (m.checkFunctionKey keyPress).1 = false) : (m.checkFunctionKey keyPress).2 = m := by
  unfold Modifiers.checkFunctionKey at h ⊢
  split_ifs at h ⊢
  rfl

/-- The whole handler faults on no key, and only a Backspace without a stored character leaves
the bounds. -/
theorem Console.Good.keyboardHandler (h : s.Good) (statusKey keyPress : UInt8) :
    ∃ r, keyboardHandler s statusKey keyPress = .ok r ∧ r.1.display.InRange ∧
      ((∀ t, (r.1.line t).InBounds) ↔ BackspaceHasChar s (.key statusKey keyPress)) := by
  unfold OsKernel.keyboardHandler BackspaceHasChar
  by_cases hstatus : statusKey &&& 0x1 = 0
  · exact ⟨_, if_pos hstatus, h.display, fun _ hne => absurd hstatus hne, fun _ => h.line⟩
  rw [if_neg hstatus]
  by_cases hunknown : keyPress = UNKNOWN ∨ keyPress = KEYPAD
  · refine ⟨_, if_pos hunknown, h.display, fun _ _ hkey => ?_, fun _ => h.line⟩
    subst hkey
    exact absurd hunknown (by decide)
  rw [if_neg hunknown]
  cases hfunction : s.mods.checkFunctionKey keyPress with
  | mk isFunction mods =>
    cases isFunction with
    | true =>
      refine ⟨_, rfl, h.display, fun _ _ hkey => ?_, fun _ => h.line⟩
      rw [hkey, Modifiers.checkFunctionKey_backspace] at hfunction
      cases hfunction
    | false =>
      have hgood : ({ s with mods } : Console).Good := ⟨h.display, h.line⟩
      obtain ⟨r, hr, hrange, hiff⟩ := hgood.keyPressed keyPress
      exact ⟨r, hr, hrange, hiff.trans (by simp [hstatus])⟩

end Keys

/-- Completing a read empties the line, which is in bounds. -/
theorem Console.Good.terminalReadFinish {s : Console} (h : s.Good) (t : Fin 3) (nbytes : ℤ) :
    (terminalReadFinish s t nbytes).2.Good := by
  refine ⟨h.display, fun u => ?_⟩
  by_cases hu : u = t
  · subst u
    simp only [OsKernel.terminalReadFinish, Function.update_self]
    exact ⟨le_rfl, show (0 : ℤ) ≤ 128 by decide⟩
  · simpa only [OsKernel.terminalReadFinish, Function.update_of_ne hu] using h.line u

/-- One event from a good state: the display stays good, and the bounds are kept exactly when a
Backspace finds a stored character. -/
theorem Console.Good.step {s : Console} (h : s.Good) (e : ConsoleEvent) :
    ∃ s', consoleStep s e = some s' ∧ s'.display.InRange ∧
      ((∀ t, (s'.line t).InBounds) ↔ BackspaceHasChar s e) := by
  cases e with
  | key statusKey keyPress =>
    obtain ⟨r, hr, hspec⟩ := h.keyboardHandler statusKey keyPress
    refine ⟨r.1, ?_, hspec⟩
    rw [consoleStep, hr]
    rfl
  | readStart t => exact ⟨_, rfl, h.display, fun _ => trivial, fun _ => h.line⟩
  | readFinish t nbytes =>
    by_cases hflag : s.enterFlag t
    · have hfinish := h.terminalReadFinish t nbytes
      exact ⟨_, if_pos hflag, hfinish.display, fun _ => trivial, fun _ => hfinish.line⟩
    · exact ⟨_, if_neg hflag, h.display, fun _ => trivial, fun _ => h.line⟩

/-- An event from a good state is safe exactly when a Backspace finds a stored character. -/
theorem Console.Good.lineSafe_iff {s : Console} (h : s.Good) (e : ConsoleEvent) :
    LineSafe s e ↔ BackspaceHasChar s e := by
  obtain ⟨s', hs', -, hiff⟩ := h.step e
  rw [← hiff, LineSafe, hs']
  simp

/-- A safe event leads to a good state. -/
theorem Console.Good.of_lineSafe {s s' : Console} {e : ConsoleEvent} (h : s.Good) (hsafe : LineSafe s e)
    (hs' : consoleStep s e = some s') : s'.Good := by
  obtain ⟨m, hm, hrange, hiff⟩ := h.step e
  cases hm.symm.trans hs'
  exact ⟨hrange, hiff.mpr ((h.lineSafe_iff e).mp hsafe)⟩

/-- After `terminal_init` every cursor is at the left top and every line is empty. -/
theorem terminalInit_good (vmem : ℤ → UInt8) : (terminalInit vmem).Good := by
  have hcols : (0 : ℤ) < 80 := by decide
  have hrows : (0 : ℤ) < 25 := by decide
  refine ⟨fun _ => ⟨⟨le_rfl, hcols⟩, ⟨le_rfl, hrows⟩, fun _ _ _ => ⟨le_rfl, hcols⟩⟩, fun _ => ⟨le_rfl, ?_⟩⟩
  exact show (0 : ℤ) ≤ 128 by decide

/-- Along every sequence of keys and reads, all buffer stores are in bounds and every line buffer
stays in bounds if and only if every handled Backspace with characters counted finds one stored. -/
theorem keyboard_lineSafe_iff (vmem : ℤ → UInt8) (events : List ConsoleEvent) :
    Along consoleStep LineSafe (terminalInit vmem) events ↔
      Along consoleStep BackspaceHasChar (terminalInit vmem) events :=
  along_congr (fun _ _ _ hgood => hgood.of_lineSafe) (fun _ e hgood => hgood.lineSafe_iff e)
    (terminalInit_good vmem)

/-- A character typed after Enter is counted but not stored once the read completes. -/
def overrunEvents : List ConsoleEvent :=
  [.key 1 0x1E, .key 1 ENTER, .key 1 0x30, .readFinish 0 128] ++ [.key 1 BACKSPACE]

/-- After those events `buf_idx` is negative, and the next character would be stored at index -1. -/
theorem keyboard_overrun :
    ((run consoleStep (terminalInit fun _ => 0) overrunEvents).map fun s =>
      ((s.line 0).bufIdx, (keyboardHandler s 1 0x10).toOption.isSome)) = some (-1, false) ∧
    ¬Along consoleStep LineSafe (terminalInit fun _ => 0) overrunEvents := by
  have hrun : ((run consoleStep (terminalInit fun _ => 0) overrunEvents).map fun s =>
      ((s.line 0).bufIdx, (keyboardHandler s 1 0x10).toOption.isSome)) = some (-1, false) := rfl
  refine ⟨hrun, fun hsafe => ?_⟩
  obtain ⟨s, hs, heq⟩ := Option.map_eq_some_iff.mp hrun
  obtain ⟨m, hm, hstep⟩ := run_snoc.mp hs
  obtain ⟨s', hs', hbounds⟩ := hsafe.last hm
  cases hstep.symm.trans hs'
  have hpos := (hbounds 0).1
  rw [(Prod.mk.inj heq).1] at hpos
  exact absurd hpos (by decide)

end OsKernel
