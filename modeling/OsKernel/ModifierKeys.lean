import OsKernel.LineDiscipline

/-!
# Modifier keys

The driver keeps one flag for both shift keys, sets it at a press and clears it at a release, and it
tells letters from other keys by three ranges of scancodes. So it forgets a shift key that is still held
when the other one is released, and it takes two letters for other keys.
-/

namespace OsKernel

open Library

/-! ### The keys of the keyboard -/

/-- The scancodes that press or release a shift key. -/
def isShiftCode (code : UInt8) : Bool :=
  code == LEFT_SHIFT || code == RIGHT_SHIFT || code == LEFT_SHIFT_REL || code == RIGHT_SHIFT_REL

/-- The keys with a printable character: digits, letters, punctuation and the space bar. -/
def printableKeys : List UInt8 :=
  [0x02, 0x03, 0x04, 0x05, 0x06, 0x07, 0x08, 0x09, 0x0A, 0x0B, 0x0C, 0x0D,
   0x10, 0x11, 0x12, 0x13, 0x14, 0x15, 0x16, 0x17, 0x18, 0x19, 0x1A, 0x1B,
   0x1E, 0x1F, 0x20, 0x21, 0x22, 0x23, 0x24, 0x25, 0x26, 0x27, 0x28, 0x29,
   0x2B, 0x2C, 0x2D, 0x2E, 0x2F, 0x30, 0x31, 0x32, 0x33, 0x34, 0x35, 0x39]

/-- The key of a letter from a to z. -/
def typesLetter (key : UInt8) : Bool := 0x61 ≤ keyboardChar key false && keyboardChar key false ≤ 0x7A

def SPACE_BAR : UInt8 := 0x39
def Z_PRESS : UInt8 := 0x2C
def X_PRESS : UInt8 := 0x2D

/-- What a sequence of scancodes says about the keyboard: which keys are held, how often Caps Lock was
pressed, and the last scancode of a shift key. -/
structure KeyHistory where
  held : UInt8 → Bool
  capsPresses : ℕ
  lastShift : Option UInt8

namespace KeyHistory

/-- No key was pressed yet. -/
def start : KeyHistory := { held := fun _ => false, capsPresses := 0, lastShift := none }

/-- One scancode: a key is pressed by its make code, and released by the same code with the top bit. -/
def next (h : KeyHistory) (code : UInt8) : KeyHistory where
  held key := if code = key then true else if code = key ||| 0x80 then false else h.held key
  capsPresses := if code = CAPSLOCK then h.capsPresses + 1 else h.capsPresses
  lastShift := if isShiftCode code then some code else h.lastShift

variable (h : KeyHistory)

/-- A shift key is held. -/
def shiftHeld : Bool := h.held LEFT_SHIFT || h.held RIGHT_SHIFT

/-- Caps Lock was pressed an odd number of times. -/
def capsOdd : Bool := h.capsPresses % 2 == 1

/-- A letter is upper-case under a shift key or Caps Lock but not both, any other character is shifted
under a shift key. -/
def expected (key : UInt8) : UInt8 :=
  keyboardChar key (if typesLetter key then h.shiftHeld != h.capsOdd else h.shiftHeld)

/-- One shift key was released last while the other one was held. -/
def Stale : Prop :=
  (h.lastShift = some LEFT_SHIFT_REL ∧ h.held RIGHT_SHIFT = true) ∨
    (h.lastShift = some RIGHT_SHIFT_REL ∧ h.held LEFT_SHIFT = true)

instance : Decidable h.Stale := inferInstanceAs (Decidable (_ ∨ _))

/-- Where the driver gets a key right: the space bar always, z and x when a forgotten shift key and Caps
Lock cancel out or there is neither, and all other keys when no shift key is forgotten. -/
def Right (key : UInt8) : Prop :=
  key = SPACE_BAR ∨ if key = Z_PRESS ∨ key = X_PRESS then h.Stale ↔ h.capsOdd = true else ¬h.Stale

/-- Another scancode changes nothing about the shift keys. -/
theorem next_of_not_shift {code : UInt8} (hcode : isShiftCode code = false) :
    (h.next code).shiftHeld = h.shiftHeld ∧ ((h.next code).Stale ↔ h.Stale) := by
  simp only [isShiftCode, Bool.or_eq_false_iff, beq_eq_false_iff_ne] at hcode
  obtain ⟨⟨⟨hleft, hright⟩, hleftRel⟩, hrightRel⟩ := hcode
  have hlast : (h.next code).lastShift = h.lastShift := by
    simp [next, isShiftCode, hleft, hright, hleftRel, hrightRel]
  have hheldLeft : (h.next code).held LEFT_SHIFT = h.held LEFT_SHIFT := by
    change (if code = LEFT_SHIFT then true else if code = LEFT_SHIFT_REL then false else _) = _
    rw [if_neg hleft, if_neg hleftRel]
  have hheldRight : (h.next code).held RIGHT_SHIFT = h.held RIGHT_SHIFT := by
    change (if code = RIGHT_SHIFT then true else if code = RIGHT_SHIFT_REL then false else _) = _
    rw [if_neg hright, if_neg hrightRel]
  rw [shiftHeld, Stale, hlast, hheldLeft, hheldRight]
  exact ⟨rfl, Iff.rfl⟩

end KeyHistory

/-- The flags say what the driver knows: it takes the shift keys as held unless the last one was
released, and it counts Caps Lock right. -/
structure Mirrors (m : Modifiers) (h : KeyHistory) : Prop where
  shift : m.shiftFlag = (h.shiftHeld && !decide h.Stale)
  ctrl : m.ctrlFlag = h.held LEFT_CTRL
  caps : m.capslockFlag = h.capsOdd

/-- Two flag states that differ at most in `capital`. -/
def SameFlags (m m' : Modifiers) : Prop := ∃ capital, m' = { m with capital }

/-- What the handler keeps behind the function keys: every flag but `capital`, and the global buffer. -/
structure Console.Keeps (s s' : Console) : Prop where
  flags : SameFlags s.mods s'.mods
  globalBuffer : s'.keyboardBuffer = s.keyboardBuffer

section Steps

variable {m : Modifiers} {h : KeyHistory}

/-- A press of a shift key. -/
theorem Mirrors.shiftPress (hm : Mirrors m h) {code : UInt8} (hcode : code = LEFT_SHIFT ∨ code = RIGHT_SHIFT) :
    Mirrors { m with shiftFlag := true } (h.next code) := by
  rcases hcode with rfl | rfl
  · exact ⟨rfl, hm.ctrl, hm.caps⟩
  · refine ⟨?_, hm.ctrl, hm.caps⟩
    have hheld : (h.next RIGHT_SHIFT).shiftHeld = true := Bool.or_true _
    rw [hheld]
    rfl

/-- A release of a shift key. -/
theorem Mirrors.shiftRelease (hm : Mirrors m h) {code : UInt8}
    (hcode : code = LEFT_SHIFT_REL ∨ code = RIGHT_SHIFT_REL) :
    Mirrors { m with shiftFlag := false } (h.next code) := by
  -- what is still held is the other key, and the release was the last shift code
  have hflag {held : Bool} {stale : Prop} [Decidable stale] (hstale : stale ↔ held = true) :
      false = (held && !decide stale) := by
    cases held <;> simp [hstale]
  rcases hcode with rfl | rfl
  · refine ⟨hflag ?_, hm.ctrl, hm.caps⟩
    constructor
    · rintro (⟨-, hheld⟩ | ⟨hlast, -⟩)
      · exact hheld
      · exact absurd (Option.some.inj hlast) (by decide)
    · exact fun hheld => .inl ⟨rfl, hheld⟩
  · have hother : (h.next RIGHT_SHIFT_REL).shiftHeld = h.held LEFT_SHIFT := Bool.or_false _
    refine ⟨?_, hm.ctrl, hm.caps⟩
    rw [hother]
    refine hflag ?_
    constructor
    · rintro (⟨hlast, -⟩ | ⟨-, hheld⟩)
      · exact absurd (Option.some.inj hlast) (by decide)
      · exact hheld
    · exact fun hheld => .inr ⟨rfl, hheld⟩

/-- A scancode of no shift key, whose effect on the other flags is known. -/
theorem Mirrors.other (hm : Mirrors m h) {m' : Modifiers} {code : UInt8} (hcode : isShiftCode code = false)
    (hshift : m'.shiftFlag = m.shiftFlag) (hctrl : m'.ctrlFlag = (h.next code).held LEFT_CTRL)
    (hcaps : m'.capslockFlag = (h.next code).capsOdd) : Mirrors m' (h.next code) := by
  obtain ⟨hheld, hstale⟩ := h.next_of_not_shift hcode
  refine ⟨?_, hctrl, hcaps⟩
  rw [hshift, hm.shift, hheld, decide_eq_decide.mpr hstale]

/-- `check_function_key` keeps the flags and the keyboard together. -/
theorem Mirrors.next (hm : Mirrors m h) (code : UInt8) : Mirrors (m.checkFunctionKey code).2 (h.next code) := by
  unfold Modifiers.checkFunctionKey
  by_cases hpress : code = LEFT_SHIFT ∨ code = RIGHT_SHIFT
  · rw [if_pos hpress]
    exact hm.shiftPress hpress
  by_cases hrelease : code = LEFT_SHIFT_REL ∨ code = RIGHT_SHIFT_REL
  · rw [if_neg hpress, if_pos hrelease]
    exact hm.shiftRelease hrelease
  have hcode : isShiftCode code = false := by
    simp only [not_or] at hpress hrelease
    simp [isShiftCode, hpress, hrelease]
  rw [if_neg hpress, if_neg hrelease]
  split_ifs with hctrl hctrlRel halt haltRel hcaps hescape
  · subst hctrl
    exact hm.other hcode rfl rfl hm.caps
  · subst hctrlRel
    exact hm.other hcode rfl rfl hm.caps
  · subst halt
    exact hm.other hcode rfl hm.ctrl hm.caps
  · subst haltRel
    exact hm.other hcode rfl hm.ctrl hm.caps
  · subst hcaps
    refine hm.other hcode rfl hm.ctrl ?_
    change (!m.capslockFlag) = ((h.capsPresses + 1) % 2 == 1)
    rw [hm.caps, KeyHistory.capsOdd]
    rcases Nat.mod_two_eq_zero_or_one h.capsPresses with heven | hodd
    · have hnext : (h.capsPresses + 1) % 2 = 1 := by omega
      rw [heven, hnext]
      rfl
    · have hnext : (h.capsPresses + 1) % 2 = 0 := by omega
      rw [hodd, hnext]
      rfl
  all_goals
    have hheld : (h.next code).held LEFT_CTRL = h.held LEFT_CTRL := by
      change (if code = LEFT_CTRL then true else if code = LEFT_CTRL_REL then false else _) = _
      rw [if_neg hctrl, if_neg hctrlRel]
    have hodd : (h.next code).capsOdd = h.capsOdd := by
      rw [KeyHistory.capsOdd, KeyHistory.next, if_neg hcaps, KeyHistory.capsOdd]
    exact hm.other hcode rfl (hm.ctrl.trans hheld.symm) (hm.caps.trans hodd.symm)

end Steps

/-! ### Runs of the handler -/

section Runs

variable {s s' : Console}

/-- Echoing changes the display only. -/
theorem Console.echo_frame {c : UInt8} {n : ℕ} (h : s.echo c n = .ok s') : ∃ d, s' = { s with display := d } := by
  induction n generalizing s with
  | zero =>
    cases h
    exact ⟨_, rfl⟩
  | succ n ih =>
    obtain ⟨d, -, hrest⟩ := ok_of_bind h
    obtain ⟨d', rfl⟩ := ih hrest
    exact ⟨d', rfl⟩

/-- Choosing a character sets `capital` only. -/
theorem Modifiers.sameFlags_select (m : Modifiers) (keyPress : UInt8) : SameFlags m (m.select keyPress) := by
  unfold Modifiers.select
  split
  · exact ⟨_, rfl⟩
  · exact ⟨_, rfl⟩

/-- A key that edits the line. -/
theorem Console.keyStroke_keeps {keyPress : UInt8} (h : s.keyStroke keyPress = .ok s') : s.Keeps s' := by
  unfold Console.keyStroke at h
  split_ifs at h
  · obtain ⟨echoed, hecho, hrest⟩ := ok_of_bind h
    obtain ⟨d, rfl⟩ := Console.echo_frame hecho
    obtain ⟨l, -, hline⟩ := ok_of_bind hrest
    cases hline
    exact ⟨⟨s.mods.capital, rfl⟩, rfl⟩
  · by_cases hcount : (s.line s.currTerm).numChar > 0
    · rw [Console.keyBackspace, if_pos hcount] at h
      obtain ⟨echoed, hecho, hline⟩ := ok_of_bind h
      obtain ⟨d, rfl⟩ := Console.echo_frame hecho
      cases hline
      exact ⟨⟨s.mods.capital, rfl⟩, rfl⟩
    · rw [Console.keyBackspace_none hcount] at h
      cases h
      exact ⟨⟨s.mods.capital, rfl⟩, rfl⟩
  · obtain ⟨echoed, hecho, hrest⟩ := ok_of_bind h
    obtain ⟨d, rfl⟩ := Console.echo_frame hecho
    dsimp only at hrest
    split_ifs at hrest
    · obtain ⟨l, -, hline⟩ := ok_of_bind hrest
      cases hline
      exact ⟨⟨s.mods.capital, rfl⟩, rfl⟩
    · cases hrest
      exact ⟨⟨s.mods.capital, rfl⟩, rfl⟩
  · obtain ⟨echoed, hecho, hrest⟩ := ok_of_bind h
    obtain ⟨d, rfl⟩ := Console.echo_frame hecho
    obtain ⟨l, -, hline⟩ := ok_of_bind hrest
    cases hline
    exact ⟨s.mods.sameFlags_select keyPress, rfl⟩

/-- A switch of the displayed terminal. -/
theorem Console.switchTo_keeps (s : Console) (termId : Fin 3) : s.Keeps (s.switchTo termId) := by
  unfold Console.switchTo
  split
  · exact ⟨⟨s.mods.capital, rfl⟩, rfl⟩
  · exact ⟨⟨s.mods.capital, rfl⟩, rfl⟩

/-- The rest of the handler. -/
theorem Console.keyPressed_keeps {keyPress : UInt8} {r : Console × Bool} (h : s.keyPressed keyPress = .ok r) :
    s.Keeps r.1 := by
  unfold Console.keyPressed at h
  by_cases hswitch : s.mods.altFlag ∧ F1 ≤ keyPress ∧ keyPress ≤ F3
  · rw [if_pos hswitch] at h
    cases h
    exact s.switchTo_keeps _
  rw [if_neg hswitch] at h
  by_cases hkey : keyPress < KEY_SIZE ∧ keyPress > 1
  · rw [if_pos hkey] at h
    by_cases hclear : s.mods.ctrlFlag ∧ keyPress = L_PRESS
    · rw [if_pos hclear] at h
      cases h
      exact ⟨⟨s.mods.capital, rfl⟩, rfl⟩
    rw [if_neg hclear] at h
    by_cases hcancel : s.mods.ctrlFlag ∧ keyPress = C_PRESS
    · rw [if_pos hcancel] at h
      cases h
      exact ⟨⟨s.mods.capital, rfl⟩, rfl⟩
    rw [if_neg hcancel] at h
    obtain ⟨stroked, hstroke, rfl⟩ := ok_of_map h
    exact Console.keyStroke_keeps hstroke
  · rw [if_neg hkey] at h
    cases h
    exact ⟨⟨s.mods.capital, rfl⟩, rfl⟩

/-- The scancode of an event. -/
def scancode : ConsoleEvent → Option UInt8
  | .key statusKey keyPress => if statusKey &&& 0x1 = 0 then none else some keyPress
  | _ => none

/-- What the scancodes of a run say about the keyboard. -/
def keyHistory (events : List ConsoleEvent) : KeyHistory := (events.filterMap scancode).foldl KeyHistory.next .start

/-- The flags mirror the keyboard, whatever was chosen last. -/
theorem Mirrors.sameFlags {m m' : Modifiers} {h : KeyHistory} (hm : Mirrors m h) (hsame : SameFlags m m') :
    Mirrors m' h := by
  obtain ⟨capital, rfl⟩ := hsame
  exact ⟨hm.shift, hm.ctrl, hm.caps⟩

/-- An unknown scancode is no function key. -/
theorem Modifiers.checkFunctionKey_unknown (m : Modifiers) {keyPress : UInt8}
    (hkey : keyPress = UNKNOWN ∨ keyPress = KEYPAD) : m.checkFunctionKey keyPress = (false, m) := by
  rcases hkey with rfl | rfl <;> rfl

/-- A keyboard interrupt keeps the flags and the keyboard together. -/
theorem Mirrors.handler {h : KeyHistory} (hm : Mirrors s.mods h) {statusKey keyPress : UInt8} {r : Console × Bool}
    (hstatus : ¬statusKey &&& 0x1 = 0) (hr : keyboardHandler s statusKey keyPress = .ok r) :
    Mirrors r.1.mods (h.next keyPress) := by
  have hnext := hm.next keyPress
  rw [keyboardHandler, if_neg hstatus] at hr
  by_cases hunknown : keyPress = UNKNOWN ∨ keyPress = KEYPAD
  · rw [if_pos hunknown] at hr
    cases hr
    rw [s.mods.checkFunctionKey_unknown hunknown] at hnext
    exact hnext
  · rw [if_neg hunknown] at hr
    generalize s.mods.checkFunctionKey keyPress = checked at hr hnext
    obtain ⟨isFunction, mods⟩ := checked
    dsimp only at hr hnext
    split_ifs at hr
    · cases hr
      exact hnext
    · exact hnext.sameFlags (Console.keyPressed_keeps hr).flags

/-- What the event of a keyboard interrupt comes from. -/
theorem consoleStep_handler {statusKey keyPress : UInt8} (hs' : consoleStep s (.key statusKey keyPress) = some s') :
    ∃ r, keyboardHandler s statusKey keyPress = .ok r ∧ r.1 = s' := by
  rw [consoleStep] at hs'
  obtain ⟨r, hr, rfl⟩ := Option.map_eq_some_iff.mp hs'
  refine ⟨r, ?_, rfl⟩
  cases hhandler : keyboardHandler s statusKey keyPress with
  | error fault =>
    rw [hhandler] at hr
    cases hr
  | ok r' =>
    rw [hhandler] at hr
    cases hr
    rfl

/-- An event keeps the flags and the keyboard together. -/
theorem Mirrors.step {h : KeyHistory} (hm : Mirrors s.mods h) {e : ConsoleEvent} (hs' : consoleStep s e = some s') :
    Mirrors s'.mods ((scancode e).toList.foldl KeyHistory.next h) := by
  cases e with
  | readStart t =>
    cases hs'
    exact hm
  | readFinish t nbytes =>
    rw [consoleStep] at hs'
    split at hs'
    · cases hs'
      exact hm
    · cases hs'
      exact hm
  | key statusKey keyPress =>
    obtain ⟨r, hok, rfl⟩ := consoleStep_handler hs'
    by_cases hstatus : statusKey &&& 0x1 = 0
    · rw [keyboardHandler, if_pos hstatus] at hok
      cases hok
      rw [scancode, if_pos hstatus]
      exact hm
    · rw [scancode, if_neg hstatus]
      exact hm.handler hstatus hok

/-- A run keeps the flags and the keyboard together. -/
theorem Mirrors.run {h : KeyHistory} (hm : Mirrors s.mods h) {events : List ConsoleEvent}
    (hrun : Library.run consoleStep s events = some s') :
    Mirrors s'.mods ((events.filterMap scancode).foldl KeyHistory.next h) := by
  induction events generalizing s h with
  | nil =>
    cases hrun
    exact hm
  | cons e rest ih =>
    obtain ⟨m, hm', hrest⟩ := run_cons.mp hrun
    have hlast := ih (hm.step hm') hrest
    cases hcode : scancode e with
    | none =>
      rw [hcode] at hlast
      rw [List.filterMap_cons_none hcode]
      exact hlast
    | some code =>
      rw [hcode] at hlast
      rw [List.filterMap_cons_some hcode]
      exact hlast

end Runs

/-! ### Printable keys -/

/-- Echo a character, and store and count it. -/
def Console.typeChar (s : Console) (c : UInt8) : Except Fault Console := do
  let s ← s.echo c 1
  let l ← (s.line s.currTerm).pushBelow (KB_BUFFER_SIZE - 1) c
  return s.setLine { l with numChar := l.numChar + 1 }

/-- The character that the driver chooses for a key. -/
def Console.produced (s : Console) (key : UInt8) : UInt8 := keyboardChar key (s.mods.select key).capital

section Printable

variable {key : UInt8}

/-- What holds of every printable key by evaluation. -/
theorem printable_all {p : UInt8 → Bool} (hall : printableKeys.all p = true) (hkey : key ∈ printableKeys) :
    p key = true :=
  List.all_eq_true.mp hall key hkey

/-- The keys of the handler's other branches are not printable. -/
theorem printable_plain (hkey : key ∈ printableKeys) :
    key ≠ UNKNOWN ∧ key ≠ KEYPAD ∧ key ≠ ENTER ∧ key ≠ BACKSPACE ∧ key ≠ TAB ∧ key < KEY_SIZE ∧ key > 1 ∧ ¬F1 ≤ key :=
  of_decide_eq_true (printable_all (p := fun key => decide (key ≠ UNKNOWN ∧ key ≠ KEYPAD ∧ key ≠ ENTER ∧
    key ≠ BACKSPACE ∧ key ≠ TAB ∧ key < KEY_SIZE ∧ key > 1 ∧ ¬F1 ≤ key)) (by decide) hkey)

/-- No function key is printable. -/
theorem printable_not_function (hkey : key ∈ printableKeys) (m : Modifiers) : (m.checkFunctionKey key).1 = false := by
  have hcodes : key ≠ LEFT_SHIFT ∧ key ≠ RIGHT_SHIFT ∧ key ≠ LEFT_SHIFT_REL ∧ key ≠ RIGHT_SHIFT_REL ∧ key ≠ LEFT_CTRL ∧
      key ≠ LEFT_CTRL_REL ∧ key ≠ LEFT_ALT ∧ key ≠ LEFT_ALT_REL ∧ key ≠ CAPSLOCK ∧ key ≠ ESCAPE :=
    of_decide_eq_true (printable_all (p := fun key => decide (key ≠ LEFT_SHIFT ∧ key ≠ RIGHT_SHIFT ∧
      key ≠ LEFT_SHIFT_REL ∧ key ≠ RIGHT_SHIFT_REL ∧ key ≠ LEFT_CTRL ∧ key ≠ LEFT_CTRL_REL ∧ key ≠ LEFT_ALT ∧
      key ≠ LEFT_ALT_REL ∧ key ≠ CAPSLOCK ∧ key ≠ ESCAPE)) (by decide) hkey)
  simp [Modifiers.checkFunctionKey, hcodes]

/-- The ranges of the driver hold the letters but z and x. -/
theorem isLetterKey_printable (hkey : key ∈ printableKeys) :
    isLetterKey key = (typesLetter key && key != Z_PRESS && key != X_PRESS) :=
  of_decide_eq_true (printable_all (p := fun key =>
    decide (isLetterKey key = (typesLetter key && key != Z_PRESS && key != X_PRESS))) (by decide) hkey)

/-- The two characters of a key differ, the space bar apart. -/
theorem keyboardChar_inj (hkey : key ∈ printableKeys) (hspace : key ≠ SPACE_BAR) {a b : Bool} :
    keyboardChar key a = keyboardChar key b ↔ a = b := by
  have hdiffer : key = SPACE_BAR ∨ keyboardChar key false ≠ keyboardChar key true :=
    of_decide_eq_true (printable_all (p := fun key =>
      decide (key = SPACE_BAR ∨ keyboardChar key false ≠ keyboardChar key true)) (by decide) hkey)
  have hne := hdiffer.resolve_left hspace
  cases a <;> cases b <;> simp [hne, hne.symm]

/-- Without Ctrl on a letter, a printable key is typed with the character that the driver chooses. -/
theorem keyboardHandler_printable (hkey : key ∈ printableKeys) {s : Console}
    (hctrl : typesLetter key = true → s.mods.ctrlFlag = false) {statusKey : UInt8} (hstatus : statusKey &&& 0x1 ≠ 0) :
    keyboardHandler s statusKey key =
      (Console.typeChar { s with mods := s.mods.select key } (s.produced key)).map (·, false) := by
  obtain ⟨hunknown, hkeypad, henter, hback, htab, hsize, hlarge, hfkey⟩ := printable_plain hkey
  have halt : ¬(s.mods.altFlag ∧ F1 ≤ key ∧ key ≤ F3) := fun h => hfkey h.2.1
  have hcommand {command : UInt8} (hletter : typesLetter command = true) : ¬(s.mods.ctrlFlag ∧ key = command) := by
    rintro ⟨hset, rfl⟩
    rw [hctrl hletter] at hset
    cases hset
  rw [keyboardHandler_eq_keyPressed s ⟨statusKey, key, hstatus⟩ (not_or.mpr ⟨hunknown, hkeypad⟩)
      (printable_not_function hkey s.mods), Console.keyPressed, if_neg halt, if_pos ⟨hsize, hlarge⟩,
    if_neg (hcommand rfl), if_neg (hcommand rfl), Console.keyStroke, if_neg henter, if_neg hback, if_neg htab]
  rfl

/-- What the driver chooses for a key, from what the keyboard did. -/
theorem produced_eq (hkey : key ∈ printableKeys) {s : Console} {h : KeyHistory} (hm : Mirrors s.mods h) :
    s.produced key = keyboardChar key
      (if typesLetter key && key != Z_PRESS && key != X_PRESS then (h.shiftHeld && !decide h.Stale) != h.capsOdd
        else h.shiftHeld && !decide h.Stale) := by
  rw [Console.produced, Modifiers.select, isLetterKey_printable hkey, ← hm.shift, ← hm.caps]
  split
  · rfl
  · rfl

/-- A forgotten shift key is held. -/
theorem KeyHistory.Stale.shiftHeld {h : KeyHistory} (hstale : h.Stale) : h.shiftHeld = true := by
  rcases hstale with ⟨-, hright⟩ | ⟨-, hleft⟩
  · rw [KeyHistory.shiftHeld, hright, Bool.or_true]
  · rw [KeyHistory.shiftHeld, hleft, Bool.true_or]

/-- The driver's choice for a key is right exactly where the history says so. -/
theorem produced_eq_expected_iff (hkey : key ∈ printableKeys) {s : Console} {h : KeyHistory} (hm : Mirrors s.mods h) :
    s.produced key = h.expected key ↔ h.Right key := by
  rw [produced_eq hkey hm, KeyHistory.expected, KeyHistory.Right]
  by_cases hspace : key = SPACE_BAR
  · have heq (a b : Bool) : keyboardChar SPACE_BAR a = keyboardChar SPACE_BAR b := by
      cases a <;> cases b <;> rfl
    subst hspace
    exact iff_of_true (heq _ _) (.inl rfl)
  rw [keyboardChar_inj hkey hspace, or_iff_right hspace]
  by_cases hodd : key = Z_PRESS ∨ key = X_PRESS
  · have hletter : typesLetter key = true := by
      rcases hodd with rfl | rfl <;> rfl
    have hranges : (typesLetter key && key != Z_PRESS && key != X_PRESS) = false := by
      rcases hodd with rfl | rfl <;> rfl
    rw [if_pos hodd, hranges, hletter, if_neg Bool.false_ne_true, if_pos rfl]
    by_cases hstale : h.Stale
    · simp [hstale, hstale.shiftHeld]
    · cases hcaps : h.capsOdd <;> simp [hstale]
  · obtain ⟨hz, hx⟩ := not_or.mp hodd
    have hranges : (typesLetter key && key != Z_PRESS && key != X_PRESS) = typesLetter key := by
      rw [bne_iff_ne.mpr hz, bne_iff_ne.mpr hx, Bool.and_true, Bool.and_true]
    rw [if_neg hodd, hranges]
    by_cases hstale : h.Stale
    · cases typesLetter key <;> simp [hstale, hstale.shiftHeld]
    · cases typesLetter key <;> simp [hstale]

end Printable

/-- After any run of the drivers, a printable key is typed with a character that is the one its keyboard
asks for exactly where the history says so. -/
theorem modifierKeys_iff {s s' : Console} (hstart : Mirrors s.mods .start) {events : List ConsoleEvent}
    (hrun : Library.run consoleStep s events = some s') {statusKey key : UInt8} (hstatus : statusKey &&& 0x1 ≠ 0)
    (hkey : key ∈ printableKeys) (hctrl : typesLetter key = true → (keyHistory events).held LEFT_CTRL = false) :
    keyboardHandler s' statusKey key =
        (Console.typeChar { s' with mods := s'.mods.select key } (s'.produced key)).map (·, false) ∧
      (s'.produced key = (keyHistory events).expected key ↔ (keyHistory events).Right key) := by
  have hm : Mirrors s'.mods (keyHistory events) := hstart.run hrun
  exact ⟨keyboardHandler_printable hkey (fun hletter => hm.ctrl.trans (hctrl hletter)) hstatus,
    produced_eq_expected_iff hkey hm⟩

/-- The left shift key is held with Caps Lock off. -/
def shiftedEvents : List ConsoleEvent := [.key 1 LEFT_SHIFT]

/-- An upper-case letter under the left shift key. -/
theorem modifierKeys_shifted :
    ∃ s', Library.run consoleStep (terminalInit fun _ => 0) shiftedEvents = some s' ∧
      keyboardHandler s' 1 0x1E =
        (Console.typeChar { s' with mods := s'.mods.select 0x1E } (s'.produced 0x1E)).map (·, false) ∧
      (s'.produced 0x1E = (keyHistory shiftedEvents).expected 0x1E ↔ (keyHistory shiftedEvents).Right 0x1E) :=
  ⟨_, rfl, modifierKeys_iff ⟨rfl, rfl, rfl⟩ rfl (by decide) (by decide) (fun _ => rfl)⟩

/-- Both shift keys are pressed, and the right one is released. -/
def overlappingShifts : List ConsoleEvent := [.key 1 LEFT_SHIFT, .key 1 RIGHT_SHIFT, .key 1 RIGHT_SHIFT_REL]

/-- Caps Lock is pressed and released. -/
def capsLocked : List ConsoleEvent := [.key 1 CAPSLOCK, .key 1 0xBA]

/-- The letter a under the held left shift key stays lower-case, and so does z under Caps Lock. -/
theorem modifierKeys_wrong :
    (∃ s', Library.run consoleStep (terminalInit fun _ => 0) overlappingShifts = some s' ∧
      s'.produced 0x1E ≠ (keyHistory overlappingShifts).expected 0x1E) ∧
    ∃ s', Library.run consoleStep (terminalInit fun _ => 0) capsLocked = some s' ∧
      s'.produced Z_PRESS ≠ (keyHistory capsLocked).expected Z_PRESS :=
  ⟨⟨_, rfl, by decide⟩, ⟨_, rfl, by decide⟩⟩

end OsKernel
