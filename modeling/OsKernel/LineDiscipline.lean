import OsKernel.Library.Run
import OsKernel.TypedLine

/-!
# The line discipline

An editor says which line the keys of the displayed terminal make: a key adds the character that the
handler chose for it, Tab adds a tab, Backspace takes the last character back. As long as a line fits
into `key_buffer`, a read returns that line, whatever was typed and read before.
-/

namespace OsKernel

open Library

/-- A console with the lines its completed reads returned. -/
structure ReadRun where
  console : Console
  returned : List (List UInt8)

/-- What an event returns to a reader: a read completes when the Enter flag of its terminal is up. -/
def readOutput (s : Console) : ConsoleEvent → Option (List UInt8)
  | .readFinish t nbytes => if s.enterFlag t then some (terminalReadFinish s t nbytes).1 else none
  | _ => none

/-- One event. -/
def ReadRun.step (r : ReadRun) (e : ConsoleEvent) : Option ReadRun :=
  (consoleStep r.console e).map fun console =>
    { console, returned := r.returned ++ (readOutput r.console e).toList }

/-- A keyboard interrupt with a scancode in the port. -/
structure Keystroke where
  statusKey : UInt8
  keyPress : UInt8
  full : statusKey &&& 0x1 ≠ 0

/-- A status byte with the bit set that says so. -/
theorem status_full : (1 : UInt8) &&& 0x1 ≠ 0 := by decide

/-- A key of the keyboard that the driver finds in its port. -/
def keyOf (keyPress : UInt8) : Keystroke where
  statusKey := 1
  keyPress
  full := status_full

/-- The event of a keystroke. -/
def Keystroke.event (k : Keystroke) : ConsoleEvent := .key k.statusKey k.keyPress

/-! ### The editor -/

/-- The modifier flags and the line typed so far. -/
structure Editor where
  mods : Modifiers
  line : List UInt8

namespace Editor

/-- A key that edits the line. -/
def edit (e : Editor) (keyPress : UInt8) : Editor :=
  if keyPress = BACKSPACE then { e with line := e.line.dropLast }
  else if keyPress = TAB then { e with line := e.line ++ [ASCII_TAB] }
  else
    { mods := e.mods.select keyPress
      line := e.line ++ [keyboardChar keyPress (e.mods.select keyPress).capital] }

/-- Any key: modifiers set their flags, and unknown keys and key releases do nothing. -/
def stroke (e : Editor) (keyPress : UInt8) : Editor :=
  if keyPress = UNKNOWN ∨ keyPress = KEYPAD then e
  else if (e.mods.checkFunctionKey keyPress).1 then { e with mods := (e.mods.checkFunctionKey keyPress).2 }
  else if keyPress < KEY_SIZE ∧ keyPress > 1 then e.edit keyPress
  else e

/-- A key that is no command: not Enter, Ctrl+L, Ctrl+C or a terminal switch. -/
def Types (e : Editor) (keyPress : UInt8) : Prop :=
  keyPress ≠ ENTER ∧ ¬(e.mods.ctrlFlag ∧ (keyPress = L_PRESS ∨ keyPress = C_PRESS)) ∧
    ¬(e.mods.altFlag ∧ F1 ≤ keyPress ∧ keyPress ≤ F3)

instance (e : Editor) (keyPress : UInt8) : Decidable (e.Types keyPress) :=
  inferInstanceAs (Decidable (_ ∧ ¬_ ∧ ¬_))

end Editor

/-- While a line is typed: a key, or the call of `terminal_read`. -/
inductive Typing where
  | key (k : Keystroke)
  | readStart

/-- The event on terminal `t`. -/
def Typing.event (t : Fin 3) : Typing → ConsoleEvent
  | .key k => k.event
  | .readStart => .readStart t

/-- The line after it. -/
def Typing.apply (e : Editor) : Typing → Editor
  | .key k => e.stroke k.keyPress
  | .readStart => e

/-- A round: a line is typed and entered, then a read completes, which was called before or after. -/
structure Round where
  typing : List Typing
  enter : Keystroke
  isEnter : enter.keyPress = ENTER
  readStartAfter : Bool
  nbytes : ℤ

namespace Round

/-- The events of a round on terminal `t`. -/
def events (t : Fin 3) (r : Round) : List ConsoleEvent :=
  r.typing.map (Typing.event t) ++ [r.enter.event] ++ (if r.readStartAfter then [.readStart t] else []) ++
    [.readFinish t r.nbytes]

/-- The editor when Enter is pressed. -/
def edited (mods : Modifiers) (r : Round) : Editor := r.typing.foldl Typing.apply { mods, line := [] }

/-- No key is a command, and never more than 127 characters are pending. -/
def Fits (e : Editor) : List Typing → Prop
  | [] => True
  | .key k :: rest =>
    e.Types k.keyPress ∧ (e.stroke k.keyPress).line.length ≤ 127 ∧ Fits (e.stroke k.keyPress) rest
  | .readStart :: rest => Fits e rest

instance Fits.decidable : ∀ e typing, Decidable (Fits e typing)
  | _, [] => isTrue trivial
  | e, .key k :: rest =>
    have : Decidable (Fits (e.stroke k.keyPress) rest) := Fits.decidable (e.stroke k.keyPress) rest
    inferInstanceAs (Decidable (_ ∧ _ ∧ _))
  | e, .readStart :: rest => Fits.decidable e rest

/-- What a round of an edited line returns to its read: as much of the line and its newline as was
asked for. -/
def output (mods : Modifiers) (r : Round) : List UInt8 := ((r.edited mods).line ++ [ASCII_NL]).take r.nbytes.toNat

/-- Every round fits; the modifier flags stay from round to round. -/
def AllFit (mods : Modifiers) : List Round → Prop
  | [] => True
  | r :: rest => Fits { mods, line := [] } r.typing ∧ AllFit (r.edited mods).mods rest

instance AllFit.decidable : ∀ mods rounds, Decidable (AllFit mods rounds)
  | _, [] => isTrue trivial
  | mods, r :: rest =>
    have : Decidable (AllFit (r.edited mods).mods rest) := AllFit.decidable (r.edited mods).mods rest
    inferInstanceAs (Decidable (_ ∧ _))

/-- The outputs of all rounds. -/
def outputs (mods : Modifiers) : List Round → List (List UInt8)
  | [] => []
  | r :: rest => r.output mods :: outputs (r.edited mods).mods rest

end Round

/-- The displayed terminal holds the editor's line, and no Enter is unread. -/
structure Console.Edits (s : Console) (t : Fin 3) (e : Editor) : Prop where
  curr : s.currTerm = t
  display : s.display.InRange
  mods : s.mods = e.mods
  numChar : (s.line t).numChar = e.line.length
  line : (s.line t).Editing e.line
  flag : s.enterFlag t = false

/-- The displayed terminal holds an entered line. -/
structure Console.Waits (s : Console) (t : Fin 3) (mods : Modifiers) (line : List UInt8) : Prop where
  curr : s.currTerm = t
  display : s.display.InRange
  mods : s.mods = mods
  line : (s.line t).Entered line
  flag : s.enterFlag t = true

section Keys

variable {s : Console} {t : Fin 3} {e : Editor}

/-- No key but Enter has a newline as its character. -/
theorem keyboardChar_ne_newline {keyPress : UInt8} (hkey : keyPress ≠ ENTER) (capital : Bool) :
    keyboardChar keyPress capital ≠ ASCII_NL := by
  have hall : ∀ code : Fin 256, UInt8.ofFin code ≠ ENTER →
      ∀ capital, keyboardChar (UInt8.ofFin code) capital ≠ ASCII_NL := by
    decide +kernel
  exact hall keyPress.toFin hkey capital

/-- The character that Enter stores. -/
theorem keyboardChar_enter : keyboardChar ENTER false = ASCII_NL := rfl

/-- A console with the displayed terminal's line replaced. -/
theorem Console.setLine_self (s : Console) (l : LineBuffer) : (s.setLine l).line s.currTerm = l :=
  Function.update_self ..

/-- Backspace takes back the last character of the line. -/
theorem Console.Edits.backspace (h : s.Edits t e) :
    ∃ s', s.keyBackspace = .ok s' ∧ s'.Edits t { e with line := e.line.dropLast } := by
  obtain ⟨rfl, hdisplay, hmods, hnumChar, hline, hflag⟩ := h
  by_cases hcount : (s.line s.currTerm).numChar > 0
  · obtain ⟨d, hs', hrange⟩ := Console.keyBackspace_ok hdisplay hcount
    have hne : e.line ≠ [] := by
      intro hnil
      rw [hnumChar, hnil] at hcount
      exact absurd hcount (lt_irrefl 0)
    have hlen := List.length_pos_of_ne_nil hne
    refine ⟨_, hs', rfl, hrange, hmods, ?_, ?_, hflag⟩
    · rw [Console.setLine_self _ _, List.length_dropLast]
      dsimp only
      omega
    · rw [Console.setLine_self _ _]
      exact hline.erase hne _
  · have hnil : e.line = [] := by
      apply List.eq_nil_of_length_eq_zero
      omega
    refine ⟨s, Console.keyBackspace_none hcount, rfl, hdisplay, hmods, ?_, ?_, hflag⟩
    · rw [hnumChar, hnil]
      rfl
    · rw [hnil] at hline ⊢
      exact hline

/-- Tab puts one tab on a line with room for it. -/
theorem Console.Edits.tab (h : s.Edits t e) (hroom : e.line.length < 127) :
    ∃ s', s.keyTab = .ok s' ∧ s'.Edits t { e with line := e.line ++ [ASCII_TAB] } := by
  obtain ⟨rfl, hdisplay, hmods, hnumChar, hline, hflag⟩ := h
  obtain ⟨l, hl, hcount, hpushed⟩ := hline.push hroom (show ASCII_TAB ≠ ASCII_NL by decide)
  have hlt : (s.line s.currTerm).bufIdx < KB_BUFFER_SIZE - 1 := by
    rw [hline.bufIdx, KB_BUFFER_SIZE]
    omega
  obtain ⟨d, hs', hrange⟩ := Console.keyTab_ok hdisplay hlt hl
  refine ⟨_, hs', rfl, hrange, hmods, ?_, ?_, hflag⟩
  · rw [Console.setLine_self _ _, List.length_append, List.length_singleton]
    dsimp only
    omega
  · rw [Console.setLine_self _ _]
    exact hpushed.setNumChar _

/-- Any other key puts its character on a line with room for it. -/
theorem Console.Edits.char (h : s.Edits t e) (hroom : e.line.length < 127) {keyPress : UInt8}
    (hkey : keyPress ≠ ENTER) :
    ∃ s', s.keyChar keyPress = .ok s' ∧ s'.Edits t
      { mods := e.mods.select keyPress
        line := e.line ++ [keyboardChar keyPress (e.mods.select keyPress).capital] } := by
  obtain ⟨rfl, hdisplay, hmods, hnumChar, hline, hflag⟩ := h
  rw [← hmods]
  obtain ⟨l, hl, hcount, hpushed⟩ := hline.push hroom
    (keyboardChar_ne_newline hkey (s.mods.select keyPress).capital)
  obtain ⟨d, hs', hrange⟩ := Console.keyChar_ok hdisplay hl
  refine ⟨_, hs', rfl, hrange, rfl, ?_, ?_, hflag⟩
  · rw [Console.setLine_self _ _, List.length_append, List.length_singleton]
    dsimp only
    omega
  · rw [Console.setLine_self _ _]
    exact hpushed.setNumChar _

/-- A key that edits the line. -/
theorem Console.Edits.edit (h : s.Edits t e) {keyPress : UInt8} (hkey : keyPress ≠ ENTER)
    (hfits : (e.edit keyPress).line.length ≤ 127) :
    ∃ s', s.keyStroke keyPress = .ok s' ∧ s'.Edits t (e.edit keyPress) := by
  unfold Console.keyStroke
  unfold Editor.edit at hfits ⊢
  rw [if_neg hkey]
  by_cases hback : keyPress = BACKSPACE
  · rw [if_pos hback, if_pos hback]
    exact h.backspace
  rw [if_neg hback] at hfits ⊢
  rw [if_neg hback]
  by_cases htab : keyPress = TAB
  · rw [if_pos htab, if_pos htab]
    rw [if_pos htab, List.length_append, List.length_singleton] at hfits
    exact h.tab hfits
  · rw [if_neg htab, if_neg htab]
    rw [if_neg htab, List.length_append, List.length_singleton] at hfits
    exact h.char hfits hkey

/-- The handler on a key that is no function key. -/
theorem keyboardHandler_eq_keyPressed (s : Console) (k : Keystroke)
    (hknown : ¬(k.keyPress = UNKNOWN ∨ k.keyPress = KEYPAD))
    (hfunction : (s.mods.checkFunctionKey k.keyPress).1 = false) :
    keyboardHandler s k.statusKey k.keyPress = s.keyPressed k.keyPress := by
  have hmods := Modifiers.checkFunctionKey_snd hfunction
  rw [keyboardHandler, if_neg k.full, if_neg hknown]
  generalize s.mods.checkFunctionKey k.keyPress = r at hfunction hmods
  obtain ⟨isFunction, mods⟩ := r
  dsimp only at hfunction hmods
  subst hfunction hmods
  rfl

/-- The handler on a key that is no command. -/
theorem Console.keyPressed_of_types {mods : Modifiers} {line : List UInt8} {keyPress : UInt8} (hmods : s.mods = mods)
    (htypes : Editor.Types { mods, line } keyPress) :
    s.keyPressed keyPress =
      if keyPress < KEY_SIZE ∧ keyPress > 1 then (s.keyStroke keyPress).map (·, false) else .ok (s, false) := by
  obtain ⟨-, hctrl, halt⟩ := htypes
  rw [← hmods] at hctrl halt
  have hclear : ¬(s.mods.ctrlFlag ∧ keyPress = L_PRESS) := fun hl => hctrl ⟨hl.1, Or.inl hl.2⟩
  have hcancel : ¬(s.mods.ctrlFlag ∧ keyPress = C_PRESS) := fun hc => hctrl ⟨hc.1, Or.inr hc.2⟩
  rw [Console.keyPressed, if_neg halt, if_neg hclear, if_neg hcancel]

/-- A key that is no command changes at most the flags, or it edits the line. -/
theorem consoleStep_cases (hmods : s.mods = e.mods) (k : Keystroke) (htypes : e.Types k.keyPress) :
    (∃ mods, e.stroke k.keyPress = { e with mods } ∧ consoleStep s k.event = some { s with mods }) ∨
      (e.stroke k.keyPress = e.edit k.keyPress ∧
        ∀ s', s.keyStroke k.keyPress = .ok s' → consoleStep s k.event = some s') := by
  have hstep : consoleStep s k.event = (keyboardHandler s k.statusKey k.keyPress).toOption.map Prod.fst := rfl
  rw [hstep]
  unfold Editor.stroke
  by_cases hunknown : k.keyPress = UNKNOWN ∨ k.keyPress = KEYPAD
  · refine Or.inl ⟨e.mods, if_pos hunknown, ?_⟩
    rw [keyboardHandler, if_neg k.full, if_pos hunknown, ← hmods]
    rfl
  rw [if_neg hunknown]
  by_cases hfunction : (e.mods.checkFunctionKey k.keyPress).1 = true
  · refine Or.inl ⟨_, if_pos hfunction, ?_⟩
    rw [← hmods] at hfunction ⊢
    rw [keyboardHandler, if_neg k.full, if_neg hunknown]
    generalize s.mods.checkFunctionKey k.keyPress = r at hfunction
    obtain ⟨isFunction, mods⟩ := r
    dsimp only at hfunction
    subst hfunction
    rfl
  rw [if_neg hfunction]
  rw [Bool.not_eq_true, ← hmods] at hfunction
  rw [keyboardHandler_eq_keyPressed s k hunknown hfunction, Console.keyPressed_of_types hmods htypes]
  by_cases hkey : k.keyPress < KEY_SIZE ∧ k.keyPress > 1
  · refine Or.inr ⟨if_pos hkey, fun s' hs' => ?_⟩
    rw [if_pos hkey, hs']
    rfl
  · refine Or.inl ⟨e.mods, if_neg hkey, ?_⟩
    rw [if_neg hkey, ← hmods]
    rfl

/-- A key of the line: the console holds the line that the editor makes of it. -/
theorem Console.Edits.stroke (h : s.Edits t e) (k : Keystroke) (htypes : e.Types k.keyPress)
    (hfits : (e.stroke k.keyPress).line.length ≤ 127) :
    ∃ s', consoleStep s k.event = some s' ∧ s'.Edits t (e.stroke k.keyPress) := by
  rcases consoleStep_cases h.mods k htypes with ⟨mods, hstroke, hs'⟩ | ⟨hedit, hs'⟩
  · rw [hstroke]
    exact ⟨_, hs', h.curr, h.display, rfl, h.numChar, h.line, h.flag⟩
  · rw [hedit] at hfits ⊢
    obtain ⟨s', hstroke, hedits⟩ := h.edit htypes.1 hfits
    exact ⟨s', hs' s' hstroke, hedits⟩

/-- Enter closes the line. -/
theorem keyPressed_enter (s : Console) : s.keyPressed ENTER = s.keyEnter.map (·, false) := by
  have halt : ¬(s.mods.altFlag ∧ F1 ≤ ENTER ∧ ENTER ≤ F3) := fun h => absurd h.2.1 (by decide)
  have hkey : ENTER < KEY_SIZE ∧ ENTER > 1 := by decide
  have hclear : ¬(s.mods.ctrlFlag ∧ ENTER = L_PRESS) := fun h => absurd h.2 (by decide)
  have hcancel : ¬(s.mods.ctrlFlag ∧ ENTER = C_PRESS) := fun h => absurd h.2 (by decide)
  rw [Console.keyPressed, if_neg halt, if_pos hkey, if_neg hclear, if_neg hcancel, Console.keyStroke, if_pos rfl]

/-- The handler on Enter. -/
theorem consoleStep_enter {k : Keystroke} (hkey : k.keyPress = ENTER) {s' : Console} (hs' : s.keyEnter = .ok s') :
    consoleStep s k.event = some s' := by
  have hknown : ¬(k.keyPress = UNKNOWN ∨ k.keyPress = KEYPAD) := by
    rw [hkey]
    decide
  have hfunction : (s.mods.checkFunctionKey k.keyPress).1 = false := by
    rw [hkey]
    rfl
  rw [Keystroke.event, consoleStep, keyboardHandler_eq_keyPressed s k hknown hfunction, hkey, keyPressed_enter, hs']
  rfl

/-- Enter on the typed line. -/
theorem Console.Edits.enter (h : s.Edits t e) {k : Keystroke} (hkey : k.keyPress = ENTER) :
    ∃ s', consoleStep s k.event = some s' ∧ s'.Waits t e.mods e.line ∧ (s'.line t).numChar = 0 := by
  obtain ⟨rfl, hdisplay, hmods, -, hline, -⟩ := h
  obtain ⟨l, hl, hentered⟩ := hline.enter
  rw [← keyboardChar_enter] at hl
  obtain ⟨d, hs', hrange⟩ := Console.keyEnter_ok hdisplay hl
  refine ⟨_, consoleStep_enter hkey hs', ⟨rfl, hrange, hmods, ?_, Function.update_self ..⟩, ?_⟩
  · rw [Console.setLine_self _ _]
    exact hentered.setNumChar 0
  · rw [Console.setLine_self _ _]

/-- A call of `terminal_read` changes nothing that the lines depend on. -/
theorem Console.Edits.readStart (h : s.Edits t e) : (terminalReadStart s).Edits t e :=
  ⟨h.curr, h.display, h.mods, h.numChar, h.line, h.flag⟩

theorem Console.Waits.readStart {mods : Modifiers} {line : List UInt8} (h : s.Waits t mods line) :
    (terminalReadStart s).Waits t mods line := ⟨h.curr, h.display, h.mods, h.line, h.flag⟩

/-- The completion of a read: it returns the line, and the buffer is empty. -/
theorem Console.Waits.readFinish {mods : Modifiers} {line : List UInt8} (h : s.Waits t mods line) (nbytes : ℤ) :
    readOutput s (.readFinish t nbytes) = some ((line ++ [ASCII_NL]).take nbytes.toNat) ∧
      ∃ s', consoleStep s (.readFinish t nbytes) = some s' ∧ s'.currTerm = t ∧ s'.display.InRange ∧ s'.mods = mods ∧
        (s'.line t).numChar = (s.line t).numChar ∧ (s'.line t).Editing [] ∧ s'.enterFlag t = false := by
  have hempty : ((terminalReadFinish s t nbytes).2.line t).Editing [] := by
    simp only [terminalReadFinish, Function.update_self]
    exact ⟨rfl, by decide, List.not_mem_nil, trivial⟩
  have hcount : ((terminalReadFinish s t nbytes).2.line t).numChar = (s.line t).numChar := by
    simp only [terminalReadFinish, Function.update_self]
  refine ⟨?_, _, if_pos h.flag, h.curr, h.display, h.mods, hcount, hempty, Function.update_self ..⟩
  rw [readOutput, if_pos h.flag, terminalReadFinish, h.line.read]

end Keys

section Rounds

variable {t : Fin 3}

/-- An event that returns nothing to a reader. -/
theorem ReadRun.step_quiet {r : ReadRun} {e : ConsoleEvent} {s' : Console}
    (hs' : consoleStep r.console e = some s') (hquiet : readOutput r.console e = none) :
    ReadRun.step r e = some { console := s', returned := r.returned } := by
  simp [ReadRun.step, hs', hquiet]

/-- An event that returns a line to a reader. -/
theorem ReadRun.step_output {r : ReadRun} {e : ConsoleEvent} {s' : Console} {line : List UInt8}
    (hs' : consoleStep r.console e = some s') (hline : readOutput r.console e = some line) :
    ReadRun.step r e = some { console := s', returned := r.returned ++ [line] } := by
  simp [ReadRun.step, hs', hline]

/-- The lines typed before a read completes: nothing is returned yet. -/
theorem run_typing {r : ReadRun} {e : Editor} (h : r.console.Edits t e) {typing : List Typing}
    (hfits : Round.Fits e typing) :
    ∃ console, run ReadRun.step r (typing.map (Typing.event t)) = some { console, returned := r.returned } ∧
      console.Edits t (typing.foldl Typing.apply e) := by
  induction typing generalizing r e with
  | nil => exact ⟨r.console, rfl, h⟩
  | cons typed rest ih =>
    cases typed with
    | key k =>
      obtain ⟨htypes, hlength, hrest⟩ := hfits
      obtain ⟨s', hs', hedits⟩ := h.stroke k htypes hlength
      obtain ⟨console, hrun, hlast⟩ := ih (r := { console := s', returned := r.returned }) hedits hrest
      have hstep := ReadRun.step_quiet hs' rfl
      exact ⟨console, run_cons.mpr ⟨_, hstep, hrun⟩, hlast⟩
    | readStart =>
      obtain ⟨console, hrun, hlast⟩ := ih (r := { console := terminalReadStart r.console, returned := r.returned })
        h.readStart hfits
      have hstep := r.step_quiet (e := .readStart t) rfl rfl
      exact ⟨console, run_cons.mpr ⟨_, hstep, hrun⟩, hlast⟩

/-- A round from an empty line: one read returns the edited line, and the line is empty again. -/
theorem run_round {r : ReadRun} {mods : Modifiers} (h : r.console.Edits t { mods, line := [] }) {round : Round}
    (hfits : Round.Fits { mods, line := [] } round.typing) :
    ∃ console, run ReadRun.step r (round.events t) =
        some { console, returned := r.returned ++ [round.output mods] } ∧
      console.Edits t { mods := (round.edited mods).mods, line := [] } := by
  obtain ⟨s₁, hrun₁, hedits⟩ := run_typing h hfits
  obtain ⟨s₂, hs₂, hwaits, hcount⟩ := hedits.enter round.isEnter
  obtain ⟨s₃, hrun₃, hwaits₃, hcount₃⟩ : ∃ s₃, run ReadRun.step { console := s₂, returned := r.returned }
      (if round.readStartAfter then [.readStart t] else []) = some { console := s₃, returned := r.returned } ∧
        s₃.Waits t (round.edited mods).mods (round.edited mods).line ∧ (s₃.line t).numChar = 0 := by
    split
    · exact ⟨terminalReadStart s₂, run_cons.mpr ⟨_, ReadRun.step_quiet rfl rfl, rfl⟩, hwaits.readStart, hcount⟩
    · exact ⟨s₂, rfl, hwaits, hcount⟩
  obtain ⟨houtput, s₄, hs₄, hcurr, hdisplay, hmods, hkeep, hline, hflag⟩ := hwaits₃.readFinish round.nbytes
  refine ⟨s₄, ?_, hcurr, hdisplay, hmods, by rw [hkeep, hcount₃]; rfl, hline, hflag⟩
  have henter := ReadRun.step_quiet (r := { console := s₁, returned := r.returned }) hs₂ rfl
  have hfinish := ReadRun.step_output (r := { console := s₃, returned := r.returned }) hs₄ houtput
  rw [Round.events, run_append, run_append, run_append, hrun₁]
  simp only [Option.bind_some]
  rw [run_cons.mpr ⟨_, henter, rfl⟩]
  simp only [Option.bind_some]
  rw [hrun₃]
  exact run_cons.mpr ⟨_, hfinish, rfl⟩

/-- Rounds from an empty line: their reads return the edited lines, in order. -/
theorem run_rounds {r : ReadRun} {mods : Modifiers} (h : r.console.Edits t { mods, line := [] }) {rounds : List Round}
    (hfits : Round.AllFit mods rounds) :
    ∃ console, run ReadRun.step r (rounds.flatMap (Round.events t)) =
        some { console, returned := r.returned ++ Round.outputs mods rounds } := by
  induction rounds generalizing r mods with
  | nil => exact ⟨r.console, by simp [Round.outputs]⟩
  | cons round rest ih =>
    obtain ⟨s₁, hrun, hedits⟩ := run_round h hfits.1
    obtain ⟨console, hrest⟩ := ih (r := { console := s₁, returned := r.returned ++ [round.output mods] }) hedits hfits.2
    refine ⟨console, ?_⟩
    rw [List.flatMap_cons, run_append, hrun]
    simp only [Option.bind_some]
    rw [hrest, Round.outputs, List.append_assoc]
    rfl

end Rounds

/-- From an empty line buffer without a pending Enter and a cursor on the screen, in every list of rounds
of typing that fits the buffer, the k-th read returns the first bytes of the k-th edited line and its
newline, as many as it asks for and no byte more, whatever came before. -/
theorem lineDiscipline {s : Console} {t : Fin 3} (hdisplayed : s.currTerm = t) (hdisplay : s.display.InRange)
    (hbufIdx : (s.line t).bufIdx = 0) (hnumChar : (s.line t).numChar = 0) (hflag : s.enterFlag t = false)
    {rounds : List Round} (hfits : Round.AllFit s.mods rounds) :
    ∃ console, run ReadRun.step { console := s, returned := [] } (rounds.flatMap (Round.events t)) =
      some { console, returned := Round.outputs s.mods rounds } := by
  have hedits : s.Edits t { mods := s.mods, line := [] } :=
    ⟨hdisplayed, hdisplay, rfl, hnumChar, ⟨hbufIdx, Nat.zero_le _, List.not_mem_nil, trivial⟩, hflag⟩
  exact run_rounds (r := { console := s, returned := [] }) hedits hfits

/-- A line with a Shift, a Backspace and a Tab, read whole, and a longer one, read in part. -/
def shortRounds : List Round :=
  let key (keyPress : UInt8) : Typing := .key { statusKey := 1, keyPress, full := status_full }
  let enter : Keystroke := { statusKey := 1, keyPress := ENTER, full := status_full }
  [{ typing := [key LEFT_SHIFT, key 0x1E, key LEFT_SHIFT_REL, .readStart, key 0x30, key BACKSPACE, key TAB]
     enter, isEnter := rfl, readStartAfter := false, nbytes := 128 },
   { typing := [key 0x10, key 0x10, key 0x10, key 0x10], enter, isEnter := rfl, readStartAfter := true, nbytes := 2 }]

/-- The first read returns `A` and a tab with the newline, the second the first two characters. -/
theorem lineDiscipline_shortRounds :
    ∃ console, run ReadRun.step { console := terminalInit fun _ => 0, returned := [] }
        (shortRounds.flatMap (Round.events 0)) =
      some { console, returned := [[0x41, ASCII_TAB, ASCII_NL], [0x71, 0x71]] } :=
  lineDiscipline (s := terminalInit fun _ => 0) (t := 0) rfl (terminalInit_good _).display rfl rfl rfl
    (show Round.AllFit _ shortRounds by decide)

end OsKernel
