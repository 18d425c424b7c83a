import OsKernel.Display

/-!
# The keyboard driver and the line buffer

`keyboard_handler` turns scancodes into characters of the displayed terminal's `key_buffer`;
`terminal_read` waits for the Enter flag of its own terminal and takes the line. A store outside
`key_buffer` is a fault. Where the handler calls `halt(0)`, the call is reported to the caller,
which owns the process table.
-/

namespace OsKernel

def KB_BUFFER_SIZE : ℤ := 128
def KEY_SIZE : UInt8 := 0x3B
def ESCAPE : UInt8 := 0x01
def BACKSPACE : UInt8 := 0x0E
def TAB : UInt8 := 0x0F
def ENTER : UInt8 := 0x1C
def LEFT_CTRL : UInt8 := 0x1D
def LEFT_CTRL_REL : UInt8 := 0x9D
def LEFT_SHIFT : UInt8 := 0x2A
def LEFT_SHIFT_REL : UInt8 := 0xAA
def RIGHT_SHIFT : UInt8 := 0x36
def RIGHT_SHIFT_REL : UInt8 := 0xB6
def LEFT_ALT : UInt8 := 0x38
def LEFT_ALT_REL : UInt8 := 0xB8
def CAPSLOCK : UInt8 := 0x3A
def L_PRESS : UInt8 := 0x26
def C_PRESS : UInt8 := 0x2E
def UNKNOWN : UInt8 := 0x00
def KEYPAD : UInt8 := 0x37
def F1 : UInt8 := 0x3B
def F2 : UInt8 := 0x3C
def F3 : UInt8 := 0x3D
def LETTER_BOUND1 : UInt8 := 0x10
def LETTER_BOUND2 : UInt8 := 0x19
def LETTER_BOUND3 : UInt8 := 0x1E
def LETTER_BOUND4 : UInt8 := 0x26
def LETTER_BOUND5 : UInt8 := 0x2E
def LETTER_BOUND6 : UInt8 := 0x32

/-- A key that gives two characters. -/
def charKey (plain shifted : Char) : UInt8 × UInt8 := (plain.toNat.toUInt8, shifted.toNat.toUInt8)

/-- A key without a shifted character. -/
def codeKey (code : UInt8) : UInt8 × UInt8 := (code, code)

/-- `keyboardMap[KEY_SIZE][2]`, indexed by scancode. -/
def keyboardMap : List (UInt8 × UInt8) :=
  [codeKey 0x00, codeKey 0x01, charKey '1' '!', charKey '2' '@',
   charKey '3' '#', charKey '4' '$', charKey '5' '%', charKey '6' '^',
   charKey '7' '&', charKey '8' '*', charKey '9' '(', charKey '0' ')',
   charKey '-' '_', charKey '=' '+', codeKey ASCII_BS, (ASCII_SPACE, ASCII_TAB),
   charKey 'q' 'Q', charKey 'w' 'W', charKey 'e' 'E', charKey 'r' 'R',
   charKey 't' 'T', charKey 'y' 'Y', charKey 'u' 'U', charKey 'i' 'I',
   charKey 'o' 'O', charKey 'p' 'P', (0x5B, 0x7B), (0x5D, 0x7D),
   codeKey ASCII_NL, codeKey 0x1D, charKey 'a' 'A', charKey 's' 'S',
   charKey 'd' 'D', charKey 'f' 'F', charKey 'g' 'G', charKey 'h' 'H',
   charKey 'j' 'J', charKey 'k' 'K', charKey 'l' 'L', charKey ';' ':',
   (0x27, 0x22), (0x60, 0x7E), codeKey 0x2A, (0x5C, 0x7C),
   charKey 'z' 'Z', charKey 'x' 'X', charKey 'c' 'C', charKey 'v' 'V',
   charKey 'b' 'B', charKey 'n' 'N', charKey 'm' 'M', charKey ',' '<',
   charKey '.' '>', charKey '/' '?', codeKey 0x36, codeKey 0x00,
   codeKey 0x38, codeKey ASCII_SPACE, codeKey 0x3A]

/-- `keyboardMap[keyPress][capital]` -/
def keyboardChar (keyPress : UInt8) (capital : Bool) : UInt8 :=
  let key := keyboardMap.getD keyPress.toNat (0, 0)
  if capital then key.2 else key.1

/-- The line-buffer fields of `terminal_t`. -/
structure LineBuffer where
  bufIdx : ℤ
  numChar : ℤ
  keyBuffer : ℤ → UInt8

/-- The static flags of the keyboard driver. -/
structure Modifiers where
  shiftFlag : Bool
  ctrlFlag : Bool
  altFlag : Bool
  capslockFlag : Bool
  capital : Bool

/-- What the keyboard and terminal drivers share. -/
structure Console where
  display : Display
  line : Fin 3 → LineBuffer
  currTerm : Fin 3
  enterFlag : Fin 3 → Bool
  readFlag : Bool
  keyboardBuffer : ℤ → UInt8
  mods : Modifiers

/-- `terminal_init`, with the drivers' zero-initialised globals. -/
def terminalInit (vmem : ℤ → UInt8) : Console where
  display := { cursor := fun _ => { screenX := 0, screenY := 0, prevX := fun _ => 0 }, vmem, cursorPos := 0 }
  line _ := { bufIdx := 0, numChar := 0, keyBuffer := fun _ => 0 }
  currTerm := 0
  enterFlag _ := false
  readFlag := false
  keyboardBuffer _ := 0
  mods := { shiftFlag := false, ctrlFlag := false, altFlag := false, capslockFlag := false, capital := false }

/-- `check_capital` -/
def Modifiers.checkCapital (m : Modifiers) : Modifiers :=
  { m with capital := m.shiftFlag != m.capslockFlag }

/-- `check_switch` -/
def Modifiers.checkSwitch (m : Modifiers) : Modifiers := { m with capital := m.shiftFlag }

/-- `check_function_key`: whether the key was a function key, with the flags after it. -/
def Modifiers.checkFunctionKey (m : Modifiers) (keyPress : UInt8) : Bool × Modifiers :=
  if keyPress = LEFT_SHIFT ∨ keyPress = RIGHT_SHIFT then (true, { m with shiftFlag := true })
  else if keyPress = LEFT_SHIFT_REL ∨ keyPress = RIGHT_SHIFT_REL then (true, { m with shiftFlag := false })
  else if keyPress = LEFT_CTRL then (true, { m with ctrlFlag := true })
  else if keyPress = LEFT_CTRL_REL then (true, { m with ctrlFlag := false })
  else if keyPress = LEFT_ALT then (true, { m with altFlag := true })
  else if keyPress = LEFT_ALT_REL then (true, { m with altFlag := false })
  else if keyPress = CAPSLOCK then (true, { m with capslockFlag := !m.capslockFlag })
  else if keyPress = ESCAPE then (true, m)
  else (false, m)

/-- Replace the line buffer of the displayed terminal. -/
def Console.setLine (s : Console) (l : LineBuffer) : Console :=
  { s with line := Function.update s.line s.currTerm l }

/-- `putc_keyboard` on the console, `n` times. -/
def Console.echo (s : Console) (c : UInt8) : ℕ → Except Fault Console
  | 0 => .ok s
  | n + 1 => do
    let display ← putcKeyboard s.currTerm c s.display
    Console.echo { s with display } c n

/-- `key_buffer[buf_idx] = c; buf_idx++` -/
def LineBuffer.push (l : LineBuffer) (c : UInt8) : Except Fault LineBuffer :=
  if 0 ≤ l.bufIdx ∧ l.bufIdx < KB_BUFFER_SIZE then
    .ok { l with keyBuffer := Function.update l.keyBuffer l.bufIdx c, bufIdx := l.bufIdx + 1 }
  else .error (.keyBuffer l.bufIdx)

/-- Push if `buf_idx` is below the bound. -/
def LineBuffer.pushBelow (l : LineBuffer) (bound : ℤ) (c : UInt8) : Except Fault LineBuffer :=
  if l.bufIdx < bound then l.push c else .ok l

/-- Enter stores a newline in any remaining cell, raises the flag and zeroes `num_char`. -/
def Console.keyEnter (s : Console) : Except Fault Console := do
  let c := keyboardChar ENTER false
  let s ← s.echo c 1
  let l ← (s.line s.currTerm).pushBelow KB_BUFFER_SIZE c
  let s := { s with enterFlag := Function.update s.enterFlag s.currTerm true }
  return s.setLine { l with numChar := 0 }

/-- Backspace is guarded by `num_char` and decrements both counters. The tab test looks at the
global `keyboard_buffer`, which nothing writes. -/
def Console.keyBackspace (s : Console) : Except Fault Console := do
  let l := s.line s.currTerm
  if l.numChar > 0 then
    let tab := l.bufIdx > 0 ∧ s.keyboardBuffer (l.bufIdx - 1) = ASCII_TAB
    let s ← s.echo (keyboardChar BACKSPACE false) (if tab then 4 else 1)
    return s.setLine { l with bufIdx := l.bufIdx - 1, numChar := l.numChar - 1 }
  else return s

/-- Tab echoes four spaces and stores one tab; past the capacity it counts as four. -/
def Console.keyTab (s : Console) : Except Fault Console := do
  let s ← s.echo ASCII_SPACE 4
  let l := s.line s.currTerm
  if l.bufIdx < KB_BUFFER_SIZE - 1 then
    let l ← l.push (keyboardChar TAB true)
    return s.setLine { l with numChar := l.numChar + 1 }
  else return s.setLine { l with numChar := l.numChar + 4 }

/-- The letters of the three rows. -/
def isLetterKey (keyPress : UInt8) : Bool :=
  (LETTER_BOUND1 ≤ keyPress && keyPress ≤ LETTER_BOUND2) ||
  (LETTER_BOUND3 ≤ keyPress && keyPress ≤ LETTER_BOUND4) ||
  (LETTER_BOUND5 ≤ keyPress && keyPress ≤ LETTER_BOUND6)

/-- Any other key is echoed always, stored below the capacity and counted always. -/
def Console.keyChar (s : Console) (keyPress : UInt8) : Except Fault Console := do
  let mods := if isLetterKey keyPress then s.mods.checkCapital else s.mods.checkSwitch
  let s := { s with mods }
  let c := keyboardChar keyPress mods.capital
  let s ← s.echo c 1
  let l ← (s.line s.currTerm).pushBelow (KB_BUFFER_SIZE - 1) c
  return s.setLine { l with numChar := l.numChar + 1 }

/-- What Ctrl+L does to the screen: `clear_key`, `reset_pos(0, 0)`, `update_cursor_key`. -/
def clearScreen (currTerm : Fin 3) (d : Display) : Display :=
  (resetPos currTerm 0 0 (clearKey currTerm d)).updateCursor currTerm

/-- Ctrl+L zeroes `buf_idx` only when no `terminal_read` is waiting. -/
def Console.keyClear (s : Console) : Console :=
  let l := s.line s.currTerm
  let bufIdx := if s.readFlag then l.bufIdx else 0
  { s.setLine { l with numChar := 0, bufIdx } with display := clearScreen s.currTerm s.display }

/-- `terminal_switch` as the drivers see it: the pages keep their content, the cursor moves. -/
def Console.switchTo (s : Console) (termId : Fin 3) : Console :=
  if termId = s.currTerm then s
  else { s with currTerm := termId, display := s.display.updateCursor termId }

/-- The branches of `keyboard_handler` that edit the line. -/
def Console.keyStroke (s : Console) (keyPress : UInt8) : Except Fault Console :=
  if keyPress = ENTER then s.keyEnter
  else if keyPress = BACKSPACE then s.keyBackspace
  else if keyPress = TAB then s.keyTab
  else s.keyChar keyPress

/-- The part of `keyboard_handler` after the function keys; the flag reports `halt(0)`. -/
def Console.keyPressed (s : Console) (keyPress : UInt8) : Except Fault (Console × Bool) :=
  if s.mods.altFlag ∧ F1 ≤ keyPress ∧ keyPress ≤ F3 then
    .ok (s.switchTo (if keyPress = F1 then 0 else if keyPress = F2 then 1 else 2), false)
  else if keyPress < KEY_SIZE ∧ keyPress > 1 then
    if s.mods.ctrlFlag ∧ keyPress = L_PRESS then .ok (s.keyClear, false)
    else if s.mods.ctrlFlag ∧ keyPress = C_PRESS then .ok (s, true)
    else (s.keyStroke keyPress).map (·, false)
  else .ok (s, false)

/-- `keyboard_handler`, with the status byte and the scancode it reads from the ports. -/
def keyboardHandler (s : Console) (statusKey keyPress : UInt8) : Except Fault (Console × Bool) :=
  if statusKey &&& 0x1 = 0 then .ok (s, false)
  else if keyPress = UNKNOWN ∨ keyPress = KEYPAD then .ok (s, false)
  else
    let (isFunction, mods) := s.mods.checkFunctionKey keyPress
    if isFunction then .ok ({ s with mods }, false)
    else { s with mods }.keyPressed keyPress

/-- `terminal_read` up to its waiting loop, on a non-null buffer. -/
def terminalReadStart (s : Console) : Console := { s with readFlag := true }

/-- The bytes `terminal_read` copies: up to and including a newline, at most `n`. -/
def lineBytes (keyBuffer : ℤ → UInt8) (i : ℤ) : ℕ → List UInt8
  | 0 => []
  | n + 1 =>
    if keyBuffer i = ASCII_NL then [keyBuffer i]
    else keyBuffer i :: lineBytes keyBuffer (i + 1) n

/-- `terminal_read` after its waiting loop, on terminal `t = active_term`: the returned bytes, with
the line buffer reset. -/
def terminalReadFinish (s : Console) (t : Fin 3) (nbytes : ℤ) : List UInt8 × Console :=
  let l := s.line t
  let n := (min nbytes KB_BUFFER_SIZE).toNat
  let cleared := fun i : ℤ => if 0 ≤ i ∧ i < n then 0 else l.keyBuffer i
  (lineBytes l.keyBuffer 0 n,
    { s with
      readFlag := false
      enterFlag := Function.update s.enterFlag t false
      line := Function.update s.line t { l with bufIdx := 0, keyBuffer := cleared } })

/-- What happens to the console: a keyboard interrupt, or one half of a `terminal_read`. -/
inductive ConsoleEvent where
  | key (statusKey keyPress : UInt8)
  | readStart (t : Fin 3)
  | readFinish (t : Fin 3) (nbytes : ℤ)

/-- One event; `none` is a fault. A read whose flag is not raised keeps waiting. -/
def consoleStep (s : Console) : ConsoleEvent → Option Console
  | .key statusKey keyPress => (keyboardHandler s statusKey keyPress).toOption.map Prod.fst
  | .readStart _ => some (terminalReadStart s)
  | .readFinish t nbytes =>
    if s.enterFlag t then some (terminalReadFinish s t nbytes).2 else some s

end OsKernel
