import OsKernel.LineDiscipline

/-!
# Typing ahead of a read

The keyboard fills one line for the next read. A key typed behind an unread Enter is echoed and
stored, but the read that takes the line also clears the buffer, so it is dropped. Typed text is lost
in no other way.
-/

namespace OsKernel

open Library

/-- A key of the displayed terminal, or one half of a read by its process. -/
inductive TypeEvent where
  | key (k : Keystroke)
  | readStart
  | readFinish (nbytes : ℤ)

/-- The event on terminal `t`. -/
def TypeEvent.event (t : Fin 3) : TypeEvent → ConsoleEvent
  | .key k => k.event
  | .readStart => .readStart t
  | .readFinish nbytes => .readFinish t nbytes

/-- The flags after a key, and the characters it types: none, its own, or the newline of Enter. -/
def typedBy (mods : Modifiers) (keyPress : UInt8) : Editor :=
  if keyPress = ENTER then { mods, line := [ASCII_NL] }
  else Editor.stroke { mods, line := [] } keyPress

/-- The characters up to the first newline, with a newline. -/
def firstLine (bytes : List UInt8) : List UInt8 := bytes.takeWhile (· ≠ ASCII_NL) ++ [ASCII_NL]

/-- What a reader sees of the keyboard: the characters typed since the last completed read, and what
the reads returned. -/
structure TypeAhead where
  mods : Modifiers
  unread : List UInt8
  returned : List (List UInt8)

namespace TypeAhead

/-- A read completes when an Enter is unread; it takes the first line and drops the rest. -/
def step (a : TypeAhead) : TypeEvent → TypeAhead
  | .key k =>
    { a with
      mods := (typedBy a.mods k.keyPress).mods
      unread := a.unread ++ (typedBy a.mods k.keyPress).line }
  | .readStart => a
  | .readFinish _ =>
    if ASCII_NL ∈ a.unread then { a with unread := [], returned := a.returned ++ [firstLine a.unread] } else a

/-- Printable keys, modifier keys and Enter, no more than 127 characters before the first unread Enter,
and reads of at least 128 bytes. -/
def Allowed (a : TypeAhead) : TypeEvent → Prop
  | .key k =>
    k.keyPress ≠ BACKSPACE ∧ k.keyPress ≠ TAB ∧
      (k.keyPress ≠ ENTER → Editor.Types { mods := a.mods, line := [] } k.keyPress) ∧
      ((a.unread ++ (typedBy a.mods k.keyPress).line).takeWhile (· ≠ ASCII_NL)).length ≤ 127
  | .readStart => True
  | .readFinish nbytes => 128 ≤ nbytes

instance (a : TypeAhead) : ∀ e, Decidable (a.Allowed e)
  | .key _ => inferInstanceAs (Decidable (_ ∧ _ ∧ (_ → _) ∧ _))
  | .readStart => isTrue trivial
  | .readFinish nbytes => inferInstanceAs (Decidable (128 ≤ nbytes))

/-- Nothing is typed while an Enter is unread. -/
def NotAhead (a : TypeAhead) : TypeEvent → Prop
  | .key k => ASCII_NL ∈ a.unread → (typedBy a.mods k.keyPress).line = []
  | _ => True

instance (a : TypeAhead) : ∀ e, Decidable (a.NotAhead e)
  | .key _ => inferInstanceAs (Decidable (_ → _))
  | .readStart => isTrue trivial
  | .readFinish _ => isTrue trivial

/-- All characters typed by the events. -/
def typed (mods : Modifiers) : List TypeEvent → List UInt8
  | [] => []
  | .key k :: rest => (typedBy mods k.keyPress).line ++ typed (typedBy mods k.keyPress).mods rest
  | .readStart :: rest => typed mods rest
  | .readFinish _ :: rest => typed mods rest

/-- An interleaving of allowed events, on the state that a reader sees. -/
def AllAllowed (mods : Modifiers) (events : List TypeEvent) : Prop :=
  Along (fun a e => some (step a e)) Allowed { mods, unread := [], returned := [] } events

/-- An interleaving in which nothing is typed while an Enter is unread. -/
def NeverAhead (mods : Modifiers) (events : List TypeEvent) : Prop :=
  Along (fun a e => some (step a e)) NotAhead { mods, unread := [], returned := [] } events

instance (mods : Modifiers) (events : List TypeEvent) : Decidable (AllAllowed mods events) :=
  inferInstanceAs (Decidable (Along _ _ _ _))

instance (mods : Modifiers) (events : List TypeEvent) : Decidable (NeverAhead mods events) :=
  inferInstanceAs (Decidable (Along _ _ _ _))

/-- What the reads of an interleaving return. -/
def final (mods : Modifiers) (events : List TypeEvent) : TypeAhead :=
  events.foldl step { mods, unread := [], returned := [] }

end TypeAhead

/-- The reads return nothing but the typed text, in the order typed. -/
def InputKept (s : Console) (t : Fin 3) (events : List TypeEvent) : Prop :=
  ∀ r, run ReadRun.step { console := s, returned := [] } (events.map (TypeEvent.event t)) = some r →
    r.returned.flatten <+: TypeAhead.typed s.mods events

/-- The displayed terminal holds the unread characters, up to the first Enter. -/
structure Console.Holds (s : Console) (t : Fin 3) (a : TypeAhead) : Prop where
  curr : s.currTerm = t
  display : s.display.InRange
  mods : s.mods = a.mods
  line : ((s.line t).Editing a.unread ∧ s.enterFlag t = false) ∨
    ∃ line rest, a.unread = line ++ ASCII_NL :: rest ∧ (s.line t).Entered line ∧ s.enterFlag t = true

section Steps

variable {s : Console} {t : Fin 3} {a : TypeAhead}

/-- A key that is not Backspace or Tab edits by adding its character. -/
theorem Editor.edit_char {e : Editor} {keyPress : UInt8} (hback : keyPress ≠ BACKSPACE) (htab : keyPress ≠ TAB) :
    e.edit keyPress =
      { mods := e.mods.select keyPress
        line := e.line ++ [keyboardChar keyPress (e.mods.select keyPress).capital] } := by
  rw [Editor.edit, if_neg hback, if_neg htab]

/-- Text without a newline, up to its first newline. -/
theorem takeWhile_append_of_not_mem {line : List UInt8} (hline : ASCII_NL ∉ line) (rest : List UInt8) :
    (line ++ rest).takeWhile (· ≠ ASCII_NL) = line ++ rest.takeWhile (· ≠ ASCII_NL) := by
  apply List.takeWhile_append_of_pos
  intro c hc
  rw [decide_eq_true_iff]
  rintro rfl
  exact hline hc

/-- The first line of text that has one. -/
theorem firstLine_of_newline {line rest : List UInt8} (hline : ASCII_NL ∉ line) :
    firstLine (line ++ ASCII_NL :: rest) = line ++ [ASCII_NL] := by
  rw [firstLine, takeWhile_append_of_not_mem hline]
  simp

/-- Enter, whether or not an entered line is unread. -/
theorem Console.Holds.enter (h : s.Holds t a) {k : Keystroke} (hkey : k.keyPress = ENTER) :
    ∃ s', consoleStep s k.event = some s' ∧ s'.Holds t (a.step (.key k)) := by
  obtain ⟨rfl, hdisplay, hmods, hline⟩ := h
  have hstep : a.step (.key k) = { a with unread := a.unread ++ [ASCII_NL] } := by
    rw [TypeAhead.step, typedBy, if_pos hkey]
  obtain ⟨l, line, rest, hl, hentered, hunread⟩ : ∃ l line rest,
      (s.line s.currTerm).pushBelow KB_BUFFER_SIZE (keyboardChar ENTER false) = .ok l ∧ l.Entered line ∧
        a.unread ++ [ASCII_NL] = line ++ ASCII_NL :: rest := by
    rcases hline with ⟨hediting, -⟩ | ⟨line, rest, hunread, hentered, -⟩
    · obtain ⟨l, hl, hentered⟩ := hediting.enter
      exact ⟨l, a.unread, [], hl, hentered, rfl⟩
    · obtain ⟨l, hl, hentered'⟩ := hentered.push le_rfl (keyboardChar ENTER false)
      exact ⟨l, line, rest ++ [ASCII_NL], hl, hentered', by rw [hunread]; simp⟩
  obtain ⟨d, hs', hrange⟩ := Console.keyEnter_ok hdisplay hl
  refine ⟨_, consoleStep_enter hkey hs', rfl, hrange, ?_, Or.inr ⟨line, rest, ?_, ?_, Function.update_self ..⟩⟩
  · rw [hstep]
    exact hmods
  · rw [hstep, hunread]
  · rw [Console.setLine_self _ _]
    exact hentered.setNumChar 0

/-- A character, whether or not an entered line is unread. -/
theorem Console.Holds.char (h : s.Holds t a) {keyPress : UInt8} (hkey : keyPress ≠ ENTER)
    (hfits : ((a.unread ++ [keyboardChar keyPress (a.mods.select keyPress).capital]).takeWhile
      (· ≠ ASCII_NL)).length ≤ 127) :
    ∃ s', s.keyChar keyPress = .ok s' ∧ s'.Holds t
      { a with
        mods := a.mods.select keyPress
        unread := a.unread ++ [keyboardChar keyPress (a.mods.select keyPress).capital] } := by
  obtain ⟨rfl, hdisplay, hmods, hline⟩ := h
  rw [← hmods] at hfits ⊢
  have hc := keyboardChar_ne_newline hkey (s.mods.select keyPress).capital
  generalize hchar : keyboardChar keyPress (s.mods.select keyPress).capital = c at hc hfits
  rcases hline with ⟨hediting, hflag⟩ | ⟨line, rest, hunread, hentered, hflag⟩
  · have hroom : a.unread.length < 127 := by
      have hnot : ASCII_NL ∉ a.unread ++ [c] := by
        simp [hediting.noNewline, hc.symm]
      have hall := takeWhile_append_of_not_mem hnot []
      rw [List.append_nil, List.takeWhile_nil, List.append_nil] at hall
      rw [hall, List.length_append, List.length_singleton] at hfits
      exact hfits
    obtain ⟨l, hl, -, hpushed⟩ := hediting.push hroom hc
    rw [← hchar] at hl
    obtain ⟨d, hs', hrange⟩ := Console.keyChar_ok hdisplay hl
    refine ⟨_, hs', rfl, hrange, rfl, Or.inl ⟨?_, hflag⟩⟩
    rw [Console.setLine_self _ _]
    exact hpushed.setNumChar _
  · obtain ⟨l, hl, hpushed⟩ := hentered.push belowCapacity c
    rw [← hchar] at hl
    obtain ⟨d, hs', hrange⟩ := Console.keyChar_ok hdisplay hl
    refine ⟨_, hs', rfl, hrange, rfl, Or.inr ⟨line, rest ++ [c], by rw [hunread]; simp, ?_, hflag⟩⟩
    rw [Console.setLine_self _ _]
    exact hpushed.setNumChar _

/-- An allowed key. -/
theorem Console.Holds.key (h : s.Holds t a) {k : Keystroke} (hallowed : a.Allowed (.key k)) :
    ∃ s', consoleStep s k.event = some s' ∧ s'.Holds t (a.step (.key k)) := by
  obtain ⟨hback, htab, htypes, hfits⟩ := hallowed
  by_cases hkey : k.keyPress = ENTER
  · exact h.enter hkey
  rw [TypeAhead.step]
  rw [typedBy, if_neg hkey] at hfits ⊢
  rcases consoleStep_cases (e := { mods := a.mods, line := [] }) h.mods k (htypes hkey) with
    ⟨mods, hstroke, hs'⟩ | ⟨hedit, hs'⟩
  · rw [hstroke, List.append_nil]
    exact ⟨_, hs', h.curr, h.display, rfl, h.line⟩
  · rw [hedit, Editor.edit_char hback htab] at hfits ⊢
    obtain ⟨s', hchar, hholds⟩ := h.char hkey hfits
    refine ⟨s', hs' s' ?_, hholds⟩
    rw [Console.keyStroke, if_neg hkey, if_neg hback, if_neg htab, hchar]

/-- The completion of a read of at least 128 bytes, or its waiting. -/
theorem Console.Holds.readFinish (h : s.Holds t a) {nbytes : ℤ} (hnbytes : 128 ≤ nbytes) :
    (∃ s', consoleStep s (.readFinish t nbytes) = some s' ∧ readOutput s (.readFinish t nbytes) = none ∧
        ASCII_NL ∉ a.unread ∧ s'.Holds t a) ∨
      ∃ s', consoleStep s (.readFinish t nbytes) = some s' ∧
        readOutput s (.readFinish t nbytes) = some (firstLine a.unread) ∧ ASCII_NL ∈ a.unread ∧
        s'.Holds t { a with unread := [], returned := a.returned ++ [firstLine a.unread] } := by
  rcases h.line with ⟨hediting, hflag⟩ | ⟨line, rest, hunread, hentered, hflag⟩
  · have hdown : ¬(s.enterFlag t = true) := by
      rw [hflag]
      exact Bool.false_ne_true
    exact Or.inl ⟨s, if_neg hdown, if_neg hdown, hediting.noNewline, h⟩
  · have hwaits : s.Waits t a.mods line := ⟨h.curr, h.display, h.mods, hentered, hflag⟩
    obtain ⟨houtput, s', hs', hcurr, hdisplay, hmods, -, hline, hflag'⟩ := hwaits.readFinish nbytes
    have hcapacity := hentered.capacity
    have hlen : (line ++ [ASCII_NL]).length ≤ nbytes.toNat := by
      rw [List.length_append, List.length_singleton]
      omega
    have hfirst : firstLine (line ++ ASCII_NL :: rest) = line ++ [ASCII_NL] := firstLine_of_newline hentered.noNewline
    rw [List.take_of_length_le hlen, ← hfirst, ← hunread] at houtput
    refine Or.inr ⟨s', hs', houtput, ?_, hcurr, hdisplay, hmods, Or.inl ⟨hline, hflag'⟩⟩
    rw [hunread]
    simp

/-- One allowed event. -/
theorem Console.Holds.step {r : ReadRun} (h : r.console.Holds t a) (hreturned : r.returned = a.returned) (e : TypeEvent)
    (hallowed : a.Allowed e) :
    ∃ r', ReadRun.step r (e.event t) = some r' ∧ r'.console.Holds t (a.step e) ∧ r'.returned = (a.step e).returned := by
  cases e with
  | key k =>
    obtain ⟨s', hs', hholds⟩ := h.key hallowed
    exact ⟨_, ReadRun.step_quiet hs' rfl, hholds, hreturned⟩
  | readStart => exact ⟨_, ReadRun.step_quiet rfl rfl, ⟨h.curr, h.display, h.mods, h.line⟩, hreturned⟩
  | readFinish nbytes =>
    rw [TypeAhead.step]
    rcases h.readFinish hallowed with ⟨s', hs', houtput, hnone, hholds⟩ | ⟨s', hs', houtput, hsome, hholds⟩
    · rw [if_neg hnone]
      exact ⟨_, ReadRun.step_quiet hs' houtput, hholds, hreturned⟩
    · rw [if_pos hsome]
      exact ⟨_, ReadRun.step_output hs' houtput, hholds, by rw [hreturned]⟩

end Steps

namespace TypeAhead

/-- Every returned text is one line. -/
def OneLineEach (a : TypeAhead) : Prop := ∀ text ∈ a.returned, ∃ line, ASCII_NL ∉ line ∧ text = line ++ [ASCII_NL]

/-- The first line of any text is one line. -/
theorem firstLine_eq (bytes : List UInt8) : ∃ line, ASCII_NL ∉ line ∧ firstLine bytes = line ++ [ASCII_NL] := by
  refine ⟨bytes.takeWhile (· ≠ ASCII_NL), fun hmem => ?_, rfl⟩
  have hne := List.all_eq_true.mp List.all_takeWhile _ hmem
  simp at hne

/-- A completed read returns one line. -/
theorem OneLineEach.step {a : TypeAhead} (h : a.OneLineEach) (e : TypeEvent) : (a.step e).OneLineEach := by
  cases e with
  | key k => exact h
  | readStart => exact h
  | readFinish nbytes =>
    rw [TypeAhead.step]
    split
    · intro text htext
      rcases List.mem_append.mp htext with hold | hnew
      · exact h text hold
      · rw [List.mem_singleton.mp hnew]
        exact firstLine_eq a.unread
    · exact h

/-- Nothing typed is lost: the returned lines and the unread characters are the typed text, and an
unread Enter ends it. -/
structure Kept (a : TypeAhead) (text : List UInt8) : Prop where
  all : a.returned.flatten ++ a.unread = text
  ends : ASCII_NL ∈ a.unread → firstLine a.unread = a.unread

/-- A key that types a newline types nothing else. -/
theorem typedBy_newline {mods : Modifiers} {keyPress : UInt8} (h : ASCII_NL ∈ (typedBy mods keyPress).line) :
    (typedBy mods keyPress).line = [ASCII_NL] := by
  unfold typedBy at h ⊢
  by_cases hkey : keyPress = ENTER
  · rw [if_pos hkey]
  rw [if_neg hkey] at h
  exfalso
  unfold Editor.stroke Editor.edit at h
  split_ifs at h with hunknown hfunction hprints hback htab
  · exact List.not_mem_nil h
  · exact List.not_mem_nil h
  · exact List.not_mem_nil h
  · exact absurd (List.mem_singleton.mp h) (by decide)
  · exact keyboardChar_ne_newline hkey _ (List.mem_singleton.mp h).symm
  · exact List.not_mem_nil h

/-- A key typed with no Enter unread is kept. -/
theorem Kept.key {a : TypeAhead} {text : List UInt8} (h : a.Kept text) {k : Keystroke} (hnot : a.NotAhead (.key k)) :
    (a.step (.key k)).Kept (text ++ (typedBy a.mods k.keyPress).line) := by
  refine ⟨?_, fun hmem => ?_⟩
  · rw [← h.all, List.append_assoc]
    rfl
  · rw [step] at hmem ⊢
    dsimp only at hmem ⊢
    by_cases hunread : ASCII_NL ∈ a.unread
    · rw [hnot hunread, List.append_nil]
      exact h.ends hunread
    · have htyped := (List.mem_append.mp hmem).resolve_left hunread
      rw [typedBy_newline htyped]
      exact firstLine_of_newline hunread

/-- A completed read takes everything that is unread. -/
theorem Kept.readFinish {a : TypeAhead} {text : List UInt8} (h : a.Kept text) (nbytes : ℤ) :
    (a.step (.readFinish nbytes)).Kept text := by
  rw [step]
  split
  · rename_i hunread
    refine ⟨?_, fun hmem => absurd hmem List.not_mem_nil⟩
    rw [← h.all, ← h.ends hunread, List.flatten_append]
    simp [h.ends hunread]
  · exact h

/-- What is kept after a whole interleaving. -/
theorem Kept.foldl {a : TypeAhead} {text : List UInt8} (h : a.Kept text) {events : List TypeEvent}
    (hnever : Along (fun a e => some (step a e)) NotAhead a events) :
    (events.foldl step a).Kept (text ++ typed a.mods events) := by
  induction events generalizing a text with
  | nil =>
    rw [typed, List.append_nil]
    exact h
  | cons e rest ih =>
    cases e with
    | key k =>
      rw [typed, ← List.append_assoc]
      exact ih (h.key hnever.1) (hnever.2 _ rfl)
    | readStart => exact ih h (hnever.2 _ rfl)
    | readFinish nbytes =>
      have hmods : (a.step (.readFinish nbytes)).mods = a.mods := by
        rw [step]
        split <;> rfl
      have hlast := ih (h.readFinish nbytes) (hnever.2 _ rfl)
      rw [hmods] at hlast
      exact hlast

end TypeAhead

/-- In every interleaving of printable keys and Enter with reads of at least 128 bytes, from an empty
line, a read returns exactly one line: the characters typed since the last completed read, up to the
first Enter. When nothing is typed between an Enter and the completion of the read that takes its
line, the returned lines and what is still unread are the typed text, in order and once. -/
theorem typeAhead_reads {s : Console} {t : Fin 3} (hdisplayed : s.currTerm = t) (hdisplay : s.display.InRange)
    (hbufIdx : (s.line t).bufIdx = 0) (hflag : s.enterFlag t = false) {events : List TypeEvent}
    (hallowed : TypeAhead.AllAllowed s.mods events) :
    (∃ console, run ReadRun.step { console := s, returned := [] } (events.map (TypeEvent.event t)) =
        some { console, returned := (TypeAhead.final s.mods events).returned }) ∧
      (TypeAhead.final s.mods events).OneLineEach ∧
      (TypeAhead.NeverAhead s.mods events →
        (TypeAhead.final s.mods events).returned.flatten ++ (TypeAhead.final s.mods events).unread =
          TypeAhead.typed s.mods events) := by
  refine ⟨?_, ?_, fun hnever => ?_⟩
  · let sim (r : ReadRun) (a : TypeAhead) : Prop := r.console.Holds t a ∧ r.returned = a.returned
    have hstart : sim { console := s, returned := [] } { mods := s.mods, unread := [], returned := [] } :=
      ⟨⟨hdisplayed, hdisplay, rfl, Or.inl ⟨⟨hbufIdx, Nat.zero_le _, List.not_mem_nil, trivial⟩, hflag⟩⟩, rfl⟩
    have hstep (r : ReadRun) (a : TypeAhead) (e : TypeEvent) (hsim : sim r a) (hcond : a.Allowed e) :
        ∃ r', ReadRun.step r (e.event t) = some r' ∧ sim r' (a.step e) := hsim.1.step hsim.2 e hcond
    obtain ⟨r, hrun, -, hreturned⟩ := run_simulation_of_along hstep hstart hallowed
    refine ⟨r.console, ?_⟩
    rw [run_map, hrun, TypeAhead.final, ← hreturned]
  · have hstart : TypeAhead.OneLineEach { mods := s.mods, unread := [], returned := [] } :=
      fun _ htext => absurd htext List.not_mem_nil
    have hstep (a : TypeAhead) (e : TypeEvent) (h : a.OneLineEach) (_ : a.Allowed e) : (a.step e).OneLineEach :=
      h.step e
    exact foldl_invariant_of_along hstep hstart hallowed
  · have hstart : TypeAhead.Kept { mods := s.mods, unread := [], returned := [] } [] :=
      ⟨rfl, fun hmem => absurd hmem List.not_mem_nil⟩
    exact (hstart.foldl hnever).all

/-- Two lines, each read before the next is typed. -/
theorem typeAhead_reads_twoLines :
    ∃ console, run ReadRun.step { console := terminalInit fun _ => 0, returned := [] }
        ([.key (keyOf 0x1E), .key (keyOf ENTER), .readFinish 128, .key (keyOf 0x30), .key (keyOf ENTER),
          .readFinish 200].map (TypeEvent.event 0)) =
      some { console, returned := [[0x61, ASCII_NL], [0x62, ASCII_NL]] } :=
  (typeAhead_reads (s := terminalInit fun _ => 0) (t := 0) rfl (terminalInit_good _).display rfl rfl (by decide)).1

/-- The same lines, with the second begun before the first is read. -/
def aheadEvents : List TypeEvent :=
  [.key (keyOf 0x1E), .key (keyOf ENTER), .key (keyOf 0x30), .readFinish 128, .key (keyOf ENTER), .readFinish 128]

/-- The character typed behind the unread Enter is returned by no read. -/
theorem typeAhead_lost :
    TypeAhead.AllAllowed (terminalInit fun _ => 0).mods aheadEvents ∧
      ¬InputKept (terminalInit fun _ => 0) 0 aheadEvents := by
  have hrun : (run ReadRun.step { console := terminalInit fun _ => 0, returned := [] }
      (aheadEvents.map (TypeEvent.event 0))).map ReadRun.returned = some [[0x61, ASCII_NL], [ASCII_NL]] := by
    decide +kernel
  have htyped : TypeAhead.typed (terminalInit fun _ => 0).mods aheadEvents = [0x61, ASCII_NL, 0x62, ASCII_NL] := by
    decide
  refine ⟨by decide, fun hkept => ?_⟩
  obtain ⟨r, hr, hreturned⟩ := Option.map_eq_some_iff.mp hrun
  have hprefix := hkept r hr
  rw [hreturned, htyped] at hprefix
  exact absurd hprefix (by decide)

end OsKernel
