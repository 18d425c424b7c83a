import OsKernel.Library.Run
import OsKernel.VideoPage

/-!
# The bounds of cursors and video memory

`terminal_init` leaves every cursor at the left top, and every writer on any terminal keeps all
cursors on the screen and all remembered columns inside a row. So a writer stores only into the
cells of its own terminal's page and only into the 25 entries of its `prev_x`. What lies in memory
behind the arrays is arbitrary, so a load or a store outside of them would show.
-/

namespace OsKernel

open Library

/-- The displays that `terminal_init` leaves: its loop zeroes the rows of `prev_x`. -/
def initDisplay (behind : Fin 3 → ℤ → ℤ) (vmem : ℤ → UInt8) (cursorPos : ℤ) : Display where
  cursor t :=
    { screenX := 0
      screenY := 0
      prevX := fun i => if 0 ≤ i ∧ i < NUM_ROWS then 0 else behind t i }
  vmem
  cursorPos

/-- A call of a writer, on any terminals. -/
inductive DisplayEvent where
  | putc (currTerm activeTerm : Fin 3) (c : UInt8)
  | putcKeyboard (currTerm : Fin 3) (c : UInt8)
  | terminalWrite (currTerm activeTerm : Fin 3) (buf : ℕ → UInt8) (nbytes : ℤ)
  | clearScreen (currTerm : Fin 3)

/-- The terminal that is written. -/
def DisplayEvent.terminal : DisplayEvent → Fin 3
  | .putc _ activeTerm _ => activeTerm
  | .putcKeyboard currTerm _ => currTerm
  | .terminalWrite _ activeTerm _ _ => activeTerm
  | .clearScreen currTerm => currTerm

/-- A call; `none` is an access outside `prev_x`. -/
def displayStep (d : Display) : DisplayEvent → Option Display
  | .putc currTerm activeTerm c => (putc currTerm activeTerm c d).toOption
  | .putcKeyboard currTerm c => (putcKeyboard currTerm c d).toOption
  | .terminalWrite currTerm activeTerm buf nbytes =>
    (terminalWrite currTerm activeTerm buf nbytes d).toOption.map Prod.snd
  | .clearScreen currTerm => some (clearScreen currTerm d)

/-- After `terminal_init` every cursor is at the left top. -/
theorem initDisplay_inRange (behind : Fin 3 → ℤ → ℤ) (vmem : ℤ → UInt8) (cursorPos : ℤ) :
    (initDisplay behind vmem cursorPos).InRange := by
  have hcols : (0 : ℤ) < NUM_COLS := by decide
  have hrows : (0 : ℤ) < NUM_ROWS := by decide
  refine fun t => ⟨⟨le_rfl, hcols⟩, ⟨le_rfl, hrows⟩, fun i hlo hhi => ?_⟩
  simp only [initDisplay, if_pos (And.intro hlo hhi)]
  exact ⟨le_rfl, hcols⟩

/-- The initial console has such a display. -/
theorem terminalInit_display (vmem : ℤ → UInt8) :
    (terminalInit vmem).display = initDisplay (fun _ _ => 0) vmem 0 := by
  simp [terminalInit, initDisplay]

/-- One call: no access outside `prev_x`, the cursors stay on the screen, and nothing but the
terminal's own page and cursor changes. -/
theorem Display.InRange.displayStep {d : Display} (h : d.InRange) (e : DisplayEvent) :
    ∃ d', displayStep d e = some d' ∧ d'.InRange ∧ Display.Kept e.terminal d d' := by
  cases e with
  | putc currTerm activeTerm c =>
    obtain ⟨d', _, hd, _, hpaired, hrange⟩ := (Display.Agree.refl activeTerm d).putc_inRange h currTerm currTerm c
    exact ⟨d', by rw [OsKernel.displayStep, hd]; rfl, hrange, hpaired.kept⟩
  | putcKeyboard currTerm c =>
    obtain ⟨d', _, hd, _, hpaired⟩ := (Display.Agree.refl currTerm d).putcKeyboard (h currTerm) c
    obtain ⟨d₁, hd₁, hrange⟩ := h.putcKeyboard currTerm c
    obtain rfl : d' = d₁ := Except.ok.inj (hd.symm.trans hd₁)
    exact ⟨d', by rw [OsKernel.displayStep, hd]; rfl, hrange, hpaired.kept⟩
  | terminalWrite currTerm activeTerm buf nbytes =>
    obtain ⟨n, d', _, hd, _, hpaired, hrange⟩ :=
      (Display.Agree.refl activeTerm d).terminalWriteFrom h currTerm currTerm buf 0 0 nbytes.toNat
    exact ⟨d', by rw [OsKernel.displayStep, terminalWrite, hd]; rfl, hrange, hpaired.kept⟩
  | clearScreen currTerm =>
    exact ⟨_, rfl, h.clearScreen currTerm, (Display.Agree.refl currTerm d).clearScreen.kept⟩

/-- A call keeps the cursors on the screen. -/
theorem Display.InRange.of_displayStep {d d' : Display} (h : d.InRange) {e : DisplayEvent}
    (hd' : OsKernel.displayStep d e = some d') : d'.InRange := by
  obtain ⟨d₁, hd₁, hrange, -⟩ := h.displayStep e
  cases hd₁.symm.trans hd'
  exact hrange

/-- Any sequence of calls completes and keeps the cursors on the screen. -/
theorem Display.InRange.run {d : Display} (h : d.InRange) (events : List DisplayEvent) :
    ∃ d', Library.run OsKernel.displayStep d events = some d' ∧ d'.InRange := by
  have hsome (d : Display) (e : DisplayEvent) (h : d.InRange) (_ : True) : (OsKernel.displayStep d e).isSome := by
    obtain ⟨d₁, hd₁, -⟩ := h.displayStep e
    rw [hd₁]
    rfl
  exact run_isSome_of_along (fun _ _ _ h _ hd' => h.of_displayStep hd') hsome h
    (along_of_forall (fun _ _ => trivial) d events)

/-- After any sequence of writer calls on any terminals every cursor is on the screen and every
remembered column inside a row, and the next call, whatever it is, accesses `prev_x` only inside the
array and changes only the cells of its own terminal's page, its cursor and its 25 remembered columns. -/
theorem cursor_inRange (behind : Fin 3 → ℤ → ℤ) (vmem : ℤ → UInt8) (cursorPos : ℤ) (events : List DisplayEvent) :
    ∃ d, run displayStep (initDisplay behind vmem cursorPos) events = some d ∧ d.InRange ∧
      ∀ e, ∃ d', displayStep d e = some d' ∧ Display.Kept e.terminal d d' := by
  obtain ⟨d, hrun, hrange⟩ := (initDisplay_inRange behind vmem cursorPos).run events
  refine ⟨d, hrun, hrange, fun e => ?_⟩
  obtain ⟨d', hd', -, hkept⟩ := hrange.displayStep e
  exact ⟨d', hd', hkept⟩

end OsKernel
