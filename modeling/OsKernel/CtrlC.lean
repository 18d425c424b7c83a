import OsKernel.Keyboard
import OsKernel.ThreadOrder

/-!
# Which process Ctrl+C ends

The keyboard driver edits the line of the displayed terminal, but the `halt` it calls for Ctrl+C ends
the process that `curr_pid` of the scheduled one names. The timer and the function keys move the two
terminals apart, and the key can come between any two statements of `execute` and `halt`, also while
`curr_pid` and `term_proc` of a terminal name different processes.
-/

namespace OsKernel

open Library

/-- What the statements of the other system calls, the programs and the RTC interrupt change: descriptors,
the RTC, the globals of the file system, the programs' pages and the screen. -/
structure Surroundings where
  descs : Slot → Fin 8 → FileDesc
  rtc : Rtc
  pcbValRead : Option Slot
  dentryTemp : Dentry
  closeCalls : List (Slot × Fin 8)
  page : UInt32 → ℕ → UInt8
  display : Display

/-- The state with these parts. -/
def Kernel.withSurroundings (k : Kernel) (now : Surroundings) : Kernel :=
  { k with
    pcb := fun i => { k.pcb i with fileDescArr := now.descs i }
    rtc := now.rtc
    pcbValRead := now.pcbValRead
    dentryTemp := now.dentryTemp
    closeCalls := now.closeCalls
    page := now.page }

namespace Machine

variable (m : Machine)

/-- The slots of the scheduled terminal's processes from the one that `curr_pid` names on down. -/
def fromCaller : List Slot := (m.owned m.active).dropWhile fun i => m.k.caller ≠ some i

/-- The slots that a `halt` by the keyboard handler leaves to the scheduled terminal. -/
def fromCallerAfter : HaltResult → List Slot
  | .restarted k => if k.caller = m.k.caller then m.fromCaller else k.caller.toList ++ m.fromCaller
  | .returned _ _ => m.fromCaller.tail

/-- Ctrl+C, at whatever statement the scheduled thread is: `halt` runs with interrupts masked on the process that
`curr_pid` names, and the thread goes on in the program of its parent or of the fresh shell. -/
def ctrlC (fs : FileSystem) (frame : ExecFrame) : Option Machine :=
  (m.k.haltBy fs .ctrlC frame).map fun r =>
    { m.goto .user r.after with owned := Function.update m.owned m.active (m.fromCallerAfter r) }

/-- A tick whose `execute` finds every slot in use: the next terminal is scheduled without a process, while the one
that was interrupted goes on. -/
def startRefused (fs : FileSystem) (regs : Regs) (frame : ExecFrame) : Option Machine :=
  let saved := { m.k.saveSchedule (base m.k.activeTerm) regs with activeTerm := m.k.activeTerm + 1 }
  if m.k.pitAction = .startShell ∧ saved.execute fs shellCommand frame = none then
    some { m with k := saved, suspended := m.suspend regs }
  else none

end Machine

/-- The action is a Ctrl+C. -/
def Action.byCtrlC : Action → Bool
  | .kill byException _ => !byException
  | _ => false

/-- The threads and the console. -/
structure Session where
  m : Machine
  console : Console

/-- A step of the machine, a change of its surroundings, a keyboard interrupt, or one half of a `terminal_read` of
the scheduled process; `frame` is the one of the `execute` that `halt` may call. -/
inductive SessionEvent where
  | act (e : Action)
  | other (now : Surroundings)
  | key (statusKey keyPress : UInt8) (frame : ExecFrame)
  | readStart
  | readFinish (nbytes : ℤ)

namespace Session

variable (s : Session)

/-- The state of the kernel. -/
abbrev k : Kernel := s.m.k

/-- The machine after an action. A start of a shell may be refused; Ctrl+C comes by its key. -/
def act (fs : FileSystem) (e : Action) : Option Machine :=
  if e.byCtrlC then none
  else (s.m.step fs e).or <|
    match e with
    | .tick regs frame => s.m.startRefused fs regs frame
    | _ => none

/-- One step; `none` is a fault of a driver or an access to unmapped memory. -/
def step (fs : FileSystem) : SessionEvent → Option Session
  | .act e => (s.act fs e).map fun m => { s with m }
  | .other now => some
      { m := { s.m with k := s.k.withSurroundings now }, console := { s.console with display := now.display } }
  | .key statusKey keyPress frame =>
    match keyboardHandler s.console statusKey keyPress with
    | .error _ => none
    | .ok (console, false) => some { s with console }
    | .ok (console, true) => (s.m.ctrlC fs frame).map fun m => { m, console }
  | .readStart => (consoleStep s.console (.readStart s.m.active)).map fun console => { s with console }
  | .readFinish nbytes => (consoleStep s.console (.readFinish s.m.active nbytes)).map fun console => { s with console }

end Session

/-- The state after the process in slot `c` was replaced by a fresh shell in the same slot. -/
structure Replaced (k k' : Kernel) (c : Slot) (frame : ExecFrame) : Prop where
  pid : k'.pid = Function.update k.pid c true
  currPid : k'.currPid = k.currPid
  prevPid : k'.prevPid = Function.update k.prevPid k.activeTerm (some c)
  termProc : k'.termProc = Function.update k.termProc k.activeTerm (some c)
  activeTerm : k'.activeTerm = k.activeTerm
  pcb : ∃ argsName, k'.pcb = Function.update k.pcb c ((k.pcb c).spawned c (some c) frame.regs argsName)
  userPde : k'.userPde = userPdeAddr (some c)
  esp0 : k'.esp0 = kernelStack (some c)

/-- The running process in slot `p` ends: its parent in another slot goes on, or a fresh shell takes its place. -/
inductive Ends (k k' : Kernel) (p : Slot) (frame : ExecFrame) : Prop where
  | returned {q} (hcaller : k.caller = some p) (hne : q ≠ p) (h : Kernel.Returned k k' p q)
  | restarted (hcaller : k.caller = some p) (h : Replaced k k' p frame)

/-- The process chain of a terminal is as it was: its variables, and the slots and PCBs of its processes. -/
structure ChainKept (u : Fin 3) (m m' : Machine) : Prop where
  currPid : m'.k.currPid u = m.k.currPid u
  prevPid : m'.k.prevPid u = m.k.prevPid u
  termProc : m'.k.termProc u = m.k.termProc u
  owned : m'.owned u = m.owned u
  pid : ∀ p ∈ m.owned u, m'.k.pid p = m.k.pid p
  pcb : ∀ p ∈ m.owned u, m'.k.pcb p = m.k.pcb p

/-- Ctrl+C ends the process of the displayed terminal, and the chains of the other terminals stay as they
were. -/
def EndsDisplayed (fs : FileSystem) (s : Session) (statusKey : UInt8) (frame : ExecFrame) : Prop :=
  ∃ p s', s.k.termProc s.console.currTerm = some p ∧ s.step fs (.key statusKey C_PRESS frame) = some s' ∧
    Ends s.k s'.k p frame ∧ ∀ u, u ≠ s.console.currTerm → ChainKept u s.m s'.m

/-- The condition: the displayed terminal is scheduled, its `curr_pid` and `term_proc` name the same process, and that
process can end: a base shell while no slot below its own is free, any other process with a parent. -/
def DisplayedRuns (s : Session) : Prop :=
  s.console.currTerm = s.m.active ∧ ∃ c, s.k.caller = some c ∧ s.k.termProc s.m.active = some c ∧
    (c = base s.m.active → ∀ i < c, s.k.pid i = true) ∧ (c ≠ base s.m.active → (s.k.pcb c).parentPid ≠ none)

/-- The thread is in its program. -/
def Code.isUser : Code → Bool
  | user => true
  | _ => false

/-- The keyboard interrupt calls `halt`. -/
def Session.ctrlCBy (s : Session) (statusKey keyPress : UInt8) : Bool :=
  match keyboardHandler s.console statusKey keyPress with
  | .ok (_, ends) => ends
  | .error _ => false

/-- A tick starts a shell while every slot is in use. -/
def Machine.refuses (m : Machine) : Action → Bool
  | .tick _ _ => m.k.pitAction = .startShell ∧ m.k.freeSlot = none
  | _ => false

/-- The condition on the steps before: no slot is found that another terminal's thread holds, and neither Ctrl+C nor a
tick that finds every slot in use comes inside an `execute` or a `halt` of the scheduled process; behind such a tick
these would go on with the variables of the next terminal. -/
def SessionReady (s : Session) : SessionEvent → Prop
  | .act e => SlotReady s.m e ∧ (s.m.refuses e = true → (s.m.code s.m.active).isUser = true)
  | .key statusKey keyPress frame =>
    s.ctrlCBy statusKey keyPress = true → (s.m.code s.m.active).isUser = true ∧ SlotReady s.m (.kill false frame)
  | _ => True

instance (m : Machine) (e : Action) : Decidable (SlotReady m e) :=
  inferInstanceAs (Decidable (∀ t i, m.finds e = some (t, i) → ∀ u, u ≠ t → (m.code u).holds i = false))

instance (s : Session) : (e : SessionEvent) → Decidable (SessionReady s e)
  | .act e => inferInstanceAs (Decidable
      (SlotReady s.m e ∧ (s.m.refuses e = true → (s.m.code s.m.active).isUser = true)))
  | .key statusKey keyPress frame => inferInstanceAs (Decidable
      (s.ctrlCBy statusKey keyPress = true → (s.m.code s.m.active).isUser = true ∧ SlotReady s.m (.kill false frame)))
  | .other _ | .readStart | .readFinish _ => isTrue trivial

section Machine

variable {disk : Disk} {m m' : Machine} {frame : ExecFrame}

/-- The state that a refused start leaves: no process on the scheduled terminal. -/
structure Deserted (m : Machine) : Prop where
  caller : m.k.caller = none
  proc : m.k.termProc m.active = none
  code : m.code m.active = .user

/-- A change of what the threads do not see keeps the order. -/
theorem InOrder.other {fs : FileSystem} (h : InOrder fs m) (now : Surroundings) :
    InOrder fs { m with k := m.k.withSurroundings now } := by
  refine ⟨⟨h.separate, fun t => ?_, h.used, h.first, h.second, h.waiting⟩, fun t => (h.setup t).congr rfl, h.idle⟩
  exact (h.threads t).congr ⟨rfl, rfl, rfl, fun i _ => ⟨rfl, rfl, rfl⟩⟩

/-- While the thread is in its program, `curr_pid` names the top of the stack. -/
theorem Owners.fromCaller (h : Owners m) (huser : m.code m.active = .user) : m.fromCaller = m.owned m.active := by
  have hthread := h.threads m.active
  rw [huser] at hthread
  have hcaller : m.k.caller = (m.owned m.active).head? := hthread.curr
  unfold Machine.fromCaller
  cases hstack : m.owned m.active with
  | nil => rfl
  | cons c rest =>
    rw [hstack] at hcaller
    simp [hcaller]

/-- Ctrl+C while the thread is in its program is the end of the process with interrupts masked. -/
theorem Owners.ctrlC_eq (h : Owners m) (huser : m.code m.active = .user) (fs : FileSystem) :
    m.ctrlC fs frame = m.step fs (.kill false frame) := by
  have hfrom := h.fromCaller huser
  have hcode : Function.update m.code m.active .user = m.code := Function.update_eq_self_iff.mpr huser.symm
  cases hhalt : m.k.haltBy fs .ctrlC frame with
  | none => simp [Machine.ctrlC, Machine.step, huser, hhalt]
  | some r =>
    cases r with
    | returned value k =>
      simp [Machine.ctrlC, Machine.step, Machine.goto, Machine.fromCallerAfter, Machine.drop, HaltResult.after,
        huser, hhalt, hfrom, hcode]
    | restarted k =>
      simp only [Machine.ctrlC, Machine.step, Machine.goto, Machine.fromCallerAfter, HaltResult.after,
        huser, hhalt, hfrom, hcode, Option.map_some, Bool.false_eq_true, if_false]
      cases hafter : k.caller with
      | none => simp
      | some i =>
        by_cases hown : m.k.caller = some i
        · simp [Machine.pick, hown]
        · simp [Machine.pick, hown, Ne.symm hown]

/-- A start that is refused leaves no process on the scheduled terminal. -/
theorem InOrder.deserted {fs : FileSystem} (h : InOrder fs m) {regs : Regs}
    (hrefused : m.startRefused fs regs frame = some m') : Deserted m' := by
  simp only [Machine.startRefused] at hrefused
  split_ifs at hrefused with haction
  cases hrefused
  obtain ⟨hzero, hnone, hactive⟩ := pitAction_startShell haction.1
  have hstack : m.owned (m.active + 1) = [] := h.waiting _ (next_ne _) hnone
  have hthread := h.threads (m.active + 1)
  rw [hstack] at hthread
  exact ⟨hthread.currPid_nil, hnone, h.idle _ hstack⟩

/-- Without a process on the scheduled terminal no shell is started. -/
theorem Deserted.not_startShell (h : Deserted m) : m.k.pitAction ≠ .startShell := by
  intro haction
  have hproc : m.k.termProc m.k.activeTerm = none := h.proc
  obtain ⟨hzero, -, hactive⟩ := pitAction_startShell haction
  rcases hactive with hactive | ⟨hactive, hone⟩
  · rw [hactive, hzero] at hproc
    cases hproc
  · rw [hactive] at hproc
    exact hone hproc

/-- Without a process on the scheduled terminal only idle ticks are left. -/
theorem Deserted.act {fs : FileSystem} (h : Deserted m) {e : Action} (hstep : m.step fs e = some m') : m' = m := by
  cases Machine.step_moved hstep with
  | executes huser hcaller | halts huser hcaller => cases h.caller.symm.trans hcaller
  | restarted huser hhalt | returned huser hhalt =>
    rw [haltBy_eq, Kernel.halt, show (m.k.raise _).caller = none from h.caller] at hhalt
    cases hhalt
  | ran hnext =>
    rw [h.code] at hnext
    cases hnext
  | idle => rfl
  | started haction => exact absurd haction h.not_startShell
  | switched haction => cases h.proc.symm.trans (pitAction_contextSwitch haction).1.symm

end Machine

section Halt

variable {disk : Disk} {k k' : Kernel} {c : Slot} {frame : ExecFrame}

/-- Without a process nothing can end. -/
theorem haltBy_of_no_caller {fs : FileSystem} {cause : Cause} (hcaller : k.caller = none) :
    k.haltBy fs cause frame = none := by
  rw [haltBy_eq, Kernel.halt, show (k.raise cause).caller = none from hcaller]
  rfl

/-- A base shell is replaced by a shell in the least free slot. -/
theorem haltBy_base (disk : Disk) (hcaller : k.caller = some (base k.activeTerm)) (frame : ExecFrame) :
    ∃ i k', ((k.raise .ctrlC).dropBase (base k.activeTerm)).freeSlot = some i ∧
      k.haltBy disk.fs .ctrlC frame = some (.restarted k') ∧
      Kernel.Executed ((k.raise .ctrlC).dropBase (base k.activeTerm)) k' i frame := by
  have hfree : ((k.raise .ctrlC).dropBase (base k.activeTerm)).pid (base k.activeTerm) = false :=
    Function.update_self _ _ _
  obtain ⟨k', hk'⟩ := Option.isSome_iff_exists.mp
    (Kernel.execute_isSome.mpr ⟨disk.shellLoads frame, base k.activeTerm, hfree⟩)
  obtain ⟨i, hi, hleast, he⟩ := Kernel.execute_eq_some hk'
  refine ⟨i, k', Kernel.freeSlot_eq_some.mpr ⟨hi, hleast⟩, ?_, he⟩
  rw [haltBy_eq]
  exact Kernel.halt_of_base hcaller hk'

/-- A base shell comes back in its own slot exactly while no lower slot is free. -/
theorem freeSlot_dropBase : ((k.raise .ctrlC).dropBase (base k.activeTerm)).freeSlot = some (base k.activeTerm) ↔
    ∀ i < base k.activeTerm, k.pid i = true := by
  have hpid : ((k.raise .ctrlC).dropBase (base k.activeTerm)).pid = Function.update k.pid (base k.activeTerm) false :=
    rfl
  rw [Kernel.freeSlot_eq_some, hpid, Function.update_self]
  refine ⟨fun h i hi => ?_, fun h => ⟨rfl, fun i hi => ?_⟩⟩
  · rw [← h.2 i hi, Function.update_of_ne hi.ne]
  · rw [Function.update_of_ne hi.ne, h i hi]

/-- The shell in the same slot. -/
theorem replaced_of_executed (hcaller : k.caller = some (base k.activeTerm))
    (he : Kernel.Executed ((k.raise .ctrlC).dropBase (base k.activeTerm)) k' (base k.activeTerm) frame) :
    Replaced k k' (base k.activeTerm) frame := by
  obtain ⟨argsName, hpcb⟩ := he.pcb
  have hold : ((k.raise .ctrlC).dropBase (base k.activeTerm)).pcb =
      Function.update k.pcb (base k.activeTerm) { k.pcb (base k.activeTerm) with activeFlag := false } := rfl
  have hsame : ((k.raise .ctrlC).dropBase (base k.activeTerm)).caller = some (base k.activeTerm) := hcaller
  exact
    { pid := he.pid.trans (Function.update_idem _ _ _)
      currPid := he.currPid.trans (Function.update_eq_self_iff.mpr hcaller.symm)
      prevPid := he.prevPid.trans (congrArg (Function.update k.prevPid k.activeTerm) hcaller)
      termProc := he.termProc
      activeTerm := he.activeTerm
      pcb := by
        refine ⟨argsName, hpcb.trans ?_⟩
        rw [hold, Function.update_idem, Function.update_self, hsame]
        rfl
      userPde := he.userPde
      esp0 := he.esp0 }

/-- A base shell that ended as it should came back in its own slot. -/
theorem Ends.same_slot {i : Slot} (h : Ends k k' (base k.activeTerm) frame)
    (hfree : ((k.raise .ctrlC).dropBase (base k.activeTerm)).freeSlot = some i)
    (he : Kernel.Executed ((k.raise .ctrlC).dropBase (base k.activeTerm)) k' i frame) : i = base k.activeTerm := by
  have hpid : k'.pid = Function.update (Function.update k.pid (base k.activeTerm) false) i true := he.pid
  have hi : Function.update k.pid (base k.activeTerm) false i = false := (Kernel.freeSlot_eq_some.mp hfree).1
  by_contra hne
  cases h with
  | returned hcaller hq hr =>
    have hused := congrFun (hpid.symm.trans hr.pid) i
    rw [Function.update_self, Function.update_of_ne hne] at hused
    rw [Function.update_of_ne hne, ← hused] at hi
    cases hi
  | restarted hcaller hr =>
    have hused := congrFun (hpid.symm.trans hr.pid) (base k.activeTerm)
    rw [Function.update_of_ne (Ne.symm hne), Function.update_self, Function.update_self] at hused
    cases hused

/-- A process with its own PCB returns to its parent. -/
theorem haltBy_child {fs : FileSystem} {q : Slot} (hcaller : k.caller = some c) (hbase : c ≠ base k.activeTerm)
    (hpid : (k.pcb c).pid = some c) (hparent : (k.pcb c).parentPid = some q) (hne : c ≠ q) (frame : ExecFrame) :
    ∃ r, k.haltBy fs .ctrlC frame = some r ∧ Kernel.Returned k r.after c q := by
  obtain ⟨k', hk', hr⟩ := Kernel.haltReturn_eq (k := k.raise .ctrlC) hpid hparent hne Cause.ctrlC.status
  have hhalt := (haltBy_eq k fs .ctrlC frame).trans
    ((Kernel.halt_of_child (show (k.raise .ctrlC).caller = some c from hcaller) hbase).trans hk')
  exact ⟨_, hhalt, hr.pid, hr.currPid, hr.prevPid, hr.termProc, hr.activeTerm, hr.pcb, hr.userPde, hr.esp0,
    hr.regs, hr.exceptionStatus, hr.closeCalls, hr.rtc⟩

/-- A process without a parent cannot end. -/
theorem haltBy_orphan {fs : FileSystem} (hcaller : k.caller = some c) (hbase : c ≠ base k.activeTerm)
    (hparent : (k.pcb c).parentPid = none) (frame : ExecFrame) : k.haltBy fs .ctrlC frame = none := by
  rw [haltBy_eq, Kernel.halt_of_child (show (k.raise .ctrlC).caller = some c from hcaller) hbase]
  exact Kernel.haltReturn_none (k := k.raise .ctrlC) hparent Cause.ctrlC.status

end Halt

section Steps

variable {disk : Disk} {s s' : Session} {frame : ExecFrame}

/-- Only a thread in its program is there. -/
theorem Code.isUser_iff {code : Code} : code.isUser = true ↔ code = .user := by
  cases code <;> simp [Code.isUser]

/-- A session whose threads are in order, or that a refused start left without a process. -/
def Session.Ordered (fs : FileSystem) (s : Session) : Prop := InOrder fs s.m ∨ Deserted s.m

/-- An action at the right moment keeps the order. -/
theorem Session.ordered_act {e : Action} {m : Machine} (h : s.Ordered disk.fs) (hready : SlotReady s.m e)
    (hact : s.act disk.fs e = some m) : InOrder disk.fs m ∨ Deserted m := by
  unfold Session.act at hact
  split_ifs at hact
  rcases Option.or_eq_some_iff.mp hact with hstep | ⟨-, hrefused⟩
  · rcases h with h | h
    · exact Or.inl (h.step hready hstep)
    · exact Or.inr (h.act hstep ▸ h)
  · cases e with
    | tick regs frame =>
      rcases h with h | h
      · exact Or.inr (h.deserted hrefused)
      · simp [Machine.startRefused, h.not_startShell] at hrefused
    | _ => cases hrefused

/-- A step at the right moment keeps the order. -/
theorem Session.ordered_step {e : SessionEvent} (h : s.Ordered disk.fs) (hready : SessionReady s e)
    (hs' : s.step disk.fs e = some s') : s'.Ordered disk.fs := by
  cases e with
  | act e =>
    obtain ⟨m, hact, rfl⟩ := Option.map_eq_some_iff.mp hs'
    exact s.ordered_act h hready.1 hact
  | other now =>
    cases hs'
    exact h.imp (·.other now) fun h => ⟨h.caller, h.proc, h.code⟩
  | key statusKey keyPress frame =>
    simp only [Session.step] at hs'
    split at hs'
    · cases hs'
    · cases hs'
      exact h
    · rename_i console hkey
      obtain ⟨m, hm, rfl⟩ := Option.map_eq_some_iff.mp hs'
      rcases h with h | h
      · obtain ⟨hcode, hslot⟩ := hready (by rw [Session.ctrlCBy, hkey])
        have huser := Code.isUser_iff.mp hcode
        rw [h.ctrlC_eq huser] at hm
        exact Or.inl (h.step hslot hm)
      · simp [Machine.ctrlC, haltBy_of_no_caller h.caller] at hm
  | readStart | readFinish _ =>
    simp only [Session.step, Option.map_eq_some_iff] at hs'
    obtain ⟨console, -, rfl⟩ := hs'
    exact h

/-- The C key with Ctrl held down calls `halt`. -/
theorem Session.step_ctrlC {statusKey : UInt8} (hstatus : statusKey &&& 0x1 ≠ 0)
    (hctrl : s.console.mods.ctrlFlag = true) :
    s.step disk.fs (.key statusKey C_PRESS frame) =
      (s.m.ctrlC disk.fs frame).map fun m => { m, console := s.console } := by
  have hfunction : s.console.mods.checkFunctionKey C_PRESS = (false, s.console.mods) := rfl
  have hswitch : ¬(s.console.mods.altFlag = true ∧ F1 ≤ C_PRESS ∧ C_PRESS ≤ F3) := fun h => absurd h.2.1 (by decide)
  have hclear : ¬(s.console.mods.ctrlFlag = true ∧ C_PRESS = L_PRESS) := fun h => absurd h.2 (by decide)
  have hpressed : s.console.keyPressed C_PRESS = .ok (s.console, true) := by
    rw [Console.keyPressed, if_neg hswitch, if_pos (by decide), if_neg hclear, if_pos ⟨hctrl, rfl⟩]
  have hkey : keyboardHandler s.console statusKey C_PRESS = .ok (s.console, true) := by
    rw [keyboardHandler, if_neg hstatus, if_neg (by decide), hfunction]
    exact hpressed
  simp only [Session.step, hkey]

/-- A change of one terminal's variables and slots keeps the chains of the others. -/
theorem Owners.chainKept {m m' : Machine} (h : Owners m) (hconfined : Confined m.k m'.k)
    (hslots : ∀ i ∉ m.owned m.active, m'.k.pid i = m.k.pid i ∧ m'.k.pcb i = m.k.pcb i)
    (howned : ∀ t, t ≠ m.active → m'.owned t = m.owned t) {u : Fin 3} (hu : u ≠ m.active) : ChainKept u m m' := by
  have hother {i : Slot} (hi : i ∈ m.owned u) : i ∉ m.owned m.active := fun hmem =>
    hu (h.separate.unique u m.active i hi hmem)
  exact ⟨hconfined.currPid u hu, hconfined.prevPid u hu, hconfined.termProc u hu, howned u hu,
    fun i hi => (hslots i (hother hi)).1, fun i hi => (hslots i (hother hi)).2⟩

/-- A process that both variables of the scheduled terminal name ends under the condition, and only slots of its
terminal change. -/
theorem InOrder.ends {m : Machine} (h : InOrder disk.fs m) {c : Slot} (hcaller : m.k.caller = some c)
    (hproc : m.k.termProc m.active = some c) (hlow : c = base m.active → ∀ i < c, m.k.pid i = true)
    (hparent : c ≠ base m.active → (m.k.pcb c).parentPid ≠ none) (frame : ExecFrame) :
    ∃ r, m.k.haltBy disk.fs .ctrlC frame = some r ∧ Ends m.k r.after c frame ∧
      ∀ i ∉ m.owned m.active, r.after.pid i = m.k.pid i ∧ r.after.pcb i = m.k.pcb i := by
  have hmem : c ∈ m.owned m.active := (h.threads m.active).curr_mem hcaller
  by_cases hbase : c = base m.active
  · subst c
    obtain ⟨i, k', hfree, hhalt, he⟩ := haltBy_base disk hcaller frame
    have hfound := freeSlot_dropBase.mpr (hlow rfl)
    cases hfound.symm.trans hfree
    have hr := replaced_of_executed hcaller he
    refine ⟨_, hhalt, .restarted hcaller hr, fun i hi => ?_⟩
    have hne : i ≠ base m.active := fun heq => hi (heq ▸ hmem)
    obtain ⟨argsName, hpcb⟩ := hr.pcb
    exact ⟨(congrFun hr.pid i).trans (Function.update_of_ne hne _ _),
      (congrFun hpcb i).trans (Function.update_of_ne hne _ _)⟩
  · obtain ⟨below, hsuffix, hpid, hhead⟩ := (h.threads m.active).running (h.setup m.active) hcaller hproc hbase
    obtain ⟨q, hq⟩ := Option.ne_none_iff_exists'.mp (hparent hbase)
    obtain ⟨rest, rfl⟩ := List.head?_eq_some_iff.mp (hhead.symm.trans hq)
    have hqmem : q ∈ m.owned m.active := hsuffix.mem (by simp)
    have hne : c ≠ q := by
      rintro rfl
      have hnodup := (h.separate.nodup m.active).sublist hsuffix.sublist
      simp at hnodup
    obtain ⟨r, hhalt, hr⟩ := haltBy_child hcaller hbase hpid hq hne frame
    refine ⟨r, hhalt, .returned hcaller hne.symm hr, fun i hi => ?_⟩
    have hic : i ≠ c := fun heq => hi (heq ▸ hmem)
    have hiq : i ≠ q := fun heq => hi (heq ▸ hqmem)
    refine ⟨(congrFun hr.pid i).trans (Function.update_of_ne hic _ _), ?_⟩
    rw [hr.pcb, Function.update_of_ne hiq, Function.update_of_ne hic]

/-- A process that ended as it should met the condition. -/
theorem Ends.ready {k : Kernel} {c : Slot} {r : HaltResult} (h : Ends k r.after c frame)
    (hhalt : k.haltBy disk.fs .ctrlC frame = some r) :
    (c = base k.activeTerm → ∀ i < c, k.pid i = true) ∧ (c ≠ base k.activeTerm → (k.pcb c).parentPid ≠ none) := by
  have hcaller : k.caller = some c := by
    cases h with
    | returned hcaller _ _ | restarted hcaller _ => exact hcaller
  refine ⟨fun hbase => ?_, fun hbase hnone => ?_⟩
  · subst c
    obtain ⟨i, k', hfree, hrestart, he⟩ := haltBy_base disk hcaller frame
    cases hrestart.symm.trans hhalt
    rw [h.same_slot hfree he] at hfree
    exact freeSlot_dropBase.mp hfree
  · cases (haltBy_orphan hcaller hbase hnone frame).symm.trans hhalt

/-- Ctrl+C does what it should exactly under the condition, at whatever statement the scheduled thread is. -/
theorem Session.endsDisplayed_iff (h : s.Ordered disk.fs) {statusKey : UInt8} (hstatus : statusKey &&& 0x1 ≠ 0)
    (hctrl : s.console.mods.ctrlFlag = true) (frame : ExecFrame) :
    EndsDisplayed disk.fs s statusKey frame ↔ DisplayedRuns s := by
  rcases h with h | h
  · constructor
    · rintro ⟨p, s', hp, hs', hends, -⟩
      rw [Session.step_ctrlC hstatus hctrl] at hs'
      obtain ⟨m, hm, rfl⟩ := Option.map_eq_some_iff.mp hs'
      obtain ⟨r, hhalt, rfl⟩ := Option.map_eq_some_iff.mp hm
      have hcaller : s.k.caller = some p := by
        cases hends with
        | returned hcaller _ _ | restarted hcaller _ => exact hcaller
      have hsame : s.console.currTerm = s.m.active := h.separate.unique _ _ p
        ((h.threads s.console.currTerm).proc_mem hp) ((h.threads s.m.active).curr_mem hcaller)
      obtain ⟨hlow, hparent⟩ := Ends.ready (r := r) hends hhalt
      exact ⟨hsame, p, hcaller, hsame ▸ hp, hlow, hparent⟩
    · rintro ⟨hsame, c, hcaller, hproc, hlow, hparent⟩
      obtain ⟨r, hhalt, hends, hslots⟩ := h.ends hcaller hproc hlow hparent frame
      let m' : Machine := { s.m.goto .user r.after with
        owned := Function.update s.m.owned s.m.active (s.m.fromCallerAfter r) }
      have hm : s.m.ctrlC disk.fs frame = some m' := by
        rw [Machine.ctrlC, hhalt]
        rfl
      refine ⟨c, { m := m', console := s.console }, hsame ▸ hproc, ?_, hends, fun u hu => ?_⟩
      · rw [Session.step_ctrlC hstatus hctrl, hm]
        rfl
      · exact h.chainKept (confined_haltBy hhalt) hslots (fun t ht => Function.update_of_ne ht _ _) (hsame ▸ hu)
  · constructor
    · rintro ⟨p, s', -, -, hends, -⟩
      cases hends with
      | returned hcaller _ _ | restarted hcaller _ => cases h.caller.symm.trans hcaller
    · rintro ⟨-, c, hcaller, -⟩
      cases h.caller.symm.trans hcaller

end Steps

section Boot

variable {disk : Disk} {pcb : Slot → Pcb} {page : UInt32 → ℕ → UInt8} {vmem : ℤ → UInt8} {bootFrame : ExecFrame}

/-- The threads and the console after boot. -/
def bootSession (disk : Disk) (pcb : Slot → Pcb) (page : UInt32 → ℕ → UInt8) (vmem : ℤ → UInt8)
    (frame : ExecFrame) : Session where
  m := Machine.boot disk pcb page frame
  console := terminalInit vmem

/-- After boot the threads are in order. -/
theorem inOrder_boot : InOrder disk.fs (Machine.boot disk pcb page bootFrame) :=
  ⟨owners_boot disk pcb page bootFrame, fun _ => .of_ne fun _ _ => Code.noConfusion, fun _ _ => rfl⟩

/-- In every state that statements of the three threads, calls, ends of processes, ticks, keys and reads reach from
boot under the condition on the steps, the C key with Ctrl held down ends the process of the displayed terminal and
keeps the chains of the others if and only if the displayed terminal is scheduled, its `curr_pid` and `term_proc`
name the same process, and that process can end. -/
theorem ctrlC_endsDisplayed_iff {events : List SessionEvent} {s : Session}
    (hready : Along (Session.step · disk.fs) SessionReady (bootSession disk pcb page vmem bootFrame) events)
    (hrun : run (Session.step · disk.fs) (bootSession disk pcb page vmem bootFrame) events = some s)
    {statusKey : UInt8} (hstatus : statusKey &&& 0x1 ≠ 0) (hctrl : s.console.mods.ctrlFlag = true)
    (frame : ExecFrame) : EndsDisplayed disk.fs s statusKey frame ↔ DisplayedRuns s := by
  have hordered : s.Ordered disk.fs :=
    run_invariant_of_along (fun s e s' h hready hs' => s.ordered_step h hready hs') (Or.inl inOrder_boot) hready hrun
  exact s.endsDisplayed_iff hordered hstatus hctrl frame

end Boot

/-- The machine that boots from the image with one executable. -/
def shellSession : Session := bootSession shellDisk (fun _ => Pcb.zeroed) (fun _ _ => 0) (fun _ => 0) zeroFrame

/-- The first terminal's shell executes a program, and Ctrl+C ends the program. -/
theorem ctrlC_endsDisplayed_shell :
    ∃ s, run (Session.step · shellDisk.fs) shellSession
        ([.act (.execute shellCommand zeroFrame)] ++ List.replicate 45 (.act .stmt) ++ [.key 1 LEFT_CTRL zeroFrame]) =
          some s ∧
      s.k.termProc 0 = some 1 ∧ EndsDisplayed shellDisk.fs s 1 zeroFrame := by
  let events : List SessionEvent :=
    [.act (.execute shellCommand zeroFrame)] ++ List.replicate 45 (.act .stmt) ++ [.key 1 LEFT_CTRL zeroFrame]
  have hready : Along (Session.step · shellDisk.fs) SessionReady shellSession events := by decide +kernel
  have hrun : (run (Session.step · shellDisk.fs) shellSession events).map (fun s =>
      ((s.console.mods.ctrlFlag, s.console.currTerm, s.k.activeTerm),
        (s.k.currPid 0, s.k.termProc 0, (s.k.pcb 1).parentPid))) = some ((true, 0, 0), (some 1, some 1, some 0)) := by
    decide +kernel
  obtain ⟨s, hs, heq⟩ := Option.map_eq_some_iff.mp hrun
  simp only [Prod.mk.injEq] at heq
  obtain ⟨⟨hctrl, hcurr, hactive⟩, hcaller, hproc, hparent⟩ := heq
  have hruns : DisplayedRuns s := by
    rw [DisplayedRuns, Machine.active, Kernel.caller, hactive, hcurr]
    exact ⟨rfl, 1, hcaller, hproc, fun hbase => absurd hbase (by decide), fun _ => by simp [hparent]⟩
  exact ⟨s, hs, hproc, (ctrlC_endsDisplayed_iff hready hs (by decide) hctrl zeroFrame).mpr hruns⟩

/-- The first terminal is displayed while the second one's program is scheduled: Ctrl+C ends that program, and
the shell of the first terminal goes on. -/
theorem ctrlC_endsScheduled :
    ∃ s s', run (Session.step · shellDisk.fs) shellSession
        ([.act zeroTick, .act (.execute shellCommand zeroFrame)] ++ List.replicate 46 (.act .stmt) ++
          [.key 1 LEFT_CTRL zeroFrame]) = some s ∧
      s.console.mods.ctrlFlag = true ∧ s.console.currTerm = 0 ∧ s.k.activeTerm = 1 ∧
      s.k.termProc 0 = some 0 ∧ s.k.termProc 1 = some 2 ∧
      s.step shellDisk.fs (.key 1 C_PRESS zeroFrame) = some s' ∧ s'.k.pid 0 = true ∧ s'.k.pid 2 = false ∧
      ¬EndsDisplayed shellDisk.fs s 1 zeroFrame := by
  have hrun : (run (Session.step · shellDisk.fs) shellSession
      ([.act zeroTick, .act (.execute shellCommand zeroFrame)] ++ List.replicate 46 (.act .stmt) ++
        [.key 1 LEFT_CTRL zeroFrame])).bind
        (fun s => (s.step shellDisk.fs (.key 1 C_PRESS zeroFrame)).map fun s' =>
          ((s.console.mods.ctrlFlag, s.console.currTerm, s.k.activeTerm), (s.k.termProc 0, s.k.termProc 1),
            (s.k.currPid 1, s'.k.pid 0, s'.k.pid 2))) =
      some ((true, 0, 1), (some 0, some 2), (some 2, true, false)) := by
    decide +kernel
  obtain ⟨s, hs, hrest⟩ := Option.bind_eq_some_iff.mp hrun
  obtain ⟨s', hs', heq⟩ := Option.map_eq_some_iff.mp hrest
  simp only [Prod.mk.injEq] at heq
  obtain ⟨⟨hctrl, hcurr, hactive⟩, ⟨hproc₀, hproc₁⟩, hrunning, hkept, hfreed⟩ := heq
  refine ⟨s, s', hs, hctrl, hcurr, hactive, hproc₀, hproc₁, hs', hkept, hfreed, ?_⟩
  rintro ⟨p, s'', hp, -, hends, -⟩
  rw [hcurr, hproc₀] at hp
  have hcaller : s.k.caller = some 2 := by
    rw [Kernel.caller, hactive]
    exact hrunning
  cases hends with
  | returned hends _ _ | restarted hends _ => cases hp.trans (hends.symm.trans hcaller)

end OsKernel
