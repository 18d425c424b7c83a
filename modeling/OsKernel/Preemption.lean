import OsKernel.Boot

/-!
# Preemption

The system call gate is a trap gate, so a tick can come between any two statements of `execute` and
`halt`. Each terminal has a thread of kernel code; the scheduled one runs its next statement, and a
tick suspends it where it is. What runs with interrupts masked stays one step: the handler of the
timer with the shell it may start, and a `halt` called by `excpHandler` or by the keyboard handler.
-/

namespace OsKernel

open Library

/-- A call of `execute` that passed its checks. For the call that `halt` makes for a base shell,
`halting` is the PCB and the status of that `halt`. -/
structure ExecCall where
  prog : Program
  frame : ExecFrame
  halting : Option (Slot × UInt8)

/-- Where a thread is: the next statement it runs. -/
inductive Code where
  /-- In the program. -/
  | user
  /-- At `if(pid[i] == 0)`. -/
  | search (call : ExecCall) (i : Slot)
  /-- At `pid[i] = 1`. -/
  | mark (call : ExecCall) (i : Slot)
  /-- At `terms[active_term].prev_pid = terms[active_term].curr_pid`. -/
  | savePrev (call : ExecCall) (i : Slot)
  /-- At `terms[active_term].curr_pid = i`. -/
  | setCurr (call : ExecCall) (i : Slot)
  /-- In the rest of `execute`, on the PCB that `pcb` points to; after the last statement the new
  program runs. -/
  | setup (pcb : Slot) (rest : List ExecStmt)
  /-- At `if(terms[active_term].curr_pid == active_term)`. -/
  | testBase (pcb : Slot) (status : UInt8) (frame : ExecFrame)
  /-- At `curr_pcb->active_flag = 0` of a base shell. -/
  | clearBase (pcb : Slot) (status : UInt8) (frame : ExecFrame)
  /-- At `pid[active_term] = 0`. -/
  | freeBase (pcb : Slot) (status : UInt8) (frame : ExecFrame)
  /-- In the rest of `halt`; after the listed statements it reads `curr_pcb->saved_esp` and returns
  from the parent's `execute`. -/
  | unwind (pcb : Slot) (status : UInt8) (rest : List HaltStmt)

/-- Where `execute` returns to when it returns -1: the program, or the `halt` that called it. -/
def Code.refused : Option (Slot × UInt8) → Code
  | none => .user
  | some (pcb, status) => .unwind pcb status haltStmts

/-- `execute` up to its search loop. -/
def Code.enter (fs : FileSystem) (command : Option Bytes) (frame : ExecFrame)
    (halting : Option (Slot × UInt8)) : Code :=
  match executeCheck fs command frame with
  | none => .refused halting
  | some prog => .search { prog, frame, halting } 0

/-- The next statement of a thread: where the thread is after it, and its effect. -/
def Code.next (fs : FileSystem) (k : Kernel) : Code → Option (Code × Kernel)
  | user => none
  | search call i =>
    if k.pid i then
      if h : i.val + 1 < 6 then some (.search call ⟨i.val + 1, h⟩, k) else some (.refused call.halting, k)
    else some (.mark call i, k)
  | mark call i => some (.savePrev call i, k.markPid i)
  | savePrev call i => some (.setCurr call i, k.setPrevPid)
  | setCurr call i => some (.setup i (call.prog.execStmts fs call.frame), k.setCurrPid (some i))
  | setup _ [] => some (.user, k)
  -- a page fault of the load ends the run
  | setup pcb (s :: rest) => if s.faults then none else some (.setup pcb rest, s.run pcb k)
  | testBase pcb status frame =>
    if k.caller = some (base k.activeTerm) then some (.clearBase pcb status frame, k)
    else some (.unwind pcb status haltStmts, k)
  | clearBase pcb status frame =>
    some (.freeBase pcb status frame, k.modifyPcb pcb fun p => { p with activeFlag := false })
  | freeBase pcb status frame =>
    some (.enter fs shellCommand frame (some (pcb, status)),
      { k with pid := Function.update k.pid (base k.activeTerm) false })
  | unwind pcb status [] => some (.user, (k.haltExit pcb status).after)
  | unwind pcb status (s :: rest) => (s.run pcb k).map fun k => (.unwind pcb status rest, k)

/-- A statement of the rest of `execute` that does not fault. -/
theorem Code.next_setup {fs : FileSystem} {k k' : Kernel} {pcb : Slot} {s : ExecStmt} {rest : List ExecStmt}
    {code : Code} (h : Code.next fs k (.setup pcb (s :: rest)) = some (code, k')) :
    code = .setup pcb rest ∧ k' = s.run pcb k := by
  rw [Code.next] at h
  split_ifs at h
  cases h
  exact ⟨rfl, rfl⟩

/-- What the timer found when it suspended a thread. -/
structure Suspension where
  userPde : UInt32
  regs : Regs

/-- The machine with one thread for each terminal. -/
structure Machine where
  k : Kernel
  code : Fin 3 → Code
  /-- History: the slots that the processes of each terminal own, from the moment the search finds
  the slot until `halt` has left its kernel stack. -/
  owned : Fin 3 → List Slot
  /-- History: the last suspension of each terminal. -/
  suspended : Fin 3 → Option Suspension

/-- What can happen: a call of the scheduled process, its end with interrupts masked, the next
statement of the scheduled thread, or a tick. -/
inductive Action where
  | execute (command : Option Bytes) (frame : ExecFrame)
  | halt (status : UInt8) (frame : ExecFrame)
  | kill (byException : Bool) (frame : ExecFrame)
  | stmt
  | tick (regs : Regs) (frame : ExecFrame)

/-- A tick with a frame of zeros. -/
def zeroTick : Action := .tick zeroFrame.regs zeroFrame

namespace Machine

variable (m : Machine)

/-- The scheduled terminal. -/
def active : Fin 3 := m.k.activeTerm

/-- The thread of the scheduled terminal goes to a new place, with a new state of the kernel. -/
def goto (code : Code) (k : Kernel) : Machine := { m with k, code := Function.update m.code m.active code }

/-- A slot found for a new process of terminal `t`. The shell that replaces a base shell takes over
its slot. -/
def pick (t : Fin 3) (halting : Option Slot) (i : Slot) : Fin 3 → List Slot :=
  if halting = some i then m.owned else Function.update m.owned t (i :: m.owned t)

/-- A process of the scheduled terminal left its slot. -/
def drop : Fin 3 → List Slot := Function.update m.owned m.active (m.owned m.active).tail

/-- The owners after the next statement of the scheduled thread. -/
def ownedAfter : Fin 3 → List Slot :=
  match m.code m.active with
  | .search call i => if m.k.pid i then m.owned else m.pick m.active (call.halting.map Prod.fst) i
  | .unwind _ _ [] => m.drop
  | _ => m.owned

/-- The suspensions after a tick. -/
def suspend (regs : Regs) : Fin 3 → Option Suspension :=
  Function.update m.suspended m.active (some { userPde := m.k.userPde, regs })

/-- A tick. A start that is refused leaves no process on the scheduled terminal, and a switch that
loads another frame than the one the terminal's thread was suspended with does not resume that
thread; both end the run. -/
def tick (fs : FileSystem) (regs : Regs) (frame : ExecFrame) : Option Machine :=
  match m.k.pitAction with
  | .idle => some m
  | .startShell =>
    let saved := { m.k.saveSchedule (base m.k.activeTerm) regs with activeTerm := m.k.activeTerm + 1 }
    (saved.execute fs shellCommand frame).bind fun k => k.caller.map fun i =>
      { k
        code := Function.update m.code (m.active + 1) .user
        owned := Function.update m.owned (m.active + 1) (i :: m.owned (m.active + 1))
        suspended := m.suspend regs }
  | .contextSwitch switchFrom switchTo =>
    ({ m.k with activeTerm := m.k.activeTerm + 1 }.contextSwitch switchFrom switchTo regs).bind fun k =>
      if (m.suspended (m.active + 1)).map Suspension.regs = some k.regs then
        some { m with k, suspended := m.suspend regs }
      else none

/-- One step; `none` is one that cannot be taken, or an access to unmapped memory. -/
def step (fs : FileSystem) (m : Machine) : Action → Option Machine
  | .execute command frame =>
    match m.code m.active, m.k.caller with
    | .user, some _ => some (m.goto (.enter fs command frame none) m.k)
    | _, _ => none
  | .halt status frame =>
    match m.code m.active, m.k.caller with
    | .user, some pcb => some (m.goto (.testBase pcb status frame) m.k)
    | _, _ => none
  | .kill byException frame =>
    match m.code m.active, m.k.haltBy fs (if byException then .exception else .ctrlC) frame with
    | .user, some (.restarted k) =>
      some { m with k, owned := k.caller.elim m.owned (m.pick m.active m.k.caller) }
    | .user, some (.returned _ k) => some { m with k, owned := m.drop }
    | _, _ => none
  | .stmt => ((m.code m.active).next fs m.k).map fun next =>
    { m.goto next.1 next.2 with owned := m.ownedAfter }
  | .tick regs frame => m.tick fs regs frame

/-- The machine when the first shell runs. -/
def boot (disk : Disk) (pcb : Slot → Pcb) (page : UInt32 → ℕ → UInt8) (frame : ExecFrame) : Machine where
  k := OsKernel.boot disk pcb page frame
  code _ := .user
  owned := bootLive
  suspended _ := none

/-- The machine on the image with one executable, with zeroed memory. -/
def shell : Machine := boot shellDisk (fun _ => Pcb.zeroed) (fun _ _ => 0) zeroFrame

/-- A tick of the machine is `pit_handler`. -/
theorem tick_pitHandler {m' : Machine} {fs : FileSystem} {regs : Regs} {frame : ExecFrame}
    (h : m.tick fs regs frame = some m') : m.k.pitHandler fs regs frame = some m'.k := by
  unfold tick at h
  unfold Kernel.pitHandler
  cases haction : m.k.pitAction with
  | idle =>
    simp only [haction, Option.some.injEq] at h
    rw [← h]
  | startShell =>
    simp only [haction] at h
    obtain ⟨k, hexec, h⟩ := Option.bind_eq_some_iff.mp h
    obtain ⟨i, -, rfl⟩ := Option.map_eq_some_iff.mp h
    exact congrArg some ((congrArg (Option.getD · _) hexec).trans rfl)
  | contextSwitch switchFrom switchTo =>
    simp only [haction] at h
    obtain ⟨k, hswitch, h⟩ := Option.bind_eq_some_iff.mp h
    split at h
    · cases h
      exact hswitch
    · cases h

/-- The cases of a step. -/
inductive Moved (fs : FileSystem) (m : Machine) : Action → Machine → Prop where
  | executes {command frame p} (huser : m.code m.active = .user) (hcaller : m.k.caller = some p) :
      Moved fs m (.execute command frame) (m.goto (.enter fs command frame none) m.k)
  | halts {status frame p} (huser : m.code m.active = .user) (hcaller : m.k.caller = some p) :
      Moved fs m (.halt status frame) (m.goto (.testBase p status frame) m.k)
  | restarted {byException frame k'} (huser : m.code m.active = .user)
      (hhalt : m.k.haltBy fs (if byException then .exception else .ctrlC) frame = some (.restarted k')) :
      Moved fs m (.kill byException frame)
        { m with k := k', owned := k'.caller.elim m.owned (m.pick m.active m.k.caller) }
  | returned {byException frame value k'} (huser : m.code m.active = .user)
      (hhalt : m.k.haltBy fs (if byException then .exception else .ctrlC) frame = some (.returned value k')) :
      Moved fs m (.kill byException frame) { m with k := k', owned := m.drop }
  | ran {code k'} (hnext : (m.code m.active).next fs m.k = some (code, k')) :
      Moved fs m .stmt { m.goto code k' with owned := m.ownedAfter }
  | idle {regs frame} (haction : m.k.pitAction = .idle) : Moved fs m (.tick regs frame) m
  | started {regs frame k' i} (haction : m.k.pitAction = .startShell) (hfree : m.k.pid i = false)
      (hleast : ∀ j < i, m.k.pid j = true)
      (h : Kernel.Executed
        { m.k.saveSchedule (base m.k.activeTerm) regs with activeTerm := m.k.activeTerm + 1 } k' i frame) :
      Moved fs m (.tick regs frame)
        { k := k'
          code := Function.update m.code (m.active + 1) .user
          owned := Function.update m.owned (m.active + 1) (i :: m.owned (m.active + 1))
          suspended := m.suspend regs }
  | switched {regs frame k' p q} (haction : m.k.pitAction = .contextSwitch (some p) (some q))
      (h : Switched m.k k' p q regs)
      (hresume : (m.suspended (m.active + 1)).map Suspension.regs = some k'.regs) :
      Moved fs m (.tick regs frame) { m with k := k', suspended := m.suspend regs }

variable {m} {m' : Machine} {fs : FileSystem}

/-- Every step is one of the cases. -/
theorem step_moved {e : Action} (h : m.step fs e = some m') : Moved fs m e m' := by
  cases e with
  | execute command frame =>
    simp only [step] at h
    split at h
    · rename_i huser hcaller
      cases h
      exact .executes huser hcaller
    · cases h
  | halt status frame =>
    simp only [step] at h
    split at h
    · rename_i huser hcaller
      cases h
      exact .halts huser hcaller
    · cases h
  | kill byException frame =>
    simp only [step] at h
    split at h
    · rename_i huser hhalt
      cases h
      exact .restarted huser hhalt
    · rename_i huser hhalt
      cases h
      exact .returned huser hhalt
    · cases h
  | stmt =>
    obtain ⟨⟨code, k'⟩, hnext, rfl⟩ := Option.map_eq_some_iff.mp h
    exact .ran hnext
  | tick regs frame =>
    simp only [step, tick] at h
    cases haction : m.k.pitAction with
    | idle =>
      simp only [haction, Option.some.injEq] at h
      rw [← h]
      exact .idle haction
    | startShell =>
      simp only [haction] at h
      obtain ⟨k, hexec, h⟩ := Option.bind_eq_some_iff.mp h
      obtain ⟨i, hi, rfl⟩ := Option.map_eq_some_iff.mp h
      obtain ⟨j, hfree, hleast, he⟩ := Kernel.execute_eq_some hexec
      obtain rfl : j = i := by
        rw [Kernel.caller, he.currPid, he.activeTerm, Function.update_self] at hi
        exact Option.some.inj hi
      exact .started haction hfree hleast he
    | contextSwitch switchFrom switchTo =>
      simp only [haction] at h
      obtain ⟨k, hswitch, hrest⟩ := Option.bind_eq_some_iff.mp h
      obtain ⟨p, q, rfl, rfl, hs⟩ := contextSwitch_eq_some hswitch
      split at hrest
      · rename_i hresume
        cases hrest
        exact .switched haction hs hresume
      · cases hrest

end Machine

/-- No statement of `halt` comes twice. -/
theorem not_mem_of_suffix {s : HaltStmt} {rest : List HaltStmt} (h : s :: rest <:+ haltStmts) : s ∉ rest := by
  have hnodup : haltStmts.Nodup := by decide
  exact (List.nodup_cons.mp (hnodup.sublist h.sublist)).1

/-- The order of the statements of `halt`. -/
theorem haltStmts_order {s : HaltStmt} {rest : List HaltStmt} (h : s :: rest <:+ haltStmts) :
    (s = .setCurrPid → .setTermProc ∈ rest) ∧
      (s = .setTermProc → .setCurrPid ∉ rest ∧ .setPde ∈ rest) ∧ (s = .setPde → .setTermProc ∉ rest) := by
  have hall : ∀ r ∈ haltStmts.tails, (r.head? = some .setCurrPid → HaltStmt.setTermProc ∈ r.tail) ∧
      (r.head? = some .setTermProc → HaltStmt.setCurrPid ∉ r.tail ∧ HaltStmt.setPde ∈ r.tail) ∧
        (r.head? = some .setPde → HaltStmt.setTermProc ∉ r.tail) := by
    decide
  simpa using hall (s :: rest) ((List.mem_tails _ _).mpr h)

/-- `execute` sets both pids of the new PCB, the mapping and `term_proc`. -/
theorem mem_execStmts (prog : Program) (fs : FileSystem) (frame : ExecFrame) :
    .setPid ∈ prog.execStmts fs frame ∧ .setParentPid ∈ prog.execStmts fs frame ∧
      .setupMem ∈ prog.execStmts fs frame ∧ .setTermProc ∈ prog.execStmts fs frame := by
  have hfirst {s : ExecStmt}
      (hs : s ∈ [.setPid, .setParentPid, .setActive, .initDescs, .setArgs prog.fileName, .setupMem]) :
      s ∈ prog.execStmts fs frame := List.mem_append_left _ (List.mem_append_left _ hs)
  exact ⟨hfirst (by simp), hfirst (by simp), hfirst (by simp), List.mem_append_right _ (by simp)⟩

/-- A step of one terminal's thread leaves the variables of the other terminals alone. -/
structure Confined (k k' : Kernel) : Prop where
  activeTerm : k'.activeTerm = k.activeTerm
  currPid : ∀ t, t ≠ k.activeTerm → k'.currPid t = k.currPid t
  prevPid : ∀ t, t ≠ k.activeTerm → k'.prevPid t = k.prevPid t
  termProc : ∀ t, t ≠ k.activeTerm → k'.termProc t = k.termProc t

section Confined

variable {k k' k'' : Kernel} {fs : FileSystem}

/-- A step that changes none of the terminals' variables. -/
theorem Confined.of_eq (hactive : k'.activeTerm = k.activeTerm) (hcurr : k'.currPid = k.currPid)
    (hprev : k'.prevPid = k.prevPid) (hproc : k'.termProc = k.termProc) : Confined k k' :=
  ⟨hactive, fun t _ => congrFun hcurr t, fun t _ => congrFun hprev t, fun t _ => congrFun hproc t⟩

/-- Two steps of one thread. -/
theorem Confined.trans (h : Confined k k') (h' : Confined k' k'') : Confined k k'' where
  activeTerm := h'.activeTerm.trans h.activeTerm
  currPid t ht := (h'.currPid t (h.activeTerm ▸ ht)).trans (h.currPid t ht)
  prevPid t ht := (h'.prevPid t (h.activeTerm ▸ ht)).trans (h.prevPid t ht)
  termProc t ht := (h'.termProc t (h.activeTerm ▸ ht)).trans (h.termProc t ht)

/-- The statements of `execute` are confined. -/
theorem confined_execStmt (pcb : Slot) (k : Kernel) (s : ExecStmt) : Confined k (s.run pcb k) := by
  cases s with
  | setTermProc => exact ⟨rfl, fun _ _ => rfl, fun _ _ => rfl, fun t ht => Function.update_of_ne ht _ _⟩
  | store offset byte =>
    obtain ⟨page, hpage⟩ := Kernel.store_eq k pcb offset byte
    rw [hpage]
    exact .of_eq rfl rfl rfl rfl
  | _ =>
    simp only [ExecStmt.run]
    exact .of_eq rfl rfl rfl rfl

/-- The statements of `halt` are confined. -/
theorem confined_haltStmt {pcb : Slot} {s : HaltStmt} (h : s.run pcb k = some k') : Confined k k' := by
  cases s with
  | freePid =>
    obtain ⟨p, -, rfl⟩ := Option.map_eq_some_iff.mp h
    exact .of_eq rfl rfl rfl rfl
  | setCurrPid =>
    cases h
    exact ⟨rfl, fun t ht => Function.update_of_ne ht _ _, fun _ _ => rfl, fun _ _ => rfl⟩
  | setTermProc =>
    cases h
    exact ⟨rfl, fun _ _ => rfl, fun _ _ => rfl, fun t ht => Function.update_of_ne ht _ _⟩
  | setPrevPid =>
    obtain ⟨p, -, rfl⟩ := Option.map_eq_some_iff.mp h
    exact ⟨rfl, fun _ _ => rfl, fun t ht => Function.update_of_ne ht _ _, fun _ _ => rfl⟩
  | close fd =>
    obtain ⟨⟨ret, k'⟩, hclose, rfl⟩ := Option.map_eq_some_iff.mp h
    have hd := descCall_close hclose
    exact .of_eq hd.activeTerm hd.currPid hd.prevPid hd.termProc
  | setEsp0 =>
    obtain ⟨p, -, rfl⟩ := Option.map_eq_some_iff.mp h
    exact .of_eq rfl rfl rfl rfl
  | clearActive | setPde =>
    cases h
    exact .of_eq rfl rfl rfl rfl

/-- The end of `halt` is confined. -/
theorem confined_haltExit (k : Kernel) (pcb : Slot) (status : UInt8) : Confined k (k.haltExit pcb status).after := by
  rw [Kernel.haltExit_eq]
  exact .of_eq rfl rfl rfl rfl

/-- Every statement of a thread is confined. -/
theorem confined_next {code code' : Code} (h : code.next fs k = some (code', k')) : Confined k k' := by
  have hsame : Confined k k := .of_eq rfl rfl rfl rfl
  cases code with
  | user => cases h
  | search call i =>
    simp only [Code.next] at h
    split_ifs at h <;> cases h <;> exact hsame
  | mark call i =>
    cases h
    exact .of_eq rfl rfl rfl rfl
  | savePrev call i =>
    cases h
    exact ⟨rfl, fun _ _ => rfl, fun t ht => Function.update_of_ne ht _ _, fun _ _ => rfl⟩
  | setCurr call i =>
    cases h
    exact ⟨rfl, fun t ht => Function.update_of_ne ht _ _, fun _ _ => rfl, fun _ _ => rfl⟩
  | setup pcb rest =>
    cases rest with
    | nil =>
      cases h
      exact hsame
    | cons s rest =>
      obtain ⟨rfl, rfl⟩ := Code.next_setup h
      exact confined_execStmt pcb k s
  | testBase pcb status frame =>
    simp only [Code.next] at h
    split_ifs at h <;> cases h <;> exact hsame
  | clearBase pcb status frame | freeBase pcb status frame =>
    cases h
    exact .of_eq rfl rfl rfl rfl
  | unwind pcb status rest =>
    cases rest with
    | nil =>
      cases h
      exact confined_haltExit k pcb status
    | cons s rest =>
      obtain ⟨k₁, hrun, h⟩ := Option.map_eq_some_iff.mp h
      cases h
      exact confined_haltStmt hrun

/-- A `halt` after the base-shell test, uninterrupted, is confined. -/
theorem confined_haltReturn {pcb : Slot} {status : UInt8} {r : HaltResult} (h : k.haltReturn pcb status = some r) :
    Confined k r.after := by
  have hstmts (stmts : List HaltStmt) (k k' : Kernel) (hrun : stmts.foldlM (HaltStmt.run pcb) k = some k') :
      Confined k k' := by
    induction stmts generalizing k with
    | nil =>
      cases hrun
      exact .of_eq rfl rfl rfl rfl
    | cons s rest ih =>
      obtain ⟨k₁, hs, hrest⟩ := Option.bind_eq_some_iff.mp hrun
      exact (confined_haltStmt hs).trans (ih k₁ hrest)
  obtain ⟨k₁, hrun, rfl⟩ := Option.map_eq_some_iff.mp h
  exact (hstmts _ k k₁ hrun).trans (confined_haltExit k₁ pcb status)

/-- An uninterrupted `execute` is confined. -/
theorem confined_executed {i : Slot} {frame : ExecFrame} (he : Kernel.Executed k k' i frame) : Confined k k' where
  activeTerm := he.activeTerm
  currPid t ht := by rw [he.currPid, Function.update_of_ne ht]
  prevPid t ht := by rw [he.prevPid, Function.update_of_ne ht]
  termProc t ht := by rw [he.termProc, Function.update_of_ne ht]

/-- A `halt` with interrupts masked is confined. -/
theorem confined_haltBy {cause : Cause} {frame : ExecFrame} {r : HaltResult}
    (h : k.haltBy fs cause frame = some r) : Confined k r.after := by
  rw [haltBy_eq] at h
  have hraise : Confined k (k.raise cause) := .of_eq rfl rfl rfl rfl
  obtain ⟨c, hcaller, h⟩ := Option.bind_eq_some_iff.mp h
  split at h
  · have hdrop : Confined k ((k.raise cause).dropBase c) := .of_eq rfl rfl rfl rfl
    split at h
    · rename_i k₁ hexec
      cases h
      obtain ⟨i, -, -, he⟩ := Kernel.execute_eq_some hexec
      exact hdrop.trans (confined_executed he)
    · exact hdrop.trans (confined_haltReturn h)
  · exact hraise.trans (confined_haltReturn h)

end Confined

end OsKernel
