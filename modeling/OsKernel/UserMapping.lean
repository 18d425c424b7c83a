import OsKernel.Preemption

/-!
# Address spaces under preemption

`context_switch` loads the mapping of `term_proc` of the terminal it switches to. A thread that is
suspended while the mapping is another one, because `execute` has switched it already or `halt` not
yet, resumes in the wrong address space. Without such a tick every thread resumes in the address
space in which it was suspended, and the load of a program writes to the program's own page.
-/

namespace OsKernel

open Library

/-- The directory entry is the one of the process, when there is one. -/
def Loaded (pde : UInt32) (proc : Option Slot) : Prop := ∀ p, proc = some p → pde = userPdeAddr (some p)

/-- The thread has switched the mapping but not yet `term_proc`, or the other way round. -/
def Code.remapping (proc : Option Slot) : Code → Bool
  | setup pcb rest => ExecStmt.setupMem ∉ rest ∧ ExecStmt.setTermProc ∈ rest ∧ proc ≠ some pcb
  | unwind _ _ rest => HaltStmt.setTermProc ∉ rest ∧ HaltStmt.setPde ∈ rest
  | _ => false

/-- The store that a load is about to make is below the end of the 4MB page. -/
def Code.storeFits : Code → Bool
  | setup _ (.store offset _ :: _) => offset < 0x3B8000
  | _ => true

/-- The condition on a step: no tick while the mapping and `term_proc` differ, and no store past the
end of the page. -/
def AddressSpaceReady (m : Machine) : Action → Bool
  | .stmt => (m.code m.active).storeFits
  | .tick _ _ => !(m.code m.active).remapping (m.k.termProc m.active)
  | _ => true

/-- A tick restores the directory entry that the terminal was suspended with. A store of a load goes to
the page of the new process. -/
def AddressSpaceKept (fs : FileSystem) (m : Machine) (e : Action) : Prop :=
  match e with
  | .tick _ _ => ∀ m', m.step fs e = some m' → m'.active ≠ m.active →
    ∀ s, m'.suspended m'.active = some s → m'.k.userPde = s.userPde
  | .stmt => ∀ pcb offset byte rest, m.code m.active = .setup pcb (.store offset byte :: rest) →
    ∀ m', m.step fs e = some m' →
      m'.k.page = Function.update m.k.page (userPdeAddr (some pcb))
        (Function.update (m.k.page (userPdeAddr (some pcb))) ((PROG_IMAGE_ADDR + offset) % MB_4) byte)
  | _ => True

/-- The mapping is not switched before it is needed, and only once. -/
def MapOrder (stmts : List ExecStmt) : Prop :=
  stmts.Pairwise fun s later => later = .setupMem →
    s ≠ .setupMem ∧ s ≠ .setTermProc ∧ ∀ offset byte, s ≠ .store offset byte

/-- Statements among which the mapping is not switched. -/
theorem mapOrder_of_not_mem {stmts : List ExecStmt} (h : .setupMem ∉ stmts) : MapOrder stmts :=
  List.pairwise_of_forall_mem_list fun _ _ _ hlater hmap => absurd (hmap ▸ hlater) h

/-- A load does not switch the mapping. -/
theorem setupMem_not_mem_loadStmts (prog : Program) (fs : FileSystem) : .setupMem ∉ prog.loadStmts fs := by
  intro hmem
  obtain ⟨b, -, hb⟩ := List.mem_map.mp hmem
  cases hb

/-- The statements of `execute` are in that order. -/
theorem mapOrder_execStmts (prog : Program) (fs : FileSystem) (frame : ExecFrame) :
    MapOrder (prog.execStmts fs frame) := by
  have hload := setupMem_not_mem_loadStmts prog fs
  rw [Program.execStmts, List.append_assoc]
  generalize prog.loadStmts fs = loads at hload
  generalize prog.eip fs frame = eip
  have hlast : .setupMem ∉ loads ++
      [.saveEbp frame.regs.ebp, .saveEsp frame.regs.esp, .setEsp0, .setTermProc, .iret eip] := by
    simp [hload]
  have hrest := mapOrder_of_not_mem hlast
  rw [MapOrder] at hrest
  refine List.pairwise_append.mpr ⟨?_, hrest, fun s _ later hlater hmap => absurd (hmap ▸ hlater) hlast⟩
  simp

/-- How the mapping and `term_proc` stand while a thread is at a place. -/
def CodeLoaded (curr proc : Option Slot) (pde : UInt32) : Code → Prop
  | .setup pcb rest => MapOrder rest ∧ curr = some pcb ∧ (.setupMem ∈ rest → Loaded pde proc) ∧
      (.setupMem ∉ rest → pde = userPdeAddr (some pcb)) ∧ (.setTermProc ∉ rest → proc = some pcb)
  | .unwind _ _ rest => rest <:+ haltStmts ∧ (.setTermProc ∈ rest → Loaded pde proc) ∧
      (.setTermProc ∉ rest → proc = curr) ∧ (.setPde ∉ rest → Loaded pde proc)
  | _ => Loaded pde proc

/-- How they stand for the thread of the scheduled terminal. -/
def ThreadLoaded (k : Kernel) (code : Code) : Prop :=
  CodeLoaded (k.currPid k.activeTerm) (k.termProc k.activeTerm) k.userPde code

section Threads

variable {k k' : Kernel} {fs : FileSystem} {pcb : Slot} {status : UInt8} {curr proc : Option Slot} {pde : UInt32}

/-- Outside the two windows the mapping is the one of `term_proc`. -/
theorem CodeLoaded.loaded {code : Code} (h : CodeLoaded curr proc pde code)
    (hnot : code.remapping proc = false) : Loaded pde proc := by
  cases code with
  | setup pcb rest =>
    obtain ⟨-, -, hbefore, hafter, hproc⟩ := h
    by_cases hmap : ExecStmt.setupMem ∈ rest
    · exact hbefore hmap
    · have hsame : proc = some pcb := by
        by_cases hterm : ExecStmt.setTermProc ∈ rest
        · simpa [Code.remapping, hmap, hterm] using hnot
        · exact hproc hterm
      intro p hp
      rw [hafter hmap, ← hsame, hp]
  | unwind pcb status rest =>
    obtain ⟨-, hbefore, -, hafter⟩ := h
    by_cases hterm : HaltStmt.setTermProc ∈ rest
    · exact hbefore hterm
    · have hpde : HaltStmt.setPde ∉ rest := by simpa [Code.remapping, hterm] using hnot
      exact hafter hpde
  | _ => exact h

/-- A change that keeps the mapping and the variables of the scheduled terminal. -/
theorem ThreadLoaded.of_eq {code : Code} (h : ThreadLoaded k code)
    (hcurr : k'.currPid k'.activeTerm = k.currPid k.activeTerm)
    (hproc : k'.termProc k'.activeTerm = k.termProc k.activeTerm) (hpde : k'.userPde = k.userPde) :
    ThreadLoaded k' code := by
  rw [ThreadLoaded, hcurr, hproc, hpde]
  exact h

/-- Statements of `execute` that do not matter here. -/
theorem CodeLoaded.execTail {s : ExecStmt} {rest : List ExecStmt}
    (h : CodeLoaded curr proc pde (.setup pcb (s :: rest))) (hmap : .setupMem ≠ s)
    (hterm : .setTermProc ≠ s) : CodeLoaded curr proc pde (.setup pcb rest) := by
  obtain ⟨horder, hcurr, hbefore, hafter, hproc⟩ := h
  refine ⟨(List.pairwise_cons.mp horder).2, hcurr, fun hmem => hbefore (List.mem_cons_of_mem s hmem), ?_, ?_⟩
  · exact fun hnot => hafter fun hmem => (List.mem_cons.mp hmem).elim hmap hnot
  · exact fun hnot => hproc fun hmem => (List.mem_cons.mp hmem).elim hterm hnot

/-- A statement of `execute`. -/
theorem ThreadLoaded.execStmt {s : ExecStmt} {rest : List ExecStmt}
    (h : ThreadLoaded k (.setup pcb (s :: rest))) : ThreadLoaded (s.run pcb k) (.setup pcb rest) := by
  cases s with
  | setupMem =>
    obtain ⟨horder, hcurr, -, -, hproc⟩ := h
    obtain ⟨hhead, horder⟩ := List.pairwise_cons.mp horder
    have hnot : ExecStmt.setupMem ∉ rest := fun hmem => (hhead _ hmem rfl).1 rfl
    have hpde : userPdeAddr k.caller = userPdeAddr (some pcb) := congrArg userPdeAddr hcurr
    simp only [ExecStmt.run]
    generalize userPdeAddr k.caller = loaded at hpde ⊢
    refine ⟨horder, hcurr, fun hmem => absurd hmem hnot, fun _ => hpde, fun hterm => ?_⟩
    exact hproc fun hmem => (List.mem_cons.mp hmem).elim (by simp) hterm
  | setTermProc =>
    obtain ⟨horder, hcurr, -, hafter, -⟩ := h
    obtain ⟨hhead, horder⟩ := List.pairwise_cons.mp horder
    have hnot : ExecStmt.setupMem ∉ rest := fun hmem => (hhead _ hmem rfl).2.1 rfl
    simp only [ExecStmt.run]
    refine ⟨horder, hcurr, fun hmem => absurd hmem hnot, fun _ => ?_, fun _ => ?_⟩
    · exact hafter fun hmem => (List.mem_cons.mp hmem).elim (by simp) hnot
    · exact (Function.update_self _ _ _).trans hcurr
  | store offset byte =>
    obtain ⟨page, hpage⟩ := Kernel.store_eq k pcb offset byte
    rw [hpage]
    exact ThreadLoaded.of_eq (CodeLoaded.execTail h (by simp) (by simp)) rfl rfl rfl
  | _ =>
    simp only [ExecStmt.run]
    exact ThreadLoaded.of_eq (CodeLoaded.execTail h (by simp) (by simp)) rfl rfl rfl

/-- Statements of `halt` that do not matter here. -/
theorem CodeLoaded.haltTail {s : HaltStmt} {rest : List HaltStmt}
    (h : CodeLoaded curr proc pde (.unwind pcb status (s :: rest))) (hterm : .setTermProc ≠ s)
    (hpde : .setPde ≠ s) : CodeLoaded curr proc pde (.unwind pcb status rest) := by
  obtain ⟨hsuffix, hbefore, hproc, hafter⟩ := h
  refine ⟨(List.suffix_cons s rest).trans hsuffix, fun hmem => hbefore (List.mem_cons_of_mem s hmem), ?_, ?_⟩
  · exact fun hnot => hproc fun hmem => (List.mem_cons.mp hmem).elim hterm hnot
  · exact fun hnot => hafter fun hmem => (List.mem_cons.mp hmem).elim hpde hnot

/-- A statement of `halt`. -/
theorem ThreadLoaded.haltStmt {s : HaltStmt} {rest : List HaltStmt}
    (h : ThreadLoaded k (.unwind pcb status (s :: rest))) (hrun : s.run pcb k = some k') :
    ThreadLoaded k' (.unwind pcb status rest) := by
  obtain ⟨hcurrOrder, htermOrder, hpdeOrder⟩ := haltStmts_order h.1
  cases s with
  | setCurrPid =>
    cases hrun
    obtain ⟨hsuffix, hbefore, -, hafter⟩ := h
    have hmem := hcurrOrder rfl
    refine ⟨(List.suffix_cons _ rest).trans hsuffix, fun _ => hbefore (List.mem_cons_of_mem _ hmem),
      fun hnot => absurd hmem hnot, fun hnot => hafter fun hpde => ?_⟩
    exact (List.mem_cons.mp hpde).elim (by simp) hnot
  | setTermProc =>
    cases hrun
    obtain ⟨-, hpde⟩ := htermOrder rfl
    have hterm := not_mem_of_suffix h.1
    exact ⟨(List.suffix_cons _ rest).trans h.1, fun hmem => absurd hmem hterm,
      fun _ => Function.update_self _ _ _, fun hnot => absurd hpde hnot⟩
  | setPde =>
    have hterm := hpdeOrder rfl
    have hsame : k.termProc k.activeTerm = k.currPid k.activeTerm :=
      h.2.2.1 fun hmem => (List.mem_cons.mp hmem).elim (by simp) hterm
    have hloaded : Loaded (userPdeAddr k.caller) (k.termProc k.activeTerm) := by
      intro p hp
      rw [Kernel.caller, ← hsame, hp]
    simp only [HaltStmt.run, Option.some.injEq] at hrun
    subst hrun
    generalize userPdeAddr k.caller = loaded at hloaded ⊢
    exact ⟨(List.suffix_cons _ rest).trans h.1, fun _ => hloaded, fun _ => hsame, fun _ => hloaded⟩
  | freePid =>
    obtain ⟨p, -, rfl⟩ := Option.map_eq_some_iff.mp hrun
    exact ThreadLoaded.of_eq (CodeLoaded.haltTail h (by simp) (by simp)) rfl rfl rfl
  | clearActive =>
    cases hrun
    exact ThreadLoaded.of_eq (CodeLoaded.haltTail h (by simp) (by simp)) rfl rfl rfl
  | setPrevPid =>
    obtain ⟨p, -, rfl⟩ := Option.map_eq_some_iff.mp hrun
    exact ThreadLoaded.of_eq (CodeLoaded.haltTail h (by simp) (by simp)) rfl rfl rfl
  | close fd =>
    obtain ⟨⟨ret, k'⟩, hclose, rfl⟩ := Option.map_eq_some_iff.mp hrun
    have hd := descCall_close hclose
    refine ThreadLoaded.of_eq (CodeLoaded.haltTail h (by simp) (by simp)) ?_ ?_ hd.userPde
    · rw [hd.currPid, hd.activeTerm]
    · rw [hd.termProc, hd.activeTerm]
  | setEsp0 =>
    obtain ⟨p, -, rfl⟩ := Option.map_eq_some_iff.mp hrun
    exact ThreadLoaded.of_eq (CodeLoaded.haltTail h (by simp) (by simp)) rfl rfl rfl

/-- A thread at the start of the second half of `halt`. -/
theorem codeLoaded_haltStmts (h : Loaded pde proc) : CodeLoaded curr proc pde (.unwind pcb status haltStmts) :=
  ⟨List.suffix_refl _, fun _ => h, fun hnot => absurd (by decide) hnot, fun hnot => absurd (by decide) hnot⟩

/-- A thread that `execute` returns to. -/
theorem codeLoaded_refused (h : Loaded pde proc) (halting : Option (Slot × UInt8)) :
    CodeLoaded curr proc pde (.refused halting) := by
  cases halting with
  | none => exact h
  | some halting => exact codeLoaded_haltStmts h

/-- A thread on its way into `execute`. -/
theorem codeLoaded_enter (h : Loaded pde proc) (command : Option Bytes) (frame : ExecFrame)
    (halting : Option (Slot × UInt8)) : CodeLoaded curr proc pde (.enter fs command frame halting) := by
  rw [Code.enter]
  split
  · exact codeLoaded_refused h halting
  · exact h

/-- A statement of a thread. -/
theorem ThreadLoaded.next {code code' : Code} (h : ThreadLoaded k code)
    (hnext : code.next fs k = some (code', k')) : ThreadLoaded k' code' := by
  cases code with
  | user => cases hnext
  | search call i =>
    simp only [Code.next] at hnext
    split_ifs at hnext
    · cases hnext
      exact h
    · cases hnext
      exact codeLoaded_refused h call.halting
    · cases hnext
      exact h
  | mark call i | savePrev call i =>
    cases hnext
    exact h
  | setCurr call i =>
    cases hnext
    obtain ⟨-, -, hmap, hterm⟩ := mem_execStmts call.prog fs call.frame
    exact ⟨mapOrder_execStmts _ _ _, Function.update_self _ _ _, fun _ => h, fun hnot => absurd hmap hnot,
      fun hnot => absurd hterm hnot⟩
  | setup pcb rest =>
    cases rest with
    | nil =>
      cases hnext
      exact CodeLoaded.loaded h (by simp [Code.remapping])
    | cons s rest =>
      obtain ⟨rfl, rfl⟩ := Code.next_setup hnext
      exact h.execStmt
  | testBase pcb status frame =>
    simp only [Code.next] at hnext
    split_ifs at hnext
    · cases hnext
      exact h
    · cases hnext
      exact codeLoaded_haltStmts h
  | clearBase pcb status frame =>
    cases hnext
    exact h
  | freeBase pcb status frame =>
    cases hnext
    exact codeLoaded_enter h _ _ _
  | unwind pcb status rest =>
    cases rest with
    | nil =>
      cases hnext
      rw [Kernel.haltExit_eq]
      exact CodeLoaded.loaded h (by simp [Code.remapping])
    | cons s rest =>
      obtain ⟨k₁, hrun, hnext⟩ := Option.map_eq_some_iff.mp hnext
      cases hnext
      exact h.haltStmt hrun

/-- A `halt` from the release of the slot on, uninterrupted. -/
theorem ThreadLoaded.unwind {rest : List HaltStmt} (h : ThreadLoaded k (.unwind pcb status rest))
    (hrun : rest.foldlM (HaltStmt.run pcb) k = some k') : ThreadLoaded k' (.unwind pcb status []) := by
  induction rest generalizing k with
  | nil =>
    cases hrun
    exact h
  | cons s rest ih =>
    rw [List.foldlM_cons] at hrun
    obtain ⟨k₁, hs, hrest⟩ := Option.bind_eq_some_iff.mp hrun
    exact ih (h.haltStmt hs) hrest

/-- A `halt` after the base-shell test, uninterrupted. -/
theorem loaded_haltReturn (h : Loaded k.userPde (k.termProc k.activeTerm)) {r : HaltResult}
    (hhalt : k.haltReturn pcb status = some r) : Loaded r.after.userPde (r.after.termProc r.after.activeTerm) := by
  obtain ⟨k₁, hrun, rfl⟩ := Option.map_eq_some_iff.mp hhalt
  have hstart : ThreadLoaded k (.unwind pcb status haltStmts) := codeLoaded_haltStmts h
  have hloaded := CodeLoaded.loaded (hstart.unwind hrun) (by simp [Code.remapping])
  rw [Kernel.haltExit_eq]
  exact hloaded

/-- An uninterrupted `execute`. -/
theorem loaded_executed {i : Slot} {frame : ExecFrame} (he : Kernel.Executed k k' i frame) :
    Loaded k'.userPde (k'.termProc k'.activeTerm) := by
  intro p hp
  rw [he.termProc, he.activeTerm, Function.update_self] at hp
  rw [he.userPde, hp]

/-- A `halt` with interrupts masked. -/
theorem loaded_haltBy (h : Loaded k.userPde (k.termProc k.activeTerm)) {cause : Cause} {frame : ExecFrame}
    {r : HaltResult} (hhalt : k.haltBy fs cause frame = some r) :
    Loaded r.after.userPde (r.after.termProc r.after.activeTerm) := by
  rw [haltBy_eq] at hhalt
  obtain ⟨c, hcaller, hhalt⟩ := Option.bind_eq_some_iff.mp hhalt
  split at hhalt
  · split at hhalt
    · rename_i k₁ hexec
      cases hhalt
      obtain ⟨i, -, -, he⟩ := Kernel.execute_eq_some hexec
      exact loaded_executed he
    · exact loaded_haltReturn (k := (k.raise cause).dropBase c) h hhalt
  · exact loaded_haltReturn (k := k.raise cause) h hhalt

end Threads

/-- The mapping is right for the scheduled thread, and would be for the others when their terminals
are switched to. -/
structure AddressSpaces (m : Machine) : Prop where
  running : ThreadLoaded m.k (m.code m.active)
  waiting : ∀ t, t ≠ m.active →
    CodeLoaded (m.k.currPid t) (m.k.termProc t) (userPdeAddr (m.k.termProc t)) (m.code t)
  suspended : ∀ t, t ≠ m.active → ∀ s, m.suspended t = some s →
    m.k.termProc t ≠ none ∧ s.userPde = userPdeAddr (m.k.termProc t)

section Machine

variable {disk : Disk} {m m' : Machine} {e : Action}

/-- The next terminal is another one. -/
theorem next_ne (t : Fin 3) : t + 1 ≠ t := by
  revert t
  decide

/-- A tick does not change the suspension of the terminal it switches to. -/
theorem suspend_next (regs : Regs) {t : Fin 3} (ht : t = m.active + 1) :
    m.suspend regs t = m.suspended (m.active + 1) := by
  rw [ht, Machine.suspend, Function.update_of_ne (next_ne _)]

/-- A step of the scheduled terminal's own. -/
theorem AddressSpaces.own (h : AddressSpaces m) (hconfined : Confined m.k m'.k)
    (hcode : ∀ t, t ≠ m.active → m'.code t = m.code t) (hsuspended : m'.suspended = m.suspended)
    {code : Code} (hown : m'.code m.active = code) (hrunning : ThreadLoaded m'.k code) : AddressSpaces m' := by
  have hactive : m'.active = m.active := hconfined.activeTerm
  refine ⟨by rwa [hactive, hown], fun t ht => ?_, fun t ht => ?_⟩ <;> rw [hactive] at ht
  · rw [hconfined.currPid t ht, hconfined.termProc t ht, hcode t ht]
    exact h.waiting t ht
  · rw [hconfined.termProc t ht, hsuspended]
    exact h.suspended t ht

/-- A tick at the right moment. -/
theorem AddressSpaces.ticked (h : AddressSpaces m)
    (hready : (m.code m.active).remapping (m.k.termProc m.active) = false) {p : Slot}
    (hp : m.k.termProc m.active = some p) {regs : Regs} (hactive : m'.active = m.active + 1)
    (hsame : ∀ t, t ≠ m.active + 1 → m'.k.currPid t = m.k.currPid t ∧ m'.k.termProc t = m.k.termProc t ∧
      m'.code t = m.code t)
    (hsuspended : m'.suspended = m.suspend regs) {code : Code} (hnext : m'.code (m.active + 1) = code)
    (hrunning : ThreadLoaded m'.k code) : AddressSpaces m' := by
  have hloaded : m.k.userPde = userPdeAddr (m.k.termProc m.active) := by
    rw [hp]
    exact CodeLoaded.loaded h.running hready p hp
  refine ⟨by rwa [hactive, hnext], fun t ht => ?_, fun t ht s hs => ?_⟩ <;> rw [hactive] at ht <;>
    obtain ⟨hcurr, hproc, hcode⟩ := hsame t ht
  · rw [hcurr, hproc, hcode]
    by_cases hta : t = m.active
    · subst t
      rw [← hloaded]
      exact h.running
    · exact h.waiting t hta
  · rw [hsuspended, Machine.suspend] at hs
    rw [hproc]
    by_cases hta : t = m.active
    · subst t
      rw [Function.update_self, Option.some.injEq] at hs
      rw [← hs]
      exact ⟨hp ▸ Option.some_ne_none p, hloaded⟩
    · rw [Function.update_of_ne hta] at hs
      exact h.suspended t hta s hs

/-- A step keeps the invariant, when a tick comes at the right moment. -/
theorem AddressSpaces.step (h : AddressSpaces m)
    (htick : ∀ regs frame, e = .tick regs frame → (m.code m.active).remapping (m.k.termProc m.active) = false)
    (hstep : m.step disk.fs e = some m') : AddressSpaces m' := by
  have hsame : Confined m.k m.k := .of_eq rfl rfl rfl rfl
  cases Machine.step_moved hstep with
  | @executes command frame p huser hcaller =>
    have hrunning := h.running
    rw [huser] at hrunning
    exact h.own hsame (fun t ht => Function.update_of_ne ht _ _) rfl (Function.update_self _ _ _)
      (codeLoaded_enter hrunning command frame none)
  | halts huser hcaller =>
    have hrunning := h.running
    rw [huser] at hrunning
    exact h.own hsame (fun t ht => Function.update_of_ne ht _ _) rfl (Function.update_self _ _ _) hrunning
  | restarted huser hhalt =>
    have hrunning := h.running
    rw [huser] at hrunning
    exact h.own (confined_haltBy hhalt) (fun _ _ => rfl) rfl huser (loaded_haltBy hrunning hhalt)
  | returned huser hhalt =>
    have hrunning := h.running
    rw [huser] at hrunning
    exact h.own (confined_haltBy hhalt) (fun _ _ => rfl) rfl huser (loaded_haltBy hrunning hhalt)
  | ran hnext =>
    exact h.own (confined_next hnext) (fun t ht => Function.update_of_ne ht _ _) rfl (Function.update_self _ _ _)
      (h.running.next hnext)
  | idle => exact h
  | @started regs frame k' i haction _ _ he =>
    obtain ⟨hzero, -, hactive⟩ := pitAction_startShell haction
    have hp : ∃ p, m.k.termProc m.active = some p := by
      rcases hactive with hactive | ⟨hactive, hone⟩
      · exact ⟨0, by rw [Machine.active, hactive, hzero]⟩
      · exact Option.ne_none_iff_exists'.mp (by rwa [Machine.active, hactive])
    obtain ⟨p, hp⟩ := hp
    refine h.ticked (htick regs frame rfl) hp he.activeTerm (fun t ht => ⟨?_, ?_, ?_⟩) rfl
      (Function.update_self _ _ _) (loaded_executed he)
    · exact (congrFun he.currPid t).trans (Function.update_of_ne ht _ _)
    · exact (congrFun he.termProc t).trans (Function.update_of_ne ht _ _)
    · exact Function.update_of_ne ht _ _
  | @switched regs frame k' p q haction hs _ =>
    obtain ⟨hp, hq⟩ := pitAction_contextSwitch haction
    refine h.ticked (htick regs frame rfl) hp.symm hs.activeTerm (fun t _ => ?_) rfl rfl ?_
    · exact ⟨congrFun hs.currPid t, congrFun hs.termProc t, rfl⟩
    · have hwaiting := h.waiting (m.active + 1) (next_ne _)
      rw [Machine.active, ← hq] at hwaiting
      rw [ThreadLoaded, hs.currPid, hs.termProc, hs.activeTerm, hs.userPde, ← hq]
      exact hwaiting

/-- Under the condition a tick comes at the right moment. -/
theorem not_remapping_of_ready (h : AddressSpaceReady m e) (regs : Regs) (frame : ExecFrame)
    (he : e = .tick regs frame) : (m.code m.active).remapping (m.k.termProc m.active) = false := by
  subst he
  simpa [AddressSpaceReady] using h

/-- A store below the end of the page. -/
theorem store_page (k : Kernel) (pcb : Slot) {offset : ℕ} (byte : UInt8) (hfits : offset < 0x3B8000) :
    (ExecStmt.run pcb k (.store offset byte)).page =
      Function.update k.page k.userPde
        (Function.update (k.page k.userPde) ((PROG_IMAGE_ADDR + offset) % MB_4) byte) := by
  have hpage : (PROG_IMAGE_ADDR + offset) / MB_4 = USER_LEVEL_PROG / MB_4 := by
    unfold PROG_IMAGE_ADDR MB_4 USER_LEVEL_PROG
    omega
  simp only [ExecStmt.run, Kernel.storeUser, if_pos hpage]

/-- A step at the right moment keeps the address spaces. -/
theorem AddressSpaces.kept (h : AddressSpaces m) (hready : AddressSpaceReady m e) :
    AddressSpaceKept disk.fs m e := by
  cases e with
  | stmt =>
    intro pcb offset byte rest hcode m' hstep
    have hfits : offset < 0x3B8000 := by
      simpa [AddressSpaceReady, hcode, Code.storeFits] using hready
    have hrunning := h.running
    rw [hcode] at hrunning
    obtain ⟨horder, -, -, hafter, -⟩ := hrunning
    have hnot : ExecStmt.setupMem ∉ rest := fun hmem =>
      ((List.pairwise_cons.mp horder).1 _ hmem rfl).2.2 offset byte rfl
    have hpde := hafter fun hmem => (List.mem_cons.mp hmem).elim (by simp) hnot
    rw [Machine.step, hcode] at hstep
    obtain ⟨⟨code', k'⟩, hnext, rfl⟩ := Option.map_eq_some_iff.mp hstep
    obtain ⟨rfl, rfl⟩ := Code.next_setup hnext
    rw [← hpde]
    exact store_page m.k pcb byte hfits
  | tick regs frame =>
    intro m' hstep hswitched s hs
    cases Machine.step_moved hstep with
    | idle => exact absurd rfl hswitched
    | @started _ _ k' i haction _ _ he =>
      obtain ⟨-, hnone, -⟩ := pitAction_startShell haction
      have hold : m.suspended (m.active + 1) = some s := (suspend_next regs he.activeTerm).symm.trans hs
      exact absurd hnone (h.suspended _ (next_ne _) s hold).1
    | @switched _ _ k' p q haction hspec _ =>
      obtain ⟨-, hq⟩ := pitAction_contextSwitch haction
      have hold : m.suspended (m.active + 1) = some s := (suspend_next regs hspec.activeTerm).symm.trans hs
      rw [(h.suspended _ (next_ne _) s hold).2, hspec.userPde, hq]
      rfl
  | _ => trivial

end Machine

/-- After boot the first shell's mapping is loaded. -/
theorem addressSpaces_boot (disk : Disk) (pcb : Slot → Pcb) (page : UInt32 → ℕ → UInt8) (frame : ExecFrame) :
    AddressSpaces (Machine.boot disk pcb page frame) := by
  refine ⟨loaded_executed executed_boot, fun t ht => ?_, fun t _ s hs => by cases hs⟩
  intro p hp
  rw [hp]

/-- In every run from boot in which no tick comes between the switch of the mapping and the update of
`term_proc`, and no program is longer than its page, every tick that switches back to a terminal
restores the mapping it was suspended with, and every load writes to the new process's page. -/
theorem addressSpace_kept (disk : Disk) (pcb : Slot → Pcb) (page : UInt32 → ℕ → UInt8) (frame : ExecFrame)
    (actions : List Action)
    (h : Along (Machine.step disk.fs) (fun m e => AddressSpaceReady m e) (Machine.boot disk pcb page frame) actions) :
    Along (Machine.step disk.fs) (AddressSpaceKept disk.fs) (Machine.boot disk pcb page frame) actions := by
  exact Along.imp (fun m e m' hinv hready hstep => hinv.step (not_remapping_of_ready hready) hstep)
    (fun m e hinv hready => hinv.kept hready) (addressSpaces_boot disk pcb page frame) h

/-- Ticks around the search loop and after the last statement of an `execute`. -/
theorem addressSpace_kept_shell :
    Along (Machine.step shellDisk.fs) (AddressSpaceKept shellDisk.fs) Machine.shell
      ([zeroTick, zeroTick, zeroTick, .execute shellCommand zeroFrame] ++ List.replicate 7 .stmt ++
        [zeroTick, zeroTick, zeroTick] ++ List.replicate 40 .stmt ++ [zeroTick, zeroTick, zeroTick]) :=
  addressSpace_kept shellDisk _ _ _ _ (by decide +kernel)

/-- The first shell executes a program and is suspended after `setup_mem`. When its terminal is
switched to again, the mapping is the one of the shell. -/
theorem addressSpace_lost :
    ((run (Machine.step shellDisk.fs) Machine.shell ([zeroTick, zeroTick, zeroTick,
        .execute shellCommand zeroFrame] ++ List.replicate 13 .stmt ++ [zeroTick, zeroTick])).bind fun m =>
      (m.step shellDisk.fs zeroTick).map fun m' =>
        (m.active, m'.active, (m'.suspended 0).map Suspension.userPde, m'.k.userPde)) =
      some (2, 0, some 5, 2) ∧
    ¬Along (Machine.step shellDisk.fs) (AddressSpaceKept shellDisk.fs) Machine.shell
      ([zeroTick, zeroTick, zeroTick, .execute shellCommand zeroFrame] ++ List.replicate 13 .stmt ++
        [zeroTick, zeroTick] ++ [zeroTick]) := by
  have hrun : ((run (Machine.step shellDisk.fs) Machine.shell ([zeroTick, zeroTick, zeroTick,
        .execute shellCommand zeroFrame] ++ List.replicate 13 .stmt ++ [zeroTick, zeroTick])).bind fun m =>
      (m.step shellDisk.fs zeroTick).map fun m' =>
        (m.active, m'.active, (m'.suspended 0).map Suspension.userPde, m'.k.userPde)) =
      some (2, 0, some 5, 2) := by
    decide +kernel
  refine ⟨hrun, fun hkept => ?_⟩
  obtain ⟨m, hm, hlast⟩ := Option.bind_eq_some_iff.mp hrun
  obtain ⟨m', hm', hvalues⟩ := Option.map_eq_some_iff.mp hlast
  simp only [Prod.mk.injEq, Option.map_eq_some_iff] at hvalues
  obtain ⟨hbefore, hafter, ⟨s, hs, hpde⟩, hnow⟩ := hvalues
  have hsame := hkept.last hm m' hm' (by rw [hbefore, hafter]; decide) s (by rw [hafter, hs])
  rw [hnow, hpde] at hsame
  exact absurd hsame (by decide)

end OsKernel
