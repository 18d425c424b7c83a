import OsKernel.Library.Stacks
import OsKernel.Scheduling
import OsKernel.SyscallEffects

/-!
# The process table as stacks of live processes

Each terminal has a stack of live processes, its running process on top, linked through the parent
pids of their PCBs. The stacks share no slot and together hold exactly the slots in use. Every step
of the machine pushes, pops or keeps them; the cases of a step are listed once, for all the
properties that follow.
-/

namespace OsKernel

open Library

/-- The process table describes these stacks of live processes. -/
structure ProcessTable (k : Kernel) (live : Fin 3 → List Slot) : Prop where
  separate : SeparateStacks live
  curr : ∀ t, k.currPid t = (live t).head?
  proc : ∀ t, k.termProc t = (live t).head?
  used : ∀ i, k.pid i = true ↔ ∃ t, i ∈ live t
  pcbPid : ∀ t, ∀ i ∈ live t, (k.pcb i).pid = some i
  links : ∀ t, Linked (fun i => (k.pcb i).parentPid) (· = base t) (live t)

/-- A change that the process table does not see. -/
structure SameTable (k k' : Kernel) : Prop where
  pid : k'.pid = k.pid
  currPid : k'.currPid = k.currPid
  termProc : k'.termProc = k.termProc
  pcbPid : ∀ i, (k'.pcb i).pid = (k.pcb i).pid
  parentPid : ∀ i, (k'.pcb i).parentPid = (k.pcb i).parentPid

/-- The state after a system call on descriptors: at most the caller's table, the RTC and the file
system's globals changed. -/
structure DescCall (k k' : Kernel) : Prop where
  pid : k'.pid = k.pid
  currPid : k'.currPid = k.currPid
  prevPid : k'.prevPid = k.prevPid
  termProc : k'.termProc = k.termProc
  activeTerm : k'.activeTerm = k.activeTerm
  pcb : k'.pcb = k.pcb ∨ ∃ p descs, k.caller = some p ∧
    k'.pcb = Function.update k.pcb p { k.pcb p with fileDescArr := descs }
  userPde : k'.userPde = k.userPde
  esp0 : k'.esp0 = k.esp0
  exceptionStatus : k'.exceptionStatus = k.exceptionStatus

/-- The state after a base shell in slot `c` was replaced by a fresh one. -/
structure Restarted (k k' : Kernel) (cause : Cause) (c : Slot) (frame : ExecFrame) : Prop where
  pid : k'.pid = k.pid
  currPid : k'.currPid = k.currPid
  prevPid : k'.prevPid = Function.update k.prevPid k.activeTerm (some c)
  termProc : k'.termProc = k.termProc
  activeTerm : k'.activeTerm = k.activeTerm
  pcb : ∃ argsName, k'.pcb = Function.update k.pcb c ((k.pcb c).spawned c (some c) frame.regs argsName)
  userPde : k'.userPde = userPdeAddr (some c)
  esp0 : k'.esp0 = kernelStack (some c)
  exceptionStatus : k'.exceptionStatus = (k.exceptionStatus || cause = .exception)
  closeCalls : k'.closeCalls = k.closeCalls
  rtc : k'.rtc = k.rtc

/-- The state after a tick that saved the process in slot `p` and resumed the one in slot `q`. -/
structure Switched (k k' : Kernel) (p q : Slot) (regs : Regs) : Prop where
  pid : k'.pid = k.pid
  currPid : k'.currPid = k.currPid
  prevPid : k'.prevPid = k.prevPid
  termProc : k'.termProc = k.termProc
  activeTerm : k'.activeTerm = k.activeTerm + 1
  pcb : k'.pcb = Function.update k.pcb p { k.pcb p with schedule := regs }
  userPde : k'.userPde = userPdeAddr (some q)
  esp0 : k'.esp0 = kernelStack (some q)
  regs : k'.regs = (k'.pcb q).schedule
  exceptionStatus : k'.exceptionStatus = k.exceptionStatus
  rtc : k'.rtc = k.rtc

section Table

variable {k k' : Kernel} {live : Fin 3 → List Slot}

/-- The table describes the same stacks after a change it does not see. -/
theorem ProcessTable.congr (h : ProcessTable k live) (hsame : SameTable k k') : ProcessTable k' live where
  separate := h.separate
  curr t := by rw [hsame.currPid, h.curr]
  proc t := by rw [hsame.termProc, h.proc]
  used i := by rw [hsame.pid, h.used]
  pcbPid t i hi := by rw [hsame.pcbPid, h.pcbPid t i hi]
  links t := (h.links t).congr fun i _ => hsame.parentPid i

/-- The running process of the scheduled terminal is on top of its stack. -/
theorem ProcessTable.caller_eq (h : ProcessTable k live) : k.caller = (live k.activeTerm).head? :=
  h.curr k.activeTerm

/-- The caller's stack, taken apart. -/
theorem ProcessTable.live_of_caller (h : ProcessTable k live) {p : Slot} (hp : k.caller = some p) :
    ∃ rest, live k.activeTerm = p :: rest :=
  List.head?_eq_some_iff.mp (h.caller_eq.symm.trans hp)

/-- A free slot is on no stack. -/
theorem ProcessTable.not_mem (h : ProcessTable k live) {i : Slot} (hi : k.pid i = false) (t : Fin 3) :
    i ∉ live t := fun hmem => by
  rw [(h.used i).mpr ⟨t, hmem⟩] at hi
  cases hi

/-- `execute` pushes the new process. -/
theorem ProcessTable.executed (h : ProcessTable k live) {i : Slot} {frame : ExecFrame}
    (hfree : k.pid i = false) (he : Kernel.Executed k k' i frame) :
    ProcessTable k' (Function.update live k.activeTerm (i :: live k.activeTerm)) := by
  have hfresh := h.not_mem hfree
  obtain ⟨argsName, hpcb⟩ := he.pcb
  have hold {t : Fin 3} {j : Slot} (hj : j ∈ live t) : k'.pcb j = k.pcb j := by
    rw [hpcb, Function.update_of_ne]
    rintro rfl
    exact hfresh t hj
  have hnew : k'.pcb i = (k.pcb i).spawned i k.caller frame.regs argsName := by
    rw [hpcb, Function.update_self]
  have hlinks (t : Fin 3) : Linked (fun j => (k'.pcb j).parentPid) (· = base t) (live t) :=
    (h.links t).congr fun j hj => by rw [hold hj]
  refine ⟨h.separate.push hfresh, fun t => ?_, fun t => ?_, fun j => ?_, fun t j hj => ?_, fun t => ?_⟩
  · rw [he.currPid]
    by_cases ht : t = k.activeTerm
    · subst t
      simp
    · simpa [ht] using h.curr t
  · rw [he.termProc]
    by_cases ht : t = k.activeTerm
    · subst t
      simp
    · simpa [ht] using h.proc t
  · rw [he.pid]
    simp only [mem_update, List.mem_cons]
    by_cases hj : j = i
    · subst j
      simp
    · rw [Function.update_of_ne hj, h.used]
      constructor
      · rintro ⟨t, ht⟩
        by_cases hta : t = k.activeTerm
        · exact ⟨t, Or.inl ⟨hta, Or.inr (hta ▸ ht)⟩⟩
        · exact ⟨t, Or.inr ⟨hta, ht⟩⟩
      · rintro ⟨t, ⟨ht, hmem⟩ | ⟨-, hmem⟩⟩
        · exact ⟨k.activeTerm, hmem.resolve_left hj⟩
        · exact ⟨t, hmem⟩
  · rcases mem_update.mp hj with ⟨-, hj⟩ | ⟨-, hj⟩
    · rcases List.mem_cons.mp hj with rfl | hj
      · rw [hnew]
        rfl
      · rw [hold hj, h.pcbPid _ j hj]
    · rw [hold hj, h.pcbPid t j hj]
  · by_cases ht : t = k.activeTerm
    · subst t
      rw [Function.update_self]
      refine ⟨Or.inr ?_, hlinks k.activeTerm⟩
      exact (congrArg Pcb.parentPid hnew).trans h.caller_eq
    · rw [Function.update_of_ne ht]
      exact hlinks t

/-- `halt` pops the process that returns to its parent. -/
theorem ProcessTable.returned (h : ProcessTable k live) {c p : Slot} {rest : List Slot}
    (hlive : live k.activeTerm = c :: p :: rest) (hr : Kernel.Returned k k' c p) :
    ProcessTable k' (Function.update live k.activeTerm (p :: rest)) := by
  have hpcb (j : Slot) : (k'.pcb j).pid = (k.pcb j).pid ∧ (k'.pcb j).parentPid = (k.pcb j).parentPid := by
    rw [hr.pcb]
    by_cases hp : j = p
    · subst j
      simp [Pcb.closeAll]
    · by_cases hc : j = c
      · subst j
        simp [hp]
      · simp [hp, hc]
  have hmem {t : Fin 3} {j : Slot} (hj : j ∈ Function.update live k.activeTerm (p :: rest) t) : j ∈ live t := by
    rcases mem_update.mp hj with ⟨ht, hj⟩ | ⟨-, hj⟩
    · rw [ht, hlive]
      exact List.mem_cons_of_mem c hj
    · exact hj
  refine ⟨h.separate.pop hlive, fun t => ?_, fun t => ?_, fun j => ?_, fun t j hj => ?_, fun t => ?_⟩
  · rw [hr.currPid]
    by_cases ht : t = k.activeTerm
    · subst t
      simp
    · simpa [ht] using h.curr t
  · rw [hr.termProc]
    by_cases ht : t = k.activeTerm
    · subst t
      simp
    · simpa [ht] using h.proc t
  · rw [hr.pid]
    by_cases hj : j = c
    · subst j
      simpa using h.separate.not_mem_pop hlive
    · rw [Function.update_of_ne hj, h.used]
      constructor
      · rintro ⟨t, ht⟩
        refine ⟨t, mem_update.mpr ?_⟩
        by_cases hta : t = k.activeTerm
        · rw [hta, hlive] at ht
          exact Or.inl ⟨hta, (List.mem_cons.mp ht).resolve_left hj⟩
        · exact Or.inr ⟨hta, ht⟩
      · rintro ⟨t, ht⟩
        exact ⟨t, hmem ht⟩
  · rw [(hpcb j).1, h.pcbPid t j (hmem hj)]
  · have hlinks := (h.links t).congr fun j _ => (hpcb j).2
    by_cases ht : t = k.activeTerm
    · subst t
      rw [hlive] at hlinks
      simpa using hlinks.2
    · simpa [ht] using hlinks

/-- A base shell is replaced in place. -/
theorem ProcessTable.restarted (h : ProcessTable k live) {cause : Cause} {frame : ExecFrame}
    {rest : List Slot} (hlive : live k.activeTerm = base k.activeTerm :: rest)
    (hr : Restarted k k' cause (base k.activeTerm) frame) : ProcessTable k' live := by
  obtain ⟨argsName, hpcb⟩ := hr.pcb
  have hother {j : Slot} (hj : j ≠ base k.activeTerm) : k'.pcb j = k.pcb j := by
    rw [hpcb, Function.update_of_ne hj]
  have hown {t : Fin 3} (ht : base k.activeTerm ∈ live t) : t = k.activeTerm :=
    h.separate.unique t k.activeTerm _ ht (by simp [hlive])
  refine ⟨h.separate, fun t => ?_, fun t => ?_, fun j => ?_, fun t j hj => ?_, fun t => ?_⟩
  · rw [hr.currPid, h.curr]
  · rw [hr.termProc, h.proc]
  · rw [hr.pid, h.used]
  · by_cases hbase : j = base k.activeTerm
    · rw [hbase, hpcb, Function.update_self]
      rfl
    · rw [hother hbase, h.pcbPid t j hj]
  · by_cases ht : t = k.activeTerm
    · subst t
      have hnodup := h.separate.nodup k.activeTerm
      have hlinks := h.links k.activeTerm
      rw [hlive] at hnodup hlinks ⊢
      refine ⟨Or.inl rfl, hlinks.2.congr fun j hj => ?_⟩
      rw [hother]
      rintro rfl
      exact (List.nodup_cons.mp hnodup).1 hj
    · refine (h.links t).congr fun j hj => ?_
      rw [hother]
      rintro rfl
      exact ht (hown hj)

/-- A call on descriptors is not seen by the table. -/
theorem DescCall.sameTable (h : DescCall k k') : SameTable k k' := by
  have hpcb (i : Slot) : (k'.pcb i).pid = (k.pcb i).pid ∧ (k'.pcb i).parentPid = (k.pcb i).parentPid := by
    rcases h.pcb with hpcb | ⟨p, descs, -, hpcb⟩
    · rw [hpcb]
      exact ⟨rfl, rfl⟩
    · rw [hpcb]
      by_cases hi : i = p
      · subst i
        simp
      · simp [hi]
  exact ⟨h.pid, h.currPid, h.termProc, fun i => (hpcb i).1, fun i => (hpcb i).2⟩

/-- Saving the frame of a suspended process is not seen by the table. -/
theorem Switched.sameTable {p q : Slot} {regs : Regs} (h : Switched k k' p q regs) : SameTable k k' := by
  have hpcb (i : Slot) : (k'.pcb i).pid = (k.pcb i).pid ∧ (k'.pcb i).parentPid = (k.pcb i).parentPid := by
    rw [h.pcb]
    by_cases hi : i = p
    · subst i
      simp
    · simp [hi]
  exact ⟨h.pid, h.currPid, h.termProc, fun i => (hpcb i).1, fun i => (hpcb i).2⟩

end Table

/-- The stacks that runs from the boot state have: the shells of the first two terminals are at the
bottom in their own slots. The third shell may have been started in another slot. -/
structure Booted (k : Kernel) (live : Fin 3 → List Slot) : Prop extends ProcessTable k live where
  first : (live 0).getLast? = some (base 0)
  second : (live 1 = [] ∧ live 2 = [] ∧ k.activeTerm = 0) ∨ (live 1).getLast? = some (base 1)

/-- The cases of a step, with the stacks before and after. -/
inductive Stepped (fs : FileSystem) (k : Kernel) (live : Fin 3 → List Slot) :
    Event → Kernel → (Fin 3 → List Slot) → Prop where
  | executed {command frame k' i} (hfree : k.pid i = false) (hleast : ∀ j < i, k.pid j = true)
      (h : Kernel.Executed k k' i frame) :
      Stepped fs k live (.execute command frame) k' (Function.update live k.activeTerm (i :: live k.activeTerm))
  | refused {command frame} (h : k.execute fs command frame = none) :
      Stepped fs k live (.execute command frame) k live
  | returned {cause frame k' c p rest} (hlive : live k.activeTerm = c :: p :: rest)
      (hbase : c ≠ base k.activeTerm)
      (h : Kernel.Returned k k' c p) :
      Stepped fs k live (.halt cause frame) k' (Function.update live k.activeTerm (p :: rest))
  | restarted {cause frame k' rest} (hlive : live k.activeTerm = base k.activeTerm :: rest)
      (h : Restarted k k' cause (base k.activeTerm) frame) :
      Stepped fs k live (.halt cause frame) k' live
  | described {e k'} (he : e.onDescs) (h : DescCall k k') : Stepped fs k live e k' live
  | started {regs frame k' i} (haction : k.pitAction = .startShell) (hnone : live (k.activeTerm + 1) = [])
      (hfree : k.pid i = false) (hleast : ∀ j < i, k.pid j = true)
      (h : Kernel.Executed { k.saveSchedule (base k.activeTerm) regs with activeTerm := k.activeTerm + 1 } k' i frame) :
      Stepped fs k live (.tick regs frame) k' (Function.update live (k.activeTerm + 1) [i])
  | startRefused {regs frame} (haction : k.pitAction = .startShell) (hfull : ∀ i, k.pid i = true) :
      Stepped fs k live (.tick regs frame)
        { k.saveSchedule (base k.activeTerm) regs with activeTerm := k.activeTerm + 1 } live
  | switched {regs frame k' p q restp restq} (haction : k.pitAction = .contextSwitch (some p) (some q))
      (hp : live k.activeTerm = p :: restp) (hq : live (k.activeTerm + 1) = q :: restq)
      (h : Switched k k' p q regs) :
      Stepped fs k live (.tick regs frame) k' live

section Descriptors

variable {k k' : Kernel} {fs : FileSystem}

/-- A call that changed no PCB. -/
theorem DescCall.unchanged (hpid : k'.pid = k.pid) (hcurr : k'.currPid = k.currPid)
    (hprev : k'.prevPid = k.prevPid) (hproc : k'.termProc = k.termProc) (hactive : k'.activeTerm = k.activeTerm)
    (hpcb : k'.pcb = k.pcb) (hpde : k'.userPde = k.userPde) (hesp0 : k'.esp0 = k.esp0)
    (hexc : k'.exceptionStatus = k.exceptionStatus) : DescCall k k' :=
  ⟨hpid, hcurr, hprev, hproc, hactive, Or.inl hpcb, hpde, hesp0, hexc⟩

/-- A call that changed nothing. -/
theorem DescCall.refl (k : Kernel) : DescCall k k := .unchanged rfl rfl rfl rfl rfl rfl rfl rfl rfl

/-- A call that set one descriptor of the caller. -/
theorem DescCall.setDesc {p : Slot} (hp : k.caller = some p) (i : Fin 8) (d : FileDesc) (rtc : Rtc)
    (dentryTemp : Dentry) (pcbValRead : Option Slot) (closeCalls : List (Slot × Fin 8)) :
    DescCall k { k.modifyPcb p (·.setDesc i d) with rtc, dentryTemp, pcbValRead, closeCalls } :=
  ⟨rfl, rfl, rfl, rfl, rfl, Or.inr ⟨p, _, hp, rfl⟩, rfl, rfl, rfl⟩

/-- `open` is a call on descriptors. -/
theorem descCall_openFile {fileName : Bytes} {ret : UInt32} (h : k.openFile fs fileName = some (ret, k')) :
    DescCall k k' := by
  unfold Kernel.openFile at h
  split at h
  · cases h
    exact .refl k
  · cases hname : fs.readDentryByName fileName with
    | none =>
      rw [hname] at h
      cases h
      exact .refl k
    | some dentry =>
      simp only [hname] at h
      obtain ⟨p, hp, h⟩ := Option.map_eq_some_iff.mp h
      split at h
      · rename_i i driver _ _
        obtain rfl := (Prod.mk.inj h).2
        cases driver <;> exact .setDesc hp i _ _ _ _ _
      · cases h
        exact .refl k

/-- `close` is a call on descriptors. -/
theorem descCall_close {fd : ℤ} {ret : UInt32} (h : k.close fd = some (ret, k')) : DescCall k k' := by
  unfold Kernel.close at h
  split at h
  · cases h
    exact .refl k
  · rename_i i _
    obtain ⟨p, hp, h⟩ := Option.map_eq_some_iff.mp h
    simp only at h
    split at h
    · obtain ⟨ret', hdriver⟩ := Kernel.driverClose_eq _ _
      rw [hdriver] at h
      obtain rfl := (Prod.mk.inj h).2
      exact .setDesc hp i _ _ _ _ _
    · cases h
      exact .refl k

/-- `file_read` sets at most the position of the descriptor. -/
theorem descCall_fileRead {p : Slot} (hp : k.caller = some p) (i : Fin 8) (nbytes : UInt32) :
    DescCall k (k.fileRead fs p i nbytes).2.2 := by
  rw [Kernel.fileRead]
  generalize fs.readBytes _ _ _ = read
  split
  · exact .refl k
  · exact .setDesc hp i _ _ _ _ _

/-- `dir_read` sets at most the position of the descriptor and the global entry. -/
theorem descCall_dirRead {p : Slot} (hp : k.caller = some p) (i : Fin 8) :
    DescCall k (k.dirRead fs p i).2.2 := by
  rw [Kernel.dirRead]
  generalize fs.readDentryByIndex _ = entry
  cases entry with
  | none => exact .refl k
  | some entry => exact .setDesc hp i _ _ _ _ _

/-- Setting `pcb_val_read` before a call on descriptors. -/
theorem DescCall.of_pcbValRead {pcbValRead : Option Slot} (h : DescCall { k with pcbValRead } k') :
    DescCall k k' :=
  ⟨h.pid, h.currPid, h.prevPid, h.termProc, h.activeTerm, h.pcb, h.userPde, h.esp0, h.exceptionStatus⟩

/-- The state after a call that returned. -/
theorem Kernel.ReadResult.after_ofCall (r : UInt32 × List UInt8 × Kernel) :
    (Kernel.ReadResult.ofCall r).after = r.2.2 := rfl

/-- `read` is a call on descriptors. -/
theorem descCall_read {fd : ℤ} {nbytes : UInt32} {r : Kernel.ReadResult} (h : k.read fs fd nbytes = some r) :
    DescCall k r.after := by
  unfold Kernel.read at h
  split at h
  · cases h
    exact .of_pcbValRead (.refl _)
  · rename_i i _
    obtain ⟨p, hp, rfl⟩ := Option.map_eq_some_iff.mp h
    refine .of_pcbValRead (?_ : DescCall { k with pcbValRead := k.caller } _)
    split
    · unfold Kernel.driverRead
      split
      · rw [Kernel.ReadResult.after_ofCall]
        exact descCall_fileRead hp i nbytes
      · rw [Kernel.ReadResult.after_ofCall]
        exact descCall_dirRead hp i
      all_goals exact .refl _
    · exact .refl _

/-- `getargs` only sets `pcb_val_read`. -/
theorem descCall_getargs {nbytes : UInt32} {r : UInt32 × List UInt8 × Kernel} (h : k.getargs nbytes = some r) :
    DescCall k r.2.2 := by
  obtain ⟨p, -, rfl⟩ := Option.map_eq_some_iff.mp h
  simp only
  split <;> exact .unchanged rfl rfl rfl rfl rfl rfl rfl rfl rfl

end Descriptors

/-- The state in which `halt` is called. -/
def Kernel.raise (k : Kernel) (cause : Cause) : Kernel :=
  { k with exceptionStatus := k.exceptionStatus || cause = .exception }

/-- Every cause calls `halt` after at most setting `exception_status`. -/
theorem haltBy_eq (k : Kernel) (fs : FileSystem) (cause : Cause) (frame : ExecFrame) :
    k.haltBy fs cause frame = (k.raise cause).halt fs cause.status frame := by
  cases cause <;> simp [Kernel.haltBy, Kernel.raise]

/-- The bookkeeping of a start before its `execute` is not seen by the table. -/
theorem sameTable_startShell (k : Kernel) (regs : Regs) :
    SameTable k { k.saveSchedule (base k.activeTerm) regs with activeTerm := k.activeTerm + 1 } := by
  have hpcb (i : Slot) : ((k.saveSchedule (base k.activeTerm) regs).pcb i).pid = (k.pcb i).pid ∧
      ((k.saveSchedule (base k.activeTerm) regs).pcb i).parentPid = (k.pcb i).parentPid := by
    by_cases hi : i = base k.activeTerm
    · subst i
      simp [Kernel.saveSchedule]
    · simp [Kernel.saveSchedule, Kernel.modifyPcb, hi]
  exact ⟨rfl, rfl, rfl, fun i => (hpcb i).1, fun i => (hpcb i).2⟩

section Steps

variable {disk : Disk} {k k' : Kernel} {live : Fin 3 → List Slot}

/-- The slots below the base shell of a running terminal are in use. -/
theorem Booted.used_below (h : Booted k live) {t : Fin 3} (ht : live t ≠ []) {j : Slot} (hj : j < base t) :
    k.pid j = true := by
  have hfirst : base 0 ∈ live 0 := List.mem_of_getLast? h.first
  have hsecond (hne : live 2 ≠ []) : base 1 ∈ live 1 :=
    List.mem_of_getLast? (h.second.resolve_left fun hnone => hne hnone.2.1)
  rw [h.used]
  match t with
  | 0 => exact absurd hj (Fin.not_lt_zero j)
  | 1 =>
    have hbelow : ∀ j < base 1, j = base 0 := by decide
    exact ⟨0, hbelow j hj ▸ hfirst⟩
  | 2 =>
    have hbelow : ∀ j < base 2, j = base 0 ∨ j = base 1 := by decide
    rcases hbelow j hj with rfl | rfl
    · exact ⟨0, hfirst⟩
    · exact ⟨1, hsecond ht⟩

/-- A base shell that halts is replaced in its own slot. -/
theorem Booted.halt_base (h : Booted k live) {rest : List Slot}
    (hlive : live k.activeTerm = base k.activeTerm :: rest) (cause : Cause) (frame : ExecFrame) :
    ∃ k', k.haltBy disk.fs cause frame = some (.restarted k') ∧
      Restarted k k' cause (base k.activeTerm) frame := by
  have hcaller : (k.raise cause).caller = some (base k.activeTerm) := by
    have hhead := h.caller_eq
    rw [hlive] at hhead
    exact hhead
  have hpid : k.pid (base k.activeTerm) = true := (h.used _).mpr ⟨k.activeTerm, by simp [hlive]⟩
  let k₀ := (k.raise cause).dropBase (base k.activeTerm)
  have hpid₀ : k₀.pid = Function.update k.pid (base k.activeTerm) false := rfl
  have hsome : (k₀.execute disk.fs shellCommand frame).isSome :=
    Kernel.execute_isSome.mpr ⟨disk.shellLoads frame, base k.activeTerm, by simp [hpid₀]⟩
  obtain ⟨k', hk'⟩ := Option.isSome_iff_exists.mp hsome
  obtain ⟨i, hfree, hleast, he⟩ := Kernel.execute_eq_some hk'
  obtain rfl : i = base k.activeTerm := by
    rcases lt_trichotomy i (base k.activeTerm) with hlt | heq | hgt
    · rw [hpid₀, Function.update_of_ne hlt.ne, h.used_below (by simp [hlive]) hlt] at hfree
      cases hfree
    · exact heq
    · have hused := hleast _ hgt
      rw [hpid₀, Function.update_self] at hused
      cases hused
  refine ⟨k', by rw [haltBy_eq]; exact Kernel.halt_of_base hcaller hk', ?_⟩
  have hcurr : k.currPid k.activeTerm = some (base k.activeTerm) := hcaller
  have hproc : k.termProc k.activeTerm = some (base k.activeTerm) := by
    rw [h.proc, hlive]
    rfl
  obtain ⟨argsName, hpcb⟩ := he.pcb
  exact
    { pid := by rw [he.pid, hpid₀, Function.update_idem, Function.update_eq_self_iff, hpid]
      currPid := he.currPid.trans (Function.update_eq_self_iff.mpr hcurr.symm)
      prevPid := he.prevPid.trans (congrArg (Function.update k.prevPid k.activeTerm) hcaller)
      termProc := he.termProc.trans (Function.update_eq_self_iff.mpr hproc.symm)
      activeTerm := he.activeTerm
      pcb := by
        refine ⟨argsName, hpcb.trans ?_⟩
        have hold : k₀.pcb = Function.update k.pcb (base k.activeTerm)
          { k.pcb (base k.activeTerm) with activeFlag := false } := rfl
        have hsame : k₀.caller = some (base k.activeTerm) := hcaller
        rw [hold, Function.update_idem, Function.update_self, hsame]
        rfl
      userPde := he.userPde
      esp0 := he.esp0
      exceptionStatus := he.exceptionStatus
      closeCalls := he.closeCalls
      rtc := he.rtc }

/-- Any other process with a parent returns to it. -/
theorem Booted.halt_child (h : Booted k live) {c p : Slot} {rest : List Slot}
    (hlive : live k.activeTerm = c :: p :: rest) (hbase : c ≠ base k.activeTerm) (cause : Cause)
    (frame : ExecFrame) :
    ∃ k', k.haltBy disk.fs cause frame = some (.returned
        (if k.exceptionStatus || cause = .exception then EXCEPTION_VALUE else cause.status.toUInt32) k') ∧
      Kernel.Returned k k' c p := by
  have hcaller : (k.raise cause).caller = some c := by
    have hhead := h.caller_eq
    rw [hlive] at hhead
    exact hhead
  have hlinks := h.links k.activeTerm
  have hnodup := h.separate.nodup k.activeTerm
  have hpid := h.pcbPid k.activeTerm c (by simp [hlive])
  rw [hlive] at hlinks hnodup
  have hparent : (k.pcb c).parentPid = some p := hlinks.1.resolve_left hbase
  have hne : c ≠ p := by
    rintro rfl
    simp at hnodup
  obtain ⟨k', hk', hr⟩ := Kernel.haltReturn_eq (k := k.raise cause) hpid hparent hne cause.status
  refine ⟨k', ?_, ⟨hr.pid, hr.currPid, hr.prevPid, hr.termProc, hr.activeTerm, hr.pcb, hr.userPde, hr.esp0,
    hr.regs, hr.exceptionStatus, hr.closeCalls, hr.rtc⟩⟩
  rw [haltBy_eq, Kernel.halt_of_child hcaller hbase]
  exact hk'

/-- A process without a parent cannot halt. -/
theorem Booted.halt_orphan (h : Booted k live) {c : Slot} (hlive : live k.activeTerm = [c])
    (hbase : c ≠ base k.activeTerm) (cause : Cause) (frame : ExecFrame) :
    k.haltBy disk.fs cause frame = none := by
  have hcaller : (k.raise cause).caller = some c := by
    have hhead := h.caller_eq
    rw [hlive] at hhead
    exact hhead
  have hlinks := h.links k.activeTerm
  rw [hlive] at hlinks
  rw [haltBy_eq, Kernel.halt_of_child hcaller hbase]
  exact Kernel.haltReturn_none (k := k.raise cause) (hlinks.1.resolve_left hbase) cause.status

/-- The ways a process can end. -/
theorem Booted.halt_cases (h : Booted k live) {cause : Cause} {frame : ExecFrame} {r : HaltResult}
    (hr : k.haltBy disk.fs cause frame = some r) :
    (∃ rest, live k.activeTerm = base k.activeTerm :: rest ∧
      ∃ k', r = .restarted k' ∧ Restarted k k' cause (base k.activeTerm) frame) ∨
    ∃ c p rest, live k.activeTerm = c :: p :: rest ∧ c ≠ base k.activeTerm ∧
      ∃ k', r = .returned
        (if k.exceptionStatus || cause = .exception then EXCEPTION_VALUE else cause.status.toUInt32) k' ∧
        Kernel.Returned k k' c p := by
  cases hlive : live k.activeTerm with
  | nil =>
    have hcaller : (k.raise cause).caller = none := by
      have hhead := h.caller_eq
      rw [hlive] at hhead
      exact hhead
    rw [haltBy_eq, Kernel.halt, hcaller] at hr
    cases hr
  | cons c rest =>
    by_cases hbase : c = base k.activeTerm
    · subst hbase
      obtain ⟨k', hk', hspec⟩ := h.halt_base hlive cause frame
      cases hk'.symm.trans hr
      exact Or.inl ⟨rest, rfl, k', rfl, hspec⟩
    · cases rest with
      | nil =>
        rw [h.halt_orphan hlive hbase] at hr
        cases hr
      | cons p rest =>
        obtain ⟨k', hk', hspec⟩ := h.halt_child hlive hbase cause frame
        cases hk'.symm.trans hr
        exact Or.inr ⟨c, p, rest, rfl, hbase, k', rfl, hspec⟩

/-- A shell is started only after the first or the second terminal, on one that has none. -/
theorem pitAction_startShell (h : k.pitAction = .startShell) :
    k.termProc 0 = some 0 ∧ k.termProc (k.activeTerm + 1) = none ∧
      (k.activeTerm = 0 ∨ k.activeTerm = 1 ∧ k.termProc 1 ≠ none) := by
  unfold Kernel.pitAction at h
  split_ifs at h with hidle hfirst hsecond
  · exact ⟨hfirst.2.1, by rw [hfirst.1]; exact hfirst.2.2, Or.inl hfirst.1⟩
  · exact ⟨hsecond.2.1, by rw [hsecond.1]; exact hsecond.2.2.2, Or.inr ⟨hsecond.1, hsecond.2.2.1⟩⟩

/-- A switch is between the scheduled terminal and the next. -/
theorem pitAction_contextSwitch {switchFrom switchTo : Option Slot}
    (h : k.pitAction = .contextSwitch switchFrom switchTo) :
    switchFrom = k.termProc k.activeTerm ∧ switchTo = k.termProc (k.activeTerm + 1) := by
  unfold Kernel.pitAction at h
  split_ifs at h
  cases h
  exact ⟨rfl, rfl⟩

/-- A switch between two processes. -/
theorem contextSwitch_eq_some {switchFrom switchTo : Option Slot} {regs : Regs}
    (h : { k with activeTerm := k.activeTerm + 1 }.contextSwitch switchFrom switchTo regs = some k') :
    ∃ p q, switchFrom = some p ∧ switchTo = some q ∧ Switched k k' p q regs := by
  obtain ⟨p, rfl, h⟩ := Option.bind_eq_some_iff.mp h
  obtain ⟨q, rfl, h⟩ := Option.bind_eq_some_iff.mp h
  cases h
  exact ⟨p, q, rfl, rfl, ⟨rfl, rfl, rfl, rfl, rfl, rfl, rfl, rfl, rfl, rfl, rfl⟩⟩

/-- A tick that switches between two processes completes. -/
theorem pitHandler_switched {p q : Slot} (haction : k.pitAction = .contextSwitch (some p) (some q))
    (fs : FileSystem) (regs : Regs) (frame : ExecFrame) :
    ∃ k', k.pitHandler fs regs frame = some k' ∧ Switched k k' p q regs := by
  rw [Kernel.pitHandler, haction]
  exact ⟨_, rfl, ⟨rfl, rfl, rfl, rfl, rfl, rfl, rfl, rfl, rfl, rfl, rfl⟩⟩

/-- The cases of a tick. -/
theorem Booted.tick_cases (h : Booted k live) {regs : Regs} {frame : ExecFrame}
    (hk' : k.pitHandler disk.fs regs frame = some k') :
    ∃ live', Stepped disk.fs k live (.tick regs frame) k' live' := by
  unfold Kernel.pitHandler at hk'
  cases haction : k.pitAction with
  | idle =>
    have hfirst : k.termProc 0 = none := by
      unfold Kernel.pitAction at haction
      split_ifs at haction with hidle
      exact hidle.1
    rw [h.proc] at hfirst
    have hlast := h.first
    rw [List.head?_eq_none_iff.mp hfirst] at hlast
    cases hlast
  | startShell =>
    rw [haction] at hk'
    cases hk'
    have hnone : live (k.activeTerm + 1) = [] := by
      rw [← List.head?_eq_none_iff, ← h.proc]
      exact (pitAction_startShell haction).2.1
    let k₁ : Kernel := { k.saveSchedule (base k.activeTerm) regs with activeTerm := k.activeTerm + 1 }
    change ∃ live', Stepped disk.fs k live _ ((k₁.execute disk.fs shellCommand frame).getD k₁) live'
    cases hexec : k₁.execute disk.fs shellCommand frame with
    | some k' =>
      obtain ⟨i, hfree, hleast, he⟩ := Kernel.execute_eq_some hexec
      exact ⟨_, .started haction hnone hfree hleast he⟩
    | none =>
      have hfull : ∀ i, k.pid i = true := by
        intro i
        by_contra hfree
        have hsome : (k₁.execute disk.fs shellCommand frame).isSome :=
          Kernel.execute_isSome.mpr ⟨disk.shellLoads frame, i, (Bool.not_eq_true _).mp hfree⟩
        rw [hexec] at hsome
        cases hsome
      exact ⟨live, .startRefused haction hfull⟩
  | contextSwitch switchFrom switchTo =>
    rw [haction] at hk'
    obtain ⟨p, q, rfl, rfl, hspec⟩ := contextSwitch_eq_some hk'
    obtain ⟨hp, hq⟩ := pitAction_contextSwitch haction
    rw [h.proc] at hp hq
    obtain ⟨restp, hp⟩ := List.head?_eq_some_iff.mp hp.symm
    obtain ⟨restq, hq⟩ := List.head?_eq_some_iff.mp hq.symm
    exact ⟨live, .switched haction hp hq hspec⟩

/-- Every step is one of the cases. -/
theorem Booted.step_cases (h : Booted k live) {e : Event} (hk' : step disk.fs k e = some k') :
    ∃ live', Stepped disk.fs k live e k' live' := by
  cases e with
  | execute command frame =>
    cases hexec : k.execute disk.fs command frame with
    | none =>
      rw [step, hexec] at hk'
      cases hk'
      exact ⟨live, .refused hexec⟩
    | some k₁ =>
      rw [step, hexec] at hk'
      cases hk'
      obtain ⟨i, hfree, hleast, he⟩ := Kernel.execute_eq_some hexec
      exact ⟨_, .executed hfree hleast he⟩
  | halt cause frame =>
    obtain ⟨r, hr, rfl⟩ := Option.map_eq_some_iff.mp hk'
    rcases h.halt_cases hr with ⟨rest, hlive, k', rfl, hspec⟩ | ⟨c, p, rest, hlive, hbase, k', rfl, hspec⟩
    · exact ⟨live, .restarted hlive hspec⟩
    · exact ⟨_, .returned hlive hbase hspec⟩
  | openFile fileName =>
    obtain ⟨⟨ret, k'⟩, hr, rfl⟩ := Option.map_eq_some_iff.mp hk'
    exact ⟨live, .described rfl (descCall_openFile hr)⟩
  | close fd =>
    obtain ⟨⟨ret, k'⟩, hr, rfl⟩ := Option.map_eq_some_iff.mp hk'
    exact ⟨live, .described rfl (descCall_close hr)⟩
  | read fd nbytes =>
    obtain ⟨r, hr, rfl⟩ := Option.map_eq_some_iff.mp hk'
    exact ⟨live, .described rfl (descCall_read hr)⟩
  | getargs nbytes =>
    obtain ⟨r, hr, rfl⟩ := Option.map_eq_some_iff.mp hk'
    exact ⟨live, .described rfl (descCall_getargs hr)⟩
  | tick regs frame => exact h.tick_cases hk'

/-- While only the first terminal runs, and its shell has no child, no other slot is in use. -/
theorem Booted.sole_shell (h : Booted k live) (hproc : k.termProc 0 = some 0) (hnone : live 1 = [])
    {i : Slot} (hi : k.pid i = true) : i = base 0 := by
  have hsole : live 0 = [base 0] := by
    refine eq_singleton_of_head_of_last (h.separate.nodup 0) ?_ h.first
    rw [← h.proc, hproc]
    rfl
  have hrest : live 2 = [] := by
    rcases h.second with ⟨-, hnone, -⟩ | hlast
    · exact hnone
    · rw [hnone] at hlast
      cases hlast
  obtain ⟨t, ht⟩ := (h.used i).mp hi
  match t with
  | 0 => exact List.mem_singleton.mp (hsole ▸ ht)
  | 1 =>
    rw [hnone] at ht
    cases ht
  | 2 =>
    rw [hrest] at ht
    cases ht

/-- The first shell that a tick starts gets the slot of its terminal. -/
theorem Booted.first_start (h : Booted k live) (hproc : k.termProc 0 = some 0) (hnone : live 1 = [])
    {i : Slot} (hfree : k.pid i = false) (hleast : ∀ j < i, k.pid j = true) : i = base 1 := by
  rcases lt_trichotomy i (base 1) with hlt | heq | hgt
  · have hzero : ∀ j < base 1, j = base 0 := by decide
    rw [hzero i hlt, (h.used _).mpr ⟨0, List.mem_of_getLast? h.first⟩] at hfree
    cases hfree
  · exact heq
  · exact absurd (h.sole_shell hproc hnone (hleast _ hgt)) (by decide)

/-- A call on descriptors leaves the stacks. -/
theorem Booted.descCall (h : Booted k live) (hd : DescCall k k') : Booted k' live :=
  ⟨h.congr hd.sameTable, h.first, by rw [hd.activeTerm]; exact h.second⟩

/-- Every case of a step leads to a state of the same kind. -/
theorem Stepped.booted (h : Booted k live) {e : Event} {live' : Fin 3 → List Slot}
    (hstep : Stepped disk.fs k live e k' live') : Booted k' live' := by
  cases hstep with
  | executed hfree hleast he =>
    refine ⟨h.executed hfree he, bottom_push h.first, ?_⟩
    rcases h.second with ⟨hone, htwo, hactive⟩ | hlast
    · rw [he.activeTerm, hactive]
      exact Or.inl ⟨hone, htwo, rfl⟩
    · exact Or.inr (bottom_push hlast)
  | refused _ => exact h
  | returned hlive hbase hr =>
    refine ⟨h.returned hlive hr, bottom_pop hlive h.first, ?_⟩
    rcases h.second with ⟨hone, htwo, hactive⟩ | hlast
    · rw [hr.activeTerm, hactive]
      exact Or.inl ⟨hone, htwo, rfl⟩
    · exact Or.inr (bottom_pop hlive hlast)
  | restarted hlive hr => exact ⟨h.restarted hlive hr, h.first, by rw [hr.activeTerm]; exact h.second⟩
  | described _ hd => exact h.descCall hd
  | @started regs frame k' i haction hnone hfree hleast he =>
    obtain ⟨hproc, -, hactive⟩ := pitAction_startShell haction
    have htable : ProcessTable k'
        (Function.update live (k.activeTerm + 1) (i :: live (k.activeTerm + 1))) :=
      (h.congr (sameTable_startShell k regs)).executed hfree he
    rw [hnone] at htable
    rcases hactive with hactive | ⟨hactive, -⟩
    · rw [hactive] at htable hnone ⊢
      obtain rfl : i = base 1 := h.first_start hproc hnone hfree hleast
      exact ⟨htable, h.first, Or.inr rfl⟩
    · rw [hactive] at htable ⊢
      have hlast := h.second.resolve_left fun hnone => absurd (hactive.symm.trans hnone.2.2) (by decide)
      exact ⟨htable, h.first, Or.inr hlast⟩
  | startRefused haction hfull =>
    obtain ⟨hproc, -, hactive⟩ := pitAction_startShell haction
    refine ⟨h.congr (sameTable_startShell k _), h.first, ?_⟩
    rcases h.second with ⟨hone, htwo, hactive⟩ | hlast
    · exact absurd (h.sole_shell hproc hone (hfull 1)) (by decide)
    · exact Or.inr hlast
  | switched haction hp hq hs =>
    refine ⟨h.congr hs.sameTable, h.first, ?_⟩
    rcases h.second with ⟨hone, htwo, hactive⟩ | hlast
    · rw [hactive] at hq
      exact absurd (hone.symm.trans hq) (List.cons_ne_nil _ _).symm
    · exact Or.inr hlast

/-- Every step leads from a state described by stacks to another. -/
theorem booted_step (h : ∃ live, Booted k live) {e : Event} (hk' : step disk.fs k e = some k') :
    ∃ live, Booted k' live := by
  obtain ⟨live, h⟩ := h
  obtain ⟨live', hstep⟩ := h.step_cases hk'
  exact ⟨live', hstep.booted h⟩

end Steps

end OsKernel
