import OsKernel.CtrlC

/-!
# Where a suspended thread goes on

A tick saves its frame in the PCB that `term_proc` names and loads the frame from the PCB of the next terminal's
process. Nothing else writes these frames, and a terminal that waits keeps its `term_proc`, so every thread goes on
where it was suspended.
-/

namespace OsKernel

open Library

/-- A change that keeps the frames that the timer saved. -/
def KeepsFrames (k k' : Kernel) : Prop := ∀ i, (k'.pcb i).schedule = (k.pcb i).schedule

/-- The thread has released the terminal's process in `term_proc` and not yet loaded the parent's mapping. -/
def Code.leaving : Code → Bool
  | unwind _ _ rest => HaltStmt.setTermProc ∉ rest ∧ HaltStmt.setPde ∈ rest
  | _ => false

section Frames

variable {k k' k₁ : Kernel} {fs : FileSystem} {pcb : Slot} {code code' : Code} {stack : List Slot}

/-- Two changes that keep the frames. -/
theorem KeepsFrames.trans (h : KeepsFrames k k₁) (h' : KeepsFrames k₁ k') : KeepsFrames k k' :=
  fun i => (h' i).trans (h i)

/-- A change of another field of a PCB. -/
theorem keepsFrames_modifyPcb (k : Kernel) (pcb : Slot) {f : Pcb → Pcb} (hf : ∀ p, (f p).schedule = p.schedule) :
    KeepsFrames k (k.modifyPcb pcb f) := by
  intro i
  change (Function.update k.pcb pcb (f (k.pcb pcb)) i).schedule = (k.pcb i).schedule
  by_cases hi : i = pcb
  · rw [hi, Function.update_self, hf]
  · rw [Function.update_of_ne hi]

/-- A statement of `execute` keeps the frames. -/
theorem keepsFrames_execStmt (k : Kernel) (pcb : Slot) (s : ExecStmt) : KeepsFrames k (s.run pcb k) := by
  cases s with
  | store offset byte =>
    obtain ⟨page, hpage⟩ := Kernel.store_eq k pcb offset byte
    rw [hpage]
    exact fun _ => rfl
  | setupMem =>
    have hrun : ExecStmt.run pcb k .setupMem = { k with userPde := userPdeAddr k.caller } := by rw [ExecStmt.run]
    generalize userPdeAddr k.caller = pde at hrun
    rw [hrun]
    exact fun _ => rfl
  | setEsp0 =>
    have hrun : ExecStmt.run pcb k .setEsp0 = { k with esp0 := kernelStack k.caller } := by rw [ExecStmt.run]
    generalize kernelStack k.caller = esp0 at hrun
    rw [hrun]
    exact fun _ => rfl
  | setTermProc | iret _ => exact fun _ => rfl
  | setPid | setParentPid | setActive | initDescs | setArgs _ | saveEbp _ | saveEsp _ =>
    rw [ExecStmt.run]
    exact keepsFrames_modifyPcb k pcb fun _ => rfl

/-- A statement of `halt` keeps the frames. -/
theorem keepsFrames_haltStmt {s : HaltStmt} (hrun : s.run pcb k = some k') : KeepsFrames k k' := by
  cases s with
  | freePid | setPrevPid | setEsp0 =>
    obtain ⟨p, -, rfl⟩ := Option.map_eq_some_iff.mp hrun
    exact fun _ => rfl
  | clearActive =>
    cases hrun
    exact keepsFrames_modifyPcb k pcb fun _ => rfl
  | setCurrPid | setTermProc | setPde =>
    cases hrun
    exact fun _ => rfl
  | close fd =>
    obtain ⟨⟨ret, k'⟩, hclose, rfl⟩ := Option.map_eq_some_iff.mp hrun
    rcases (descCall_close hclose).pcb with hpcb | ⟨p, descs, -, hpcb⟩
    · exact fun i => congrArg Pcb.schedule (congrFun hpcb i)
    · intro i
      rw [hpcb]
      exact keepsFrames_modifyPcb k p (f := fun pcb => { pcb with fileDescArr := descs }) (fun _ => rfl) i

/-- A statement of a thread keeps the frames. -/
theorem keepsFrames_next (hnext : code.next fs k = some (code', k')) : KeepsFrames k k' := by
  cases code with
  | user => cases hnext
  | search call i =>
    simp only [Code.next] at hnext
    split_ifs at hnext <;> cases hnext <;> exact fun _ => rfl
  | mark call i | savePrev call i | setCurr call i | freeBase pcb status frame =>
    cases hnext
    exact fun _ => rfl
  | setup pcb todo =>
    cases todo with
    | nil =>
      cases hnext
      exact fun _ => rfl
    | cons s todo =>
      obtain ⟨-, rfl⟩ := Code.next_setup hnext
      exact keepsFrames_execStmt k pcb s
  | testBase pcb status frame =>
    simp only [Code.next] at hnext
    split_ifs at hnext <;> cases hnext <;> exact fun _ => rfl
  | clearBase pcb status frame =>
    cases hnext
    exact keepsFrames_modifyPcb k pcb fun _ => rfl
  | unwind pcb status todo =>
    cases todo with
    | nil =>
      cases hnext
      rw [Kernel.haltExit_eq]
      exact fun _ => rfl
    | cons s todo =>
      obtain ⟨k₁, hrun, hnext⟩ := Option.map_eq_some_iff.mp hnext
      cases hnext
      exact keepsFrames_haltStmt hrun

/-- An uninterrupted `execute` keeps the frames. -/
theorem Kernel.Executed.keepsFrames {i : Slot} {frame : ExecFrame} (h : Kernel.Executed k k' i frame) :
    KeepsFrames k k' := by
  obtain ⟨argsName, hpcb⟩ := h.pcb
  intro j
  rw [hpcb]
  exact keepsFrames_modifyPcb k i (f := fun p => p.spawned i k.caller frame.regs argsName) (fun _ => rfl) j

/-- Statements of `halt` keep the frames. -/
theorem keepsFrames_foldlM {todo : List HaltStmt} (hrun : todo.foldlM (HaltStmt.run pcb) k = some k') :
    KeepsFrames k k' := by
  induction todo generalizing k with
  | nil =>
    cases hrun
    exact fun _ => rfl
  | cons s todo ih =>
    rw [List.foldlM_cons] at hrun
    obtain ⟨k₂, hs, hrest⟩ := Option.bind_eq_some_iff.mp hrun
    exact (keepsFrames_haltStmt hs).trans (ih hrest)

/-- An uninterrupted `halt` from the base-shell test on keeps the frames. -/
theorem keepsFrames_haltReturn {status : UInt8} {r : HaltResult} (hhalt : k.haltReturn pcb status = some r) :
    KeepsFrames k r.after := by
  obtain ⟨k₁, hrun, rfl⟩ := Option.map_eq_some_iff.mp hhalt
  have hkeeps : KeepsFrames k k₁ := keepsFrames_foldlM hrun
  rw [Kernel.haltExit_eq]
  exact hkeeps

/-- A `halt` with interrupts masked keeps the frames. -/
theorem keepsFrames_haltBy {cause : Cause} {frame : ExecFrame} {r : HaltResult}
    (hhalt : k.haltBy fs cause frame = some r) : KeepsFrames k r.after := by
  rw [haltBy_eq] at hhalt
  obtain ⟨c, hcaller, hhalt⟩ := Option.bind_eq_some_iff.mp hhalt
  have hraise : KeepsFrames k (k.raise cause) := fun _ => rfl
  have hdrop : KeepsFrames k ((k.raise cause).dropBase c) :=
    keepsFrames_modifyPcb k c (f := fun p => { p with activeFlag := false }) fun _ => rfl
  split at hhalt
  · split at hhalt
    · rename_i k₁ hexec
      cases hhalt
      obtain ⟨i, -, -, he⟩ := Kernel.execute_eq_some hexec
      exact hdrop.trans he.keepsFrames
    · exact hdrop.trans (keepsFrames_haltReturn hhalt)
  · exact hraise.trans (keepsFrames_haltReturn hhalt)

/-- The order of the statements of `halt` around the two variables. -/
theorem leaving_order {todo : List HaltStmt} (h : todo <:+ haltStmts) (hterm : .setTermProc ∉ todo)
    (hprev : .setPrevPid ∈ todo) : .setPde ∈ todo := by
  have hall : ∀ r ∈ haltStmts.tails, HaltStmt.setTermProc ∉ r → HaltStmt.setPrevPid ∈ r → HaltStmt.setPde ∈ r := by
    decide
  exact hall todo ((List.mem_tails _ _).mpr h) hterm hprev

/-- A thread in `halt` has its terminal's process in `term_proc`, unless it is between the two statements. -/
theorem TearingDown.present {t : Fin 3} {rest : List Slot} {todo : List HaltStmt} {status : UInt8}
    (h : TearingDown k t pcb rest todo) (hnone : k.termProc t = none) :
    (Code.unwind pcb status todo).leaving = true := by
  have hproc := h.proc.symm.trans hnone
  split_ifs at hproc with hterm
  have hprev : .setPrevPid ∈ todo := h.below.resolve_right fun hne => hne (List.head?_eq_none_iff.mp hproc)
  simp [Code.leaving, hterm, leaving_order h.suffix hterm hprev]

/-- A thread in `halt` stays there, or comes back to its program. -/
theorem Code.next_unwind {status : UInt8} {todo : List HaltStmt}
    (h : Code.next fs k (.unwind pcb status todo) = some (code', k')) :
    code' = .user ∨ ∃ s rest, todo = s :: rest ∧ code' = .unwind pcb status rest := by
  cases todo with
  | nil =>
    cases h
    exact Or.inl rfl
  | cons s rest =>
    obtain ⟨k₁, -, h⟩ := Option.map_eq_some_iff.mp h
    cases h
    exact Or.inr ⟨s, rest, rfl, rfl⟩

/-- A statement of another part leaves `term_proc` alone, or puts the new process there. -/
theorem termProc_next (hnext : code.next fs k = some (code', k'))
    (hunwind : ∀ pcb status todo, code ≠ .unwind pcb status todo) :
    k'.termProc = k.termProc ∨
      (∃ pcb todo, code = .setup pcb (.setTermProc :: todo)) ∧ k'.termProc k.activeTerm = k.caller := by
  cases code with
  | user => cases hnext
  | search call i =>
    simp only [Code.next] at hnext
    split_ifs at hnext <;> cases hnext <;> exact Or.inl rfl
  | mark call i | savePrev call i | setCurr call i | freeBase pcb status frame | clearBase pcb status frame =>
    cases hnext
    exact Or.inl rfl
  | setup pcb todo =>
    cases todo with
    | nil =>
      cases hnext
      exact Or.inl rfl
    | cons s todo =>
      obtain ⟨-, rfl⟩ := Code.next_setup hnext
      by_cases hs : s = .setTermProc
      · subst s
        exact Or.inr ⟨⟨pcb, todo, rfl⟩, Function.update_self _ _ _⟩
      · exact Or.inl (termProc_execStmt k pcb hs)
  | testBase pcb status frame =>
    simp only [Code.next] at hnext
    split_ifs at hnext <;> cases hnext <;> exact Or.inl rfl
  | unwind pcb status todo => exact absurd rfl (hunwind pcb status todo)

/-- The last statement of `halt` needs a running process. -/
theorem caller_setEsp0 (hrun : HaltStmt.setEsp0.run pcb k = some k') : k'.caller ≠ none := by
  obtain ⟨p, hp, hk⟩ := Option.map_eq_some_iff.mp hrun
  have hcurr : k'.currPid = k.currPid := by rw [← hk]
  have hactive : k'.activeTerm = k.activeTerm := by rw [← hk]
  rw [Kernel.caller, hcurr, hactive]
  exact Option.ne_none_iff_exists'.mpr ⟨p, hp⟩

/-- A `halt` with interrupts masked leaves a running process. -/
theorem caller_haltBy {cause : Cause} {frame : ExecFrame} {r : HaltResult}
    (hhalt : k.haltBy fs cause frame = some r) : r.after.caller ≠ none := by
  have hreturn {k : Kernel} {pcb : Slot} {status : UInt8} (hhalt : k.haltReturn pcb status = some r) :
      r.after.caller ≠ none := by
    obtain ⟨k₁, hrun, rfl⟩ := Option.map_eq_some_iff.mp hhalt
    rw [haltStmts, List.foldlM_append] at hrun
    obtain ⟨k₂, -, hlast⟩ := Option.bind_eq_some_iff.mp hrun
    obtain ⟨k₃, hesp0, hlast⟩ := Option.bind_eq_some_iff.mp hlast
    cases hlast
    have hcaller : k₁.caller ≠ none := caller_setEsp0 hesp0
    rw [Kernel.haltExit_eq]
    exact hcaller
  rw [haltBy_eq] at hhalt
  obtain ⟨c, hcaller, hhalt⟩ := Option.bind_eq_some_iff.mp hhalt
  split at hhalt
  · split at hhalt
    · rename_i k₁ hexec
      cases hhalt
      obtain ⟨i, -, -, he⟩ := Kernel.execute_eq_some hexec
      rw [HaltResult.after, Kernel.caller, he.currPid, he.activeTerm, Function.update_self]
      exact Option.some_ne_none i
    · exact hreturn hhalt
  · exact hreturn hhalt

end Frames

/-- The condition on a tick: the thread it suspends is not between the switch of the mapping and the update of
`term_proc`, and where the next terminal has no process `pit_handler` starts its shell: the tests for it hold, the
process that runs is the base shell in whose PCB the frame is saved, and there is a free slot. -/
def TickReady (m : Machine) : Prop :=
  (m.code m.active).remapping (m.k.termProc m.active) = false ∧
    (m.k.termProc (m.active + 1) = none →
      m.k.pitAction = .startShell ∧ m.k.termProc m.active = some (base m.active) ∧ m.k.freeSlot ≠ none)

/-- The process of a terminal has the processor: its mapping and its kernel stack are loaded, and its thread goes on
with the frame and in the address space it was suspended with, or begins the terminal's first shell. -/
def Machine.HasProcessor (m : Machine) (t : Fin 3) : Prop :=
  m.active = t ∧ ∃ p, m.k.termProc t = some p ∧ m.k.userPde = userPdeAddr (some p) ∧
    m.k.esp0 = kernelStack (some p) ∧ (∀ s ∈ m.suspended t, m.k.regs = s.regs ∧ m.k.userPde = s.userPde) ∧
    (m.suspended t = none → m.k.currPid t = some p ∧ (m.code t).isUser = true)

instance (m : Machine) (t : Fin 3) : Decidable (m.HasProcessor t) :=
  inferInstanceAs (Decidable (m.active = t ∧ ∃ p, m.k.termProc t = some p ∧ m.k.userPde = userPdeAddr (some p) ∧
    m.k.esp0 = kernelStack (some p) ∧ (∀ s ∈ m.suspended t, m.k.regs = s.regs ∧ m.k.userPde = s.userPde) ∧
    (m.suspended t = none → m.k.currPid t = some p ∧ (m.code t).isUser = true)))

instance (m : Machine) : Decidable (TickReady m) :=
  inferInstanceAs (Decidable ((m.code m.active).remapping (m.k.termProc m.active) = false ∧
    (m.k.termProc (m.active + 1) = none →
      m.k.pitAction = .startShell ∧ m.k.termProc m.active = some (base m.active) ∧ m.k.freeSlot ≠ none)))

/-- The scheduled terminal has a process, and the process of a waiting one keeps the frame that its thread was
suspended with. -/
structure Resumable (m : Machine) : Prop where
  present : m.k.termProc m.active = none → (m.code m.active).leaving = true
  resumes : ∀ t, t ≠ m.active → ∀ p, m.k.termProc t = some p →
    (m.suspended t).map Suspension.regs = some (m.k.pcb p).schedule

section Machine

variable {disk : Disk} {m m' : Machine}

/-- A step of the scheduled terminal's own. -/
theorem Resumable.own (h : Resumable m) (hconfined : Confined m.k m'.k) (hframes : KeepsFrames m.k m'.k)
    (hsuspended : m'.suspended = m.suspended)
    (hpresent : m'.k.termProc m.active = none → (m'.code m.active).leaving = true) : Resumable m' := by
  have hactive : m'.active = m.active := hconfined.activeTerm
  refine ⟨hactive ▸ hpresent, fun t ht p hp => ?_⟩
  rw [hactive] at ht
  rw [hconfined.termProc t ht] at hp
  rw [hsuspended, hframes p]
  exact h.resumes t ht p hp

/-- A thread in its program has its terminal's process. -/
theorem Resumable.of_user (h : Resumable m) (huser : m.code m.active = .user) : m.k.termProc m.active ≠ none := by
  intro hnone
  have hleaving := h.present hnone
  rw [huser] at hleaving
  cases hleaving

/-- A statement of the scheduled thread leaves a process in `term_proc`, the window of `halt` apart. -/
theorem Resumable.present_next (h : Resumable m) (howners : Owners m) (howners' : Owners m') {code : Code} {k' : Kernel}
    (hnext : (m.code m.active).next disk.fs m.k = some (code, k')) (hk : m'.k = k')
    (hcode : m'.code m.active = code)
    (howned : m'.owned m.active = (m.code m.active).stackAfter m.k (m.owned m.active)) :
    m'.k.termProc m.active = none → (m'.code m.active).leaving = true := by
  intro hnone
  have hthread := howners.threads m.active
  have hthread' := howners'.threads m.active
  rw [hk] at hnone
  rw [hcode]
  by_cases hunwind : ∀ pcb status todo, m.code m.active ≠ .unwind pcb status todo
  · rcases termProc_next hnext hunwind with hproc | ⟨⟨pcb, todo, hsetup⟩, hproc⟩
    · rw [hproc] at hnone
      have hleaving := h.present hnone
      cases hthere : m.code m.active with
      | unwind pcb status todo => exact absurd hthere (hunwind pcb status todo)
      | _ =>
        rw [hthere] at hleaving
        cases hleaving
    · rw [hsetup] at hthread
      obtain ⟨rest, -, hsetting⟩ := hthread
      cases (hsetting.curr.symm.trans hproc.symm).trans hnone
  · push Not at hunwind
    obtain ⟨pcb, status, todo, hunwind⟩ := hunwind
    rw [hunwind] at hnext hthread howned
    rw [hcode, hk] at hthread'
    rcases Code.next_unwind hnext with rfl | ⟨s, rest, rfl, rfl⟩
    · -- Behind the last statement the parent is in `term_proc`.
      obtain ⟨below, hstack, -⟩ := hthread
      have hne := (howners.threads m.active).stackAfter_ne_nil (hstack ▸ List.cons_ne_nil _ _)
      rw [hunwind, ← howned] at hne
      exact absurd (List.head?_eq_none_iff.mp (AtRest.proc hthread' ▸ hnone)) hne
    · obtain ⟨below, -, hdown⟩ := hthread'
      exact hdown.present hnone

/-- A process that runs in its program is in `term_proc`. -/
theorem Owners.present (h : Owners m) {t : Fin 3} (huser : m.code t = .user) (hcurr : m.k.currPid t ≠ none) :
    m.k.termProc t ≠ none := by
  have hthread := h.threads t
  rw [huser] at hthread
  rwa [hthread.proc, ← hthread.curr]

/-- The saved frame of the thread that a tick suspends is its own, and those of the others stay. -/
theorem Resumable.suspend (h : Resumable m) (howners : Owners m) {p : Slot} (hp : m.k.termProc m.active = some p)
    (regs : Regs) {t : Fin 3} {q : Slot} (hq : m.k.termProc t = some q) :
    (m.suspend regs t).map Suspension.regs =
      some (Function.update m.k.pcb p { m.k.pcb p with schedule := regs } q).schedule := by
  by_cases ht : t = m.active
  · subst t
    obtain rfl := Option.some.inj (hp.symm.trans hq)
    rw [Machine.suspend, Function.update_self, Function.update_self]
    rfl
  · have hne : q ≠ p := by
      rintro rfl
      exact ht (howners.separate.unique _ _ q ((howners.threads t).proc_mem hq) ((howners.threads _).proc_mem hp))
    rw [Machine.suspend, Function.update_of_ne ht, Function.update_of_ne hne]
    exact h.resumes t ht q hq

/-- A step at the right moment keeps the frames of the waiting threads. -/
theorem Resumable.step (h : Resumable m) (howners : Owners m) {e : Action} (hslot : SlotReady m e)
    (htick : ∀ regs frame, e = .tick regs frame → TickReady m) (hstep : m.step disk.fs e = some m') :
    Resumable m' := by
  have howners' := howners.step hslot hstep
  have hsame : Confined m.k m.k := .of_eq rfl rfl rfl rfl
  cases Machine.step_moved hstep with
  | executes huser hcaller | halts huser hcaller =>
    exact h.own hsame (fun _ => rfl) rfl fun hnone => absurd hnone (h.of_user huser)
  | restarted huser hhalt | returned huser hhalt =>
    have hconfined := confined_haltBy hhalt
    have hcaller := caller_haltBy hhalt
    rw [Kernel.caller, hconfined.activeTerm] at hcaller
    exact h.own hconfined (keepsFrames_haltBy hhalt) rfl fun hnone => absurd hnone (howners'.present huser hcaller)
  | ran hnext =>
    exact h.own (confined_next hnext) (keepsFrames_next hnext) rfl
      (h.present_next howners howners' hnext rfl (Function.update_self _ _ _)
        ((congrFun m.ownedAfter_eq m.active).trans (Function.update_self _ _ _)))
  | idle => exact h
  | @started regs frame k' i haction hfree hleast he =>
    obtain ⟨-, hbase, -⟩ := (htick regs frame rfl).2 (pitAction_startShell haction).2.1
    refine ⟨fun hnone => ?_, fun t ht p hp => ?_⟩
    · have hproc : k'.termProc k'.activeTerm = some i := by rw [he.termProc, he.activeTerm, Function.update_self]
      cases hproc.symm.trans hnone
    · have hne : t ≠ m.active + 1 := fun heq => ht (heq.trans he.activeTerm.symm)
      have hold : m.k.termProc t = some p :=
        ((congrFun he.termProc t).trans (Function.update_of_ne hne _ _)).symm.trans hp
      exact (h.suspend howners hbase regs hold).trans (congrArg some (he.keepsFrames p).symm)
  | @switched regs frame k' p q haction hs hresume =>
    obtain ⟨hp, hq⟩ := pitAction_contextSwitch haction
    refine ⟨fun hnone => ?_, fun t ht r hr => ?_⟩
    · have hproc : k'.termProc k'.activeTerm = some q := by rw [hs.termProc, hs.activeTerm, hq]
      cases hproc.symm.trans hnone
    · have hold : m.k.termProc t = some r := (congrFun hs.termProc t).symm.trans hr
      refine (h.suspend howners hp.symm regs hold).trans ?_
      rw [hs.pcb]

/-- A thread in the window of `halt` is between the switch of the mapping and that of `term_proc`. -/
theorem Code.remapping_of_leaving {code : Code} (h : code.leaving = true) (proc : Option Slot) :
    code.remapping proc = true := by
  cases code with
  | unwind pcb status rest => exact h
  | _ => cases h

/-- A tick at the right moment finds a process on the scheduled terminal. -/
theorem Resumable.of_ready (h : Resumable m) (hready : TickReady m) : m.k.termProc m.active ≠ none := by
  intro hnone
  have hremapping := Code.remapping_of_leaving (h.present hnone) (m.k.termProc m.active)
  rw [hready.1] at hremapping
  cases hremapping

/-- With a process on the scheduled terminal a tick is not idle. -/
theorem pitAction_ne_idle {k : Kernel} (hproc : k.termProc k.activeTerm ≠ none) : k.pitAction ≠ .idle := by
  intro hidle
  unfold Kernel.pitAction at hidle
  split_ifs at hidle with hnone
  obtain ⟨hzero, hone, htwo⟩ := hnone
  have hterms : ∀ t : Fin 3, t = 0 ∨ t = 1 ∨ t = 2 := by decide
  rcases hterms k.activeTerm with ht | ht | ht <;> rw [ht] at hproc
  · exact hproc hzero
  · exact hproc hone
  · exact hproc htwo

/-- A tick at the right moment hands the processor to the process of the next terminal. -/
theorem Resumable.ticked (h : Resumable m) (hspaces : AddressSpaces m) (hready : TickReady m) {regs : Regs}
    {frame : ExecFrame} (hstep : m.step disk.fs (.tick regs frame) = some m') : m'.HasProcessor (m.active + 1) := by
  cases Machine.step_moved hstep with
  | idle haction => exact absurd haction (pitAction_ne_idle (h.of_ready hready))
  | @started _ _ k' i haction _ _ he =>
    have hnone : m.k.termProc (m.active + 1) = none := (pitAction_startShell haction).2.1
    have hfirst : m.suspended (m.active + 1) = none := Option.eq_none_iff_forall_ne_some.mpr fun s hs =>
      (hspaces.suspended _ (next_ne _) s hs).1 hnone
    refine ⟨he.activeTerm, i, ?_, he.userPde, he.esp0, fun s hs => ?_, fun _ => ⟨?_, ?_⟩⟩
    · exact (congrFun he.termProc (m.active + 1)).trans (Function.update_self _ _ _)
    · rw [Option.mem_def] at hs
      cases (hfirst.symm.trans (suspend_next regs rfl).symm).trans hs
    · exact (congrFun he.currPid (m.active + 1)).trans (Function.update_self _ _ _)
    · have huser : Function.update m.code (m.active + 1) .user (m.active + 1) = .user := Function.update_self _ _ _
      exact congrArg Code.isUser huser
  | @switched _ _ k' p q haction hs hresume =>
    obtain ⟨-, hq⟩ := pitAction_contextSwitch haction
    have hproc : k'.termProc (m.active + 1) = some q := (congrFun hs.termProc _).trans hq.symm
    refine ⟨hs.activeTerm, q, hproc, hs.userPde, hs.esp0, fun s hsusp => ?_, fun hnone => ?_⟩
    · have hold : m.suspended (m.active + 1) = some s := (suspend_next regs rfl).symm.trans hsusp
      rw [hold, Option.map_some, Option.some.injEq] at hresume
      refine ⟨hresume.symm, ?_⟩
      rw [(hspaces.suspended _ (next_ne _) s hold).2, hs.userPde, hq]
      rfl
    · rw [(suspend_next regs rfl).symm.trans hnone] at hresume
      cases hresume

/-- A tick at the right moment completes. -/
theorem Resumable.tick (h : Resumable m) (howners : Owners m) (disk : Disk) (hready : TickReady m) (regs : Regs)
    (frame : ExecFrame) : ∃ m', m.step disk.fs (.tick regs frame) = some m' := by
  obtain ⟨p, hp⟩ := Option.ne_none_iff_exists'.mp (h.of_ready hready)
  cases haction : m.k.pitAction with
  | idle => exact absurd haction (pitAction_ne_idle (h.of_ready hready))
  | startShell =>
    obtain ⟨-, -, hfree⟩ := hready.2 (pitAction_startShell haction).2.1
    obtain ⟨i, hi⟩ := Option.ne_none_iff_exists'.mp hfree
    obtain ⟨k', hexec, he⟩ := execute_shell disk
      (k := { m.k.saveSchedule (base m.k.activeTerm) regs with activeTerm := m.k.activeTerm + 1 }) hi frame
    have hcaller : k'.caller = some i := by rw [Kernel.caller, he.currPid, he.activeTerm, Function.update_self]
    simp only [Machine.step, Machine.tick, haction, hexec, Option.bind_some, hcaller, Option.map_some]
    exact ⟨_, rfl⟩
  | contextSwitch switchFrom switchTo =>
    obtain ⟨hfrom, hto⟩ := pitAction_contextSwitch haction
    obtain ⟨q, hq⟩ : ∃ q, m.k.termProc (m.active + 1) = some q := by
      refine Option.ne_none_iff_exists'.mp fun hnone => ?_
      cases haction.symm.trans (hready.2 hnone).1
    obtain rfl := hfrom.trans hp
    obtain rfl := hto.trans hq
    obtain ⟨k', hswitch⟩ : ∃ k', { m.k with activeTerm := m.k.activeTerm + 1 }.contextSwitch (some p) (some q) regs =
        some k' := ⟨_, rfl⟩
    obtain ⟨_, _, hold, hnew, hs⟩ := contextSwitch_eq_some hswitch
    cases hold
    cases hnew
    have hresume := h.suspend howners hp regs hq
    rw [suspend_next regs rfl, ← hs.pcb, ← hs.regs] at hresume
    simp only [Machine.step, Machine.tick, haction, hswitch, Option.bind_some, hresume, if_true]
    exact ⟨_, rfl⟩

end Machine

end OsKernel
