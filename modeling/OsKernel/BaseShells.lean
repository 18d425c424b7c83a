import OsKernel.StartUp

/-!
# Three base shells

From a state in which the three base shells run, whatever the processes and the timer do: the
process table stays a family of chains that end in the base shells, the CPU context is the one of the
scheduled process, and a tick resumes a terminal with the frame that was saved when it was left.
-/

namespace OsKernel

open Library

/-- Only the three base shells run, each as the process of its terminal, and the CPU context is the
one of the scheduled terminal. -/
structure ThreeShells (k : Kernel) : Prop where
  pid : ∀ i, k.pid i = true ↔ ∃ t, i = base t
  currPid : ∀ t, k.currPid t = some (base t)
  termProc : ∀ t, k.termProc t = some (base t)
  pcbPid : ∀ t, (k.pcb (base t)).pid = some (base t)
  userPde : k.userPde = UInt32.ofNat (2 + (base k.activeTerm).val)
  esp0 : k.esp0 = UInt32.ofNat (8388608 - (base k.activeTerm).val * 8192 - 4)

/-- The process table and the CPU context agree with the chains of the three terminals. -/
structure Consistent (k : Kernel) (chain : Fin 3 → List Slot) : Prop where
  curr : ∀ t, (chain t).head? = k.currPid t
  parent : ∀ t, (chain t).IsChain fun i j => (k.pcb i).parentPid = some j
  bottom : ∀ t, (chain t).getLast? = some (base t)
  nodup : ∀ t, (chain t).Nodup
  used : ∀ i, k.pid i = true ↔ ∃! t, i ∈ chain t
  disjoint : ∀ t u i, i ∈ chain t → i ∈ chain u → t = u
  termProc : ∀ t, k.termProc t = k.currPid t
  context : ∃ p, k.termProc k.activeTerm = some p ∧ k.userPde = UInt32.ofNat (2 + p.val) ∧
    k.esp0 = UInt32.ofNat (8388608 - p.val * 8192 - 4)

/-- The frames that the last ticks saved, after a step. -/
def savedByTick (k : Kernel) (e : Event) (saved : Fin 3 → Regs) : Fin 3 → Regs :=
  match e with
  | .tick regs _ => Function.update saved k.activeTerm regs
  | _ => saved

/-- What the steps of the machine do, beyond keeping the tables consistent: `execute` takes the least
free slot or changes nothing, a halted base shell is restarted under its pid, and a tick loads the
frame that was saved for the next terminal. -/
def StepMeets (fs : FileSystem) (saved : Fin 3 → Regs) (k : Kernel) (e : Event) (k' : Kernel) : Prop :=
  match e with
  | .execute command frame => (k.execute fs command frame = none ∧ k' = k) ∨
    k.execute fs command frame = some k' ∧ ∃ i, k.pid i = false ∧ (∀ j < i, k.pid j = true) ∧
      k'.currPid = Function.update k.currPid k.activeTerm (some i)
  | .halt cause frame => k.caller = some (base k.activeTerm) →
    k.haltBy fs cause frame = some (.restarted k') ∧ k'.activeTerm = k.activeTerm ∧
      k'.caller = some (base k.activeTerm) ∧ (k'.pcb (base k.activeTerm)).pid = some (base k.activeTerm)
  | .tick _ _ => k'.activeTerm = k.activeTerm + 1 ∧ k'.regs = saved k'.activeTerm
  | _ => True

/-- The directory entry for a slot. -/
theorem userPdeAddr_some (p : Slot) : userPdeAddr (some p) = UInt32.ofNat (2 + p.val) := by
  revert p
  decide

/-- The kernel stack for a slot. -/
theorem kernelStack_some (p : Slot) : kernelStack (some p) = UInt32.ofNat (8388608 - p.val * 8192 - 4) := by
  revert p
  decide

/-- The states of a run from three base shells. -/
structure BaseShells (k : Kernel) (live : Fin 3 → List Slot) (saved : Fin 3 → Regs) : Prop
    extends Booted k live where
  bottom : ∀ t, (live t).getLast? = some (base t)
  context : ∃ p, k.termProc k.activeTerm = some p ∧ k.userPde = userPdeAddr (some p) ∧
    k.esp0 = kernelStack (some p)
  schedule : ∀ t, t ≠ k.activeTerm → ∀ p, k.termProc t = some p → (k.pcb p).schedule = saved t

section Steps

variable {disk : Disk} {k k' : Kernel} {live live' : Fin 3 → List Slot} {saved : Fin 3 → Regs} {e : Event}

/-- No stack is empty. -/
theorem BaseShells.live_cons (h : BaseShells k live saved) (t : Fin 3) : ∃ p rest, live t = p :: rest := by
  cases hlive : live t with
  | nil =>
    have hlast := h.bottom t
    rw [hlive] at hlast
    cases hlast
  | cons p rest => exact ⟨p, rest, rfl⟩

/-- A step does not touch the PCBs of the terminals that are not scheduled. -/
theorem BaseShells.pcb_other (h : BaseShells k live saved) (hstep : Stepped disk.fs k live e k' live')
    {t : Fin 3} (ht : t ≠ k.activeTerm) {x : Slot} (hx : x ∈ live t) : k'.pcb x = k.pcb x := by
  have hne {y : Slot} (hy : y ∈ live k.activeTerm) : x ≠ y := by
    rintro rfl
    exact ht (h.separate.unique t k.activeTerm x hx hy)
  cases hstep with
  | executed hfree _ he =>
    obtain ⟨argsName, hpcb⟩ := he.pcb
    rw [hpcb, Function.update_of_ne]
    rintro rfl
    exact h.not_mem hfree t hx
  | refused _ => rfl
  | returned hlive _ hr =>
    rw [hr.pcb, Function.update_of_ne (hne (by simp [hlive])), Function.update_of_ne (hne (by simp [hlive]))]
  | restarted hlive hr =>
    obtain ⟨argsName, hpcb⟩ := hr.pcb
    rw [hpcb, Function.update_of_ne (hne (by simp [hlive]))]
  | described _ hd =>
    rcases hd.pcb with hpcb | ⟨p, descs, hp, hpcb⟩
    · rw [hpcb]
    · obtain ⟨rest, hlive⟩ := h.live_of_caller hp
      rw [hpcb, Function.update_of_ne (hne (by simp [hlive]))]
  | started _ hnone =>
    obtain ⟨p, rest, hlive⟩ := h.live_cons (k.activeTerm + 1)
    rw [hnone] at hlive
    cases hlive
  | startRefused haction =>
    obtain ⟨p, rest, hlive⟩ := h.live_cons (k.activeTerm + 1)
    have hnone := (pitAction_startShell haction).2.1
    rw [h.proc, hlive] at hnone
    cases hnone
  | switched _ hp _ hs => rw [hs.pcb, Function.update_of_ne (hne (by simp [hp]))]

/-- A step other than a tick keeps the scheduled terminal and the processes of the others. -/
theorem BaseShells.schedule_other (h : BaseShells k live saved) (hstep : Stepped disk.fs k live e k' live')
    (hactive : k'.activeTerm = k.activeTerm)
    (hproc : ∀ t ≠ k.activeTerm, k'.termProc t = k.termProc t) :
    ∀ t, t ≠ k'.activeTerm → ∀ p, k'.termProc t = some p → (k'.pcb p).schedule = saved t := by
  intro t ht p hp
  rw [hactive] at ht
  rw [hproc t ht] at hp
  have hmem : p ∈ live t := by
    rw [h.proc] at hp
    exact List.mem_of_mem_head? hp
  rw [h.pcb_other hstep ht hmem]
  exact h.schedule t ht p hp

/-- Every step keeps the invariant. -/
theorem BaseShells.stepped (h : BaseShells k live saved) (hstep : Stepped disk.fs k live e k' live') :
    BaseShells k' live' (savedByTick k e saved) := by
  have hbooted := hstep.booted h.toBooted
  have hother := h.schedule_other hstep
  have hkept {t : Fin 3} (ht : t ≠ k.activeTerm) {x : Slot} (hx : x ∈ live t) : k'.pcb x = k.pcb x :=
    h.pcb_other hstep ht hx
  cases hstep with
  | executed hfree _ he =>
    refine ⟨hbooted, fun t => bottom_push (h.bottom t), ⟨_, ?_, he.userPde, he.esp0⟩, hother he.activeTerm ?_⟩
    · rw [he.termProc, he.activeTerm, Function.update_self]
    · exact fun t ht => by rw [he.termProc, Function.update_of_ne ht]
  | refused _ => exact h
  | @returned _ _ _ c p rest hlive _ hr =>
    have hpid : (k.pcb p).pid = some p := h.pcbPid k.activeTerm p (by simp [hlive])
    refine ⟨hbooted, fun t => bottom_pop hlive (h.bottom t), ⟨p, ?_, hr.userPde, ?_⟩, hother hr.activeTerm ?_⟩
    · rw [hr.termProc, hr.activeTerm, Function.update_self]
    · rw [hr.esp0, hpid]
    · exact fun t ht => by rw [hr.termProc, Function.update_of_ne ht]
  | restarted hlive hr =>
    refine ⟨hbooted, h.bottom, ⟨_, ?_, hr.userPde, hr.esp0⟩, hother hr.activeTerm ?_⟩
    · rw [hr.termProc, hr.activeTerm, h.proc, hlive]
      rfl
    · exact fun t _ => by rw [hr.termProc]
  | described he hd =>
    have hsaved : savedByTick k e saved = saved := by
      cases e with
      | execute | halt | tick => cases he
      | _ => rfl
    rw [hsaved]
    refine ⟨hbooted, h.bottom, ?_, hother hd.activeTerm ?_⟩
    · rw [hd.termProc, hd.activeTerm, hd.userPde, hd.esp0]
      exact h.context
    · exact fun t _ => by rw [hd.termProc]
  | started _ hnone =>
    obtain ⟨p, rest, hlive⟩ := h.live_cons (k.activeTerm + 1)
    rw [hnone] at hlive
    cases hlive
  | startRefused haction =>
    obtain ⟨p, rest, hlive⟩ := h.live_cons (k.activeTerm + 1)
    have hnone := (pitAction_startShell haction).2.1
    rw [h.proc, hlive] at hnone
    cases hnone
  | @switched regs _ _ p q _ _ _ hp hq hs =>
    refine ⟨hbooted, h.bottom, ⟨q, ?_, hs.userPde, hs.esp0⟩, fun t ht x hx => ?_⟩
    · rw [hs.termProc, hs.activeTerm, h.proc, hq]
      rfl
    · rw [hs.termProc] at hx
      rw [hs.activeTerm] at ht
      by_cases hta : t = k.activeTerm
      · subst t
        obtain rfl : p = x := by
          rw [h.proc, hp] at hx
          exact Option.some.inj hx
        rw [hs.pcb, Function.update_self, savedByTick, Function.update_self]
      · have hmem : x ∈ live t := by
          rw [h.proc] at hx
          exact List.mem_of_mem_head? hx
        rw [hkept hta hmem, savedByTick, Function.update_of_ne hta]
        exact h.schedule t hta x hx

/-- A halted base shell is restarted in its slot. -/
theorem BaseShells.restart (h : BaseShells k live saved) (hcaller : k.caller = some (base k.activeTerm))
    (cause : Cause) (frame : ExecFrame) :
    ∃ k', k.haltBy disk.fs cause frame = some (.restarted k') ∧
      Restarted k k' cause (base k.activeTerm) frame := by
  obtain ⟨rest, hlive⟩ := h.live_of_caller hcaller
  exact h.halt_base hlive cause frame

/-- A tick switches to the process of the next terminal. -/
theorem BaseShells.tick (h : BaseShells k live saved) (regs : Regs) (frame : ExecFrame) :
    ∃ k' p q, k.pitHandler disk.fs regs frame = some k' ∧ k.termProc (k.activeTerm + 1) = some q ∧ p ≠ q ∧
      Switched k k' p q regs := by
  obtain ⟨p, q, hp, hq, -, haction⟩ := pitAction_of_three h.toBooted h.bottom
  obtain ⟨-, hto⟩ := pitAction_contextSwitch haction
  obtain ⟨k', hk', hs⟩ := pitHandler_switched haction disk.fs regs frame
  refine ⟨k', p, q, hk', hto.symm, ?_, hs⟩
  rintro rfl
  have hsame := h.separate.unique k.activeTerm (k.activeTerm + 1) p hp hq
  generalize k.activeTerm = t at hsame
  revert t
  decide

/-- No step fails. -/
theorem BaseShells.step_isSome (h : BaseShells k live saved) (e : Event) : (step disk.fs k e).isSome := by
  obtain ⟨p, rest, hlive⟩ := h.live_cons k.activeTerm
  have hcaller : k.caller = some p := by
    rw [h.caller_eq, hlive]
    rfl
  cases e with
  | execute command frame => rfl
  | halt cause frame =>
    by_cases hbase : p = base k.activeTerm
    · obtain ⟨k', hk', -⟩ := h.restart (hbase ▸ hcaller) cause frame
      rw [step, hk']
      rfl
    · cases rest with
      | nil =>
        have hlast := h.bottom k.activeTerm
        rw [hlive] at hlast
        exact absurd (Option.some.inj hlast) hbase
      | cons q rest =>
        obtain ⟨k', hk', -⟩ := h.halt_child hlive hbase cause frame
        rw [step, hk']
        rfl
  | openFile fileName =>
    rw [step, Option.isSome_map, Kernel.openFile]
    split
    · rfl
    · cases disk.fs.readDentryByName fileName with
      | none => rfl
      | some dentry => rw [hcaller]; rfl
  | close fd =>
    rw [step, Option.isSome_map, Kernel.close]
    split
    · rfl
    · rw [hcaller]
      rfl
  | read fd nbytes =>
    rw [step, Option.isSome_map, Kernel.read]
    split
    · rfl
    · rw [Option.isSome_map]
      exact (congrArg Option.isSome hcaller).trans rfl
  | getargs nbytes =>
    rw [step, Option.isSome_map, Kernel.getargs, Option.isSome_map]
    exact (congrArg Option.isSome hcaller).trans rfl
  | tick regs frame =>
    obtain ⟨k', p, q, hk', -⟩ := h.tick regs frame
    rw [step, hk']
    rfl

/-- A step does what it should. -/
theorem BaseShells.stepMeets (h : BaseShells k live saved) (hk' : step disk.fs k e = some k') :
    StepMeets disk.fs saved k e k' := by
  cases e with
  | execute command frame =>
    cases hexec : k.execute disk.fs command frame with
    | none =>
      rw [step, hexec] at hk'
      exact Or.inl ⟨hexec, (Option.some.inj hk').symm⟩
    | some k₁ =>
      rw [step, hexec] at hk'
      cases hk'
      obtain ⟨i, hfree, hleast, he⟩ := Kernel.execute_eq_some hexec
      exact Or.inr ⟨hexec, i, hfree, hleast, he.currPid⟩
  | halt cause frame =>
    intro hcaller
    obtain ⟨k₁, hk₁, hr⟩ := h.restart hcaller cause frame
    rw [step, hk₁] at hk'
    cases hk'
    obtain ⟨argsName, hpcb⟩ := hr.pcb
    rw [HaltResult.after]
    refine ⟨hk₁, hr.activeTerm, ?_, by rw [hpcb, Function.update_self]; rfl⟩
    rw [Kernel.caller, hr.currPid, hr.activeTerm]
    exact hcaller
  | tick regs frame =>
    obtain ⟨k₁, p, q, hk₁, hq, hne, hs⟩ := h.tick regs frame
    rw [step, hk₁] at hk'
    cases hk'
    have hother : k.activeTerm + 1 ≠ k.activeTerm := by
      generalize k.activeTerm = t
      revert t
      decide
    refine ⟨hs.activeTerm, ?_⟩
    rw [hs.regs, hs.pcb, Function.update_of_ne hne.symm, hs.activeTerm]
    exact h.schedule _ hother q hq
  | _ => trivial

/-- Under the invariant the tables are consistent. -/
theorem BaseShells.consistent (h : BaseShells k live saved) : Consistent k live where
  curr t := (h.curr t).symm
  parent t := (h.links t).isChain fun _ hi => ne_bottom_of_mem_dropLast (h.separate.nodup t) (h.bottom t) hi
  bottom := h.bottom
  nodup := h.separate.nodup
  used i := by
    rw [h.used]
    exact ⟨fun ⟨t, ht⟩ => ⟨t, ht, fun u hu => h.separate.unique u t i hu ht⟩, fun ⟨t, ht, _⟩ => ⟨t, ht⟩⟩
  disjoint := h.separate.unique
  termProc t := by rw [h.proc, h.curr]
  context := by
    obtain ⟨p, hp, hpde, hesp0⟩ := h.context
    exact ⟨p, hp, by rw [hpde, userPdeAddr_some], by rw [hesp0, kernelStack_some]⟩

/-- The three base shells are the first such state. -/
theorem ThreeShells.baseShells (h : ThreeShells k) :
    BaseShells k (fun t => [base t]) fun t => (k.pcb (base t)).schedule where
  separate := by
    refine ⟨fun t => List.nodup_singleton _, fun t u i ht hu => ?_⟩
    rw [List.mem_singleton] at ht hu
    exact Fin.castLE_injective (by decide) (ht.symm.trans hu)
  curr t := h.currPid t
  proc t := h.termProc t
  used i := by simp [h.pid]
  pcbPid t i hi := by
    obtain rfl := List.mem_singleton.mp hi
    exact h.pcbPid t
  links t := ⟨Or.inl rfl, trivial⟩
  first := rfl
  second := Or.inr rfl
  bottom _ := rfl
  context := ⟨base k.activeTerm, h.termProc _, by rw [h.userPde, userPdeAddr_some],
    by rw [h.esp0, kernelStack_some]⟩
  schedule t _ p hp := by
    obtain rfl := Option.some.inj ((h.termProc t).symm.trans hp)
    rfl

end Steps

/-- From three base shells, every sequence of executes, halts, calls on descriptors and ticks runs to
its end; the tables stay consistent, and the next step does what it should. -/
theorem threeShells_run (disk : Disk) {k₀ : Kernel} (h : ThreeShells k₀) (events : List Event) :
    ∃ k, run (step disk.fs) k₀ events = some k ∧ (∃ chain, Consistent k chain) ∧
      ∀ e, ∃ k', step disk.fs k e = some k' ∧ StepMeets disk.fs
        (history (step disk.fs) savedByTick k₀ (fun t => (k₀.pcb (base t)).schedule) events) k e k' := by
  have hstep (k : Kernel) (e : Event) (saved : Fin 3 → Regs) (hinv : ∃ live, BaseShells k live saved) :
      ∃ k', step disk.fs k e = some k' ∧ ∃ live, BaseShells k' live (savedByTick k e saved) := by
    obtain ⟨live, h⟩ := hinv
    obtain ⟨k', hk'⟩ := Option.isSome_iff_exists.mp (h.step_isSome e)
    obtain ⟨live', hcase⟩ := h.step_cases hk'
    exact ⟨k', hk', live', h.stepped hcase⟩
  obtain ⟨k, hrun, live, hinv⟩ := run_history_invariant hstep ⟨_, h.baseShells⟩ events
  refine ⟨k, hrun, ⟨live, hinv.consistent⟩, fun e => ?_⟩
  obtain ⟨k', hk', -⟩ := hstep k e _ ⟨live, hinv⟩
  exact ⟨k', hk', hinv.stepMeets hk'⟩

/-- Two ticks after boot the three base shells run; then the third one executes a program. -/
theorem threeShells_run_boot :
    ∃ k₀ k, run (step shellDisk.fs) shellMachine
        [.tick zeroFrame.regs zeroFrame, .tick zeroFrame.regs zeroFrame] = some k₀ ∧
      run (step shellDisk.fs) k₀ [.execute shellCommand zeroFrame] = some k ∧ ∃ chain, Consistent k chain := by
  have hstarted : (run (step shellDisk.fs) shellMachine
      [.tick zeroFrame.regs zeroFrame, .tick zeroFrame.regs zeroFrame]).map (fun k => decide
        ((∀ i, k.pid i = true ↔ ∃ t, i = base t) ∧ (∀ t, k.currPid t = some (base t)) ∧
          (∀ t, k.termProc t = some (base t)) ∧ (∀ t, (k.pcb (base t)).pid = some (base t)) ∧
          k.userPde = UInt32.ofNat (2 + (base k.activeTerm).val) ∧
          k.esp0 = UInt32.ofNat (8388608 - (base k.activeTerm).val * 8192 - 4))) = some true := by
    decide +kernel
  obtain ⟨k₀, hk₀, hfields⟩ := Option.map_eq_some_iff.mp hstarted
  obtain ⟨hpid, hcurr, hproc, hpcb, hpde, hesp0⟩ := of_decide_eq_true hfields
  obtain ⟨k, hrun, hchain, -⟩ := threeShells_run shellDisk ⟨hpid, hcurr, hproc, hpcb, hpde, hesp0⟩
    [.execute shellCommand zeroFrame]
  exact ⟨k₀, k, hk₀, hrun, hchain⟩

end OsKernel
