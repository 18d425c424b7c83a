import OsKernel.Boot

/-!
# Starting the shells

The two start-up branches of `pit_handler` are taken when the first terminal runs its shell. A tick
that comes while a terminal runs a child of its shell instead finds a terminal without a process.
The ticks are safe along a run from boot exactly when the two that start shells come while the
interrupted terminal runs its shell itself.
-/

namespace OsKernel

open Library

/-- A tick saves the interrupted frame in the PCB of the interrupted process, starts a shell only
with the pid of its terminal, and switches only between pids in use. -/
structure TickSafe (fs : FileSystem) (k : Kernel) (regs : Regs) (frame : ExecFrame) : Prop where
  saved : ∃ p k', k.termProc k.activeTerm = some p ∧ k.pitHandler fs regs frame = some k' ∧
    (k'.pcb p).schedule = regs
  started : k.pitAction = .startShell → ∃ k', k.pitHandler fs regs frame = some k' ∧
    k'.activeTerm = k.activeTerm + 1 ∧ k'.termProc k'.activeTerm = some (base k'.activeTerm)
  switched : ∀ switchFrom switchTo, k.pitAction = .contextSwitch switchFrom switchTo →
    ∃ p q, switchFrom = some p ∧ switchTo = some q ∧ k.pid p = true ∧ k.pid q = true

/-- What start-up needs of one event. -/
def StartUpSafe (fs : FileSystem) (k : Kernel) : Event → Prop
  | .tick regs frame => TickSafe fs k regs frame
  | _ => True

/-- A tick that finds the next terminal without a process finds the scheduled one running its base
shell. -/
def StartUpReady (k : Kernel) : Event → Prop
  | .tick _ _ =>
    k.termProc (k.activeTerm + 1) = none → k.termProc k.activeTerm = some (base k.activeTerm)
  | _ => True

/-- How far the start-up has come. -/
inductive Phase (k : Kernel) (live : Fin 3 → List Slot) : Prop where
  | one (hone : live 1 = []) (htwo : live 2 = []) (hactive : k.activeTerm = 0)
  | two (hzero : live 0 = [base 0]) (hone : live 1 = [base 1] ∨ ∃ above, live 1 = above ++ [base 2, base 1])
      (htwo : live 2 = []) (hactive : k.activeTerm = 1)
  | three (hbottom : ∀ t, (live t).getLast? = some (base t))

/-- The states of a run whose ticks come at the right moments. -/
def StartUpInv (k : Kernel) : Prop := ∃ live, Booted k live ∧ Phase k live

section Phases

variable {disk : Disk} {k k' : Kernel} {live live' : Fin 3 → List Slot}

/-- With two base shells and nothing else, slot 2 is the least free one. -/
theorem least_free_two (h : Booted k live) (hzero : live 0 = [base 0]) (hone : live 1 = [base 1])
    (htwo : live 2 = []) : k.pid (base 2) = false ∧ ∀ j < base 2, k.pid j = true := by
  constructor
  · by_contra hused
    obtain ⟨t, ht⟩ := (h.used _).mp ((Bool.not_eq_false _).mp hused)
    match t with
    | 0 => exact absurd (List.mem_singleton.mp (hzero ▸ ht)) (by decide)
    | 1 => exact absurd (List.mem_singleton.mp (hone ▸ ht)) (by decide)
    | 2 =>
      rw [htwo] at ht
      cases ht
  · intro j hj
    have hbelow : ∀ j < base 2, j = base 0 ∨ j = base 1 := by decide
    rcases hbelow j hj with rfl | rfl
    · exact (h.used _).mpr ⟨0, by simp [hzero]⟩
    · exact (h.used _).mpr ⟨1, by simp [hone]⟩

/-- The least free slot is unique. -/
theorem least_free_unique {i j : Slot} (hi : k.pid i = false) (hileast : ∀ l < i, k.pid l = true)
    (hj : k.pid j = false) (hjleast : ∀ l < j, k.pid l = true) : i = j := by
  rcases lt_trichotomy i j with hlt | heq | hgt
  · rw [hjleast i hlt] at hi
    cases hi
  · exact heq
  · rw [hileast j hgt] at hj
    cases hj

/-- A second terminal that runs its shell itself has no other process. -/
theorem second_sole (h : Booted k live)
    (hone : live 1 = [base 1] ∨ ∃ above, live 1 = above ++ [base 2, base 1])
    (hproc : k.termProc 1 = some (base 1)) : live 1 = [base 1] := by
  refine eq_singleton_of_head_of_last (h.separate.nodup 1) (by rw [← h.proc, hproc]) ?_
  rcases hone with hone | ⟨above, hone⟩ <;> simp [hone]

/-- While the first terminal is alone, a tick starts the shell of the second one. -/
theorem Phase.step_one (h : Booted k live) (hone : live 1 = []) (htwo : live 2 = []) (hactive : k.activeTerm = 0)
    {e : Event} (hstep : Stepped disk.fs k live e k' live') : Phase k' live' := by
  cases hstep with
  | executed _ _ he =>
    rw [hactive]
    exact .one hone htwo (he.activeTerm.trans hactive)
  | refused _ => exact .one hone htwo hactive
  | returned _ _ hr =>
    rw [hactive]
    exact .one hone htwo (hr.activeTerm.trans hactive)
  | restarted _ hr => exact .one hone htwo (hr.activeTerm.trans hactive)
  | described _ hd => exact .one hone htwo (hd.activeTerm.trans hactive)
  | @started regs frame k' i haction hnone hfree hleast he =>
    obtain ⟨hproc, -, -⟩ := pitAction_startShell haction
    obtain rfl : i = base 1 := h.first_start hproc hone hfree hleast
    have hsole : live 0 = [base 0] :=
      eq_singleton_of_head_of_last (h.separate.nodup 0) (by rw [← h.proc, hproc]; rfl) h.first
    have hnext : k'.activeTerm = 1 := by
      rw [he.activeTerm]
      exact congrArg (· + 1) hactive
    rw [hactive]
    exact .two hsole (Or.inl rfl) htwo hnext
  | startRefused haction hfull =>
    obtain ⟨hproc, -, -⟩ := pitAction_startShell haction
    exact absurd (h.sole_shell hproc hone (hfull 1)) (by decide)
  | switched _ _ hq _ =>
    rw [hactive] at hq
    exact absurd (hone.symm.trans hq) (List.cons_ne_nil _ _).symm

/-- While two terminals have shells, a tick at the right moment starts the third one in its own slot. -/
theorem Phase.step_two (h : Booted k live) (hzero : live 0 = [base 0])
    (hone : live 1 = [base 1] ∨ ∃ above, live 1 = above ++ [base 2, base 1]) (htwo : live 2 = [])
    (hactive : k.activeTerm = 1) {e : Event} (hready : StartUpReady k e)
    (hstep : Stepped disk.fs k live e k' live') : Phase k' live' := by
  cases hstep with
  | @executed _ _ k' i hfree hleast he =>
    rw [hactive]
    refine .two hzero (Or.inr ?_) htwo (he.activeTerm.trans hactive)
    rw [Function.update_self]
    rcases hone with hone | ⟨above, hone⟩
    · obtain ⟨hfree₂, hleast₂⟩ := least_free_two h hzero hone htwo
      obtain rfl := least_free_unique hfree hleast hfree₂ hleast₂
      exact ⟨[], by rw [hone]; rfl⟩
    · exact ⟨i :: above, by rw [hone]; rfl⟩
  | refused _ => exact .two hzero hone htwo hactive
  | @returned _ _ k' c p rest hlive hbase hr =>
    rw [hactive] at hlive ⊢
    refine .two hzero ?_ htwo (hr.activeTerm.trans hactive)
    rw [Function.update_self]
    rcases hone with hone | ⟨above, hone⟩
    · rw [hone] at hlive
      cases hlive
    · rw [hone] at hlive
      cases above with
      | nil =>
        cases hlive
        exact Or.inl rfl
      | cons x above => exact Or.inr ⟨above, (List.cons.inj hlive).2.symm⟩
  | restarted _ hr => exact .two hzero hone htwo (hr.activeTerm.trans hactive)
  | described _ hd => exact .two hzero hone htwo (hd.activeTerm.trans hactive)
  | @started regs frame k' i haction hnone hfree hleast he =>
    obtain ⟨-, hproc, -⟩ := pitAction_startShell haction
    have hsole := second_sole h hone (by simpa [hactive] using hready hproc)
    obtain ⟨hfree₂, hleast₂⟩ := least_free_two h hzero hsole htwo
    obtain rfl := least_free_unique hfree hleast hfree₂ hleast₂
    rw [hactive]
    refine .three fun t => ?_
    match t with
    | 0 => exact h.first
    | 1 => exact (congrArg List.getLast? hsole).trans rfl
    | 2 => rfl
  | startRefused haction hfull =>
    obtain ⟨-, hproc, -⟩ := pitAction_startShell haction
    have hsole := second_sole h hone (by simpa [hactive] using hready hproc)
    have hfree := (least_free_two h hzero hsole htwo).1
    rw [hfull] at hfree
    cases hfree
  | switched _ _ hq _ =>
    rw [hactive] at hq
    exact absurd (htwo.symm.trans hq) (List.cons_ne_nil _ _).symm

/-- Once the three terminals have their shells, they keep them. -/
theorem Phase.step_three (hbottom : ∀ t, (live t).getLast? = some (base t)) {e : Event}
    (hstep : Stepped disk.fs k live e k' live') : Phase k' live' := by
  cases hstep with
  | executed => exact .three fun t => bottom_push (hbottom t)
  | returned hlive => exact .three fun t => bottom_pop hlive (hbottom t)
  | started _ hnone =>
    have hlast := hbottom (k.activeTerm + 1)
    rw [hnone] at hlast
    cases hlast
  | _ => exact .three hbottom

/-- A step whose tick comes at the right moment leads to a phase of the start-up. -/
theorem Phase.step (h : Booted k live) (hphase : Phase k live) {e : Event} (hready : StartUpReady k e)
    (hstep : Stepped disk.fs k live e k' live') : Phase k' live' := by
  cases hphase with
  | one hone htwo hactive => exact Phase.step_one h hone htwo hactive hstep
  | two hzero hone htwo hactive => exact Phase.step_two h hzero hone htwo hactive hready hstep
  | three hbottom => exact Phase.step_three hbottom hstep

/-- In the first phase a tick starts a shell exactly when the first terminal runs its own. -/
theorem pitAction_of_one (h : Booted k live) (hone : live 1 = []) (hactive : k.activeTerm = 0) :
    k.pitAction =
      if k.termProc 0 = some (base 0) then .startShell else .contextSwitch (k.termProc 0) none := by
  have hfirst : k.termProc 0 ≠ none := by
    intro hnone
    have hlast := h.first
    rw [h.proc, List.head?_eq_none_iff] at hnone
    rw [hnone] at hlast
    cases hlast
  have hsecond : k.termProc 1 = none := by rw [h.proc, hone]; rfl
  have hbase : base 0 = 0 := rfl
  unfold Kernel.pitAction
  rw [hactive, hbase]
  by_cases hproc : k.termProc 0 = some 0 <;> simp [hfirst, hproc, hsecond]

/-- In the second phase a tick starts a shell. -/
theorem pitAction_of_two (h : Booted k live) (hzero : live 0 = [base 0])
    (hone : live 1 = [base 1] ∨ ∃ above, live 1 = above ++ [base 2, base 1])
    (htwo : live 2 = []) (hactive : k.activeTerm = 1) : k.pitAction = .startShell := by
  have hfirst : k.termProc 0 = some 0 := by rw [h.proc, hzero]; rfl
  have hsecond : k.termProc 1 ≠ none := by
    rw [h.proc, Ne, List.head?_eq_none_iff]
    rcases hone with hone | ⟨above, hone⟩ <;> simp [hone]
  have hthird : k.termProc 2 = none := by rw [h.proc, htwo]; rfl
  simp [Kernel.pitAction, hactive, hfirst, hsecond, hthird]

/-- With three shells a tick switches between processes. -/
theorem pitAction_of_three (h : Booted k live) (hbottom : ∀ t, (live t).getLast? = some (base t)) :
    ∃ p q, p ∈ live k.activeTerm ∧ q ∈ live (k.activeTerm + 1) ∧ k.termProc k.activeTerm = some p ∧
      k.pitAction = .contextSwitch (some p) (some q) := by
  have hproc (t : Fin 3) : ∃ p, p ∈ live t ∧ k.termProc t = some p := by
    cases hlive : live t with
    | nil =>
      have hlast := hbottom t
      rw [hlive] at hlast
      cases hlast
    | cons p rest => exact ⟨p, List.mem_cons_self, by rw [h.proc, hlive]; rfl⟩
  obtain ⟨p, hp, htermp⟩ := hproc k.activeTerm
  obtain ⟨q, hq, htermq⟩ := hproc (k.activeTerm + 1)
  refine ⟨p, q, hp, hq, htermp, ?_⟩
  obtain ⟨r, -, hone⟩ := hproc 1
  obtain ⟨r', -, htwo⟩ := hproc 2
  simp [Kernel.pitAction, hone, htwo, htermp, htermq]

/-- A start that finds the slot of its terminal as the least free one is safe. -/
theorem tickSafe_of_start {regs : Regs} {frame : ExecFrame} (haction : k.pitAction = .startShell)
    (hproc : k.termProc k.activeTerm = some (base k.activeTerm)) (hne : base k.activeTerm ≠ base (k.activeTerm + 1))
    (hfree : k.pid (base (k.activeTerm + 1)) = false) (hleast : ∀ j < base (k.activeTerm + 1), k.pid j = true) :
    TickSafe disk.fs k regs frame := by
  let k₁ : Kernel := { k.saveSchedule (base k.activeTerm) regs with activeTerm := k.activeTerm + 1 }
  have hsome : (k₁.execute disk.fs shellCommand frame).isSome :=
    Kernel.execute_isSome.mpr ⟨disk.shellLoads frame, _, hfree⟩
  obtain ⟨k', hk'⟩ := Option.isSome_iff_exists.mp hsome
  obtain ⟨i, hifree, hileast, he⟩ := Kernel.execute_eq_some hk'
  obtain rfl := least_free_unique hifree hileast hfree hleast
  have hpit : k.pitHandler disk.fs regs frame = some k' := by
    rw [Kernel.pitHandler, haction]
    exact congrArg some ((congrArg (Option.getD · k₁) hk').trans rfl)
  obtain ⟨argsName, hpcb⟩ := he.pcb
  refine ⟨⟨_, k', hproc, hpit, ?_⟩, fun _ => ⟨k', hpit, he.activeTerm, ?_⟩, fun _ _ hswitch => ?_⟩
  · rw [hpcb, Function.update_of_ne hne]
    simp [k₁, Kernel.saveSchedule]
  · rw [he.termProc, he.activeTerm]
    simp [k₁]
  · rw [haction] at hswitch
    cases hswitch

/-- A switch between processes in use is safe. -/
theorem tickSafe_of_switch {regs : Regs} {frame : ExecFrame} {p q : Slot}
    (haction : k.pitAction = .contextSwitch (some p) (some q)) (hproc : k.termProc k.activeTerm = some p)
    (hp : k.pid p = true) (hq : k.pid q = true) : TickSafe disk.fs k regs frame := by
  obtain ⟨k', hpit, hs⟩ := pitHandler_switched haction disk.fs regs frame
  refine ⟨⟨p, k', hproc, hpit, by rw [hs.pcb, Function.update_self]⟩, fun hstart => ?_, fun _ _ hswitch => ?_⟩
  · rw [haction] at hstart
    cases hstart
  · rw [haction] at hswitch
    cases hswitch
    exact ⟨p, q, rfl, rfl, hp, hq⟩

/-- A start that finds the slot of its terminal in use starts the wrong shell or none. -/
theorem not_tickSafe_of_used (h : Booted k live) {regs : Regs} {frame : ExecFrame}
    (haction : k.pitAction = .startShell) (hused : k.pid (base (k.activeTerm + 1)) = true) :
    ¬TickSafe disk.fs k regs frame := by
  intro hsafe
  obtain ⟨k', hpit, hactive, hproc⟩ := hsafe.started haction
  obtain ⟨live', hstep⟩ := h.tick_cases hpit
  cases hstep with
  | described _ hd =>
    rw [hd.activeTerm] at hactive
    exact absurd hactive (by generalize k.activeTerm = t; revert t; decide)
  | @started _ _ _ i _ hnone hfree _ he =>
    rw [he.termProc, he.activeTerm, Function.update_self, Option.some.injEq] at hproc
    rw [← hproc] at hused
    exact absurd hused (by rw [hfree]; decide)
  | startRefused _ _ =>
    have hnone := (pitAction_startShell haction).2.1
    exact absurd (hnone.symm.trans hproc) (Option.some_ne_none _).symm
  | switched hswitch =>
    rw [haction] at hswitch
    cases hswitch

/-- In every phase the next tick is safe exactly when it comes at the right moment. -/
theorem startUpSafe_iff (h : Booted k live) (hphase : Phase k live) (e : Event) :
    StartUpSafe disk.fs k e ↔ StartUpReady k e := by
  cases e with
  | tick regs frame =>
    cases hphase with
    | one hone htwo hactive =>
      have hnext : k.termProc (k.activeTerm + 1) = none := by
        rw [h.proc, hactive]
        exact congrArg List.head? hone
      have haction := pitAction_of_one h hone hactive
      constructor
      · intro hsafe _
        by_contra hproc
        rw [hactive] at hproc
        rw [if_neg hproc] at haction
        obtain ⟨p, q, -, hq, -⟩ := hsafe.switched _ _ haction
        cases hq
      · intro hready
        have hproc := hready hnext
        rw [hactive] at hproc
        rw [if_pos hproc] at haction
        refine tickSafe_of_start haction (hready hnext) (by rw [hactive]; decide) ?_ ?_ <;> rw [hactive]
        · by_contra hused
          exact absurd (h.sole_shell hproc hone ((Bool.not_eq_false _).mp hused)) (by decide)
        · have hzero : ∀ j < base 1, j = base 0 := by decide
          exact fun j hj => hzero j hj ▸ (h.used _).mpr ⟨0, List.mem_of_getLast? h.first⟩
    | two hzero hone htwo hactive =>
      have hnext : k.termProc (k.activeTerm + 1) = none := by
        rw [h.proc, hactive]
        exact congrArg List.head? htwo
      have haction := pitAction_of_two h hzero hone htwo hactive
      constructor
      · intro hsafe _
        by_contra hproc
        rcases hone with hone | ⟨above, hone⟩
        · rw [h.proc, hactive, hone] at hproc
          exact hproc rfl
        · refine not_tickSafe_of_used h haction ?_ hsafe
          rw [hactive]
          exact (h.used _).mpr ⟨1, by simp [hone]⟩
      · intro hready
        have hproc := hready hnext
        have hsole := second_sole h hone (by rw [hactive] at hproc; exact hproc)
        obtain ⟨hfree, hleast⟩ := least_free_two h hzero hsole htwo
        refine tickSafe_of_start haction hproc (by rw [hactive]; decide) ?_ ?_ <;> rw [hactive]
        · exact hfree
        · exact hleast
    | three hbottom =>
      obtain ⟨p, q, hp, hq, hproc, haction⟩ := pitAction_of_three h hbottom
      have hnext : k.termProc (k.activeTerm + 1) ≠ none := by
        obtain ⟨-, hto⟩ := pitAction_contextSwitch haction
        rw [← hto]
        exact Option.some_ne_none q
      exact ⟨fun _ hnone => absurd hnone hnext,
        fun _ => tickSafe_of_switch haction hproc ((h.used p).mpr ⟨_, hp⟩) ((h.used q).mpr ⟨_, hq⟩)⟩
  | _ => exact Iff.rfl

end Phases

/-- Along every run from boot, all ticks save the interrupted frame in the interrupted process's
PCB, start each shell with the pid of its terminal and switch only between pids in use, if and only
if every tick that finds the next terminal without a process finds the scheduled one running its
base shell. -/
theorem startUp_safe_iff (disk : Disk) (pcb : Slot → Pcb) (page : UInt32 → ℕ → UInt8) (frame : ExecFrame)
    (events : List Event) :
    Along (step disk.fs) (StartUpSafe disk.fs) (boot disk pcb page frame) events ↔
      Along (step disk.fs) StartUpReady (boot disk pcb page frame) events := by
  have hinit : StartUpInv (boot disk pcb page frame) :=
    ⟨bootLive, booted_boot, .one rfl rfl executed_boot.activeTerm⟩
  refine along_congr (fun k e k' hinv hsafe hk' => ?_) (fun k e hinv => ?_) hinit
  · obtain ⟨live, h, hphase⟩ := hinv
    obtain ⟨live', hstep⟩ := h.step_cases hk'
    exact ⟨live', hstep.booted h, hphase.step h ((startUpSafe_iff h hphase e).mp hsafe) hstep⟩
  · obtain ⟨live, h, hphase⟩ := hinv
    exact startUpSafe_iff h hphase e

/-- A first tick after the shell executed a program switches from pid 1 to pid -1. -/
theorem startUp_child_first :
    ((run (step shellDisk.fs) shellMachine [.execute shellCommand zeroFrame]).map Kernel.pitAction =
      some (.contextSwitch (some 1) none)) ∧
    ¬Along (step shellDisk.fs) (StartUpSafe shellDisk.fs) shellMachine
      ([.execute shellCommand zeroFrame] ++ [.tick zeroFrame.regs zeroFrame]) := by
  have haction : (run (step shellDisk.fs) shellMachine [.execute shellCommand zeroFrame]).map
      Kernel.pitAction = some (.contextSwitch (some 1) none) := by
    decide +kernel
  refine ⟨haction, fun hsafe => ?_⟩
  obtain ⟨k, hk, hswitch⟩ := Option.map_eq_some_iff.mp haction
  obtain ⟨p, q, -, hq, -⟩ := (hsafe.last hk).switched _ _ hswitch
  cases hq

end OsKernel
