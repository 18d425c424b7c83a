import OsKernel.Library.RoundRobin
import OsKernel.Resumption

/-!
# Time slices

Every tick at the right moment, whether it starts a shell or switches processes, hands the processor to the process of
the next terminal, and nothing else takes the processor from the scheduled terminal. So the terminals share it round
robin whatever their processes do in their slices, and at whatever statement of `execute` and `halt` the ticks come.
-/

namespace OsKernel

open Library

/-- The event is a tick. -/
def SessionEvent.isTick : SessionEvent → Bool
  | .act (.tick _ _) => true
  | _ => false

/-- The condition on the steps: ticks and Ctrl+C come at the right moment, and no slot is found that another terminal's
thread holds. -/
def SliceReady (s : Session) (e : SessionEvent) : Prop :=
  SessionReady s e ∧ (e.isTick = true → TickReady s.m)

instance (s : Session) (e : SessionEvent) : Decidable (SliceReady s e) :=
  inferInstanceAs (Decidable (SessionReady s e ∧ (e.isTick = true → TickReady s.m)))

/-- The threads are in order, in their address spaces, and go on where they were suspended. -/
structure InService (fs : FileSystem) (m : Machine) : Prop where
  order : InOrder fs m
  spaces : AddressSpaces m
  frames : Resumable m

section Steps

variable {disk : Disk} {m m' : Machine} {s s' : Session} {frame : ExecFrame}

/-- After boot the first shell is in service. -/
theorem inService_boot {pcb : Slot → Pcb} {page : UInt32 → ℕ → UInt8} :
    InService disk.fs (Machine.boot disk pcb page frame) := by
  have hproc (t : Fin 3) : (boot disk pcb page frame).termProc t = (bootLive t).head? := booted_boot.proc t
  have hactive : (boot disk pcb page frame).activeTerm = 0 := executed_boot.activeTerm
  refine ⟨inOrder_boot, addressSpaces_boot disk pcb page frame, fun hnone => ?_, fun t ht p hp => ?_⟩
  · have hzero : (boot disk pcb page frame).termProc (boot disk pcb page frame).activeTerm = none := hnone
    rw [hactive, hproc] at hzero
    cases hzero
  · have hlive : bootLive t = [] := Function.update_of_ne (fun heq => ht (heq.trans hactive.symm)) _ _
    cases (hlive ▸ hproc t).symm.trans hp

/-- A step of the machine keeps the threads in service. -/
theorem InService.step (h : InService disk.fs m) {e : Action} (hslot : SlotReady m e)
    (htick : ∀ regs frame, e = .tick regs frame → TickReady m) (hstep : m.step disk.fs e = some m') :
    InService disk.fs m' :=
  ⟨h.order.step hslot hstep, h.spaces.step (fun regs frame he => (htick regs frame he).1) hstep,
    h.frames.step h.order.toOwners hslot htick hstep⟩

/-- A change of the surroundings keeps the threads in service. -/
theorem InService.other (h : InService disk.fs m) (now : Surroundings) :
    InService disk.fs { m with k := m.k.withSurroundings now } :=
  ⟨h.order.other now, ⟨h.spaces.running, h.spaces.waiting, h.spaces.suspended⟩, ⟨h.frames.present, h.frames.resumes⟩⟩

/-- Only ticks schedule another terminal. -/
theorem Machine.active_step {fs : FileSystem} {e : Action} (htick : ∀ regs frame, e ≠ .tick regs frame)
    (hstep : m.step fs e = some m') : m'.active = m.active := by
  cases Machine.step_moved hstep with
  | executes _ _ | halts _ _ => rfl
  | restarted _ hhalt | returned _ hhalt => exact (confined_haltBy hhalt).activeTerm
  | ran hnext => exact (confined_next hnext).activeTerm
  | idle _ | started _ _ _ _ | switched _ _ _ => exact absurd rfl (htick _ _)

/-- A tick at the right moment is one of the machine. -/
theorem InService.act_tick (h : InService disk.fs s.m) (hready : TickReady s.m) (regs : Regs) (frame : ExecFrame) :
    ∃ m', s.m.step disk.fs (.tick regs frame) = some m' ∧ s.act disk.fs (.tick regs frame) = some m' := by
  obtain ⟨m', hm'⟩ := h.frames.tick h.order.toOwners disk hready regs frame
  refine ⟨m', hm', ?_⟩
  simp [Session.act, Action.byCtrlC, hm']

/-- A tick at the right moment completes and hands the processor to the process of the next terminal. -/
theorem InService.tick (h : InService disk.fs s.m) (hready : TickReady s.m) (regs : Regs) (frame : ExecFrame) :
    ∃ s', s.step disk.fs (.act (.tick regs frame)) = some s' ∧ s'.m.HasProcessor (s.m.active + 1) := by
  obtain ⟨m', hm', hact⟩ := h.act_tick hready regs frame
  refine ⟨{ s with m := m' }, ?_, h.frames.ticked h.spaces hready hm'⟩
  rw [Session.step, hact]
  rfl

/-- A step at the right moment keeps the threads in service, and only a tick schedules another terminal. -/
theorem InService.session_step (h : InService disk.fs s.m) {e : SessionEvent} (hready : SliceReady s e)
    (hs' : s.step disk.fs e = some s') :
    InService disk.fs s'.m ∧ (e.isTick = false → s'.m.active = s.m.active) := by
  obtain ⟨hready, htick⟩ := hready
  cases e with
  | act e =>
    obtain ⟨m', hact, rfl⟩ := Option.map_eq_some_iff.mp hs'
    have hmoment : ∀ regs frame, e = .tick regs frame → TickReady s.m := by
      rintro regs frame rfl
      exact htick rfl
    have hstep : s.m.step disk.fs e = some m' := by
      cases e with
      | tick regs frame =>
        obtain ⟨m₁, hm₁, hact₁⟩ := h.act_tick (htick rfl) regs frame
        rw [hm₁, ← hact₁, hact]
      | _ =>
        simp only [Session.act, Option.or_none] at hact
        split_ifs at hact
        exact hact
    refine ⟨h.step hready.1 hmoment hstep, fun hnot => Machine.active_step ?_ hstep⟩
    rintro regs frame rfl
    cases hnot
  | other now =>
    cases hs'
    exact ⟨h.other now, fun _ => rfl⟩
  | key statusKey keyPress frame =>
    simp only [Session.step] at hs'
    split at hs'
    · cases hs'
    · cases hs'
      exact ⟨h, fun _ => rfl⟩
    · rename_i console hkey
      obtain ⟨m', hm', rfl⟩ := Option.map_eq_some_iff.mp hs'
      obtain ⟨hcode, hslot⟩ := hready (by rw [Session.ctrlCBy, hkey])
      rw [h.order.ctrlC_eq (Code.isUser_iff.mp hcode)] at hm'
      refine ⟨h.step hslot (fun _ _ => Action.noConfusion) hm', fun _ => Machine.active_step (fun _ _ => ?_) hm'⟩
      exact Action.noConfusion
  | readStart | readFinish _ =>
    simp only [Session.step, Option.map_eq_some_iff] at hs'
    obtain ⟨console, -, rfl⟩ := hs'
    exact ⟨h, fun _ => rfl⟩

/-- Behind a tick at the right moment the process of the next terminal has the processor. -/
theorem InService.tick_step (h : InService disk.fs s.m) {e : SessionEvent} (hready : e.isTick = true → TickReady s.m)
    (htick : e.isTick = true) (hs' : s.step disk.fs e = some s') : s'.m.HasProcessor (s.m.active + 1) := by
  cases e with
  | act e =>
    cases e with
    | tick regs frame =>
      obtain ⟨s₁, hs₁, hholds⟩ := h.tick (hready htick) regs frame
      obtain rfl := Option.some.inj (hs₁.symm.trans hs')
      exact hholds
    | _ => cases htick
  | _ => cases htick

/-- The terminals take turns. -/
theorem takesTurns (disk : Disk) :
    TakesTurns (Session.step · disk.fs) SliceReady (fun s => s.m.active) (fun s t => s.m.HasProcessor t)
      SessionEvent.isTick (fun s => InService disk.fs s.m) where
  keeps _ _ _ h hready hs' := (h.session_step hready hs').1
  owner_eq s e s' h hready hs' := by
    cases htick : e.isTick with
    | false => exact (h.session_step hready hs').2 htick
    | true => exact (h.tick_step hready.2 htick hs').1
  holds_iff s e s' h hready hs' htick t := by
    have hholds := h.tick_step hready.2 htick hs'
    refine ⟨And.left, ?_⟩
    rintro rfl
    rwa [hholds.1]

/-- The time slices that a terminal gets along a run: the ticks behind which its process has the processor. -/
def slices (fs : FileSystem) (t : Fin 3) (s : Session) (events : List SessionEvent) : ℕ :=
  turns (Session.step · fs) (fun s t => s.m.HasProcessor t) SessionEvent.isTick t s events

/-- Over every stretch of every run from boot whose ticks and keys come at the right moment, whatever the processes
call, start and end, the processes of the terminals get the processor the same number of times up to one, and each
gets it in any three ticks. In every state reached a tick at the right moment hands it to the next terminal's process,
and no other step hands it to another terminal. -/
theorem slices_fair {pcb : Slot → Pcb} {page : UInt32 → ℕ → UInt8} {vmem : ℤ → UInt8}
    {before events : List SessionEvent}
    (hready : Along (Session.step · disk.fs) SliceReady (bootSession disk pcb page vmem frame) (before ++ events))
    (hbefore : run (Session.step · disk.fs) (bootSession disk pcb page vmem frame) before = some s)
    (hrun : run (Session.step · disk.fs) s events = some s') :
    (∀ t u, slices disk.fs t s events ≤ slices disk.fs u s events + 1) ∧
      (∀ t rounds, 3 * rounds ≤ events.countP SessionEvent.isTick → rounds ≤ slices disk.fs t s events) ∧
      (∀ regs frame, TickReady s'.m → ∃ s'', s'.step disk.fs (.act (.tick regs frame)) = some s'' ∧
          s''.m.HasProcessor (s'.m.active + 1)) ∧
      ∀ e s'', SliceReady s' e → e.isTick = false → s'.step disk.fs e = some s'' → s''.m.active = s'.m.active := by
  have hturns := takesTurns disk
  obtain ⟨hfirst, hrest⟩ := along_append.mp hready
  have hstep (s : Session) (e : SessionEvent) (s' : Session) (h : InService disk.fs s.m) (hready : SliceReady s e)
      (hs' : s.step disk.fs e = some s') : InService disk.fs s'.m := hturns.keeps s e s' h hready hs'
  have hs : InService disk.fs s.m := run_invariant_of_along hstep inService_boot hfirst hbefore
  have hs' : InService disk.fs s'.m := run_invariant_of_along hstep hs (hrest s hbefore) hrun
  refine ⟨hturns.turns_fair hs (hrest s hbefore) hrun, fun t _ hrounds => ?_, fun regs frame hmoment => ?_,
    fun e s'' hready hnot hstep => (hs'.session_step hready hstep).2 hnot⟩
  · exact hturns.le_turns hs (hrest s hbefore) hrun t hrounds
  · exact hs'.tick hmoment regs frame

end Steps

/-- The first shell executes a program between two rounds of ticks: each terminal gets two slices. -/
theorem slices_fair_shells : ∃ s', run (Session.step · shellDisk.fs) shellSession
    (List.replicate 3 (.act zeroTick) ++ [.act (.execute shellCommand zeroFrame)] ++ List.replicate 7 (.act .stmt) ++
      List.replicate 3 (.act zeroTick)) = some s' ∧
      ∀ t, 2 ≤ slices shellDisk.fs t shellSession
        (List.replicate 3 (.act zeroTick) ++ [.act (.execute shellCommand zeroFrame)] ++
          List.replicate 7 (.act .stmt) ++ List.replicate 3 (.act zeroTick)) := by
  let events : List SessionEvent :=
    List.replicate 3 (.act zeroTick) ++ [.act (.execute shellCommand zeroFrame)] ++ List.replicate 7 (.act .stmt) ++
      List.replicate 3 (.act zeroTick)
  have hready : Along (Session.step · shellDisk.fs) SliceReady shellSession ([] ++ events) := by decide +kernel
  have hsome : (run (Session.step · shellDisk.fs) shellSession events).isSome := by decide +kernel
  obtain ⟨s', hs'⟩ := Option.isSome_iff_exists.mp hsome
  obtain ⟨-, hslices, -, -⟩ := slices_fair hready rfl hs'
  exact ⟨s', hs', fun t => hslices t 2 (by decide)⟩

end OsKernel
