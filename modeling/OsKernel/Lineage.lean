import OsKernel.Boot

/-!
# A child and its parent

From the `execute` that creates a process to the `halt` that ends it, the process stays directly
above its parent, keeps the frame that `execute` saved, and its parent's descriptors stay as they
were: the parent runs nothing meanwhile, and only the `halt` of a child touches them.
-/

namespace OsKernel

open Library

/-- The event is not the end of the process in slot `c`. -/
def NotEnd (c : Slot) (k : Kernel) : Event → Prop
  | .halt _ _ => k.caller ≠ some c
  | _ => True

/-- The process in slot `c` is directly above the one in slot `p`, with the frame and the parent's
descriptors of the moment it was created. -/
structure Lineage (k : Kernel) (live : Fin 3 → List Slot) (t : Fin 3) (c p : Slot) (saved : Regs)
    (descs : Fin 8 → FileDesc) : Prop where
  adjacent : ∃ above below, live t = above ++ c :: p :: below
  saved_eq : (k.pcb c).saved = saved
  descs_eq : (k.pcb p).fileDescArr = descs

section Steps

variable {disk : Disk} {k k' : Kernel} {live live' : Fin 3 → List Slot} {e : Event}

/-- Saving the frame of the scheduler changes nothing else in a PCB. -/
theorem saveSchedule_kept (k : Kernel) (p x : Slot) (regs : Regs) :
    ((k.saveSchedule p regs).pcb x).saved = (k.pcb x).saved ∧
      ((k.saveSchedule p regs).pcb x).fileDescArr = (k.pcb x).fileDescArr := by
  by_cases hx : x = p
  · subst x
    simp [Kernel.saveSchedule]
  · simp [Kernel.saveSchedule, Kernel.modifyPcb, hx]

/-- A step keeps the saved frame of a process that it does not end, and the descriptors of one that
neither runs nor gets back from its child. -/
theorem Stepped.pcb_kept (h : Booted k live) (hstep : Stepped disk.fs k live e k' live') {t : Fin 3}
    {x : Slot} (hx : x ∈ live t) (hend : NotEnd x k e) :
    (k'.pcb x).saved = (k.pcb x).saved ∧
      (k.caller ≠ some x → (∀ c below, live k.activeTerm = c :: x :: below → NotEnd c k e) →
        (k'.pcb x).fileDescArr = (k.pcb x).fileDescArr) := by
  have htop {c : Slot} {rest : List Slot} (hlive : live k.activeTerm = c :: rest) : k.caller = some c := by
    rw [h.caller_eq, hlive]
    rfl
  cases hstep with
  | executed hfree _ he =>
    obtain ⟨argsName, hpcb⟩ := he.pcb
    rw [hpcb, Function.update_of_ne]
    · exact ⟨rfl, fun _ _ => rfl⟩
    · rintro rfl
      exact h.not_mem hfree t hx
  | refused _ => exact ⟨rfl, fun _ _ => rfl⟩
  | @returned cause frame k' c p rest hlive hbase hr =>
    have hxc : x ≠ c := by
      rintro rfl
      exact hend (htop hlive)
    rw [hr.pcb]
    by_cases hxp : x = p
    · subst x
      rw [Function.update_self]
      exact ⟨rfl, fun _ hnot => absurd (htop hlive) (hnot c rest hlive)⟩
    · rw [Function.update_of_ne hxp, Function.update_of_ne hxc]
      exact ⟨rfl, fun _ _ => rfl⟩
  | restarted hlive hr =>
    obtain ⟨argsName, hpcb⟩ := hr.pcb
    rw [hpcb, Function.update_of_ne]
    · exact ⟨rfl, fun _ _ => rfl⟩
    · rintro rfl
      exact hend (htop hlive)
  | described _ hd =>
    rcases hd.pcb with hpcb | ⟨p, descs, hp, hpcb⟩
    · rw [hpcb]
      exact ⟨rfl, fun _ _ => rfl⟩
    · rw [hpcb]
      by_cases hxp : x = p
      · subst x
        exact ⟨by simp, fun hne => absurd hp hne⟩
      · rw [Function.update_of_ne hxp]
        exact ⟨rfl, fun _ _ => rfl⟩
  | @started regs frame k' i _ _ hfree _ he =>
    obtain ⟨argsName, hpcb⟩ := he.pcb
    obtain ⟨hsaved, hdescs⟩ := saveSchedule_kept k (base k.activeTerm) x regs
    rw [hpcb, Function.update_of_ne]
    · exact ⟨hsaved, fun _ _ => hdescs⟩
    · rintro rfl
      exact h.not_mem hfree t hx
  | @startRefused regs frame _ _ =>
    obtain ⟨hsaved, hdescs⟩ := saveSchedule_kept k (base k.activeTerm) x regs
    exact ⟨hsaved, fun _ _ => hdescs⟩
  | @switched regs frame k' p q _ _ _ _ _ hs =>
    obtain ⟨hsaved, hdescs⟩ := saveSchedule_kept k p x regs
    rw [show k'.pcb = (k.saveSchedule p regs).pcb from hs.pcb]
    exact ⟨hsaved, fun _ _ => hdescs⟩

/-- Two processes stay adjacent until the upper one ends. -/
theorem Stepped.adjacent (h : Booted k live) (hstep : Stepped disk.fs k live e k' live') {t : Fin 3}
    {c p : Slot} (hadj : ∃ above below, live t = above ++ c :: p :: below) (hend : NotEnd c k e) :
    ∃ above below, live' t = above ++ c :: p :: below := by
  obtain ⟨above, below, hlive⟩ := hadj
  cases hstep with
  | @executed _ _ _ i _ _ _ =>
    by_cases ht : t = k.activeTerm
    · subst t
      exact ⟨i :: above, below, by rw [Function.update_self, hlive]; rfl⟩
    · exact ⟨above, below, by rw [Function.update_of_ne ht, hlive]⟩
  | @returned _ _ _ c' p' rest htop hbase _ =>
    by_cases ht : t = k.activeTerm
    · subst t
      rw [htop] at hlive
      cases above with
      | nil =>
        have hcc := (List.cons.inj hlive).1
        subst hcc
        exact absurd (by rw [h.caller_eq, htop]; rfl) hend
      | cons x above => exact ⟨above, below, by rw [Function.update_self]; exact (List.cons.inj hlive).2⟩
    · exact ⟨above, below, by rw [Function.update_of_ne ht, hlive]⟩
  | started _ hnone _ _ _ =>
    have ht : t ≠ k.activeTerm + 1 := by
      rintro rfl
      rw [hnone] at hlive
      simp at hlive
    exact ⟨above, below, by rw [Function.update_of_ne ht, hlive]⟩
  | _ => exact ⟨above, below, hlive⟩

/-- A step that does not end the child keeps everything between it and its parent. -/
theorem Lineage.step (h : Booted k live) (hstep : Stepped disk.fs k live e k' live') {t : Fin 3}
    {c p : Slot} {saved : Regs} {descs : Fin 8 → FileDesc} (hl : Lineage k live t c p saved descs)
    (hend : NotEnd c k e) : Lineage k' live' t c p saved descs := by
  obtain ⟨above, below, hlive⟩ := hl.adjacent
  have hc : c ∈ live t := by simp [hlive]
  have hp : p ∈ live t := by simp [hlive]
  have hnodup := h.separate.nodup t
  rw [hlive] at hnodup
  have hcaller : k.caller ≠ some p := by
    intro hcaller
    obtain ⟨rest, htop⟩ := h.live_of_caller hcaller
    obtain rfl := h.separate.unique t k.activeTerm p hp (by simp [htop])
    rw [h.caller_eq, hlive] at hcaller
    exact head_ne_of_adjacent hnodup hcaller
  have hendp : NotEnd p k e := by
    cases e with
    | halt => exact hcaller
    | _ => trivial
  refine ⟨hstep.adjacent h ⟨above, below, hlive⟩ hend, ?_, ?_⟩
  · rw [(hstep.pcb_kept h hc hend).1, hl.saved_eq]
  · rw [(hstep.pcb_kept h hp hendp).2 hcaller, hl.descs_eq]
    intro c' rest htop
    obtain rfl := h.separate.unique t k.activeTerm p hp (by simp [htop])
    rw [hlive] at htop
    rwa [above_unique hnodup htop]

/-- A run that does not end the child keeps everything between it and its parent. -/
theorem Lineage.run {t : Fin 3} {c p : Slot} {saved : Regs} {descs : Fin 8 → FileDesc}
    (h : Booted k live) (hl : Lineage k live t c p saved descs) {events : List Event}
    (hend : Along (OsKernel.step disk.fs) (NotEnd c) k events)
    (hrun : Library.run (OsKernel.step disk.fs) k events = some k') :
    ∃ live', Booted k' live' ∧ Lineage k' live' t c p saved descs := by
  have hkeep (k : Kernel) (e : Event) (k' : Kernel)
      (hinv : ∃ live, Booted k live ∧ Lineage k live t c p saved descs) (hend : NotEnd c k e)
      (hk' : OsKernel.step disk.fs k e = some k') :
      ∃ live', Booted k' live' ∧ Lineage k' live' t c p saved descs := by
    obtain ⟨live, h, hl⟩ := hinv
    obtain ⟨live', hstep⟩ := h.step_cases hk'
    exact ⟨live', hstep.booted h, hl.step h hstep hend⟩
  exact run_invariant_of_along hkeep ⟨live, h, hl⟩ hend hrun

/-- When the child runs, its parent is the second on the stack. -/
theorem Lineage.live_of_caller {t : Fin 3} {c p : Slot} {saved : Regs} {descs : Fin 8 → FileDesc}
    (hl : Lineage k live t c p saved descs) (h : Booted k live) (hc : k.caller = some c) :
    ∃ rest, live k.activeTerm = c :: p :: rest := by
  obtain ⟨above, below, hlive⟩ := hl.adjacent
  obtain ⟨rest, htop⟩ := h.live_of_caller hc
  obtain rfl := h.separate.unique t k.activeTerm c (by simp [hlive]) (by simp [htop])
  have hnodup := h.separate.nodup k.activeTerm
  rw [hlive] at htop hnodup
  cases above with
  | nil => exact ⟨below, hlive⟩
  | cons x above =>
    obtain ⟨rfl, -⟩ := List.cons.inj htop
    simp at hnodup

/-- `execute` puts the new process directly above its caller. -/
theorem lineage_execute (h : Booted k live) {command : Option Bytes} {frame : ExecFrame} {c p : Slot}
    (hexec : k.execute disk.fs command frame = some k') (hp : k.caller = some p) (hc : k'.caller = some c) :
    ∃ live', Booted k' live' ∧ k'.activeTerm = k.activeTerm ∧
      Lineage k' live' k.activeTerm c p frame.regs (k.pcb p).fileDescArr := by
  obtain ⟨i, hfree, hleast, he⟩ := Kernel.execute_eq_some hexec
  obtain ⟨rest, hlive⟩ := h.live_of_caller hp
  have hstep : Stepped disk.fs k live (.execute command frame) k'
    (Function.update live k.activeTerm (i :: live k.activeTerm)) := .executed hfree hleast he
  obtain rfl : i = c := by
    rw [Kernel.caller, he.activeTerm, he.currPid, Function.update_self, Option.some.injEq] at hc
    exact hc
  obtain ⟨argsName, hpcb⟩ := he.pcb
  have hne : p ≠ i := by
    rintro rfl
    exact h.not_mem hfree k.activeTerm (by simp [hlive])
  refine ⟨_, hstep.booted h, he.activeTerm, ⟨[], rest, by rw [Function.update_self, hlive]; rfl⟩, ?_, ?_⟩
  · rw [hpcb, Function.update_self]
    rfl
  · rw [hpcb, Function.update_of_ne hne]

end Steps

end OsKernel
