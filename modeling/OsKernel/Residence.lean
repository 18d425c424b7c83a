import OsKernel.Boot

/-!
# On which terminal a process lives

The kernel does not record the terminal of a process. It is the one that was scheduled when the
program was started, so it can be remembered along a run: a slot that a step takes into use belongs
to the terminal that is scheduled after the step.
-/

namespace OsKernel

open Library

/-- The terminal of each slot after a step. -/
def homeAfter (k k' : Kernel) (home : Slot → Fin 3) : Slot → Fin 3 := fun p =>
  if !k.pid p && k'.pid p then k'.activeTerm else home p

/-- The kernel, with the terminal on which each slot's program was started. -/
structure HomedKernel where
  k : Kernel
  home : Slot → Fin 3

namespace HomedKernel

variable (s : HomedKernel)

/-- The state after a step. -/
def after (k' : Kernel) : HomedKernel := { k := k', home := homeAfter s.k k' s.home }

/-- A live process of a terminal. -/
def LiveOn (t : Fin 3) (p : Slot) : Prop := s.k.pid p = true ∧ s.home p = t

instance (t : Fin 3) (p : Slot) : Decidable (s.LiveOn t p) := inferInstanceAs (Decidable (_ ∧ _))

/-- A slot that stays in use belongs to the same terminal. -/
theorem after_home_of_used {p : Slot} (k' : Kernel) (hp : s.k.pid p = true) : (s.after k').home p = s.home p := by
  simp [after, homeAfter, hp]

/-- A slot taken into use. -/
theorem after_home_of_taken {k' : Kernel} {p : Slot} (hp : s.k.pid p = false) (hp' : k'.pid p = true) :
    (s.after k').home p = k'.activeTerm := by
  simp [after, homeAfter, hp, hp']

end HomedKernel

/-- The stacks of live processes are those of the remembered terminals. -/
structure Resident (s : HomedKernel) (live : Fin 3 → List Slot) : Prop extends Booted s.k live where
  home : ∀ t, ∀ p ∈ live t, s.home p = t

section Steps

variable {disk : Disk} {s : HomedKernel} {k' : Kernel} {live live' : Fin 3 → List Slot} {e : Event}

/-- The live processes of a terminal are those on its stack. -/
theorem Resident.liveOn_iff (h : Resident s live) {t : Fin 3} {p : Slot} : s.LiveOn t p ↔ p ∈ live t := by
  constructor
  · rintro ⟨hused, hhome⟩
    obtain ⟨u, hu⟩ := (h.used p).mp hused
    rw [← h.home u p hu, hhome] at hu
    exact hu
  · intro hp
    exact ⟨(h.used p).mpr ⟨t, hp⟩, h.home t p hp⟩

/-- A process that was live before the step is remembered as before. -/
theorem Resident.after_home (h : Resident s live) {t : Fin 3} {p : Slot} (hp : p ∈ live t) :
    (s.after k').home p = t :=
  (s.after_home_of_used k' ((h.used p).mpr ⟨t, hp⟩)).trans (h.home t p hp)

/-- Every step of the machine keeps the stacks and the remembered terminals together. -/
theorem Resident.stepped (h : Resident s live) (hstep : Stepped disk.fs s.k live e k' live') :
    Resident (s.after k') live' := by
  refine ⟨hstep.booted h.toBooted, ?_⟩
  cases hstep with
  | @executed command frame k' i hfree hleast he =>
    intro t p hp
    rcases mem_update.mp hp with ⟨rfl, hin⟩ | ⟨-, hin⟩
    · rcases List.mem_cons.mp hin with rfl | hrest
      · rw [s.after_home_of_taken hfree (by rw [he.pid, Function.update_self]), he.activeTerm]
      · exact h.after_home hrest
    · exact h.after_home hin
  | refused _ => exact fun t p hp => h.after_home hp
  | returned hlive _ hr =>
    intro t p hp
    rcases mem_update.mp hp with ⟨rfl, hin⟩ | ⟨-, hin⟩
    · exact h.after_home (by rw [hlive]; exact List.mem_cons_of_mem _ hin)
    · exact h.after_home hin
  | restarted _ _ => exact fun t p hp => h.after_home hp
  | described _ _ => exact fun t p hp => h.after_home hp
  | @started regs frame k' i haction hnone hfree hleast he =>
    intro t p hp
    rcases mem_update.mp hp with ⟨rfl, hin⟩ | ⟨-, hin⟩
    · obtain rfl := List.mem_singleton.mp hin
      rw [s.after_home_of_taken hfree (by rw [he.pid, Function.update_self]), he.activeTerm]
    · exact h.after_home hin
  | startRefused _ _ => exact fun t p hp => h.after_home hp
  | switched _ _ _ _ => exact fun t p hp => h.after_home hp

end Steps

/-- The machine after boot: everything belongs to the first terminal. -/
def homedBoot (disk : Disk) (pcb : Slot → Pcb) (page : UInt32 → ℕ → UInt8) (frame : ExecFrame) : HomedKernel where
  k := boot disk pcb page frame
  home _ := 0

/-- At boot the first shell lives on the first terminal. -/
theorem resident_boot {disk : Disk} {pcb : Slot → Pcb} {page : UInt32 → ℕ → UInt8} {frame : ExecFrame} :
    Resident (homedBoot disk pcb page frame) bootLive := by
  refine ⟨booted_boot, fun t p hp => ?_⟩
  rcases mem_update.mp hp with ⟨rfl, -⟩ | ⟨-, hp⟩
  · rfl
  · exact absurd hp List.not_mem_nil

end OsKernel
