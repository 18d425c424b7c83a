import OsKernel.ProcessTable

/-!
# The boot state

`kernel_main` initialises the globals and executes the first shell. Nothing is assumed about the
memory of the PCBs and of the 4MB pages at that moment.
-/

namespace OsKernel

open Library

/-- The state in which the first shell runs. -/
def boot (disk : Disk) (pcb : Slot → Pcb) (page : UInt32 → ℕ → UInt8) (frame : ExecFrame) : Kernel :=
  ((bootKernel pcb page).execute disk.fs shellCommand frame).getD (bootKernel pcb page)

/-- The stacks at boot. -/
def bootLive : Fin 3 → List Slot := Function.update (fun _ => []) 0 [base 0]

variable {disk : Disk} {pcb : Slot → Pcb} {page : UInt32 → ℕ → UInt8} {frame : ExecFrame}

/-- Before the first shell no slot is in use. -/
theorem processTable_bootKernel : ProcessTable (bootKernel pcb page) (fun _ => []) where
  separate := ⟨fun _ => List.nodup_nil, fun _ _ _ h => absurd h List.not_mem_nil⟩
  curr _ := rfl
  proc _ := rfl
  used i := by simp [bootKernel]
  pcbPid _ _ h := absurd h List.not_mem_nil
  links _ := trivial

/-- The first shell takes slot 0. -/
theorem executed_boot : Kernel.Executed (bootKernel pcb page) (boot disk pcb page frame) (base 0) frame := by
  have hsome : ((bootKernel pcb page).execute disk.fs shellCommand frame).isSome :=
    Kernel.execute_isSome.mpr ⟨disk.shellLoads frame, 0, rfl⟩
  obtain ⟨k, hk⟩ := Option.isSome_iff_exists.mp hsome
  obtain ⟨i, -, hleast, he⟩ := Kernel.execute_eq_some hk
  obtain rfl : i = 0 := by
    by_contra hne
    cases hleast 0 (Fin.pos_of_ne_zero hne)
  rw [boot, hk]
  exact he

/-- The boot state has the first shell alone. -/
theorem booted_boot : Booted (boot disk pcb page frame) bootLive where
  toProcessTable := processTable_bootKernel.executed rfl executed_boot
  first := rfl
  second := Or.inl ⟨rfl, rfl, executed_boot.activeTerm⟩

/-- Every state of a run from boot is described by some stacks. -/
theorem booted_run {k : Kernel} {events : List Event}
    (h : run (step disk.fs) (boot disk pcb page frame) events = some k) : ∃ live, Booted k live := by
  have hstep (k : Kernel) (e : Event) (k' : Kernel) (hk : ∃ live, Booted k live)
      (hk' : step disk.fs k e = some k') : ∃ live, Booted k' live := booted_step hk hk'
  exact run_invariant hstep ⟨bootLive, booted_boot⟩ h

/-- A frame of zeros. -/
def zeroFrame : ExecFrame where
  regs := { ebp := 0, esp := 0 }
  afterName _ := 0
  buf := [0, 0, 0, 0]
  eipBuf := [0, 0, 0, 0]

/-- The machine that boots from the image with one executable, with zeroed memory. -/
def shellMachine : Kernel := boot shellDisk (fun _ => Pcb.zeroed) (fun _ _ => 0) zeroFrame

end OsKernel
