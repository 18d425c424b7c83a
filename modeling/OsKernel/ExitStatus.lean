import OsKernel.Lineage

/-!
# The status a parent gets

`excpHandler` tells `halt` about the exception through one flag, which `halt` clears only when it
returns to a parent. The restart of a base shell leaves it set, so the exception of a base shell is
reported by the next process that ends, on any terminal.
-/

namespace OsKernel

open Library

/-- The value that `execute` promises for a child that ended so: 256 for an exception, otherwise
its status byte. -/
def Cause.value : Cause → UInt32
  | .exit status => status.toUInt32
  | .exception => EXCEPTION_VALUE
  | .ctrlC => 0

/-- No status byte is the value of an exception. -/
theorem Cause.value_eq_exception {cause : Cause} : cause.value = EXCEPTION_VALUE ↔ cause = .exception := by
  cases cause with
  | exit status =>
    have hne : status.toUInt32 ≠ EXCEPTION_VALUE := by
      intro heq
      have hnat := congrArg UInt32.toNat heq
      have hlt := status.toNat_lt
      rw [UInt8.toNat_toUInt32] at hnat
      exact absurd (hnat ▸ hlt) (by decide)
    simp [Cause.value, hne]
  | exception => simp [Cause.value]
  | ctrlC => simp [Cause.value, EXCEPTION_VALUE]

/-- Whether an exception of a base shell is still to be reported after a step: the end of a base
shell adds its own, and the end of any other process reports what there is. -/
def pendingAfter (k : Kernel) (e : Event) (pending : Bool) : Bool :=
  match e with
  | .halt cause _ =>
    if k.caller = some (base k.activeTerm) then pending || cause = .exception else false
  | _ => pending

/-- Whether some base shell was ended by an exception since the last process returned to its
parent, in a run from a state without such an exception. -/
def exceptionPending (fs : FileSystem) (k : Kernel) (events : List Event) : Bool :=
  history (step fs) pendingAfter k false events

section Steps

variable {disk : Disk} {k k' : Kernel} {live live' : Fin 3 → List Slot}

/-- A step changes the flag as it changes the pending exception. -/
theorem Stepped.exceptionStatus (h : Booted k live) {e : Event} (hstep : Stepped disk.fs k live e k' live') :
    k'.exceptionStatus = pendingAfter k e k.exceptionStatus := by
  cases hstep with
  | executed _ _ he => exact he.exceptionStatus
  | refused _ => rfl
  | returned hlive hbase hr =>
    have hcaller : k.caller ≠ some (base k.activeTerm) := by
      rw [h.caller_eq, hlive]
      exact fun heq => hbase (Option.some.inj heq)
    rw [hr.exceptionStatus, pendingAfter, if_neg hcaller]
  | restarted hlive hr =>
    have hcaller : k.caller = some (base k.activeTerm) := by
      rw [h.caller_eq, hlive]
      rfl
    rw [hr.exceptionStatus, pendingAfter, if_pos hcaller]
  | described he hd =>
    cases e with
    | execute | halt | tick => cases he
    | _ => exact hd.exceptionStatus
  | started _ _ _ _ he => exact he.exceptionStatus
  | startRefused => rfl
  | switched _ _ _ hs => exact hs.exceptionStatus

/-- After a run the flag says whether an exception is pending. -/
theorem exceptionStatus_run (h : Booted k live) (hclear : k.exceptionStatus = false) {events : List Event}
    (hrun : run (step disk.fs) k events = some k') : k'.exceptionStatus = exceptionPending disk.fs k events := by
  have hstep (k : Kernel) (e : Event) (k' : Kernel) (hk : ∃ live, Booted k live)
      (hk' : step disk.fs k e = some k') : ∃ live, Booted k' live := booted_step hk hk'
  have hview (k : Kernel) (e : Event) (k' : Kernel) (hk : ∃ live, Booted k live)
      (hk' : step disk.fs k e = some k') : k'.exceptionStatus = pendingAfter k e k.exceptionStatus := by
    obtain ⟨live, h⟩ := hk
    obtain ⟨live', hcase⟩ := h.step_cases hk'
    exact hcase.exceptionStatus h
  rw [exceptionPending, ← hclear]
  exact run_history hstep hview ⟨live, h⟩ hrun

end Steps

/-- From the `execute` of a parent to the end of the child, whatever happens in between: the
parent's `execute` returns, with the value the child's end stands for if and only if the child was
ended by an exception or no exception of a base shell was pending. -/
theorem exitStatus_iff {disk : Disk} {pcb : Slot → Pcb} {page : UInt32 → ℕ → UInt8}
    {bootFrame frame : ExecFrame} {command : Option Bytes} {earlier meanwhile : List Event}
    {k₀ k₁ k₂ : Kernel} {c p : Slot}
    (hearlier : run (step disk.fs) (boot disk pcb page bootFrame) earlier = some k₀)
    (hparent : k₀.caller = some p) (hexec : k₀.execute disk.fs command frame = some k₁)
    (hchild : k₁.caller = some c) (hlive : Along (step disk.fs) (NotEnd c) k₁ meanwhile)
    (hmeanwhile : run (step disk.fs) k₁ meanwhile = some k₂) (hcaller : k₂.caller = some c)
    (hbase : c ≠ base k₂.activeTerm) (cause : Cause) (haltFrame : ExecFrame) :
    ∃ value k₃, k₂.haltBy disk.fs cause haltFrame = some (.returned value k₃) ∧ k₃.regs = frame.regs ∧
      (value = cause.value ↔ cause = .exception ∨
        exceptionPending disk.fs (boot disk pcb page bootFrame)
          (earlier ++ .execute command frame :: meanwhile) = false) := by
  obtain ⟨live₀, h₀⟩ := booted_run hearlier
  obtain ⟨live₁, h₁, -, hl₁⟩ := lineage_execute h₀ hexec hparent hchild
  obtain ⟨live₂, h₂, hl₂⟩ := hl₁.run h₁ hlive hmeanwhile
  obtain ⟨rest, htop⟩ := hl₂.live_of_caller h₂ hcaller
  obtain ⟨k₃, hhalt, hr⟩ := h₂.halt_child htop hbase cause haltFrame
  have hstep : step disk.fs k₀ (.execute command frame) = some k₁ := by
    rw [step, hexec]
    rfl
  have hrun : run (step disk.fs) (boot disk pcb page bootFrame)
      (earlier ++ .execute command frame :: meanwhile) = some k₂ := by
    rw [run_append, hearlier]
    exact run_cons.mpr ⟨k₁, hstep, hmeanwhile⟩
  have hflag := exceptionStatus_run booted_boot executed_boot.exceptionStatus hrun
  refine ⟨_, k₃, hhalt, hr.regs.trans hl₂.saved_eq, ?_⟩
  rw [← hflag]
  by_cases hcause : cause = .exception
  · subst hcause
    simp [Cause.value]
  · have hstatus : cause.status.toUInt32 = cause.value := by
      cases cause with
      | exception => exact absurd rfl hcause
      | _ => rfl
    have hvalue : EXCEPTION_VALUE ≠ cause.value := fun heq => hcause (Cause.value_eq_exception.mp heq.symm)
    cases hexc : k₂.exceptionStatus <;> simp [hcause, hstatus, hvalue]

/-- The shell's child exits with 7 and the shell's `execute` returns 7. -/
theorem exitStatus_iff_shell :
    ∃ k₁ value k₃, shellMachine.execute shellDisk.fs shellCommand zeroFrame = some k₁ ∧
      k₁.haltBy shellDisk.fs (.exit 7) zeroFrame = some (.returned value k₃) ∧ value = 7 := by
  have hcallers : (shellMachine.execute shellDisk.fs shellCommand zeroFrame).map
      (fun k => (k.caller, k.activeTerm)) = some (some 1, 0) := by
    decide +kernel
  obtain ⟨k₁, hexec, hk₁⟩ := Option.map_eq_some_iff.mp hcallers
  obtain ⟨hcaller, hactive⟩ := Prod.mk.inj hk₁
  have hbase : (1 : Slot) ≠ base k₁.activeTerm := by
    rw [hactive]
    decide
  have hearlier : run (step shellDisk.fs) shellMachine [] = some shellMachine := rfl
  have hmeanwhile : run (step shellDisk.fs) k₁ [] = some k₁ := rfl
  have hparent : shellMachine.caller = some 0 := by decide +kernel
  obtain ⟨value, k₃, hhalt, -, hiff⟩ := exitStatus_iff hearlier hparent hexec hcaller (along_nil k₁)
    hmeanwhile hcaller hbase (.exit 7) zeroFrame
  refine ⟨k₁, value, k₃, hexec, hhalt, hiff.mpr (Or.inr ?_)⟩
  decide +kernel

/-- The base shell dies by an exception and is restarted. The child that the new shell executes exits
with 0, and the `execute` returns 256. -/
theorem exitStatus_stale :
    ∃ k₀ k₁ value k₃, run (step shellDisk.fs) shellMachine [.halt .exception zeroFrame] = some k₀ ∧
      k₀.caller = some 0 ∧ k₀.execute shellDisk.fs shellCommand zeroFrame = some k₁ ∧ k₁.caller = some 1 ∧
      k₁.haltBy shellDisk.fs (.exit 0) zeroFrame = some (.returned value k₃) ∧ value = 256 := by
  have hrun : (run (step shellDisk.fs) shellMachine [.halt .exception zeroFrame]).bind (fun k₀ =>
      (k₀.execute shellDisk.fs shellCommand zeroFrame).bind fun k₁ =>
        (k₁.haltBy shellDisk.fs (.exit 0) zeroFrame).bind fun r =>
          r.returns.map fun ret => (k₀.caller, k₁.caller, ret.1)) = some (some 0, some 1, 256) := by
    decide +kernel
  obtain ⟨k₀, hk₀, hrest⟩ := Option.bind_eq_some_iff.mp hrun
  obtain ⟨k₁, hk₁, hrest⟩ := Option.bind_eq_some_iff.mp hrest
  obtain ⟨r, hr, hrest⟩ := Option.bind_eq_some_iff.mp hrest
  cases r with
  | restarted _ => cases hrest
  | returned value k₃ =>
    have hends : (k₀.caller, k₁.caller, value) = (some 0, some 1, 256) := Option.some.inj hrest
    simp only [Prod.mk.injEq] at hends
    exact ⟨k₀, k₁, value, k₃, hk₀, hends.1, hk₁, hends.2.1, hr, hends.2.2⟩

end OsKernel
