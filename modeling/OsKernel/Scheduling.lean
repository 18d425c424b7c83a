import OsKernel.Library.Run
import OsKernel.Syscall

/-!
# The timer and the machine it schedules

`pit_handler` starts a shell on a terminal that has none, or switches round robin to the next
terminal's process. Together with the system calls of the scheduled process it makes the machine
whose steps are uninterrupted calls and ticks.
-/

namespace OsKernel

open Library

/-- What `pit_handler` decides to do. -/
inductive PitAction where
  | idle
  | startShell
  | contextSwitch (switchFrom switchTo : Option Slot)
  deriving DecidableEq

namespace Kernel

variable (k : Kernel)

/-- The tests of `pit_handler`, in order. -/
def pitAction : PitAction :=
  if k.termProc 0 = none ∧ k.termProc 1 = none ∧ k.termProc 2 = none then .idle
  else if k.activeTerm = 0 ∧ k.termProc 0 = some 0 ∧ k.termProc 1 = none then .startShell
  else if k.activeTerm = 1 ∧ k.termProc 0 = some 0 ∧ k.termProc 1 ≠ none ∧ k.termProc 2 = none then .startShell
  else .contextSwitch (k.termProc k.activeTerm) (k.termProc (k.activeTerm + 1))

/-- Save the frame registers of the handler into a PCB. -/
def saveSchedule (p : Slot) (regs : Regs) : Kernel := k.modifyPcb p fun pcb => { pcb with schedule := regs }

/-- `context_switch`; a pid argument of -1 makes it access an unmapped PCB. -/
def contextSwitch (switchFrom switchTo : Option Slot) (regs : Regs) : Option Kernel := do
  let old ← switchFrom
  let k := { k.saveSchedule old regs with
    userPde := userPdeAddr switchTo
    esp0 := kernelStack switchTo }
  let new ← switchTo
  return { k with regs := (k.pcb new).schedule }

/-- The start of a shell on the next terminal: the frame is saved in the PCB whose pid is the number
of the old terminal. -/
def startShell (fs : FileSystem) (regs : Regs) (frame : ExecFrame) : Kernel :=
  let k := k.saveSchedule (base k.activeTerm) regs
  let k := { k with activeTerm := k.activeTerm + 1 }
  (k.execute fs shellCommand frame).getD k

/-- `pit_handler`; `frame` is the one of the `execute` it may call. -/
def pitHandler (fs : FileSystem) (regs : Regs) (frame : ExecFrame) : Option Kernel :=
  match k.pitAction with
  | .idle => some k
  | .startShell => some (k.startShell fs regs frame)
  | .contextSwitch switchFrom switchTo =>
    { k with activeTerm := k.activeTerm + 1 }.contextSwitch switchFrom switchTo regs

end Kernel

/-- Why a process ends. -/
inductive Cause where
  | exit (status : UInt8)
  | exception
  | ctrlC
  deriving DecidableEq

/-- The status that `halt` is called with. -/
def Cause.status : Cause → UInt8
  | .exit status => status
  | .exception => 255
  | .ctrlC => 0

/-- The call of `halt` that ends the scheduled process: the system call, `excpHandler` or Ctrl+C in
`keyboard_handler`. -/
def Kernel.haltBy (k : Kernel) (fs : FileSystem) (cause : Cause) (frame : ExecFrame) : Option HaltResult :=
  match cause with
  | .exception => { k with exceptionStatus := true }.halt fs cause.status frame
  | .exit _ | .ctrlC => k.halt fs cause.status frame

/-- What can happen to the machine: a system call of the scheduled process, its end, or a tick. -/
inductive Event where
  | execute (command : Option Bytes) (frame : ExecFrame)
  | halt (cause : Cause) (frame : ExecFrame)
  | openFile (fileName : Bytes)
  | close (fd : ℤ)
  | read (fd : ℤ) (nbytes : UInt32)
  | getargs (nbytes : UInt32)
  | tick (regs : Regs) (frame : ExecFrame)

/-- The event is a system call on descriptors. -/
def Event.onDescs : Event → Bool
  | .openFile _ | .close _ | .read _ _ | .getargs _ => true
  | .execute _ _ | .halt _ _ | .tick _ _ => false

/-- One step; `none` is a machine that accessed unmapped memory in the kernel. -/
def step (fs : FileSystem) (k : Kernel) : Event → Option Kernel
  | .execute command frame => some ((k.execute fs command frame).getD k)
  | .halt cause frame => (k.haltBy fs cause frame).map HaltResult.after
  | .openFile fileName => (k.openFile fs fileName).map Prod.snd
  | .close fd => (k.close fd).map Prod.snd
  | .read fd nbytes => (k.read fs fd nbytes).map Kernel.ReadResult.after
  | .getargs nbytes => (k.getargs nbytes).map fun r => r.2.2
  | .tick regs frame => k.pitHandler fs regs frame

end OsKernel
