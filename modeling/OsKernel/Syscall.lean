import OsKernel.Image
import OsKernel.Process

/-!
# `execute` and `halt`

Both system calls are sequences of assignments to the process table, the PCBs, the page directory
and the TSS. They are written here as lists of statements in source order, so that one definition
serves the uninterrupted calls below and the calls that a timer tick can suspend between any two
statements.
-/

namespace OsKernel

def PROG_IMAGE_ADDR : ℕ := 0x8048000
def USER_LEVEL_PROG : ℕ := 0x8000000
def MB_4 : ℕ := 0x400000
/-- The end of the three video pages that `page_init` maps behind the program's 4MB page. -/
def VIDMAP_END : ℕ := 0x8403000
def EXCEPTION_VALUE : UInt32 := 256

/-- What a call of `execute` finds in its stack frame: the frame registers, the bytes behind
`command_name`, and the old bytes of `buf` and `eip_buf`. -/
structure ExecFrame where
  regs : Regs
  afterName : Bytes
  buf : List UInt8
  eipBuf : List UInt8

/-- A buffer after its first bytes were stored. -/
def overlay (old stored : List UInt8) : List UInt8 := stored ++ old.drop stored.length

/-- The buffer-filling loop of `parse_cmd`: the characters kept for `command_name` and
`file_name`. -/
def parseLoop (spaceBegin : Bool) (commandName fileName : List UInt8) :
    List UInt8 → List UInt8 × List UInt8
  | [] => (commandName, fileName)
  | c :: rest =>
    if c = 0x20 then parseLoop true commandName fileName rest
    else if commandName.length < MAX_FILENAME ∧ !spaceBegin then
      parseLoop spaceBegin (commandName ++ [c]) fileName rest
    else if fileName.length ≤ MAX_FILENAME ∧ spaceBegin then
      parseLoop spaceBegin commandName (fileName ++ [c]) rest
    else parseLoop spaceBegin commandName fileName rest

/-- `parse_cmd`: the buffers `command_name` and `file_name`, padded with NULs. -/
def parseCmd (command : Bytes) : List UInt8 × List UInt8 :=
  let chars := ((List.range (strlen command)).map command).dropWhile (· = 0x20)
  let parsed := parseLoop false [] [] chars
  (parsed.1.rightpad MAX_FILENAME 0, parsed.2.rightpad (MAX_FILENAME + 1) 0)

/-- The program that `execute` found for its command. -/
structure Program where
  dentry : Dentry
  fileName : List UInt8

/-- `execute` up to the search for a pid slot; `none` is a return of -1. -/
def executeCheck (fs : FileSystem) (command : Option Bytes) (frame : ExecFrame) : Option Program := do
  let command ← command
  let (commandName, fileName) := parseCmd command
  let name : Bytes := fun i => if i < MAX_FILENAME then commandName.getD i 0 else frame.afterName (i - MAX_FILENAME)
  let dentry ← fs.readDentryByName name
  let magic := fs.readBytes dentry.inodeIdx 0 4
  if magic.1 = FAIL then none
  else if (overlay frame.buf magic.2).take 4 = [0x7F, 0x45, 0x4C, 0x46] then some { dentry, fileName }
  else none

/-- A little-endian word in a buffer. -/
def wordOf (bytes : List UInt8) : UInt32 :=
  (bytes.getD 0 0).toUInt32 + (bytes.getD 1 0).toUInt32 * 0x100 + (bytes.getD 2 0).toUInt32 * 0x10000 +
    (bytes.getD 3 0).toUInt32 * 0x1000000

/-- The statements of `execute` from the initialisation of the new PCB to the `iret`. -/
inductive ExecStmt where
  | setPid
  | setParentPid
  | setActive
  | initDescs
  | setArgs (fileName : List UInt8)
  | setupMem
  | store (offset : ℕ) (byte : UInt8)
  | saveEbp (ebp : UInt32)
  | saveEsp (esp : UInt32)
  | setEsp0
  | setTermProc
  | iret (progEip : UInt32)
  deriving DecidableEq

namespace Kernel

variable (k : Kernel)

/-- A byte stored at a user address goes to the 4MB page that the directory entry maps. Behind that page are
video pages, which are no part of this state; behind these a store faults, see `ExecStmt.faults`. -/
def storeUser (addr : ℕ) (byte : UInt8) : Kernel :=
  if addr / MB_4 = USER_LEVEL_PROG / MB_4 then
    { k with page := Function.update k.page k.userPde (Function.update (k.page k.userPde) (addr % MB_4) byte) }
  else k

end Kernel

/-- A store of the load behind the mapped pages is a page fault. -/
def ExecStmt.faults : ExecStmt → Bool
  | store offset _ => VIDMAP_END ≤ PROG_IMAGE_ADDR + offset
  | _ => false

/-- The effect of a statement; `pcb` is the local pointer to the new PCB. -/
def ExecStmt.run (pcb : Slot) (k : Kernel) : ExecStmt → Kernel
  | setPid => k.modifyPcb pcb fun p => { p with pid := k.caller }
  | setParentPid => k.modifyPcb pcb fun p => { p with parentPid := k.prevPid k.activeTerm }
  | setActive => k.modifyPcb pcb fun p => { p with activeFlag := true }
  | initDescs => k.modifyPcb pcb Pcb.fileDescArrInitial
  | setArgs fileName => k.modifyPcb pcb fun p => { p with argsName := strncpy (toBytes fileName) (MAX_FILENAME + 1) }
  | setupMem => { k with userPde := userPdeAddr k.caller }
  | store offset byte => k.storeUser (PROG_IMAGE_ADDR + offset) byte
  | saveEbp ebp => k.modifyPcb pcb fun p => { p with saved.ebp := ebp }
  | saveEsp esp => k.modifyPcb pcb fun p => { p with saved.esp := esp }
  | setEsp0 => { k with esp0 := kernelStack k.caller }
  | setTermProc => { k with termProc := Function.update k.termProc k.activeTerm k.caller }
  | iret progEip => { k with userEntry := (progEip, 0x8000000 + 0x400000 - 4) }

/-- The bytes of a program, as the load of `execute` stores them. -/
def Program.image (fs : FileSystem) (prog : Program) : List UInt8 :=
  (fs.readBytes prog.dentry.inodeIdx 0 (fs.fileLength prog.dentry.inodeIdx)).2

/-- The stores of the load. -/
def Program.loadStmts (fs : FileSystem) (prog : Program) : List ExecStmt :=
  (prog.image fs).zipIdx.map fun b => .store b.2 b.1

/-- `prog_eip`, from bytes 24 to 27 of the file. -/
def Program.eip (fs : FileSystem) (prog : Program) (frame : ExecFrame) : UInt32 :=
  wordOf (overlay frame.eipBuf (fs.readBytes prog.dentry.inodeIdx 24 4).2)

/-- The rest of `execute` once a slot is found and its PCB pointer computed. -/
def Program.execStmts (fs : FileSystem) (prog : Program) (frame : ExecFrame) : List ExecStmt :=
  [.setPid, .setParentPid, .setActive, .initDescs, .setArgs prog.fileName, .setupMem] ++
    prog.loadStmts fs ++
    [.saveEbp frame.regs.ebp, .saveEsp frame.regs.esp, .setEsp0, .setTermProc, .iret (prog.eip fs frame)]

namespace Kernel

variable (k : Kernel)

/-- `pid[i] = 1` -/
def markPid (i : Slot) : Kernel := { k with pid := Function.update k.pid i true }

/-- `terms[active_term].prev_pid = terms[active_term].curr_pid` -/
def setPrevPid : Kernel := { k with prevPid := Function.update k.prevPid k.activeTerm k.caller }

/-- `terms[active_term].curr_pid = i` -/
def setCurrPid (i : Option Slot) : Kernel := { k with currPid := Function.update k.currPid k.activeTerm i }

/-- The slot the search loop of `execute` finds. -/
def freeSlot : Option Slot := (List.finRange 6).find? fun i => !k.pid i

/-- `execute`, uninterrupted: the state with the new program running, or `none` for a return of -1,
which leaves the state as it was. A load that ends in a page fault is told apart by `executeOutcome`. -/
def execute (fs : FileSystem) (command : Option Bytes) (frame : ExecFrame) : Option Kernel := do
  let prog ← executeCheck fs command frame
  let i ← k.freeSlot
  return (prog.execStmts fs frame).foldl (ExecStmt.run i) (((k.markPid i).setPrevPid).setCurrPid (some i))

end Kernel

/-- The statements of `halt` from the release of the slot to the update of the TSS. -/
inductive HaltStmt where
  | freePid
  | clearActive
  | setCurrPid
  | setTermProc
  | setPrevPid
  | setPde
  | close (fd : ℤ)
  | setEsp0
  deriving DecidableEq

/-- The effect of a statement; `pcb` is the local pointer to the halting process's PCB. An access to
the PCB of pid -1, or to `pid[-1]`, ends the run. -/
def HaltStmt.run (pcb : Slot) (k : Kernel) : HaltStmt → Option Kernel
  | freePid => (k.pcb pcb).pid.map fun p => { k with pid := Function.update k.pid p false }
  | clearActive => some (k.modifyPcb pcb fun p => { p with activeFlag := false })
  | setCurrPid => some (k.setCurrPid (k.pcb pcb).parentPid)
  | setTermProc => some { k with termProc := Function.update k.termProc k.activeTerm k.caller }
  | setPrevPid => k.caller.map fun parent =>
      { k with prevPid := Function.update k.prevPid k.activeTerm (k.pcb parent).parentPid }
  | setPde => some { k with userPde := userPdeAddr k.caller }
  | close fd => (k.close fd).map Prod.snd
  | setEsp0 => k.caller.map fun parent => { k with esp0 := kernelStack (k.pcb parent).pid }

/-- The close loop of `halt`. -/
def closeStmts : List HaltStmt := (List.finRange 8).map fun fd => .close fd.val

/-- The statements of `halt` after the base-shell test. -/
def haltStmts : List HaltStmt :=
  [.freePid, .clearActive, .setCurrPid, .setTermProc, .setPrevPid, .setPde] ++ closeStmts ++ [.setEsp0]

/-- How `halt` ends: in a fresh base shell, or by returning a value from the parent's `execute`. -/
inductive HaltResult where
  | restarted (after : Kernel)
  | returned (value : UInt32) (after : Kernel)

/-- The state a `halt` leaves. -/
def HaltResult.after : HaltResult → Kernel
  | .restarted k => k
  | .returned _ k => k

/-- The value and the state that the parent's `execute` returns with. -/
def HaltResult.returns : HaltResult → Option (UInt32 × Kernel)
  | .restarted _ => none
  | .returned value k => some (value, k)

/-- The base shell pid of a terminal. -/
def base (t : Fin 3) : Slot := t.castLE (by decide)

/-- `"shell"` -/
def shellCommand : Option Bytes := some (toBytes shellName)

namespace Kernel

variable (k : Kernel)

/-- The end of `halt`: the status is chosen and the saved frame of the parent's `execute` is
restored. -/
def haltExit (pcb : Slot) (status : UInt8) : HaltResult :=
  let k' := { k with regs := (k.pcb pcb).saved }
  if k.exceptionStatus then .returned EXCEPTION_VALUE { k' with exceptionStatus := false }
  else .returned status.toUInt32 k'

/-- `halt` after the base-shell test, on the process in slot `pcb`. -/
def haltReturn (pcb : Slot) (status : UInt8) : Option HaltResult :=
  (haltStmts.foldlM (HaltStmt.run pcb) k).map fun k' => k'.haltExit pcb status

/-- What `halt` does to a base shell before it calls `execute`. -/
def dropBase (pcb : Slot) : Kernel :=
  let k' := k.modifyPcb pcb fun p => { p with activeFlag := false }
  { k' with pid := Function.update k'.pid (base k.activeTerm) false }

/-- `halt`, uninterrupted; `frame` is the one of the `execute` it calls for a base shell. -/
def halt (fs : FileSystem) (status : UInt8) (frame : ExecFrame) : Option HaltResult := do
  let pcb ← k.caller
  if pcb = base k.activeTerm then
    match (k.dropBase pcb).execute fs shellCommand frame with
    | some k' => return .restarted k'
    | none => (k.dropBase pcb).haltReturn pcb status
  else k.haltReturn pcb status

end Kernel

/-- A file system from which the shell loads. -/
structure Disk where
  fs : FileSystem
  shellLoads : ∀ frame, (executeCheck fs shellCommand frame).isSome

/-- The image with the one executable is such a file system. -/
def shellDisk : Disk where
  fs := shellImage.fs
  shellLoads _ := rfl

end OsKernel
