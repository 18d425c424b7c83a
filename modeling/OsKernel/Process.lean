import Mathlib.Logic.Function.Basic
import Mathlib.Data.Fintype.Basic
import OsKernel.Paging
import OsKernel.ReadData

/-!
# Processes and their descriptors

The process state that the system calls and the scheduler share: the pid slots, the fields of
`terms`, the PCBs, the user page-directory entry and the TSS, with the system calls on file
descriptors. A PCB lies at a fixed address for each slot; the address for pid -1 is not mapped, so
an access to it ends the run.
-/

namespace OsKernel

def FD_START : ℕ := 2

/-- An index into `pid[PID_MAX]`. A pid variable that may be -1 is an `Option Slot`. -/
abbrev Slot := Fin 6

/-- There is a first slot. -/
instance neZero_slots : NeZero 6 := ⟨by decide⟩

/-- There is a first descriptor. -/
instance neZero_descs : NeZero 8 := ⟨by decide⟩

/-- The value of a pid variable as an unsigned word. -/
def pidValue : Option Slot → UInt32
  | none => 0xFFFFFFFF
  | some p => UInt32.ofNat p.val

/-- `((2 + pid) * MB_4) >> ADDR_SHIFT_4MB` -/
def userPdeAddr (pid : Option Slot) : UInt32 := ((2 + pidValue pid) * 0x400000) >>> 22

/-- `MB_8 - pid * KB_8 - 4` -/
def kernelStack (pid : Option Slot) : UInt32 := 0x800000 - pidValue pid * 0x2000 - 4

/-- The frame and stack pointers. -/
structure Regs where
  ebp : UInt32
  esp : UInt32
  deriving DecidableEq

/-- Whose functions `fop_table` holds. -/
inductive Driver where
  | stdin
  | stdout
  | rtc
  | dir
  | file
  deriving DecidableEq

/-- `file_desc_table_t` -/
structure FileDesc where
  fop : Driver
  inode : UInt32
  position : UInt32
  flag : Bool
  deriving DecidableEq

/-- `pcb_t`, with `MAX_OPEN_FILES` descriptors. -/
structure Pcb where
  pid : Option Slot
  parentPid : Option Slot
  fileDescArr : Fin 8 → FileDesc
  saved : Regs
  schedule : Regs
  activeFlag : Bool
  argsName : List UInt8

/-- The globals of the virtual RTC. -/
structure Rtc where
  intFlag : Fin 3 → Bool
  count : Fin 3 → UInt32
  active : Fin 3 → Bool
  resetCount : UInt32

/-- The globals of the process code. -/
structure Kernel where
  pid : Slot → Bool
  currPid : Fin 3 → Option Slot
  prevPid : Fin 3 → Option Slot
  termProc : Fin 3 → Option Slot
  activeTerm : Fin 3
  pcb : Slot → Pcb
  /-- `page_directory[USER_LEVEL_INDEX].pde_4mb.addr` -/
  userPde : UInt32
  /-- The 4MB pages of physical memory, by the address field that maps them. -/
  page : UInt32 → ℕ → UInt8
  esp0 : UInt32
  regs : Regs
  /-- The entry point and stack pointer of the last `iret` into a program. -/
  userEntry : UInt32 × UInt32
  exceptionStatus : Bool
  pcbValRead : Option Slot
  dentryTemp : Dentry
  rtc : Rtc
  /-- History: whose descriptor each call of a driver's close function was for, newest first. -/
  closeCalls : List (Slot × Fin 8)

/-- The globals when `kernel_main` calls `execute`; the memory of the PCBs and the 4MB pages may hold
anything. -/
def bootKernel (pcb : Slot → Pcb) (page : UInt32 → ℕ → UInt8) : Kernel where
  pid _ := false
  currPid _ := none
  prevPid _ := none
  termProc _ := none
  activeTerm := 0
  pcb
  userPde := 0
  page
  esp0 := 0x800000
  regs := { ebp := 0, esp := 0x800000 }
  userEntry := (0, 0)
  exceptionStatus := false
  pcbValRead := none
  dentryTemp := { fileName := List.replicate MAX_FILENAME 0, fileType := 0, inodeIdx := 0 }
  rtc :=
    { intFlag := fun _ => false
      count := fun t => if t = 0 then 512 else 0
      active := fun _ => false
      resetCount := 512 }
  closeCalls := []

namespace Pcb

/-- A PCB in zeroed memory. -/
def zeroed : Pcb where
  pid := some 0
  parentPid := some 0
  fileDescArr _ := { fop := .stdin, inode := 0, position := 0, flag := false }
  saved := { ebp := 0, esp := 0 }
  schedule := { ebp := 0, esp := 0 }
  activeFlag := false
  argsName := List.replicate (MAX_FILENAME + 1) 0

/-- Replace one descriptor. -/
def setDesc (p : Pcb) (i : Fin 8) (d : FileDesc) : Pcb :=
  { p with fileDescArr := Function.update p.fileDescArr i d }

/-- `file_desc_arr_initial`: the tables of the free descriptors keep their old bytes. -/
def fileDescArrInitial (p : Pcb) : Pcb :=
  { p with
    fileDescArr := fun i =>
      if i = 0 then { fop := .stdin, inode := 0, position := 0, flag := true }
      else if i = 1 then { fop := .stdout, inode := 0, position := 0, flag := true }
      else { p.fileDescArr i with flag := false } }

/-- The first free descriptor from `FD_START` on. -/
def freeDesc (p : Pcb) : Option (Fin 8) :=
  (List.finRange 8).find? fun i => FD_START ≤ i.val && !(p.fileDescArr i).flag

end Pcb

/-- `rtc_open`, with the `rtc_init` it calls. -/
def Rtc.open_ (r : Rtc) (t : Fin 3) : Rtc :=
  { r with
    active := Function.update r.active t true
    count := Function.update r.count t 512
    resetCount := 512 }

/-- `rtc_close` -/
def Rtc.close (r : Rtc) (t : Fin 3) : Rtc := { r with active := Function.update r.active t false }

/-- Which table `open` copies for a file type. -/
def driverOfType (fileType : UInt32) : Option Driver :=
  if fileType = 1 then some .dir
  else if fileType = 0 then some .rtc
  else if fileType = 2 then some .file
  else none

/-- A descriptor number, when it is one. -/
def descIndex (lo : ℕ) (fd : ℤ) : Option (Fin 8) :=
  if h : (lo : ℤ) ≤ fd ∧ fd < 8 then some ⟨fd.toNat, by omega⟩ else none

/-- Which descriptor a number names. -/
theorem descIndex_eq_some {lo : ℕ} {fd : ℤ} {i : Fin 8} : descIndex lo fd = some i ↔ fd = i.val ∧ lo ≤ i.val := by
  unfold descIndex
  constructor
  · intro h
    split at h
    · obtain rfl := Option.some.inj h
      simp only
      omega
    · cases h
  · rintro ⟨rfl, hlo⟩
    rw [dif_pos ⟨by omega, by omega⟩]
    rfl

/-- Every descriptor number of the table is one. -/
theorem descIndex_val (i : Fin 8) : descIndex 0 i.val = some i := descIndex_eq_some.mpr ⟨rfl, Nat.zero_le _⟩

namespace Kernel

variable (k : Kernel)

/-- Change the PCB of a slot. -/
def modifyPcb (p : Slot) (f : Pcb → Pcb) : Kernel :=
  { k with pcb := Function.update k.pcb p (f (k.pcb p)) }

/-- The changed PCB. -/
@[simp] theorem modifyPcb_self (p : Slot) (f : Pcb → Pcb) : (k.modifyPcb p f).pcb p = f (k.pcb p) := by
  simp [modifyPcb]

/-- The other PCBs. -/
theorem modifyPcb_of_ne {p q : Slot} (h : q ≠ p) (f : Pcb → Pcb) : (k.modifyPcb p f).pcb q = k.pcb q := by
  simp [modifyPcb, h]

/-- The slot of the process that runs on the scheduled terminal: `terms[active_term].curr_pid`. -/
def caller : Option Slot := k.currPid k.activeTerm

/-- `fop_table.open(file_name)` -/
def driverOpen (fs : FileSystem) (driver : Driver) (fileName : Bytes) : Kernel :=
  match driver with
  | .rtc => { k with rtc := k.rtc.open_ k.activeTerm }
  | .dir | .file => { k with dentryTemp := (fs.readDentryByName fileName).getD k.dentryTemp }
  | .stdin | .stdout => k

/-- `fop_table.close(fd)`: the value it returns and its effect. -/
def driverClose (driver : Driver) : UInt32 × Kernel :=
  match driver with
  | .rtc => (0, { k with rtc := k.rtc.close k.activeTerm })
  | .dir | .file => (0, k)
  | .stdin | .stdout => (FAIL, k)

/-- `open` on a non-null name. -/
def openFile (fs : FileSystem) (fileName : Bytes) : Option (UInt32 × Kernel) :=
  if strlen fileName = 0 then some (FAIL, k)
  else
    match fs.readDentryByName fileName with
    | none => some (FAIL, k)
    | some dentry => k.caller.map fun p =>
      match (k.pcb p).freeDesc, driverOfType dentry.fileType with
      | some i, some driver =>
        let desc := { fop := driver, inode := dentry.inodeIdx, position := 0, flag := true }
        (UInt32.ofNat i.val, (k.modifyPcb p (·.setDesc i desc)).driverOpen fs driver fileName)
      | _, _ => (FAIL, k)

/-- `close` -/
def close (fd : ℤ) : Option (UInt32 × Kernel) :=
  match descIndex FD_START fd with
  | none => some (FAIL, k)
  | some i => k.caller.map fun p =>
    let desc := (k.pcb p).fileDescArr i
    if desc.flag then
      let k := k.modifyPcb p (·.setDesc i { desc with flag := false })
      { k with closeCalls := (p, i) :: k.closeCalls }.driverClose desc.fop
    else (FAIL, k)

/-- `file_read`, which finds its descriptor through `pcb_val_read`. -/
def fileRead (fs : FileSystem) (p : Slot) (i : Fin 8) (nbytes : UInt32) : UInt32 × List UInt8 × Kernel :=
  let desc := (k.pcb p).fileDescArr i
  let read := fs.readBytes desc.inode desc.position nbytes
  if read.1 = FAIL then (FAIL, read.2, k)
  else (read.1, read.2, k.modifyPcb p (·.setDesc i { desc with position := desc.position + read.1 }))

/-- How many bytes of a directory entry's name `dir_read` copies. -/
def nameLength (entry : Dentry) : ℕ := min (strlen (toBytes entry.fileName)) MAX_FILENAME

/-- `dir_read`, which ignores `nbytes`. -/
def dirRead (fs : FileSystem) (p : Slot) (i : Fin 8) : UInt32 × List UInt8 × Kernel :=
  let desc := (k.pcb p).fileDescArr i
  match fs.readDentryByIndex desc.position with
  | none => (FAIL, [], k)
  | some entry =>
    let k := { k with dentryTemp := entry }
    (UInt32.ofNat (nameLength entry), entry.fileName.take (nameLength entry),
      k.modifyPcb p (·.setDesc i { desc with position := desc.position + 1 }))

/-- How a `read` call ends. A call that waits for a key or for an RTC interrupt leaves the process
state alone. -/
inductive ReadResult where
  | done (ret : UInt32) (bytes : List UInt8) (after : Kernel)
  | waits (driver : Driver) (after : Kernel)

/-- The state a `read` call leaves. -/
def ReadResult.after : ReadResult → Kernel
  | .done _ _ k => k
  | .waits _ k => k

/-- The end of a call that returned. -/
def ReadResult.ofCall (r : UInt32 × List UInt8 × Kernel) : ReadResult := .done r.1 r.2.1 r.2.2

/-- `fop_table.read(fd, buf, nbytes)` -/
def driverRead (fs : FileSystem) (p : Slot) (i : Fin 8) (nbytes : UInt32) : ReadResult :=
  match ((k.pcb p).fileDescArr i).fop with
  | .file => .ofCall (k.fileRead fs p i nbytes)
  | .dir => .ofCall (k.dirRead fs p i)
  | .stdout => .done FAIL [] k
  | .stdin => .waits .stdin k
  | .rtc => .waits .rtc k

/-- `read` -/
def read (fs : FileSystem) (fd : ℤ) (nbytes : UInt32) : Option ReadResult :=
  let k := { k with pcbValRead := k.caller }
  match descIndex 0 fd with
  | none => some (.done FAIL [] k)
  | some i => k.caller.map fun p =>
    if ((k.pcb p).fileDescArr i).flag then k.driverRead fs p i nbytes else .done FAIL [] k

/-- `getargs` with a non-null buffer: the returned value and the bytes stored. -/
def getargs (nbytes : UInt32) : Option (UInt32 × List UInt8 × Kernel) :=
  let k := { k with pcbValRead := k.caller }
  k.caller.map fun p =>
    let args := (k.pcb p).argsName
    if args.getD 0 0 ≠ 0 then (0, strncpy (toBytes args) nbytes.toNat, k) else (FAIL, [], k)

end Kernel

end OsKernel
