import Mathlib.Logic.Relation
import OsKernel.Boot

/-!
# The statements of `read` and `getargs`

`read` and `getargs` find the PCB of their caller through one global pointer, `pcb_val_read`, which
each call sets in its first statement and `file_read` and `dir_read` use again. The calls run with
interrupts on, so that a tick can come between any two statements. Each terminal has a thread; the
scheduled one runs its next statement. Without a tick the statements do what the uninterrupted calls
do.
-/

namespace OsKernel

open Library

/-- Where a thread is in `read`, `file_read`, `dir_read` or `getargs`: the next statement it runs. -/
inductive ReadCode where
  /-- In the program. -/
  | user
  /-- At `pcb_val_read = ...` of `read`. -/
  | enter (fd : ℤ) (nbytes : UInt32)
  /-- At the test of the descriptor. -/
  | test (fd : ℤ) (nbytes : UInt32)
  /-- At the call of `fop_table.read`. -/
  | dispatch (i : Fin 8) (nbytes : UInt32)
  /-- At the call of `read_data` in `file_read`. -/
  | fileRead (i : Fin 8) (nbytes : UInt32)
  /-- At `if(bytes_read == -1)`. -/
  | fileTest (i : Fin 8) (read : UInt32 × List UInt8)
  /-- At `position_in_file += bytes_read`. -/
  | fileMove (i : Fin 8) (read : UInt32 × List UInt8)
  /-- At `counterVal = position_in_file` in `dir_read`. -/
  | dirCount (i : Fin 8)
  /-- At the call of `read_dentry_by_index`. -/
  | dirLookup (i : Fin 8) (counterVal : UInt32)
  /-- At `if(checkVal == -1)`. -/
  | dirTest (i : Fin 8) (counterVal : UInt32) (found : Bool)
  /-- At `if(strlen(dentry_temp.file_name) < 32)`, with `read_num` set to 32. -/
  | dirLong (i : Fin 8) (counterVal : UInt32)
  /-- At `read_num = strlen(dentry_temp.file_name)`. -/
  | dirLength (i : Fin 8) (counterVal : UInt32)
  /-- At the call of `memcpy`. -/
  | dirCopy (i : Fin 8) (counterVal : UInt32) (readNum : ℕ)
  /-- At `counterVal++`. -/
  | dirNext (i : Fin 8) (counterVal : UInt32) (readNum : ℕ) (bytes : List UInt8)
  /-- At `position_in_file = counterVal`. -/
  | dirMove (i : Fin 8) (counterVal : UInt32) (readNum : ℕ) (bytes : List UInt8)
  /-- In the waiting loop of `terminal_read` or `rtc_read`. -/
  | wait
  /-- At `pcb_val_read = ...` of `getargs`. -/
  | enterArgs (buf : UInt32) (nbytes : UInt32)
  /-- At the test of `args_name[0]` and the buffer. -/
  | testArgs (buf : UInt32) (nbytes : UInt32)
  /-- At the call of `strncpy`. -/
  | copyArgs (nbytes : UInt32)
  /-- At the return, with the returned value and the bytes stored. -/
  | leave (ret : UInt32) (bytes : List UInt8)
  deriving DecidableEq

namespace ReadCode

/-- The read function of a table. -/
def driverRead (i : Fin 8) (nbytes : UInt32) : Driver → ReadCode
  | .file => fileRead i nbytes
  | .dir => dirCount i
  | .stdout => leave FAIL []
  | .stdin | .rtc => wait

/-- The next statement of a thread: where the thread is after it, and its effect. An access through
`pcb_val_read` before any call has set it ends the run. -/
def next (fs : FileSystem) (k : Kernel) : ReadCode → Option (ReadCode × Kernel)
  | user | wait | leave _ _ => none
  | enter fd nbytes => some (test fd nbytes, { k with pcbValRead := k.caller })
  | test fd nbytes =>
    match descIndex 0 fd with
    | none => some (leave FAIL [], k)
    | some i => k.pcbValRead.map fun p =>
      (if ((k.pcb p).fileDescArr i).flag then dispatch i nbytes else leave FAIL [], k)
  | dispatch i nbytes => k.pcbValRead.map fun p => (driverRead i nbytes ((k.pcb p).fileDescArr i).fop, k)
  | fileRead i nbytes => k.pcbValRead.map fun p =>
    let desc := (k.pcb p).fileDescArr i
    (fileTest i (fs.readBytes desc.inode desc.position nbytes), k)
  | fileTest i read => some (if read.1 = FAIL then leave FAIL read.2 else fileMove i read, k)
  | fileMove i read => k.pcbValRead.map fun p =>
    let desc := (k.pcb p).fileDescArr i
    (leave read.1 read.2, k.modifyPcb p (·.setDesc i { desc with position := desc.position + read.1 }))
  | dirCount i => k.pcbValRead.map fun p => (dirLookup i ((k.pcb p).fileDescArr i).position, k)
  | dirLookup i counterVal => k.pcbValRead.map fun p =>
    match fs.readDentryByIndex ((k.pcb p).fileDescArr i).position with
    | none => (dirTest i counterVal false, k)
    | some entry => (dirTest i counterVal true, { k with dentryTemp := entry })
  | dirTest i counterVal found => some (if found then dirLong i counterVal else leave FAIL [], k)
  | dirLong i counterVal =>
    some (if strlen (toBytes k.dentryTemp.fileName) < MAX_FILENAME then dirLength i counterVal
      else dirCopy i counterVal MAX_FILENAME, k)
  | dirLength i counterVal => some (dirCopy i counterVal (strlen (toBytes k.dentryTemp.fileName)), k)
  | dirCopy i counterVal readNum => some (dirNext i counterVal readNum (k.dentryTemp.fileName.take readNum), k)
  | dirNext i counterVal readNum bytes => some (dirMove i (counterVal + 1) readNum bytes, k)
  | dirMove i counterVal readNum bytes => k.pcbValRead.map fun p =>
    (leave (UInt32.ofNat readNum) bytes,
      k.modifyPcb p (·.setDesc i { (k.pcb p).fileDescArr i with position := counterVal }))
  | enterArgs buf nbytes => some (testArgs buf nbytes, { k with pcbValRead := k.caller })
  | testArgs buf nbytes => k.pcbValRead.map fun p =>
    (if (k.pcb p).argsName.getD 0 0 ≠ 0 ∧ buf ≠ 0 then copyArgs nbytes else leave FAIL [], k)
  | copyArgs nbytes => k.pcbValRead.map fun p =>
    (leave 0 (strncpy (toBytes (k.pcb p).argsName) nbytes.toNat), k)

/-- The statement sets `pcb_val_read`. -/
def assigns : ReadCode → Bool
  | enter _ _ | enterArgs _ _ => true
  | _ => false

end ReadCode

/-- The machine with one thread for each terminal. -/
structure ReadMachine where
  k : Kernel
  code : Fin 3 → ReadCode
  /-- What the last call of each terminal returned, with the bytes it stored. -/
  returned : Fin 3 → Option (UInt32 × List UInt8)
  /-- History: the terminal whose call set `pcb_val_read` last. -/
  assigned : Option (Fin 3)

/-- What can happen: a call of the scheduled process, the next statement of the scheduled thread, the end of
its wait for a key or an interrupt, or a tick. -/
inductive ReadAction where
  | read (fd : ℤ) (nbytes : UInt32)
  | getargs (buf : UInt32) (nbytes : UInt32)
  | stmt
  | wake (ret : UInt32) (bytes : List UInt8)
  | tick (regs : Regs) (frame : ExecFrame)

namespace ReadMachine

variable (m : ReadMachine)

/-- The scheduled terminal. -/
def active : Fin 3 := m.k.activeTerm

/-- The thread of the scheduled terminal goes to a new place. -/
def goto (code : ReadCode) : ReadMachine := { m with code := Function.update m.code m.active code }

/-- The new place of the scheduled thread. -/
@[simp] theorem goto_active (code : ReadCode) : (m.goto code).code m.active = code := Function.update_self ..

/-- The other threads stay where they are. -/
theorem goto_of_ne (code : ReadCode) {u : Fin 3} (hu : u ≠ m.active) : (m.goto code).code u = m.code u :=
  Function.update_of_ne hu _ _

/-- A call of the scheduled process. -/
def call (code : ReadCode) : Option ReadMachine :=
  match m.code m.active, m.k.caller with
  | .user, some _ => some (m.goto code)
  | _, _ => none

/-- One step; `none` is one that cannot be taken. -/
def step (fs : FileSystem) (m : ReadMachine) : ReadAction → Option ReadMachine
  | .read fd nbytes => m.call (.enter fd nbytes)
  | .getargs buf nbytes => m.call (.enterArgs buf nbytes)
  | .wake ret bytes =>
    match m.code m.active with
    | .wait => some (m.goto (.leave ret bytes))
    | _ => none
  | .stmt =>
    match m.code m.active with
    | .leave ret bytes => some { m.goto .user with returned := Function.update m.returned m.active (some (ret, bytes)) }
    | code => (code.next fs m.k).map fun next =>
      { m.goto next.1 with k := next.2, assigned := if code.assigns then some m.active else m.assigned }
  | .tick regs frame => (m.k.pitHandler fs regs frame).map fun k => { m with k }

/-- The machine when no process is in a call. -/
def start (k : Kernel) : ReadMachine where
  k
  code _ := .user
  returned _ := none
  assigned := none

end ReadMachine

/-- The statements that a thread runs without a tick. -/
abbrev Statements (fs : FileSystem) : ReadCode × Kernel → ReadCode × Kernel → Prop :=
  Relation.ReflTransGen fun x y => x.1.next fs x.2 = some y

section Uninterrupted

variable {fs : FileSystem} {k : Kernel} {p : Slot} {i : Fin 8} {nbytes : UInt32}

/-- One statement, and those after it. -/
theorem Statements.cons {x y z : ReadCode × Kernel} (hxy : x.1.next fs x.2 = some y) (hyz : Statements fs y z) :
    Statements fs x z := Relation.ReflTransGen.head hxy hyz

/-- What `file_read` does with the result of `read_data`. -/
def fileEnd (k : Kernel) (p : Slot) (i : Fin 8) (read : UInt32 × List UInt8) : UInt32 × List UInt8 × Kernel :=
  let desc := (k.pcb p).fileDescArr i
  if read.1 = FAIL then (FAIL, read.2, k)
  else (read.1, read.2, k.modifyPcb p (·.setDesc i { desc with position := desc.position + read.1 }))

/-- The statements of `file_read` behind the call of `read_data`. -/
theorem statements_fileTest (hptr : k.pcbValRead = some p) (read : UInt32 × List UInt8) :
    Statements fs (.fileTest i read, k)
      (.leave (fileEnd k p i read).1 (fileEnd k p i read).2.1, (fileEnd k p i read).2.2) := by
  unfold fileEnd
  by_cases hfail : read.1 = FAIL
  · rw [if_pos hfail]
    apply Relation.ReflTransGen.single
    rw [ReadCode.next, if_pos hfail]
  · have htest : (ReadCode.fileTest i read).next fs k = some (.fileMove i read, k) := by
      rw [ReadCode.next, if_neg hfail]
    rw [if_neg hfail]
    refine .cons htest (.single ?_)
    rw [ReadCode.next, hptr, Option.map_some]

/-- The statements of `file_read`. -/
theorem statements_fileRead (hptr : k.pcbValRead = some p) :
    Statements fs (.fileRead i nbytes, k)
      (.leave (k.fileRead fs p i nbytes).1 (k.fileRead fs p i nbytes).2.1, (k.fileRead fs p i nbytes).2.2) := by
  have hcall : k.fileRead fs p i nbytes = fileEnd k p i
      (fs.readBytes ((k.pcb p).fileDescArr i).inode ((k.pcb p).fileDescArr i).position nbytes) := by
    rw [Kernel.fileRead, fileEnd]
  have hfirst : (ReadCode.fileRead i nbytes).next fs k = some (.fileTest i
      (fs.readBytes ((k.pcb p).fileDescArr i).inode ((k.pcb p).fileDescArr i).position nbytes), k) := by
    rw [ReadCode.next, hptr, Option.map_some]
  rw [hcall]
  exact .cons hfirst (statements_fileTest hptr _)

/-- The choice of `read_num`. -/
theorem statements_dirLong (counterVal : UInt32) :
    Statements fs (.dirLong i counterVal, k) (.dirCopy i counterVal (Kernel.nameLength k.dentryTemp), k) := by
  by_cases hshort : strlen (toBytes k.dentryTemp.fileName) < MAX_FILENAME
  · have htest : (ReadCode.dirLong i counterVal).next fs k = some (.dirLength i counterVal, k) := by
      rw [ReadCode.next, if_pos hshort]
    rw [Kernel.nameLength, Nat.min_eq_left hshort.le]
    exact .cons htest (.single rfl)
  · have htest : (ReadCode.dirLong i counterVal).next fs k = some (.dirCopy i counterVal MAX_FILENAME, k) := by
      rw [ReadCode.next, if_neg hshort]
    rw [Kernel.nameLength, Nat.min_eq_right (Nat.le_of_not_lt hshort)]
    exact .single htest

/-- The copy of the name, and the move to the next entry. -/
theorem statements_dirCopy (hptr : k.pcbValRead = some p) (counterVal : UInt32) (readNum : ℕ) :
    Statements fs (.dirCopy i counterVal readNum, k)
      (.leave (UInt32.ofNat readNum) (k.dentryTemp.fileName.take readNum),
        k.modifyPcb p (·.setDesc i { (k.pcb p).fileDescArr i with position := counterVal + 1 })) := by
  have hmove : (ReadCode.dirMove i (counterVal + 1) readNum (k.dentryTemp.fileName.take readNum)).next fs k =
      some (.leave (UInt32.ofNat readNum) (k.dentryTemp.fileName.take readNum),
        k.modifyPcb p (·.setDesc i { (k.pcb p).fileDescArr i with position := counterVal + 1 })) := by
    rw [ReadCode.next, hptr, Option.map_some]
  exact .cons rfl (.cons rfl (.single hmove))

/-- The statements of `dir_read`. -/
theorem statements_dirRead (hptr : k.pcbValRead = some p) :
    Statements fs (.dirCount i, k)
      (.leave (k.dirRead fs p i).1 (k.dirRead fs p i).2.1, (k.dirRead fs p i).2.2) := by
  have hcount : (ReadCode.dirCount i).next fs k = some (.dirLookup i ((k.pcb p).fileDescArr i).position, k) := by
    rw [ReadCode.next, hptr, Option.map_some]
  refine .cons hcount ?_
  rw [Kernel.dirRead]
  generalize hposition : ((k.pcb p).fileDescArr i).position = position
  cases hentry : fs.readDentryByIndex position with
  | none =>
    have hlookup : (ReadCode.dirLookup i position).next fs k = some (.dirTest i position false, k) := by
      rw [ReadCode.next, hptr, Option.map_some, hposition, hentry]
    exact .cons hlookup (.single rfl)
  | some entry =>
    have hlookup : (ReadCode.dirLookup i position).next fs k =
        some (.dirTest i position true, { k with dentryTemp := entry }) := by
      rw [ReadCode.next, hptr, Option.map_some, hposition, hentry]
    have htest : (ReadCode.dirTest i position true).next fs { k with dentryTemp := entry } =
        some (.dirLong i position, { k with dentryTemp := entry }) := rfl
    have hptr' : { k with dentryTemp := entry }.pcbValRead = some p := hptr
    exact .cons hlookup (.cons htest ((statements_dirLong position).trans (statements_dirCopy hptr' position _)))

/-- The end of a `read` call, as a place in its code. -/
def Kernel.ReadResult.code : Kernel.ReadResult → ReadCode
  | .done ret bytes _ => .leave ret bytes
  | .waits _ _ => .wait

/-- The end of a call that returned. -/
theorem Kernel.ReadResult.ofCall_code (r : UInt32 × List UInt8 × Kernel) :
    (Kernel.ReadResult.ofCall r).code = .leave r.1 r.2.1 := rfl

/-- The call of the driver's read function. -/
theorem statements_dispatch (hptr : k.pcbValRead = some p) :
    Statements fs (.dispatch i nbytes, k) ((k.driverRead fs p i nbytes).code, (k.driverRead fs p i nbytes).after) := by
  have hdispatch : (ReadCode.dispatch i nbytes).next fs k =
      some (.driverRead i nbytes ((k.pcb p).fileDescArr i).fop, k) := by
    rw [ReadCode.next, hptr, Option.map_some]
  refine .cons hdispatch ?_
  rw [Kernel.driverRead]
  cases ((k.pcb p).fileDescArr i).fop with
  | file =>
    dsimp only
    rw [Kernel.ReadResult.ofCall_code, Kernel.ReadResult.after_ofCall]
    exact statements_fileRead hptr
  | dir =>
    dsimp only
    rw [Kernel.ReadResult.ofCall_code, Kernel.ReadResult.after_ofCall]
    exact statements_dirRead hptr
  | stdout | stdin | rtc => exact .refl

/-- A `read` that no tick interrupts does what the call does: its statements lead to its return, or to the
waiting loop of its driver. -/
theorem statements_read {fd : ℤ} {r : Kernel.ReadResult} (hr : k.read fs fd nbytes = some r) :
    Statements fs (.enter fd nbytes, k) (r.code, r.after) := by
  let k₁ : Kernel := { k with pcbValRead := k.caller }
  have henter : (ReadCode.enter fd nbytes).next fs k = some (.test fd nbytes, k₁) := rfl
  refine .cons henter ?_
  unfold Kernel.read at hr
  cases hfd : descIndex 0 fd with
  | none =>
    rw [hfd] at hr
    cases hr
    apply Relation.ReflTransGen.single
    rw [ReadCode.next, hfd]
    rfl
  | some i =>
    rw [hfd] at hr
    obtain ⟨p, hp, rfl⟩ := Option.map_eq_some_iff.mp hr
    have hptr : k₁.pcbValRead = some p := hp
    have htest : (ReadCode.test fd nbytes).next fs k₁ =
        some (if ((k₁.pcb p).fileDescArr i).flag then .dispatch i nbytes else .leave FAIL [], k₁) := by
      rw [ReadCode.next, hfd]
      dsimp only
      rw [hptr, Option.map_some]
    refine .cons htest ?_
    by_cases hflag : ((k₁.pcb p).fileDescArr i).flag
    · rw [if_pos hflag, if_pos hflag]
      exact statements_dispatch hptr
    · rw [if_neg hflag, if_neg hflag]
      exact .refl

/-- A `getargs` that no tick interrupts does what the call does. -/
theorem statements_getargs {buf : UInt32} (hbuf : buf ≠ 0) {r : UInt32 × List UInt8 × Kernel}
    (hr : k.getargs nbytes = some r) : Statements fs (.enterArgs buf nbytes, k) (.leave r.1 r.2.1, r.2.2) := by
  let k₁ : Kernel := { k with pcbValRead := k.caller }
  have henter : (ReadCode.enterArgs buf nbytes).next fs k = some (.testArgs buf nbytes, k₁) := rfl
  refine .cons henter ?_
  obtain ⟨p, hp, rfl⟩ := Option.map_eq_some_iff.mp hr
  have hptr : k₁.pcbValRead = some p := hp
  have htest : (ReadCode.testArgs buf nbytes).next fs k₁ =
      some (if (k₁.pcb p).argsName.getD 0 0 ≠ 0 ∧ buf ≠ 0 then .copyArgs nbytes else .leave FAIL [], k₁) := by
    rw [ReadCode.next, hptr, Option.map_some]
  refine .cons htest ?_
  dsimp only
  by_cases hargs : (k₁.pcb p).argsName.getD 0 0 ≠ 0
  · rw [if_pos ⟨hargs, hbuf⟩, if_pos hargs]
    apply Relation.ReflTransGen.single
    rw [ReadCode.next, hptr, Option.map_some]
  · rw [if_neg fun h => hargs h.1, if_neg hargs]

end Uninterrupted

end OsKernel
