import OsKernel.Library.Run
import OsKernel.Library.SlotMap
import OsKernel.Rtc
import OsKernel.SequentialRead

/-!
# The descriptor table of a process

Seen through its flags the descriptor table is a map from descriptors to open files that gives out
its least free slot. The calls of one process refine the calls on that map, with every error exit;
what `open` leaves in a free slot of the table is never seen again.
-/

namespace OsKernel

open Library

namespace Kernel

/-- How a `write` call ends. `terminal_write` prints on the console and leaves the process state
alone. -/
inductive WriteResult where
  | done (ret : UInt32) (after : Kernel)
  | terminal (buf : Bytes) (nbytes : ℤ) (after : Kernel)

variable (k : Kernel)

/-- `fop_table.write(fd, buf, nbytes)` on a non-null buffer. -/
def driverWrite (driver : Driver) (buf : Bytes) (nbytes : ℤ) : WriteResult :=
  match driver with
  | .rtc => .done (k.rtc.write buf).1 { k with rtc := (k.rtc.write buf).2 }
  | .stdout => .terminal buf nbytes k
  | .file | .dir | .stdin => .done FAIL k

/-- `write` -/
def write (fd : ℤ) (buf : Option Bytes) (nbytes : ℤ) : Option WriteResult :=
  match descIndex 0 fd, buf with
  | some i, some bytes => k.caller.map fun p =>
    if ((k.pcb p).fileDescArr i).flag then k.driverWrite ((k.pcb p).fileDescArr i).fop bytes nbytes
    else .done FAIL k
  | _, _ => some (.done FAIL k)

/-- The state a `write` call leaves. -/
def WriteResult.after : WriteResult → Kernel
  | .done _ k => k
  | .terminal _ _ k => k

/-- The value a `write` call returns, unless the console computes it. -/
def WriteResult.ret : WriteResult → Option UInt32
  | .done ret _ => some ret
  | .terminal _ _ _ => none

/-- The value a `read` call returns, unless it waits for an interrupt first. -/
def ReadResult.ret : ReadResult → Option UInt32
  | .done ret _ _ => some ret
  | .waits _ _ => none

end Kernel

/-- A system call on descriptors; file names and buffers are those of the caller. -/
inductive DescEvent where
  | openFile (fileName : Bytes)
  | close (fd : ℤ)
  | read (fd : ℤ) (nbytes : UInt32)
  | write (fd : ℤ) (buf : Option Bytes) (nbytes : ℤ)

/-- A call of the scheduled process, with the value it returns. -/
def descStep (fs : FileSystem) (k : Kernel) : DescEvent → Option (Option UInt32 × Kernel)
  | .openFile fileName => (k.openFile fs fileName).map fun r => (some r.1, r.2)
  | .close fd => (k.close fd).map fun r => (some r.1, r.2)
  | .read fd nbytes => (k.read fs fd nbytes).map fun r => (r.ret, r.after)
  | .write fd buf nbytes => (k.write fd buf nbytes).map fun r => (r.ret, r.after)

/-- The calls made so far, each with the value it returned. -/
abbrev DescTrace := List (DescEvent × Option UInt32)

/-- A process and its calls. -/
structure DescRun where
  k : Kernel
  trace : DescTrace

/-- One more call. -/
def DescRun.step (fs : FileSystem) (s : DescRun) (e : DescEvent) : Option DescRun :=
  (descStep fs s.k e).map fun r => { k := r.2, trace := s.trace ++ [(e, r.1)] }

/-! ### The abstract map -/

/-- An open file. -/
structure OpenFile where
  fop : Driver
  inode : UInt32
  position : UInt32

/-- The map from descriptors to open files. -/
abbrev DescMap := SlotMap 8 OpenFile

namespace DescMap

/-- The descriptors of a new process. -/
def initial : DescMap := fun i =>
  if i = 0 then some { fop := .stdin, inode := 0, position := 0 }
  else if i = 1 then some { fop := .stdout, inode := 0, position := 0 }
  else none

/-- What a name stands for: the file that `open` would open. -/
def resolve (fs : FileSystem) (fileName : Bytes) : Option OpenFile :=
  if strlen fileName = 0 then none
  else (fs.readDentryByName fileName).bind fun dentry => (driverOfType dentry.fileType).map fun fop =>
    { fop, inode := dentry.inodeIdx, position := 0 }

/-- The value a read of an open file returns, and how the position moves. -/
def readOpen (fs : FileSystem) (f : OpenFile) (nbytes : UInt32) : Option UInt32 × OpenFile :=
  match f.fop with
  | .file =>
    let ret := (fs.readBytes f.inode f.position nbytes).1
    if ret = FAIL then (some FAIL, f) else (some ret, { f with position := f.position + ret })
  | .dir =>
    match fs.readDentryByIndex f.position with
    | none => (some FAIL, f)
    | some entry => (some (UInt32.ofNat (Kernel.nameLength entry)), { f with position := f.position + 1 })
  | .stdout => (some FAIL, f)
  | .stdin | .rtc => (none, f)

/-- The value a write to an open file returns: only an RTC takes a rate. -/
def writeOpen (f : OpenFile) (buf : Bytes) : Option UInt32 :=
  match f.fop with
  | .rtc => some (if validRate (wordAt buf) then 0 else FAIL)
  | .stdout => none
  | .file | .dir | .stdin => some FAIL

/-- A call on the map. -/
def call (fs : FileSystem) (m : DescMap) : DescEvent → Option UInt32 × DescMap
  | .openFile fileName =>
    match resolve fs fileName, m.leastFree FD_START with
    | some f, some i => (some (UInt32.ofNat i.val), m.hold i f)
    | _, _ => (some FAIL, m)
  | .close fd =>
    match descIndex FD_START fd with
    | some i => if (m i).isSome then (some 0, m.release i) else (some FAIL, m)
    | none => (some FAIL, m)
  | .read fd nbytes =>
    match descIndex 0 fd with
    | some i =>
      match m i with
      | some f => ((readOpen fs f nbytes).1, m.hold i (readOpen fs f nbytes).2)
      | none => (some FAIL, m)
    | none => (some FAIL, m)
  | .write fd buf _ =>
    match descIndex 0 fd, buf with
    | some i, some bytes =>
      match m i with
      | some f => (writeOpen f bytes, m)
      | none => (some FAIL, m)
    | _, _ => (some FAIL, m)

/-- One more call on the map. -/
def step (fs : FileSystem) (s : DescMap × DescTrace) (e : DescEvent) : DescMap × DescTrace :=
  ((s.1.call fs e).2, s.2 ++ [(e, (s.1.call fs e).1)])

end DescMap

/-- The open file that a descriptor holds. -/
def FileDesc.openFile (d : FileDesc) : Option OpenFile :=
  if d.flag then some { fop := d.fop, inode := d.inode, position := d.position } else none

/-- The table as a map. -/
def Pcb.descMap (p : Pcb) : DescMap := fun i => (p.fileDescArr i).openFile

/-! ### The calls against the map -/

/-- The names and tables for which `open` fails. -/
def OpenFails (fs : FileSystem) (p : Pcb) (fileName : Bytes) : Prop :=
  strlen fileName = 0 ∨ MAX_FILENAME < strlen fileName ∨ fs.readDentryByName fileName = none ∨
    (∃ dentry, fs.readDentryByName fileName = some dentry ∧ dentry.fileType ≠ 0 ∧ dentry.fileType ≠ 1 ∧
      dentry.fileType ≠ 2) ∨
    ∀ i : Fin 8, FD_START ≤ i.val → (p.fileDescArr i).flag = true

/-- The table of the named entry's type. -/
def TypeDriver (fileType : UInt32) (fop : Driver) : Prop :=
  (fileType = 0 ∧ fop = .rtc) ∨ (fileType = 1 ∧ fop = .dir) ∨ (fileType = 2 ∧ fop = .file)

/-- A call: the PCB before and after it, and the value it returned. -/
def CallMeets (fs : FileSystem) (p p' : Pcb) (ret : Option UInt32) : DescEvent → Prop
  | .openFile fileName =>
    (OpenFails fs p fileName → ret = some FAIL ∧ p'.fileDescArr = p.fileDescArr) ∧
    (¬OpenFails fs p fileName → ∃ (i : Fin 8) (dentry : Dentry) (fop : Driver),
      FD_START ≤ i.val ∧ (p.fileDescArr i).flag = false ∧
      (∀ j < i, FD_START ≤ j.val → (p.fileDescArr j).flag = true) ∧
      fs.readDentryByName fileName = some dentry ∧ TypeDriver dentry.fileType fop ∧
      ret = some (UInt32.ofNat i.val) ∧
      p'.fileDescArr = Function.update p.fileDescArr i { fop, inode := dentry.inodeIdx, position := 0, flag := true })
  | .close fd =>
    (∀ i : Fin 8, fd = i.val → FD_START ≤ i.val → (p.fileDescArr i).flag = true → ret = some 0 ∧
      p'.fileDescArr = Function.update p.fileDescArr i { p.fileDescArr i with flag := false }) ∧
    ((¬∃ i : Fin 8, fd = i.val ∧ FD_START ≤ i.val ∧ (p.fileDescArr i).flag = true) →
      ret = some FAIL ∧ p'.fileDescArr = p.fileDescArr)
  | .read fd _ =>
    ((¬∃ i : Fin 8, fd = i.val ∧ (p.fileDescArr i).flag = true) →
      ret = some FAIL ∧ p'.fileDescArr = p.fileDescArr) ∧
    ∀ j : Fin 8, fd ≠ j.val → p'.fileDescArr j = p.fileDescArr j
  | .write fd _ _ =>
    ((¬∃ i : Fin 8, fd = i.val ∧ (p.fileDescArr i).flag = true) → ret = some FAIL) ∧
    p'.fileDescArr = p.fileDescArr

/-- Whether a descriptor was returned by an open and not closed since, after one more call. -/
def heldStep (i : Fin 8) (held : Bool) : DescEvent × Option UInt32 → Bool
  | (.openFile _, ret) => held || ret = some (UInt32.ofNat i.val)
  | (.close fd, ret) => held && !(fd = i.val ∧ ret = some 0)
  | _ => held

/-- Whether a descriptor was returned by an open and not closed since. -/
def heldBy (i : Fin 8) (trace : DescTrace) : Bool := trace.foldl (heldStep i) false

/-- The standard descriptors are open, and the others as the trace says. -/
structure TableMeets (p : Pcb) (trace : DescTrace) : Prop where
  stdin : p.fileDescArr 0 = { fop := .stdin, inode := 0, position := 0, flag := true }
  stdout : p.fileDescArr 1 = { fop := .stdout, inode := 0, position := 0, flag := true }
  held : ∀ i : Fin 8, FD_START ≤ i.val → (p.fileDescArr i).flag = heldBy i trace

section Calls

variable {fs : FileSystem} {k : Kernel} {p : Slot} {i : Fin 8}

/-- A number that names no descriptor. -/
theorem descIndex_eq_none {lo : ℕ} {fd : ℤ} (h : descIndex lo fd = none) (i : Fin 8) :
    ¬(fd = i.val ∧ lo ≤ i.val) :=
  fun hi => by rw [descIndex_eq_some.mpr hi] at h; cases h

@[simp] theorem FileDesc.openFile_isSome (d : FileDesc) : d.openFile.isSome = d.flag := by
  cases hflag : d.flag <;> simp [FileDesc.openFile, hflag]

/-- The open file after the position of an open descriptor was set. -/
theorem FileDesc.openFile_moved {d : FileDesc} (hflag : d.flag = true) (position : UInt32) :
    ({ fop := d.fop, inode := d.inode, position, flag := d.flag } : FileDesc).openFile =
      some { fop := d.fop, inode := d.inode, position } := if_pos hflag

/-- Opening a driver changes no PCB and not the scheduled process. -/
theorem driverOpen_kept (k : Kernel) (fs : FileSystem) (driver : Driver) (fileName : Bytes) :
    (k.driverOpen fs driver fileName).pcb = k.pcb ∧ (k.driverOpen fs driver fileName).caller = k.caller := by
  cases driver <;> exact ⟨rfl, rfl⟩

/-- The map after one descriptor was set. -/
theorem descMap_setDesc (q : Pcb) (i : Fin 8) (d : FileDesc) :
    (q.setDesc i d).descMap = Function.update q.descMap i d.openFile := by
  funext j
  by_cases hj : j = i
  · subst j
    simp [Pcb.descMap, Pcb.setDesc]
  · simp [Pcb.descMap, Pcb.setDesc, hj]

/-- The search of `open` finds the least free slot of the map. -/
theorem leastFree_descMap (q : Pcb) : q.descMap.leastFree FD_START = q.freeDesc := by
  unfold SlotMap.leastFree Pcb.freeDesc
  congr 1
  funext i
  rw [Pcb.descMap, ← Option.not_isSome, FileDesc.openFile_isSome]

/-- The types that have a table. -/
theorem driverOfType_eq_some {fileType : UInt32} {fop : Driver} :
    driverOfType fileType = some fop ↔ TypeDriver fileType fop := by
  unfold driverOfType TypeDriver
  constructor
  · intro h
    split_ifs at h with hdir hrtc hfile <;> obtain rfl := Option.some.inj h
    · exact Or.inr (Or.inl ⟨hdir, rfl⟩)
    · exact Or.inl ⟨hrtc, rfl⟩
    · exact Or.inr (Or.inr ⟨hfile, rfl⟩)
  · rintro (⟨rfl, rfl⟩ | ⟨rfl, rfl⟩ | ⟨rfl, rfl⟩) <;> rfl

/-- The types that have none. -/
theorem driverOfType_eq_none {fileType : UInt32} :
    driverOfType fileType = none ↔ fileType ≠ 0 ∧ fileType ≠ 1 ∧ fileType ≠ 2 := by
  unfold driverOfType
  split_ifs with hdir hrtc hfile <;> simp_all

/-- A name or a table for which `open` fails: nothing changes. -/
theorem openFile_fails (hcaller : k.caller = some p) {fileName : Bytes} (h : OpenFails fs (k.pcb p) fileName) :
    k.openFile fs fileName = some (FAIL, k) ∧
      (k.pcb p).descMap.call fs (.openFile fileName) = (some FAIL, (k.pcb p).descMap) := by
  have hnone (hname : fs.readDentryByName fileName = none) : k.openFile fs fileName = some (FAIL, k) ∧
      (k.pcb p).descMap.call fs (.openFile fileName) = (some FAIL, (k.pcb p).descMap) := by
    simp [Kernel.openFile, DescMap.call, DescMap.resolve, hname]
  by_cases hempty : strlen fileName = 0
  · simp [Kernel.openFile, DescMap.call, DescMap.resolve, hempty]
  rcases h with hstrlen | hlong | hname | ⟨dentry, hname, htype⟩ | hfull
  · exact absurd hstrlen hempty
  · exact hnone (if_pos hlong)
  · exact hnone hname
  · have hdriver := driverOfType_eq_none.mpr htype
    simp [Kernel.openFile, DescMap.call, DescMap.resolve, hname, hdriver, hcaller, hempty]
  · have hfree : (k.pcb p).freeDesc = none := by
      rw [← leastFree_descMap, SlotMap.leastFree_eq_none]
      intro i hi
      rw [← Option.isSome_iff_ne_none, Pcb.descMap, FileDesc.openFile_isSome, hfull i hi]
    cases hname : fs.readDentryByName fileName with
    | none => exact hnone hname
    | some dentry =>
      simp [Kernel.openFile, DescMap.call, hname, hcaller, hempty, leastFree_descMap, hfree]

/-- A name and a table for which `open` takes a descriptor. -/
theorem openFile_opens (hcaller : k.caller = some p) {fileName : Bytes} (h : ¬OpenFails fs (k.pcb p) fileName) :
    ∃ (i : Fin 8) (dentry : Dentry) (fop : Driver) (k' : Kernel), (k.pcb p).freeDesc = some i ∧
      fs.readDentryByName fileName = some dentry ∧ driverOfType dentry.fileType = some fop ∧
      k.openFile fs fileName = some (UInt32.ofNat i.val, k') ∧ k'.caller = some p ∧
      k'.pcb p = (k.pcb p).setDesc i { fop, inode := dentry.inodeIdx, position := 0, flag := true } ∧
      (k.pcb p).descMap.call fs (.openFile fileName) = (some (UInt32.ofNat i.val), (k'.pcb p).descMap) := by
  simp only [OpenFails, not_or, not_exists, not_and] at h
  obtain ⟨hempty, -, hname, htype, hfull⟩ := h
  obtain ⟨dentry, hname⟩ := Option.ne_none_iff_exists'.mp hname
  obtain ⟨fop, hfop⟩ := Option.ne_none_iff_exists'.mp fun hnone => by
    obtain ⟨hrtc, hdir, hfile⟩ := driverOfType_eq_none.mp hnone
    exact htype dentry hname hrtc hdir hfile
  obtain ⟨i, hi⟩ : ∃ i, (k.pcb p).freeDesc = some i := by
    refine Option.ne_none_iff_exists'.mp fun hnone => hfull fun j hj => ?_
    rw [← leastFree_descMap, SlotMap.leastFree_eq_none] at hnone
    rw [← FileDesc.openFile_isSome]
    exact Option.isSome_iff_ne_none.mpr (hnone j hj)
  let desc : FileDesc := { fop, inode := dentry.inodeIdx, position := 0, flag := true }
  obtain ⟨hpcb, hsame⟩ := driverOpen_kept (k.modifyPcb p (·.setDesc i desc)) fs fop fileName
  have hnew : ((k.modifyPcb p (·.setDesc i desc)).driverOpen fs fop fileName).pcb p = (k.pcb p).setDesc i desc := by
    rw [hpcb, Kernel.modifyPcb_self]
  refine ⟨i, dentry, fop, _, hi, hname, hfop, ?_, hsame.trans hcaller, hnew, ?_⟩
  · simp [Kernel.openFile, hempty, hname, hcaller, hi, hfop, desc]
  · rw [hnew, descMap_setDesc]
    simp [DescMap.call, DescMap.resolve, hempty, hname, hfop, leastFree_descMap, hi, SlotMap.hold, desc,
      FileDesc.openFile]

/-- The open file of a descriptor that is open. -/
theorem descMap_of_open {q : Pcb} (hflag : (q.fileDescArr i).flag = true) :
    q.descMap i = some
      { fop := (q.fileDescArr i).fop, inode := (q.fileDescArr i).inode, position := (q.fileDescArr i).position } :=
  if_pos hflag

/-- A descriptor that is not open holds nothing. -/
theorem descMap_of_closed {q : Pcb} (hflag : (q.fileDescArr i).flag = false) : q.descMap i = none := by
  simp [Pcb.descMap, FileDesc.openFile, hflag]

/-- What the calls so far left in the map: the standard descriptors, and files that were opened by
name, whose close functions return 0. -/
structure DescMap.Meets (m : DescMap) (trace : DescTrace) : Prop where
  stdin : m 0 = some { fop := .stdin, inode := 0, position := 0 }
  stdout : m 1 = some { fop := .stdout, inode := 0, position := 0 }
  opened : ∀ i : Fin 8, FD_START ≤ i.val → ∀ f, m i = some f → ∃ fileType, TypeDriver fileType f.fop
  held : ∀ i : Fin 8, FD_START ≤ i.val → (m i).isSome = heldBy i trace

/-- The close function of a file that was opened by name. -/
theorem driverClose_opened (k : Kernel) {fileType : UInt32} {fop : Driver} (htype : TypeDriver fileType fop) :
    ∃ rtc, k.driverClose fop = (0, { k with rtc }) := by
  rcases htype with ⟨-, rfl⟩ | ⟨-, rfl⟩ | ⟨-, rfl⟩
  · exact ⟨_, rfl⟩
  · exact ⟨k.rtc, rfl⟩
  · exact ⟨k.rtc, rfl⟩

/-- What a call of `close` does. -/
theorem close_call (fs : FileSystem) {trace : DescTrace} (hcaller : k.caller = some p)
    (hmeets : (k.pcb p).descMap.Meets trace) (fd : ℤ) :
    ∃ ret k', k.close fd = some (ret, k') ∧ k'.caller = some p ∧
      CallMeets fs (k.pcb p) (k'.pcb p) (some ret) (.close fd) ∧
      (k.pcb p).descMap.call fs (.close fd) = (some ret, (k'.pcb p).descMap) := by
  cases hindex : descIndex FD_START fd with
  | none =>
    refine ⟨FAIL, k, by simp [Kernel.close, hindex], hcaller, ⟨fun i hi hlo _ => ?_, fun _ => ⟨rfl, rfl⟩⟩, ?_⟩
    · exact absurd ⟨hi, hlo⟩ (descIndex_eq_none hindex i)
    · simp [DescMap.call, hindex]
  | some i =>
    obtain ⟨rfl, hlo⟩ := descIndex_eq_some.mp hindex
    cases hflag : ((k.pcb p).fileDescArr i).flag with
    | false =>
      refine ⟨FAIL, k, by simp [Kernel.close, hindex, hcaller, hflag], hcaller, ⟨fun j hj _ hopen => ?_,
        fun _ => ⟨rfl, rfl⟩⟩, ?_⟩
      · obtain rfl : i = j := Fin.ext (by exact_mod_cast hj)
        rw [hflag] at hopen
        cases hopen
      · simp [DescMap.call, hindex, descMap_of_closed hflag]
    | true =>
      let desc := (k.pcb p).fileDescArr i
      let k₁ := k.modifyPcb p (·.setDesc i { desc with flag := false })
      obtain ⟨fileType, htype⟩ := hmeets.opened i hlo _ (descMap_of_open hflag)
      obtain ⟨rtc, hdriver⟩ := driverClose_opened { k₁ with closeCalls := (p, i) :: k₁.closeCalls } htype
      have hclose : k.close i.val =
          some (Kernel.driverClose { k₁ with closeCalls := (p, i) :: k₁.closeCalls } desc.fop) := by
        simp only [Kernel.close, hindex, hcaller, Option.map_some, hflag, if_true]
        rfl
      rw [hdriver] at hclose
      let k₂ : Kernel := { k₁ with closeCalls := (p, i) :: k₁.closeCalls, rtc }
      have hnew : k₂.pcb p = (k.pcb p).setDesc i { desc with flag := false } :=
        k.modifyPcb_self p fun q => q.setDesc i { desc with flag := false }
      refine ⟨0, k₂, hclose, hcaller, ⟨fun j hj _ _ => ⟨rfl, ?_⟩, fun hnot => absurd ⟨i, rfl, hlo, hflag⟩ hnot⟩, ?_⟩
      · obtain rfl : i = j := Fin.ext (by exact_mod_cast hj)
        rw [hnew]
        rfl
      · rw [hnew, descMap_setDesc]
        simp [DescMap.call, hindex, descMap_of_open hflag, SlotMap.release, FileDesc.openFile]

/-- The value a call returned. -/
theorem Kernel.ReadResult.ofCall_ret (ret : UInt32) (bytes : List UInt8) (after : Kernel) :
    (Kernel.ReadResult.ofCall (ret, bytes, after)).ret = some ret := rfl

/-- The end of a read of an open descriptor: its own descriptor may have moved. -/
structure ReadEnds (k : Kernel) (p : Slot) (i : Fin 8) (f : OpenFile) (r : Kernel.ReadResult) : Prop where
  caller : r.after.caller = k.caller
  others : ∀ j, j ≠ i → (r.after.pcb p).fileDescArr j = (k.pcb p).fileDescArr j
  map : (r.after.pcb p).descMap = (k.pcb p).descMap.hold i f

/-- A read that leaves the PCB alone. -/
theorem ReadEnds.of_kept {k : Kernel} {p : Slot} {i : Fin 8} {f : OpenFile} {r : Kernel.ReadResult}
    (hf : (k.pcb p).descMap i = some f) (hcaller : r.after.caller = k.caller) (hpcb : r.after.pcb = k.pcb) :
    ReadEnds k p i f r := by
  refine ⟨hcaller, fun _ _ => by rw [hpcb], ?_⟩
  rw [hpcb]
  exact (Function.update_eq_self_iff.mpr hf.symm).symm

/-- A read that replaces the descriptor. -/
theorem ReadEnds.of_moved {k k₁ : Kernel} {p : Slot} {i : Fin 8} {f : OpenFile} {d : FileDesc}
    (hd : d.openFile = some f) (hcaller : k₁.caller = k.caller) (hpcb : k₁.pcb = k.pcb) (ret : UInt32)
    (bytes : List UInt8) : ReadEnds k p i f (.ofCall (ret, bytes, k₁.modifyPcb p (·.setDesc i d))) := by
  refine ⟨hcaller, fun j hj => ?_, ?_⟩
  · simp only [Kernel.ReadResult.ofCall, Kernel.ReadResult.after, Kernel.modifyPcb_self, hpcb]
    exact Function.update_of_ne hj _ _
  · simp only [Kernel.ReadResult.ofCall, Kernel.ReadResult.after, Kernel.modifyPcb_self, hpcb, descMap_setDesc, hd]
    rfl

/-- `file_read` against the map. -/
theorem fileRead_call (hflag : ((k.pcb p).fileDescArr i).flag = true)
    (hfop : ((k.pcb p).fileDescArr i).fop = .file) {f : OpenFile} (hf : (k.pcb p).descMap i = some f)
    (nbytes : UInt32) :
    (Kernel.ReadResult.ofCall (k.fileRead fs p i nbytes)).ret = (DescMap.readOpen fs f nbytes).1 ∧
      ReadEnds k p i (DescMap.readOpen fs f nbytes).2 (.ofCall (k.fileRead fs p i nbytes)) := by
  obtain rfl := Option.some.inj ((descMap_of_open hflag).symm.trans hf)
  simp only [DescMap.readOpen, hfop, Kernel.fileRead]
  generalize fs.readBytes ((k.pcb p).fileDescArr i).inode ((k.pcb p).fileDescArr i).position nbytes = read
  split_ifs with hfail
  · exact ⟨Kernel.ReadResult.ofCall_ret .., .of_kept (by rw [hf, hfop]) rfl rfl⟩
  · refine ⟨Kernel.ReadResult.ofCall_ret .., ReadEnds.of_moved ?_ rfl rfl _ _⟩
    exact if_pos hflag

/-- `dir_read` against the map. -/
theorem dirRead_call (hflag : ((k.pcb p).fileDescArr i).flag = true)
    (hfop : ((k.pcb p).fileDescArr i).fop = .dir) {f : OpenFile} (hf : (k.pcb p).descMap i = some f)
    (nbytes : UInt32) :
    (Kernel.ReadResult.ofCall (k.dirRead fs p i)).ret = (DescMap.readOpen fs f nbytes).1 ∧
      ReadEnds k p i (DescMap.readOpen fs f nbytes).2 (.ofCall (k.dirRead fs p i)) := by
  obtain rfl := Option.some.inj ((descMap_of_open hflag).symm.trans hf)
  simp only [DescMap.readOpen, hfop, Kernel.dirRead]
  cases hentry : fs.readDentryByIndex ((k.pcb p).fileDescArr i).position with
  | none => exact ⟨Kernel.ReadResult.ofCall_ret .., .of_kept (by rw [hf, hfop]) rfl rfl⟩
  | some entry =>
    have hmoved := FileDesc.openFile_moved hflag (((k.pcb p).fileDescArr i).position + 1)
    rw [hfop] at hmoved
    have hcaller : ({ k with dentryTemp := entry } : Kernel).caller = k.caller := rfl
    have hpcb : ({ k with dentryTemp := entry } : Kernel).pcb = k.pcb := rfl
    exact ⟨Kernel.ReadResult.ofCall_ret .., .of_moved hmoved hcaller hpcb _ _⟩

/-- What the read function of an open descriptor returns and does to the table. -/
theorem driverRead_call (fs : FileSystem) {f : OpenFile} (hf : (k.pcb p).descMap i = some f) (nbytes : UInt32) :
    (k.driverRead fs p i nbytes).ret = (DescMap.readOpen fs f nbytes).1 ∧
      ReadEnds k p i (DescMap.readOpen fs f nbytes).2 (k.driverRead fs p i nbytes) := by
  have hflag : ((k.pcb p).fileDescArr i).flag = true := by
    rw [← FileDesc.openFile_isSome]
    exact Option.isSome_of_eq_some hf
  obtain hdesc := Option.some.inj ((descMap_of_open hflag).symm.trans hf)
  unfold Kernel.driverRead
  cases hfop : ((k.pcb p).fileDescArr i).fop with
  | stdin | stdout | rtc =>
    subst hdesc
    simp only [DescMap.readOpen, hfop]
    exact ⟨rfl, .of_kept (by rw [hf, hfop]) rfl rfl⟩
  | file => exact fileRead_call hflag hfop hf nbytes
  | dir => exact dirRead_call hflag hfop hf nbytes

/-- What a call of `read` does. -/
theorem read_call (fs : FileSystem) (hcaller : k.caller = some p) (fd : ℤ) (nbytes : UInt32) :
    ∃ r, k.read fs fd nbytes = some r ∧ r.after.caller = some p ∧
      CallMeets fs (k.pcb p) (r.after.pcb p) r.ret (.read fd nbytes) ∧
      (k.pcb p).descMap.call fs (.read fd nbytes) = (r.ret, (r.after.pcb p).descMap) := by
  let k₀ : Kernel := { k with pcbValRead := k.caller }
  cases hindex : descIndex 0 fd with
  | none =>
    refine ⟨.done FAIL [] k₀, by simp only [Kernel.read, hindex, k₀], hcaller,
      ⟨fun _ => ⟨rfl, rfl⟩, fun _ _ => rfl⟩, ?_⟩
    simp only [DescMap.call, hindex]
    rfl
  | some i =>
    obtain ⟨rfl, -⟩ := descIndex_eq_some.mp hindex
    cases hflag : ((k.pcb p).fileDescArr i).flag with
    | false =>
      refine ⟨.done FAIL [] k₀, ?_, hcaller, ⟨fun _ => ⟨rfl, rfl⟩, fun _ _ => rfl⟩, ?_⟩
      · rw [Kernel.read, hindex]
        exact (congrArg (Option.map _) hcaller).trans (congrArg some (if_neg (by simp [hflag])))
      · simp only [DescMap.call, hindex, descMap_of_closed hflag]
        rfl
    | true =>
      have hf : (k₀.pcb p).descMap i = some _ := descMap_of_open hflag
      obtain ⟨hret, hends⟩ := driverRead_call fs hf nbytes
      refine ⟨k₀.driverRead fs p i nbytes, ?_, hends.caller.trans hcaller, ⟨fun hnot => ?_, fun j hj => ?_⟩, ?_⟩
      · rw [Kernel.read, hindex]
        exact (congrArg (Option.map _) hcaller).trans (congrArg some (if_pos hflag))
      · exact absurd ⟨i, rfl, hflag⟩ hnot
      · exact hends.others j fun heq => hj (by rw [heq])
      · rw [hret, hends.map]
        simp only [DescMap.call, hindex]
        rw [show (k.pcb p).descMap i = _ from hf]

/-- The RTC is no part of the process table. -/
theorem setRtc_kept (k : Kernel) (rtc : Rtc) :
    ({ k with rtc } : Kernel).caller = k.caller ∧ ({ k with rtc } : Kernel).pcb = k.pcb := ⟨rfl, rfl⟩

/-- The write functions leave the table alone. -/
theorem driverWrite_after (k : Kernel) (driver : Driver) (buf : Bytes) (nbytes : ℤ) :
    (k.driverWrite driver buf nbytes).after.caller = k.caller ∧
      (k.driverWrite driver buf nbytes).after.pcb = k.pcb := by
  cases driver with
  | stdin | stdout | dir | file => exact ⟨rfl, rfl⟩
  | rtc => exact setRtc_kept k (k.rtc.write buf).2

/-- What the write function of an open file returns. -/
theorem driverWrite_ret (k : Kernel) (f : OpenFile) (buf : Bytes) (nbytes : ℤ) :
    (k.driverWrite f.fop buf nbytes).ret = DescMap.writeOpen f buf := by
  cases hfop : f.fop <;> simp only [DescMap.writeOpen, hfop, Kernel.driverWrite, Kernel.WriteResult.ret, Rtc.write]

/-- What a call of `write` does. -/
theorem write_call (fs : FileSystem) (hcaller : k.caller = some p) (fd : ℤ) (buf : Option Bytes) (nbytes : ℤ) :
    ∃ r, k.write fd buf nbytes = some r ∧ r.after.caller = some p ∧
      CallMeets fs (k.pcb p) (r.after.pcb p) r.ret (.write fd buf nbytes) ∧
      (k.pcb p).descMap.call fs (.write fd buf nbytes) = (r.ret, (r.after.pcb p).descMap) := by
  cases hindex : descIndex 0 fd with
  | none =>
    refine ⟨.done FAIL k, by simp only [Kernel.write, hindex], hcaller, ⟨fun _ => rfl, rfl⟩, ?_⟩
    simp only [DescMap.call, hindex]
    rfl
  | some i =>
    obtain ⟨rfl, -⟩ := descIndex_eq_some.mp hindex
    cases buf with
    | none =>
      refine ⟨.done FAIL k, by simp only [Kernel.write, hindex], hcaller, ⟨fun _ => rfl, rfl⟩, ?_⟩
      simp only [DescMap.call, hindex]
      rfl
    | some bytes =>
      cases hflag : ((k.pcb p).fileDescArr i).flag with
      | false =>
        refine ⟨.done FAIL k, ?_, hcaller, ⟨fun _ => rfl, rfl⟩, ?_⟩
        · simp [Kernel.write, hindex, hcaller, hflag]
        · simp only [DescMap.call, hindex, descMap_of_closed hflag]
          rfl
      | true =>
        have hf := descMap_of_open hflag
        have hret := driverWrite_ret k (OpenFile.mk ((k.pcb p).fileDescArr i).fop
          ((k.pcb p).fileDescArr i).inode ((k.pcb p).fileDescArr i).position) bytes nbytes
        obtain ⟨hsame, hpcb⟩ := driverWrite_after k ((k.pcb p).fileDescArr i).fop bytes nbytes
        refine ⟨_, ?_, hsame.trans hcaller, ⟨fun hnot => absurd ⟨i, rfl, hflag⟩ hnot, by rw [hpcb]⟩, ?_⟩
        · simp only [Kernel.write, hindex, hcaller, Option.map_some, hflag, if_true]
        · rw [hret, hpcb]
          simp only [DescMap.call, hindex, hf]

/-- What a call of `open` does. -/
theorem open_call (fs : FileSystem) (hcaller : k.caller = some p) (fileName : Bytes) :
    ∃ ret k', k.openFile fs fileName = some (ret, k') ∧ k'.caller = some p ∧
      CallMeets fs (k.pcb p) (k'.pcb p) (some ret) (.openFile fileName) ∧
      (k.pcb p).descMap.call fs (.openFile fileName) = (some ret, (k'.pcb p).descMap) := by
  by_cases hfails : OpenFails fs (k.pcb p) fileName
  · obtain ⟨hopen, hmap⟩ := openFile_fails hcaller hfails
    exact ⟨FAIL, k, hopen, hcaller, ⟨fun _ => ⟨rfl, rfl⟩, fun hnot => absurd hfails hnot⟩, hmap⟩
  · obtain ⟨i, dentry, fop, k', hfree, hname, hfop, hopen, hcaller', hnew, hmap⟩ := openFile_opens hcaller hfails
    rw [← leastFree_descMap, SlotMap.leastFree_eq_some] at hfree
    obtain ⟨hlo, hnone, hleast⟩ := hfree
    refine ⟨_, k', hopen, hcaller', ⟨fun h => absurd h hfails, fun _ => ⟨i, dentry, fop, hlo, ?_, fun j hj hjlo => ?_,
      hname, driverOfType_eq_some.mp hfop, rfl, by rw [hnew]; rfl⟩⟩, hmap⟩
    · rw [← FileDesc.openFile_isSome, Option.isSome_eq_false_iff]
      exact Option.isNone_iff_eq_none.mpr hnone
    · rw [← FileDesc.openFile_isSome]
      exact Option.isSome_iff_ne_none.mpr (hleast j hj hjlo)

/-- A call does what it should do and is the call of the map. -/
theorem descStep_call (fs : FileSystem) {trace : DescTrace} (hcaller : k.caller = some p)
    (hmeets : (k.pcb p).descMap.Meets trace) (e : DescEvent) :
    ∃ ret k', descStep fs k e = some (ret, k') ∧ k'.caller = some p ∧ CallMeets fs (k.pcb p) (k'.pcb p) ret e ∧
      (k.pcb p).descMap.call fs e = (ret, (k'.pcb p).descMap) := by
  cases e with
  | openFile fileName =>
    obtain ⟨ret, k', hopen, hcall⟩ := open_call fs hcaller fileName
    exact ⟨some ret, k', by rw [descStep, hopen]; rfl, hcall⟩
  | close fd =>
    obtain ⟨ret, k', hclose, hcall⟩ := close_call fs hcaller hmeets fd
    exact ⟨some ret, k', by rw [descStep, hclose]; rfl, hcall⟩
  | read fd nbytes =>
    obtain ⟨r, hread, hcall⟩ := read_call fs hcaller fd nbytes
    exact ⟨r.ret, r.after, by rw [descStep, hread]; rfl, hcall⟩
  | write fd buf nbytes =>
    obtain ⟨r, hwrite, hcall⟩ := write_call fs hcaller fd buf nbytes
    exact ⟨r.ret, r.after, by rw [descStep, hwrite]; rfl, hcall⟩

end Calls

section Map

variable {fs : FileSystem} {m : DescMap} {trace : DescTrace}

/-- One more call of the trace. -/
theorem heldBy_snoc (i : Fin 8) (trace : DescTrace) (x : DescEvent × Option UInt32) :
    heldBy i (trace ++ [x]) = heldStep i (heldBy i trace) x := by
  simp [heldBy]

/-- A descriptor as a returned value. -/
theorem ofNat_desc_inj {i j : Fin 8} : UInt32.ofNat i.val = UInt32.ofNat j.val ↔ i = j := by
  have hall : ∀ i j : Fin 8, UInt32.ofNat i.val = UInt32.ofNat j.val ↔ i = j := by decide
  exact hall i j

/-- No descriptor is -1. -/
theorem fail_ne_desc (i : Fin 8) : FAIL ≠ UInt32.ofNat i.val := by
  have hall : ∀ i : Fin 8, FAIL ≠ UInt32.ofNat i.val := by decide
  exact hall i

/-- What a name stands for is a file with a table. -/
theorem resolve_opened {fileName : Bytes} {f : OpenFile} (h : DescMap.resolve fs fileName = some f) :
    ∃ fileType, TypeDriver fileType f.fop := by
  unfold DescMap.resolve at h
  split at h
  · cases h
  · obtain ⟨dentry, -, hdentry⟩ := Option.bind_eq_some_iff.mp h
    obtain ⟨fop, hfop, rfl⟩ := Option.map_eq_some_iff.mp hdentry
    exact ⟨dentry.fileType, driverOfType_eq_some.mp hfop⟩

/-- A read of an open file keeps its functions, and of a standard descriptor everything. -/
theorem readOpen_kept (fs : FileSystem) (f : OpenFile) (nbytes : UInt32) :
    (DescMap.readOpen fs f nbytes).2.fop = f.fop ∧
      (f.fop = .stdin ∨ f.fop = .stdout → (DescMap.readOpen fs f nbytes).2 = f) := by
  unfold DescMap.readOpen
  cases hfop : f.fop with
  | stdin | stdout | rtc => exact ⟨hfop, fun _ => rfl⟩
  | file =>
    refine ⟨?_, by simp⟩
    dsimp only
    split_ifs
    · exact hfop
    · rfl
  | dir =>
    refine ⟨?_, by simp⟩
    dsimp only
    split
    · exact hfop
    · rfl

/-- A trace that says the same after one more call. -/
theorem DescMap.Meets.of_held (h : m.Meets trace) {x : DescEvent × Option UInt32}
    (hx : ∀ i : Fin 8, FD_START ≤ i.val → heldStep i (heldBy i trace) x = heldBy i trace) : m.Meets (trace ++ [x]) := by
  refine { h with held := fun i hi => ?_ }
  rw [heldBy_snoc, hx i hi, h.held i hi]

/-- A named file put into a slot from 2 on. -/
theorem DescMap.Meets.hold (h : m.Meets trace) {i : Fin 8} (hlo : FD_START ≤ i.val) {f : OpenFile}
    (hf : ∃ fileType, TypeDriver fileType f.fop) {x : DescEvent × Option UInt32}
    (hself : heldStep i (heldBy i trace) x = true)
    (hother : ∀ j : Fin 8, FD_START ≤ j.val → j ≠ i → heldStep j (heldBy j trace) x = heldBy j trace) :
    DescMap.Meets (SlotMap.hold m i f) (trace ++ [x]) := by
  have hne (j : Fin 8) (hj : j.val < FD_START) : j ≠ i := by
    rintro rfl
    exact absurd hlo (not_le.mpr hj)
  refine ⟨?_, ?_, fun j hj g hg => ?_, fun j hj => ?_⟩
  · rw [SlotMap.hold_of_ne m (hne 0 (by decide)), h.stdin]
  · rw [SlotMap.hold_of_ne m (hne 1 (by decide)), h.stdout]
  · by_cases heq : j = i
    · subst j
      rw [SlotMap.hold_self] at hg
      obtain rfl := Option.some.inj hg
      exact hf
    · rw [SlotMap.hold_of_ne m heq] at hg
      exact h.opened j hj g hg
  · rw [heldBy_snoc]
    by_cases heq : j = i
    · subst j
      rw [SlotMap.hold_self, hself]
      rfl
    · rw [SlotMap.hold_of_ne m heq, hother j hj heq, h.held j hj]

/-- A slot from 2 on freed. -/
theorem DescMap.Meets.release (h : m.Meets trace) {i : Fin 8} (hlo : FD_START ≤ i.val)
    {x : DescEvent × Option UInt32} (hself : heldStep i (heldBy i trace) x = false)
    (hother : ∀ j : Fin 8, FD_START ≤ j.val → j ≠ i → heldStep j (heldBy j trace) x = heldBy j trace) :
    DescMap.Meets (SlotMap.release m i) (trace ++ [x]) := by
  have hne (j : Fin 8) (hj : j.val < FD_START) : j ≠ i := by
    rintro rfl
    exact absurd hlo (not_le.mpr hj)
  refine ⟨?_, ?_, fun j hj g hg => ?_, fun j hj => ?_⟩
  · rw [SlotMap.release_of_ne m (hne 0 (by decide)), h.stdin]
  · rw [SlotMap.release_of_ne m (hne 1 (by decide)), h.stdout]
  · by_cases heq : j = i
    · subst j
      rw [SlotMap.release_self] at hg
      cases hg
    · rw [SlotMap.release_of_ne m heq] at hg
      exact h.opened j hj g hg
  · rw [heldBy_snoc]
    by_cases heq : j = i
    · subst j
      rw [SlotMap.release_self, hself]
      rfl
    · rw [SlotMap.release_of_ne m heq, hother j hj heq, h.held j hj]

/-- After an open. -/
theorem DescMap.Meets.open (fs : FileSystem) (h : m.Meets trace) (fileName : Bytes) :
    (m.call fs (.openFile fileName)).2.Meets (trace ++ [(.openFile fileName, (m.call fs (.openFile fileName)).1)]) := by
  have hfail : m.Meets (trace ++ [(.openFile fileName, some FAIL)]) :=
    h.of_held fun i _ => by simp [heldStep, fail_ne_desc]
  simp only [DescMap.call]
  split
  · rename_i f i hresolve hfree
    obtain ⟨hlo, -, -⟩ := SlotMap.leastFree_eq_some.mp hfree
    refine h.hold hlo (resolve_opened hresolve) (by simp [heldStep]) fun j hj hne => ?_
    have hret : ¬(UInt32.ofNat i.val = UInt32.ofNat j.val) := fun hij => hne (ofNat_desc_inj.mp hij).symm
    simp [heldStep, hret]
  · exact hfail

/-- After a close. -/
theorem DescMap.Meets.close (fs : FileSystem) (h : m.Meets trace) (fd : ℤ) :
    (m.call fs (.close fd)).2.Meets (trace ++ [(.close fd, (m.call fs (.close fd)).1)]) := by
  have hfail : m.Meets (trace ++ [(.close fd, some FAIL)]) :=
    h.of_held fun i _ => by simp [heldStep, FAIL]
  simp only [DescMap.call]
  cases hindex : descIndex FD_START fd with
  | none => exact hfail
  | some i =>
    obtain ⟨rfl, hlo⟩ := descIndex_eq_some.mp hindex
    dsimp only
    split
    · refine h.release hlo (by simp [heldStep]) fun j _ hne => ?_
      have hval : ¬((i.val : ℤ) = j.val) := fun hij => hne (Fin.ext (by exact_mod_cast hij.symm))
      simp [heldStep, hval]
    · exact hfail

/-- After a read. -/
theorem DescMap.Meets.read (fs : FileSystem) (h : m.Meets trace) (fd : ℤ) (nbytes : UInt32) :
    (m.call fs (.read fd nbytes)).2.Meets (trace ++ [(.read fd nbytes, (m.call fs (.read fd nbytes)).1)]) := by
  simp only [DescMap.call]
  cases hindex : descIndex 0 fd with
  | none => exact h.of_held fun _ _ => rfl
  | some i =>
    cases hf : m i with
    | none =>
      dsimp only
      rw [hf]
      exact h.of_held fun _ _ => rfl
    | some f =>
      simp only [hf]
      obtain ⟨hfop, hstd⟩ := readOpen_kept fs f nbytes
      by_cases hlo : FD_START ≤ i.val
      · refine h.hold hlo ?_ ?_ fun _ _ _ => rfl
        · rw [hfop]
          exact h.opened i hlo f hf
        · rw [show heldStep i (heldBy i trace) _ = heldBy i trace from rfl, ← h.held i hlo, hf]
          rfl
      · -- A standard descriptor: `read` moves nothing.
        have hsame : f.fop = .stdin ∨ f.fop = .stdout := by
          have hlow : i = 0 ∨ i = 1 := by
            rw [FD_START] at hlo
            omega
          rcases hlow with rfl | rfl
          · obtain rfl := Option.some.inj (hf.symm.trans h.stdin)
            exact Or.inl rfl
          · obtain rfl := Option.some.inj (hf.symm.trans h.stdout)
            exact Or.inr rfl
        have hkeep : SlotMap.hold m i (DescMap.readOpen fs f nbytes).2 = m := by
          rw [hstd hsame]
          exact Function.update_eq_self_iff.mpr hf.symm
        rw [hkeep]
        exact h.of_held fun _ _ => rfl

/-- After a write. -/
theorem DescMap.Meets.write (fs : FileSystem) (h : m.Meets trace) (fd : ℤ) (buf : Option Bytes) (nbytes : ℤ) :
    (m.call fs (.write fd buf nbytes)).2.Meets
      (trace ++ [(.write fd buf nbytes, (m.call fs (.write fd buf nbytes)).1)]) := by
  have hkeep : (m.call fs (.write fd buf nbytes)).2 = m := by
    simp only [DescMap.call]
    split
    · split <;> rfl
    · rfl
  rw [hkeep]
  exact h.of_held fun _ _ => rfl

/-- After any call. -/
theorem DescMap.Meets.step (fs : FileSystem) (h : m.Meets trace) (e : DescEvent) :
    (m.call fs e).2.Meets (trace ++ [(e, (m.call fs e).1)]) := by
  cases e with
  | openFile fileName => exact h.open fs fileName
  | close fd => exact h.close fs fd
  | read fd nbytes => exact h.read fs fd nbytes
  | write fd buf nbytes => exact h.write fs fd buf nbytes

/-- Before the first call. -/
theorem DescMap.initial_meets : DescMap.initial.Meets [] := by
  have hnone (i : Fin 8) (hi : FD_START ≤ i.val) : DescMap.initial i = none := by
    have hall : ∀ i : Fin 8, FD_START ≤ i.val → i ≠ 0 ∧ i ≠ 1 := by decide
    rw [DescMap.initial, if_neg (hall i hi).1, if_neg (hall i hi).2]
  refine ⟨rfl, rfl, fun i hi f hf => ?_, fun i hi => ?_⟩
  · rw [hnone i hi] at hf
    cases hf
  · rw [hnone i hi]
    rfl

end Map

/-- The table of a new process is the initial map. -/
theorem fileDescArrInitial_descMap (q : Pcb) : q.fileDescArrInitial.descMap = DescMap.initial := by
  funext i
  simp only [Pcb.descMap, Pcb.fileDescArrInitial, DescMap.initial]
  split_ifs <;> rfl

/-- A map that meets a trace is a table that does. -/
theorem DescMap.Meets.table {q : Pcb} {trace : DescTrace} (h : q.descMap.Meets trace) : TableMeets q trace := by
  have hdesc (i : Fin 8) (f : OpenFile) (hf : q.descMap i = some f) :
      q.fileDescArr i = { fop := f.fop, inode := f.inode, position := f.position, flag := true } := by
    have hflag : (q.fileDescArr i).flag = true := by
      rw [← FileDesc.openFile_isSome]
      exact Option.isSome_of_eq_some hf
    obtain rfl := Option.some.inj ((descMap_of_open hflag).symm.trans hf)
    rw [← hflag]
  refine ⟨hdesc 0 _ h.stdin, hdesc 1 _ h.stdout, fun i hi => ?_⟩
  rw [← h.held i hi, Pcb.descMap, FileDesc.openFile_isSome]

/-- The calls of one process on the table of a new process are those of a map that gives out its
least free slot, and each meets its specification, whatever calls came before. -/
theorem descriptorTable_refines (fs : FileSystem) {k : Kernel} {p : Slot} (hcaller : k.caller = some p) {q : Pcb}
    (hinit : k.pcb p = q.fileDescArrInitial) (calls : List DescEvent) :
    ∃ s, run (DescRun.step fs) { k, trace := [] } calls = some s ∧ s.k.caller = some p ∧
      ((s.k.pcb p).descMap, s.trace) = calls.foldl (DescMap.step fs) (DescMap.initial, []) ∧
      TableMeets (s.k.pcb p) s.trace ∧
      ∀ e, ∃ ret k', descStep fs s.k e = some (ret, k') ∧ CallMeets fs (s.k.pcb p) (k'.pcb p) ret e := by
  let sim (s : DescRun) (a : DescMap × DescTrace) : Prop :=
    s.k.caller = some p ∧ ((s.k.pcb p).descMap, s.trace) = a ∧ (s.k.pcb p).descMap.Meets s.trace
  have hstep (s : DescRun) (a : DescMap × DescTrace) (e : DescEvent) (hsim : sim s a) :
      ∃ s', DescRun.step fs s e = some s' ∧ sim s' (DescMap.step fs a e) := by
    obtain ⟨hcaller, rfl, hmeets⟩ := hsim
    obtain ⟨ret, k', hcall, hcaller', -, hmap⟩ := descStep_call fs hcaller hmeets e
    refine ⟨{ k := k', trace := s.trace ++ [(e, ret)] }, by rw [DescRun.step, hcall]; rfl, hcaller', ?_, ?_⟩
    · simp only [DescMap.step, hmap]
    · have hafter := hmeets.step fs e
      rw [hmap] at hafter
      exact hafter
  have hmap : (k.pcb p).descMap = DescMap.initial := by rw [hinit, fileDescArrInitial_descMap]
  have hstart : sim { k, trace := [] } (DescMap.initial, []) :=
    ⟨hcaller, by rw [hmap], by rw [hmap]; exact DescMap.initial_meets⟩
  obtain ⟨s, hrun, hcaller', hsame, hmeets⟩ := run_simulation hstep hstart calls
  refine ⟨s, hrun, hcaller', hsame, hmeets.table, fun e => ?_⟩
  obtain ⟨ret, k', hcall, -, hspec, -⟩ := descStep_call fs hcaller' hmeets e
  exact ⟨ret, k', hcall, hspec⟩

/-- A process opens the one file of the image twice, closes the first descriptor and gets it again. -/
theorem descriptorTable_refines_reopen :
    ∃ s, run (DescRun.step shellImage.fs) { k := soleProcess, trace := [] }
        [.openFile (toBytes shellName), .openFile (toBytes shellName), .close 2, .close 2, .read 2 4,
          .openFile (toBytes shellName)] = some s ∧
      s.trace.map Prod.snd = [some 2, some 3, some 0, some FAIL, some FAIL, some 2] := by
  obtain ⟨s, hrun, -, hsame, -⟩ := descriptorTable_refines shellImage.fs (k := soleProcess) (p := 0) rfl
    (q := Pcb.zeroed) rfl [.openFile (toBytes shellName), .openFile (toBytes shellName), .close 2, .close 2,
      .read 2 4, .openFile (toBytes shellName)]
  refine ⟨s, hrun, ?_⟩
  rw [(Prod.mk.inj hsame).2]
  decide +kernel

end OsKernel
