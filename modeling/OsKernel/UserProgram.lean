import OsKernel.DescriptorTable
import OsKernel.Library.Dialogue
import OsKernel.Lineage
import OsKernel.UserStrings

/-!
# User programs

A program is the calls that it makes. Between two of its calls the timer ticks and the other processes make
calls, each a step of its own, and the process keeps its descriptors and its argument; so its calls see no
more than the process's view of the machine, and a program that ends on this view ends the same way on the
kernel. What a tick inside a call can do to the calls of others is the matter of the module on reads.
-/

namespace OsKernel

open Library

/-- A system call of a program, with buffers that are not null. -/
inductive ProgramCall where
  | openFile (fileName : Bytes)
  | close (fd : ℤ)
  | read (fd : ℤ) (nbytes : UInt32)
  | write (fd : ℤ) (buf : Bytes) (nbytes : ℤ)
  | getargs (nbytes : UInt32)

/-- The value a call returns, and the bytes it stores into the caller's buffer. -/
abbrev UserReply := UInt32 × List UInt8

/-- A user program. -/
abbrev UserProgram (A : Type) := Dialogue ProgramCall UserReply A

/-- The bytes of a buffer that a write hands to the console. -/
def written (buf : Bytes) (nbytes : ℤ) : List UInt8 := (List.range nbytes.toNat).map buf

/-- What `terminal_write` returns: NULs are not counted. -/
def printedCount (buf : Bytes) (nbytes : ℤ) : UInt32 := UInt32.ofNat ((written buf nbytes).countP (· ≠ 0))

/-- A process with the machine: the lines that its reads of the keyboard will find, and what it has handed to
the console. -/
structure UserSession where
  kernel : Kernel
  input : List (List UInt8)
  output : List UInt8

namespace UserSession

variable (s : UserSession)

/-- The end of a read of the keyboard, once a line has been entered. -/
def takeLine (nbytes : UInt32) : Option (UserReply × UserSession) :=
  match s.input with
  | [] => none
  | line :: rest =>
    let bytes := line.take nbytes.toInt32.toInt.toNat
    some ((UInt32.ofNat bytes.length, bytes), { s with input := rest })

/-- How a `read` call ends: a read of the RTC returns 0 after the interrupt. -/
def readEnd (nbytes : UInt32) : Kernel.ReadResult → Option (UserReply × UserSession)
  | .done ret bytes k => some ((ret, bytes), { s with kernel := k })
  | .waits .rtc k => some ((0, []), { s with kernel := k })
  | .waits _ k => ({ s with kernel := k } : UserSession).takeLine nbytes

/-- How a `write` call ends. -/
def writeEnd : Kernel.WriteResult → UserReply × UserSession
  | .done ret k => ((ret, []), { s with kernel := k })
  | .terminal buf nbytes k =>
    ((printedCount buf nbytes, []), { s with kernel := k, output := s.output ++ written buf nbytes })

/-- A call of the scheduled process; `none` is a call that does not return. -/
def answer (fs : FileSystem) : ProgramCall → Option (UserReply × UserSession)
  | .openFile fileName => (s.kernel.openFile fs fileName).map fun r => ((r.1, []), { s with kernel := r.2 })
  | .close fd => (s.kernel.close fd).map fun r => ((r.1, []), { s with kernel := r.2 })
  | .read fd nbytes => (s.kernel.read fs fd nbytes).bind (s.readEnd nbytes)
  | .write fd buf nbytes => (s.kernel.write fd (some buf) nbytes).map s.writeEnd
  | .getargs nbytes => (s.kernel.getargs nbytes).map fun r => ((r.1, r.2.1), { s with kernel := r.2.2 })

end UserSession

/-- Between two calls of process `p`, only the timer ticks while `p` is scheduled: neither Ctrl+C nor an exception
ends it. -/
def Elsewhere (p : Slot) (k : Kernel) (e : Event) : Prop := k.caller = some p → ∃ regs frame, e = .tick regs frame

/-- What may happen between two calls of process `p`: ticks, and any calls of the other processes, until `p` is
scheduled again. Every call is one step: a read of another process that was suspended inside the call and goes on
here, with `pcb_val_read` naming `p`, is not among them. -/
structure Meanwhile (disk : Disk) (p : Slot) (k k' : Kernel) : Prop where
  run : ∃ events, Along (step disk.fs) (Elsewhere p) k events ∧ Library.run (step disk.fs) k events = some k'
  caller : k'.caller = some p

/-- The answers to a call of process `p`, after whatever happens before it. -/
def UserSession.answers (disk : Disk) (p : Slot) (s : UserSession) (c : ProgramCall) : Set (UserReply × UserSession) :=
  {r | ∃ k, Meanwhile disk p s.kernel k ∧ ({ s with kernel := k } : UserSession).answer disk.fs c = some r}

/-- Process `p` runs on a machine that was booted. -/
structure Running (p : Slot) (k : Kernel) : Prop where
  booted : ∃ live, Booted k live
  caller : k.caller = some p

/-! ### The view of the process -/

/-- What a process sees of the machine. -/
structure UserView where
  files : DescMap
  args : List UInt8
  input : List (List UInt8)
  output : List UInt8

/-- The view of process `p`. -/
def UserSession.view (p : Slot) (s : UserSession) : UserView :=
  ⟨(s.kernel.pcb p).descMap, (s.kernel.pcb p).argsName, s.input, s.output⟩

namespace UserView

/-- The choice between what a file and what a directory has for a read; the other drivers store nothing. -/
def driverBytes (driver : Driver) (ofFile ofDir : List UInt8) : List UInt8 :=
  match driver with
  | .file => ofFile
  | .dir => ofDir
  | .stdin | .stdout | .rtc => []

/-- The bytes that a read of an open file stores. -/
def storedBytes (fs : FileSystem) (f : OpenFile) (nbytes : UInt32) : List UInt8 :=
  driverBytes f.fop (fs.readBytes f.inode f.position nbytes).2
    (((fs.readDentryByIndex f.position).map fun entry => entry.fileName.take (Kernel.nameLength entry)).getD [])

@[simp] theorem driverBytes_file (ofFile ofDir : List UInt8) : driverBytes .file ofFile ofDir = ofFile := rfl

@[simp] theorem driverBytes_dir (ofFile ofDir : List UInt8) : driverBytes .dir ofFile ofDir = ofDir := rfl

variable (v : UserView)

/-- The open file that a descriptor number names. -/
def file (fd : ℤ) : Option OpenFile := (descIndex 0 fd).bind v.files

/-- A read of the keyboard. -/
def takeLine (nbytes : UInt32) : Option (UserReply × UserView) :=
  match v.input with
  | [] => none
  | line :: rest =>
    let bytes := line.take nbytes.toInt32.toInt.toNat
    some ((UInt32.ofNat bytes.length, bytes), { v with input := rest })

/-- A read of an open file. -/
def readFile (fs : FileSystem) (fd : ℤ) (nbytes : UInt32) (f : OpenFile) : Option (UserReply × UserView) :=
  match f.fop with
  | .rtc => some ((0, []), v)
  | .stdin => v.takeLine nbytes
  | .file | .dir | .stdout =>
    some (((v.files.call fs (.read fd nbytes)).1.getD 0, storedBytes fs f nbytes),
      { v with files := (v.files.call fs (.read fd nbytes)).2 })

/-- A call on the view. -/
def answer (fs : FileSystem) : ProgramCall → Option (UserReply × UserView)
  | .openFile fileName =>
    some (((v.files.call fs (.openFile fileName)).1.getD 0, []),
      { v with files := (v.files.call fs (.openFile fileName)).2 })
  | .close fd =>
    match descIndex FD_START fd with
    | none => some ((FAIL, []), v)
    | some i =>
      match v.files i with
      | none => some ((FAIL, []), v)
      | some f =>
        some ((if f.fop = .stdin ∨ f.fop = .stdout then FAIL else 0, []), { v with files := v.files.release i })
  | .read fd nbytes =>
    match v.file fd with
    | none => some ((FAIL, []), v)
    | some f => v.readFile fs fd nbytes f
  | .write fd buf nbytes =>
    match v.file fd with
    | none => some ((FAIL, []), v)
    | some f =>
      match DescMap.writeOpen f buf with
      | some ret => some ((ret, []), v)
      | none => some ((printedCount buf nbytes, []), { v with output := v.output ++ written buf nbytes })
  | .getargs nbytes =>
    if v.args.getD 0 0 ≠ 0 then some ((0, strncpy (toBytes v.args) nbytes.toNat), v) else some ((FAIL, []), v)

end UserView

/-- Run a program on the view of its process. -/
abbrev runView {A : Type} (fs : FileSystem) (prog : UserProgram A) (v : UserView) : Option (A × UserView) :=
  prog.run (fun v => v.answer fs) v

/-! ### The kernel against the view -/

section Calls

variable {fs : FileSystem} {k k' : Kernel} {p : Slot}

/-- A call on descriptors keeps every process's arguments. -/
theorem DescCall.args (h : DescCall k k') (p : Slot) : (k'.pcb p).argsName = (k.pcb p).argsName := by
  rcases h.pcb with hpcb | ⟨q, descs, -, hpcb⟩
  · rw [hpcb]
  · rw [hpcb]
    by_cases hq : p = q
    · rw [hq, Function.update_self]
    · rw [Function.update_of_ne hq]

/-- `read` on an open descriptor of the caller. -/
theorem read_open (fs : FileSystem) (hcaller : k.caller = some p) {i : Fin 8}
    (hflag : ((k.pcb p).fileDescArr i).flag = true)
    (nbytes : UInt32) :
    k.read fs i.val nbytes = some (({ k with pcbValRead := some p } : Kernel).driverRead fs p i nbytes) := by
  have hcaller' : ({ k with pcbValRead := some p } : Kernel).caller = some p := hcaller
  simp only [Kernel.read, descIndex_val, hcaller, hcaller', Option.map_some, hflag, if_true]

/-- `read` on a number that names no open descriptor. -/
theorem read_closed (hcaller : k.caller = some p) {fd : ℤ} (h : (descIndex 0 fd).bind (k.pcb p).descMap = none)
    (nbytes : UInt32) : k.read fs fd nbytes = some (.done FAIL [] { k with pcbValRead := some p }) := by
  have hcaller' : ({ k with pcbValRead := some p } : Kernel).caller = some p := hcaller
  unfold Kernel.read
  cases hindex : descIndex 0 fd with
  | none => simp only [hcaller]
  | some i =>
    rw [hindex] at h
    have hflag : ((k.pcb p).fileDescArr i).flag = false := by
      rw [← FileDesc.openFile_isSome, Option.isSome_eq_false_iff]
      exact Option.isNone_iff_eq_none.mpr h
    simp [hcaller, hcaller', hflag]

/-- The bytes that a `read` call stores before it returns. -/
def Kernel.ReadResult.bytes : Kernel.ReadResult → List UInt8
  | .done _ bytes _ => bytes
  | .waits _ _ => []

/-- The bytes of a call that returned. -/
theorem ofCall_bytes (r : UInt32 × List UInt8 × Kernel) : (Kernel.ReadResult.ofCall r).bytes = r.2.1 := rfl

/-- Both ends of `file_read` store what was read. -/
theorem readReply_bytes (read : UInt32 × List UInt8) (k₁ k₂ : Kernel) :
    (if read.1 = FAIL then (FAIL, read.2, k₁) else (read.1, read.2, k₂)).2.1 = read.2 := by
  split <;> rfl

/-- The bytes that `file_read` stores. -/
theorem fileRead_bytes (i : Fin 8) (nbytes : UInt32) :
    (k.fileRead fs p i nbytes).2.1 =
      (fs.readBytes ((k.pcb p).fileDescArr i).inode ((k.pcb p).fileDescArr i).position nbytes).2 :=
  readReply_bytes ..

/-- The bytes that `dir_read` stores. -/
theorem dirRead_bytes (i : Fin 8) :
    (k.dirRead fs p i).2.1 = ((fs.readDentryByIndex ((k.pcb p).fileDescArr i).position).map fun entry =>
      entry.fileName.take (Kernel.nameLength entry)).getD [] := by
  rw [Kernel.dirRead]
  generalize fs.readDentryByIndex _ = entry
  cases entry <;> rfl

/-- The read function of an open descriptor stores the bytes of the open file. -/
theorem driverRead_bytes (fs : FileSystem) (k : Kernel) {i : Fin 8}
    (hflag : ((k.pcb p).fileDescArr i).flag = true) {f : OpenFile}
    (hf : (k.pcb p).descMap i = some f) (nbytes : UInt32) :
    (k.driverRead fs p i nbytes).bytes = UserView.storedBytes fs f nbytes := by
  have hdesc := Option.some.inj ((descMap_of_open hflag).symm.trans hf)
  have hfop : ((k.pcb p).fileDescArr i).fop = f.fop := congrArg OpenFile.fop hdesc
  have hinode : ((k.pcb p).fileDescArr i).inode = f.inode := congrArg OpenFile.inode hdesc
  have hposition : ((k.pcb p).fileDescArr i).position = f.position := congrArg OpenFile.position hdesc
  rw [Kernel.driverRead, UserView.storedBytes, hfop]
  cases f.fop with
  | stdin | stdout | rtc => rfl
  | file => rw [ofCall_bytes, fileRead_bytes, hinode, hposition, UserView.driverBytes_file]
  | dir => rw [ofCall_bytes, dirRead_bytes, hposition, UserView.driverBytes_dir]

/-- The close functions leave the process table alone. -/
theorem driverClose_kept (k : Kernel) (driver : Driver) :
    (k.driverClose driver).1 = (if driver = .stdin ∨ driver = .stdout then FAIL else 0) ∧
      (k.driverClose driver).2.pcb = k.pcb := by
  cases driver <;> exact ⟨rfl, rfl⟩

/-- Only the keyboard and the RTC let a read wait. -/
theorem driverRead_waits (fs : FileSystem) (k : Kernel) {i : Fin 8} {f : OpenFile}
    (hflag : ((k.pcb p).fileDescArr i).flag = true)
    (hf : (k.pcb p).descMap i = some f) (nbytes : UInt32) :
    (∃ ret bytes k', k.driverRead fs p i nbytes = .done ret bytes k' ∧ f.fop ≠ .stdin ∧ f.fop ≠ .rtc) ∨
      (k.driverRead fs p i nbytes = .waits f.fop k ∧ (f.fop = .stdin ∨ f.fop = .rtc)) := by
  obtain rfl := Option.some.inj ((descMap_of_open hflag).symm.trans hf)
  unfold Kernel.driverRead
  cases hfop : ((k.pcb p).fileDescArr i).fop with
  | stdin => exact .inr ⟨rfl, .inl rfl⟩
  | rtc => exact .inr ⟨rfl, .inr rfl⟩
  | stdout => exact .inl ⟨_, _, _, rfl, nofun, nofun⟩
  | file => exact .inl ⟨_, _, _, rfl, nofun, nofun⟩
  | dir => exact .inl ⟨_, _, _, rfl, nofun, nofun⟩

end Calls

section Meanwhile

variable {disk : Disk} {k k' : Kernel} {live live' : Fin 3 → List Slot} {e : Event} {p : Slot}

/-- The frame of the scheduler is apart from a process's argument. -/
theorem saveSchedule_argsName (k : Kernel) (q p : Slot) (regs : Regs) :
    ((k.saveSchedule q regs).pcb p).argsName = (k.pcb p).argsName := by
  by_cases hp : p = q
  · subst p
    simp [Kernel.saveSchedule]
  · simp [Kernel.saveSchedule, Kernel.modifyPcb, hp]

/-- A step in which the process on top of a terminal makes no call keeps it there, with its descriptors and its
argument. -/
theorem Stepped.process_kept (h : Booted k live) (hstep : Stepped disk.fs k live e k' live') {t : Fin 3}
    {rest : List Slot} (htop : live t = p :: rest) (hquiet : Elsewhere p k e) :
    live' t = p :: rest ∧ (k'.pcb p).fileDescArr = (k.pcb p).fileDescArr ∧
      (k'.pcb p).argsName = (k.pcb p).argsName := by
  have hmem : p ∈ live t := by simp [htop]
  have hcaller : t = k.activeTerm → k.caller = some p := by
    rintro rfl
    rw [h.caller_eq, htop]
    rfl
  -- a process that makes a call is on the stack of another terminal
  have hother {q : Slot} (hcall : k.caller ≠ some p) (hq : q ∈ live k.activeTerm) : p ≠ q := by
    rintro rfl
    exact hcall (hcaller (h.separate.unique t k.activeTerm p hmem hq))
  have hfresh {i : Slot} (hfree : k.pid i = false) : p ≠ i := by
    rintro rfl
    exact h.not_mem hfree t hmem
  cases hstep with
  | @executed command frame k' i hfree _ he =>
    have hcall : k.caller ≠ some p := fun hp => by
      obtain ⟨_, _, hevent⟩ := hquiet hp
      cases hevent
    obtain ⟨argsName, hpcb⟩ := he.pcb
    rw [hpcb, Function.update_of_ne (hfresh hfree), Function.update_of_ne fun ht => hcall (hcaller ht)]
    exact ⟨htop, rfl, rfl⟩
  | refused _ => exact ⟨htop, rfl, rfl⟩
  | @returned cause frame k' c q below hlive _ hr =>
    have hcall : k.caller ≠ some p := fun hp => by
      obtain ⟨_, _, hevent⟩ := hquiet hp
      cases hevent
    rw [hr.pcb, Function.update_of_ne (hother hcall (by simp [hlive])),
      Function.update_of_ne (hother hcall (by simp [hlive])), Function.update_of_ne fun ht => hcall (hcaller ht)]
    exact ⟨htop, rfl, rfl⟩
  | restarted hlive hr =>
    have hcall : k.caller ≠ some p := fun hp => by
      obtain ⟨_, _, hevent⟩ := hquiet hp
      cases hevent
    obtain ⟨argsName, hpcb⟩ := hr.pcb
    rw [hpcb, Function.update_of_ne (hother hcall (by simp [hlive]))]
    exact ⟨htop, rfl, rfl⟩
  | described he hd =>
    have hcall : k.caller ≠ some p := fun hp => by
      obtain ⟨_, _, rfl⟩ := hquiet hp
      cases he
    rcases hd.pcb with hpcb | ⟨q, descs, hq, hpcb⟩
    · rw [hpcb]
      exact ⟨htop, rfl, rfl⟩
    · have hne : p ≠ q := by
        rintro rfl
        exact hcall hq
      rw [hpcb, Function.update_of_ne hne]
      exact ⟨htop, rfl, rfl⟩
  | @started regs frame k' i _ hnone hfree _ he =>
    have ht : t ≠ k.activeTerm + 1 := by
      rintro rfl
      rw [hnone] at htop
      cases htop
    obtain ⟨argsName, hpcb⟩ := he.pcb
    rw [hpcb, Function.update_of_ne (hfresh hfree), Function.update_of_ne ht]
    exact ⟨htop, (saveSchedule_kept k _ p regs).2, saveSchedule_argsName k _ p regs⟩
  | @startRefused regs frame _ _ =>
    exact ⟨htop, (saveSchedule_kept k _ p regs).2, saveSchedule_argsName k _ p regs⟩
  | @switched regs frame k' q q' _ _ _ _ _ hs =>
    rw [show k'.pcb = (k.saveSchedule q regs).pcb from hs.pcb]
    exact ⟨htop, (saveSchedule_kept k q p regs).2, saveSchedule_argsName k q p regs⟩

/-- So does a run in which it makes no call. -/
theorem Booted.process_run (h : Booted k live) (hcaller : k.caller = some p) {events : List Event}
    (halong : Along (step disk.fs) (Elsewhere p) k events) (hrun : Library.run (step disk.fs) k events = some k') :
    (∃ live', Booted k' live') ∧ (k'.pcb p).fileDescArr = (k.pcb p).fileDescArr ∧
      (k'.pcb p).argsName = (k.pcb p).argsName := by
  obtain ⟨rest, htop⟩ := h.live_of_caller hcaller
  let kept (m : Kernel) : Prop := ∃ live', Booted m live' ∧ live' k.activeTerm = p :: rest ∧
    (m.pcb p).fileDescArr = (k.pcb p).fileDescArr ∧ (m.pcb p).argsName = (k.pcb p).argsName
  have hstep (m : Kernel) (e : Event) (m' : Kernel) (hkept : kept m) (hquiet : Elsewhere p m e)
      (hm : step disk.fs m e = some m') : kept m' := by
    obtain ⟨live', hbooted, htop', hdescs, hargs⟩ := hkept
    obtain ⟨live'', hstepped⟩ := hbooted.step_cases hm
    obtain ⟨htop'', hdescs', hargs'⟩ := hstepped.process_kept hbooted htop' hquiet
    exact ⟨live'', hstepped.booted hbooted, htop'', hdescs'.trans hdescs, hargs'.trans hargs⟩
  obtain ⟨live', hbooted, -, hdescs, hargs⟩ :=
    (run_invariant_of_along hstep ⟨live, h, htop, rfl, rfl⟩ halong hrun : kept k')
  exact ⟨⟨live', hbooted⟩, hdescs, hargs⟩

/-- Setting the RTC is a call on descriptors. -/
theorem descCall_rtc (k : Kernel) (rtc : Rtc) : DescCall k { k with rtc } :=
  .unchanged rfl rfl rfl rfl rfl rfl rfl rfl rfl

/-- The write functions are calls on descriptors. -/
theorem descCall_driverWrite (k : Kernel) (driver : Driver) (buf : Bytes) (nbytes : ℤ) :
    DescCall k (k.driverWrite driver buf nbytes).after := by
  cases driver with
  | stdin | stdout | dir | file => exact .refl k
  | rtc => exact descCall_rtc k (k.rtc.write buf).2

/-- `write` is a call on descriptors. -/
theorem descCall_write {fd : ℤ} {buf : Option Bytes} {nbytes : ℤ} {r : Kernel.WriteResult}
    (h : k.write fd buf nbytes = some r) : DescCall k r.after := by
  unfold Kernel.write at h
  split at h
  · obtain ⟨q, -, hr⟩ := Option.map_eq_some_iff.mp h
    rw [← hr]
    split
    · exact descCall_driverWrite ..
    · exact .refl k
  · rw [← Option.some.inj h]
    exact .refl k

/-- The state at the end of a read. -/
theorem readEnd_kernel {s : UserSession} {nbytes : UInt32} {r : Kernel.ReadResult} {q : UserReply × UserSession}
    (h : s.readEnd nbytes r = some q) : q.2.kernel = r.after := by
  cases r with
  | done ret bytes k =>
    cases h
    rfl
  | waits driver k =>
    cases driver with
    | rtc =>
      cases h
      rfl
    | stdin | stdout | file | dir =>
      obtain ⟨kernel, input, output⟩ := s
      cases input with
      | nil => cases h
      | cons line rest =>
        cases h
        rfl

/-- The state at the end of a write. -/
theorem writeEnd_kernel (s : UserSession) (r : Kernel.WriteResult) : (s.writeEnd r).2.kernel = r.after := by
  cases r <;> rfl

end Meanwhile

section Refinement

variable {fs : FileSystem} {p : Slot} {s : UserSession}

/-- `open` against the view. -/
theorem openFile_view (hcaller : s.kernel.caller = some p) (fileName : Bytes) :
    (s.answer fs (.openFile fileName)).map (fun r => (r.1, r.2.view p)) =
      (s.view p).answer fs (.openFile fileName) := by
  obtain ⟨ret, k', hopen, -, -, hcall⟩ := open_call fs hcaller fileName
  simp only [UserSession.answer, hopen, Option.map_some, UserSession.view, UserView.answer, hcall, Option.getD_some,
    (descCall_openFile hopen).args]

/-- `close` against the view. -/
theorem close_view (hcaller : s.kernel.caller = some p) (fd : ℤ) :
    (s.answer fs (.close fd)).map (fun r => (r.1, r.2.view p)) = (s.view p).answer fs (.close fd) := by
  simp only [UserSession.answer, UserView.answer, Kernel.close, UserSession.view]
  cases hindex : descIndex FD_START fd with
  | none => rfl
  | some i =>
    simp only [hcaller, Option.map_some]
    cases hflag : ((s.kernel.pcb p).fileDescArr i).flag with
    | false =>
      rw [descMap_of_closed hflag]
      rfl
    | true =>
      rw [descMap_of_open hflag]
      simp only [if_true, Option.some.injEq, Prod.mk.injEq, UserView.mk.injEq]
      obtain ⟨hret, hpcb⟩ := driverClose_kept
        { s.kernel.modifyPcb p (·.setDesc i { (s.kernel.pcb p).fileDescArr i with flag := false }) with
          closeCalls := (p, i) :: (s.kernel.modifyPcb p
            (·.setDesc i { (s.kernel.pcb p).fileDescArr i with flag := false })).closeCalls }
        ((s.kernel.pcb p).fileDescArr i).fop
      rw [hpcb, Kernel.modifyPcb_self, descMap_setDesc]
      exact ⟨⟨hret, trivial⟩, rfl, rfl, trivial, trivial⟩

/-- `read` against the view. -/
theorem read_view (hcaller : s.kernel.caller = some p) (fd : ℤ) (nbytes : UInt32) :
    (s.answer fs (.read fd nbytes)).map (fun r => (r.1, r.2.view p)) = (s.view p).answer fs (.read fd nbytes) := by
  simp only [UserSession.answer, UserView.answer, UserView.file]
  cases hfile : (descIndex 0 fd).bind (s.view p).files with
  | none =>
    rw [read_closed hcaller hfile]
    rfl
  | some f =>
    obtain ⟨i, hindex, hf⟩ := Option.bind_eq_some_iff.mp hfile
    obtain ⟨rfl, -⟩ := descIndex_eq_some.mp hindex
    have hflag : ((s.kernel.pcb p).fileDescArr i).flag = true := by
      rw [← FileDesc.openFile_isSome]
      exact Option.isSome_of_eq_some hf
    have hread := read_open fs hcaller hflag nbytes
    obtain ⟨r, hr, -, -, hcall⟩ := read_call fs hcaller (i.val : ℤ) nbytes
    obtain rfl := Option.some.inj (hread.symm.trans hr)
    have hargs := (descCall_read hread).args p
    let m : Kernel := { s.kernel with pcbValRead := some p }
    have hbytes := driverRead_bytes fs m hflag hf nbytes
    rw [hread, Option.bind_some]
    rcases driverRead_waits fs m hflag hf nbytes with
      ⟨ret, bytes, k', hdone, hstdin, hrtc⟩ | ⟨hwaits, hfop⟩
    · rw [hdone] at hcall hargs hbytes ⊢
      have hbytes' : bytes = UserView.storedBytes fs f nbytes := hbytes
      have hview : (s.view p).readFile fs i.val nbytes f = some ((ret, bytes), { s.view p with
          files := (k'.pcb p).descMap }) := by
        unfold UserView.readFile
        rw [UserSession.view, hcall, hbytes']
        cases hfop : f.fop with
        | stdin => exact absurd hfop hstdin
        | rtc => exact absurd hfop hrtc
        | file | dir | stdout => rfl
      refine Eq.trans ?_ hview.symm
      exact congrArg (fun args => some (((ret, bytes), ⟨_, args, _, _⟩) : UserReply × UserView)) hargs
    · rw [hwaits]
      rcases hfop with hfop | hfop
      · simp only [UserSession.readEnd, UserView.readFile, hfop, UserSession.takeLine, UserView.takeLine,
          UserSession.view]
        cases s.input <;> rfl
      · simp only [UserSession.readEnd, UserView.readFile, hfop]
        rfl

/-- Only the console takes what is written. -/
theorem driverWrite_terminal {k k' : Kernel} {driver : Driver} {buf buf' : Bytes} {nbytes nbytes' : ℤ}
    (h : k.driverWrite driver buf nbytes = .terminal buf' nbytes' k') : buf' = buf ∧ nbytes' = nbytes := by
  cases driver with
  | stdout =>
    cases h
    exact ⟨rfl, rfl⟩
  | stdin | rtc | dir | file => cases h

/-- `write` against the view. -/
theorem write_view (hcaller : s.kernel.caller = some p) (fd : ℤ) (buf : Bytes) (nbytes : ℤ) :
    (s.answer fs (.write fd buf nbytes)).map (fun r => (r.1, r.2.view p)) =
      (s.view p).answer fs (.write fd buf nbytes) := by
  simp only [UserSession.answer, UserView.answer, UserView.file, Kernel.write]
  cases hindex : descIndex 0 fd with
  | none => rfl
  | some i =>
    simp only [hcaller, Option.map_some, Option.bind_some]
    cases hflag : ((s.kernel.pcb p).fileDescArr i).flag with
    | false =>
      have hnone : (s.view p).files i = none := descMap_of_closed hflag
      rw [hnone]
      rfl
    | true =>
      have hsome : (s.view p).files i = some _ := descMap_of_open hflag
      rw [hsome]
      simp only [if_true]
      rw [← driverWrite_ret s.kernel _ buf nbytes]
      have hpcb := (driverWrite_after s.kernel ((s.kernel.pcb p).fileDescArr i).fop buf nbytes).2
      cases hwrite : s.kernel.driverWrite ((s.kernel.pcb p).fileDescArr i).fop buf nbytes with
      | done ret k' =>
        rw [hwrite] at hpcb
        simp only [UserSession.writeEnd, UserSession.view, Kernel.WriteResult.ret]
        rw [show k'.pcb = s.kernel.pcb from hpcb]
      | terminal buf' nbytes' k' =>
        obtain ⟨rfl, rfl⟩ := driverWrite_terminal hwrite
        rw [hwrite] at hpcb
        simp only [UserSession.writeEnd, UserSession.view, Kernel.WriteResult.ret]
        rw [show k'.pcb = s.kernel.pcb from hpcb]

/-- `getargs` against the view. -/
theorem getargs_view (hcaller : s.kernel.caller = some p) (nbytes : UInt32) :
    (s.answer fs (.getargs nbytes)).map (fun r => (r.1, r.2.view p)) = (s.view p).answer fs (.getargs nbytes) := by
  have hcaller' : ({ s.kernel with pcbValRead := some p } : Kernel).caller = some p := hcaller
  simp only [UserSession.answer, UserView.answer, Kernel.getargs, hcaller, hcaller', Option.map_some, UserSession.view]
  by_cases hargs : (s.kernel.pcb p).argsName.getD 0 0 ≠ 0
  · simp only [if_pos hargs]
    exact (if_pos hargs).symm
  · simp only [if_neg hargs]
    exact (if_neg hargs).symm

/-- A call of the scheduled process is the call on its view. -/
theorem answer_view (hcaller : s.kernel.caller = some p) (c : ProgramCall) :
    (s.answer fs c).map (fun r => (r.1, r.2.view p)) = (s.view p).answer fs c := by
  cases c with
  | openFile fileName => exact openFile_view hcaller fileName
  | close fd => exact close_view hcaller fd
  | read fd nbytes => exact read_view hcaller fd nbytes
  | write fd buf nbytes => exact write_view hcaller fd buf nbytes
  | getargs nbytes => exact getargs_view hcaller nbytes

/-- A call leaves the process running. -/
theorem Running.answer (h : Running p s.kernel) {c : ProgramCall} {q : UserReply × UserSession}
    (hanswer : s.answer fs c = some q) : Running p q.2.kernel := by
  obtain ⟨⟨live, hbooted⟩, hcaller⟩ := h
  suffices hcall : DescCall s.kernel q.2.kernel by
    refine ⟨⟨live, hbooted.descCall hcall⟩, ?_⟩
    rw [Kernel.caller, hcall.currPid, hcall.activeTerm]
    exact hcaller
  cases c with
  | openFile fileName =>
    obtain ⟨r, hopen, rfl⟩ := Option.map_eq_some_iff.mp hanswer
    exact descCall_openFile hopen
  | close fd =>
    obtain ⟨r, hclose, rfl⟩ := Option.map_eq_some_iff.mp hanswer
    exact descCall_close hclose
  | read fd nbytes =>
    obtain ⟨r, hread, hend⟩ := Option.bind_eq_some_iff.mp hanswer
    rw [readEnd_kernel hend]
    exact descCall_read hread
  | write fd buf nbytes =>
    obtain ⟨r, hwrite, rfl⟩ := Option.map_eq_some_iff.mp hanswer
    rw [writeEnd_kernel]
    exact descCall_write hwrite
  | getargs nbytes =>
    obtain ⟨r, hgetargs, rfl⟩ := Option.map_eq_some_iff.mp hanswer
    exact descCall_getargs hgetargs

/-- What happens between two calls does not change the view. -/
theorem view_meanwhile {disk : Disk} {k : Kernel} (hrunning : Running p s.kernel) (h : Meanwhile disk p s.kernel k) :
    Running p k ∧ ({ s with kernel := k } : UserSession).view p = s.view p := by
  obtain ⟨live, hbooted⟩ := hrunning.booted
  obtain ⟨events, halong, hrun⟩ := h.run
  obtain ⟨⟨live', hbooted'⟩, hdescs, hargs⟩ := hbooted.process_run hrunning.caller halong hrun
  have hmap : (k.pcb p).descMap = (s.kernel.pcb p).descMap := by
    funext i
    rw [Pcb.descMap, Pcb.descMap, hdescs]
  refine ⟨⟨⟨live', hbooted'⟩, h.caller⟩, ?_⟩
  simp only [UserSession.view, hmap, hargs]

/-- Whatever happens before a call, it is answered as on the view. -/
theorem answers_view {disk : Disk} (hrunning : Running p s.kernel) (c : ProgramCall) {r : UserReply} {v : UserView}
    (h : (s.view p).answer disk.fs c = some (r, v)) :
    (s.answers disk p c).Nonempty ∧ ∀ q ∈ s.answers disk p c, q.1 = r ∧ q.2.view p = v ∧ Running p q.2.kernel := by
  have hanswer {k : Kernel} (hk : Meanwhile disk p s.kernel k) :
      (({ s with kernel := k } : UserSession).answer disk.fs c).map (fun q => (q.1, q.2.view p)) = some (r, v) := by
    rw [answer_view hk.caller, (view_meanwhile hrunning hk).2, h]
  constructor
  · have hnow : Meanwhile disk p s.kernel s.kernel := ⟨⟨[], trivial, rfl⟩, hrunning.caller⟩
    obtain ⟨q, hq, -⟩ := Option.map_eq_some_iff.mp (hanswer hnow)
    exact ⟨q, _, hnow, hq⟩
  · rintro q ⟨k, hk, hq⟩
    have hview := hanswer hk
    rw [hq, Option.map_some, Option.some.injEq, Prod.mk.injEq] at hview
    exact ⟨hview.1, hview.2, (view_meanwhile hrunning hk).1.answer hq⟩

/-- A program that ends on the view of its process ends the same way on the kernel, whatever calls of other
processes come between its own. -/
theorem program_view {disk : Disk} {A : Type} {prog : UserProgram A} {a : A} {v : UserView}
    (hrunning : Running p s.kernel) (h : runView disk.fs prog (s.view p) = some (a, v)) :
    prog.Ensures (UserSession.answers disk p) (fun b s' => b = a ∧ s'.view p = v ∧ Running p s'.kernel) s :=
  Dialogue.ensures_of_run (fun _ c _ _ hinv hanswer => answers_view hinv c hanswer) hrunning h

end Refinement

end OsKernel
