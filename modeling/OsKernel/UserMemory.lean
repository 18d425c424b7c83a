import Mathlib.Data.Int.Cast.Basic
import OsKernel.Keyboard
import OsKernel.Library.Window
import OsKernel.Syscall

/-!
# Stores on behalf of a user

`read`, `getargs` and `vidmap` store through a pointer that the user passes. Each stores bytes at
consecutive addresses from that pointer on; how many depends on the driver, on the descriptor and on
the size argument, and only `vidmap` looks at where they go.
-/

namespace OsKernel

open Library

/-- A byte stored at an address. -/
abbrev Store := UInt32 × UInt8

/-- Bytes stored from an address on. -/
def storesAt (buf : UInt32) (bytes : List UInt8) : List Store :=
  bytes.zipIdx.map fun b => (buf + UInt32.ofNat b.2, b.1)

/-- The little-endian bytes of a word. -/
def wordBytes (w : UInt32) : List UInt8 := [w.toUInt8, (w >>> 8).toUInt8, (w >>> 16).toUInt8, (w >>> 24).toUInt8]

/-- A system call with a pointer of the user's. -/
inductive UserCall where
  | read (fd : ℤ) (buf : UInt32) (nbytes : Int32)
  | getargs (buf : UInt32) (nbytes : Int32)
  | vidmap (startScreen : UInt32)

/-- How a `read` call ends on terminal `t`, with the console in the moment its waiting loop ends: the
returned word and the stores through the pointer. -/
def Kernel.ReadResult.finish (s : Console) (t : Fin 3) (buf : UInt32) (nbytes : Int32) :
    Kernel.ReadResult → UInt32 × List Store
  | .done ret bytes _ => (ret, storesAt buf bytes)
  | .waits .stdin _ =>
    if buf = 0 then (FAIL, [])
    else
      let bytes := (terminalReadFinish s t nbytes.toInt).1
      (UInt32.ofNat bytes.length, storesAt buf bytes)
  | .waits _ _ => (0, [])

namespace Kernel

variable (k : Kernel)

/-- `vidmap` -/
def vidmap (startScreen : UInt32) : UInt32 × List Store :=
  if startScreen = 0 then (FAIL, [])
  else if startScreen.toNat < USER_LEVEL_PROG ∨ startScreen.toNat ≥ USER_LEVEL_PROG + MB_4 then (FAIL, [])
  else (0, storesAt startScreen (wordBytes (UInt32.ofNat (VIDMAP_ADDR + k.activeTerm.val * VM_SIZE))))

/-- A call: the returned word and the stores through the pointer. -/
def userCall (fs : FileSystem) (s : Console) : UserCall → Option (UInt32 × List Store)
  | .read fd buf nbytes => (k.read fs fd nbytes.toUInt32).map (ReadResult.finish s k.activeTerm buf nbytes)
  | .getargs buf nbytes =>
    if buf = 0 then some (FAIL, [])
    else (k.getargs nbytes.toUInt32).map fun r => (r.1, storesAt buf r.2.1)
  | .vidmap startScreen => some (k.vidmap startScreen)

end Kernel

/-- How many characters there are up to the first newline and with it, at most `n`. -/
def lineCount (keyBuffer : ℤ → UInt8) (i : ℤ) : ℕ → ℕ
  | 0 => 0
  | n + 1 => if keyBuffer i = ASCII_NL then 1 else lineCount keyBuffer (i + 1) n + 1

/-- How many bytes a call of `file_read` finds. -/
def FileSystem.foundCount (fs : FileSystem) (inode offset length : UInt32) : ℕ :=
  if inode < fs.inodeSize ∧ fs.inodeInfo inode ≠ 0 then fs.readCount inode offset.toNat length.toNat else 0

/-- How many bytes a driver has for a `read` call on a descriptor; for the keyboard, of the line on the console at the
end of the wait. -/
def driverCount (fs : FileSystem) (s : Console) (t : Fin 3) (desc : FileDesc) (buf : UInt32) (nbytes : Int32) : ℕ :=
  match desc.fop with
  | .file => fs.foundCount desc.inode desc.position nbytes.toUInt32
  | .dir => (fs.readDentryByIndex desc.position).elim 0 Kernel.nameLength
  | .stdin => if buf = 0 then 0 else lineCount (s.line t).keyBuffer 0 (min nbytes.toInt KB_BUFFER_SIZE).toNat
  | .rtc | .stdout => 0

section Counts

variable {fs : FileSystem} {s : Console}

/-- `terminal_read` copies to the first newline. -/
theorem length_lineBytes (keyBuffer : ℤ → UInt8) (i : ℤ) (n : ℕ) :
    (lineBytes keyBuffer i n).length = lineCount keyBuffer i n := by
  induction n generalizing i with
  | zero => rfl
  | succ n ih =>
    rw [lineBytes, lineCount]
    split
    · rfl
    · rw [List.length_cons, ih]

/-- It copies no more than it is asked for. -/
theorem lineCount_le (keyBuffer : ℤ → UInt8) (i : ℤ) (n : ℕ) : lineCount keyBuffer i n ≤ n := by
  induction n generalizing i with
  | zero => exact le_rfl
  | succ n ih =>
    rw [lineCount]
    split
    · omega
    · have hrest := ih (i + 1)
      omega

/-- What `read_data` returns and how much it stores. -/
theorem readBytes_count (fs : FileSystem) (inode offset length : UInt32) :
    (fs.readBytes inode offset length).2.length = fs.foundCount inode offset length ∧
      (fs.readBytes inode offset length = (FAIL, []) ∨
        (fs.readBytes inode offset length).1 = UInt32.ofNat (fs.foundCount inode offset length)) := by
  by_cases h : inode < fs.inodeSize ∧ fs.inodeInfo inode ≠ 0
  · rw [FileSystem.foundCount, if_pos h, FileSystem.readBytes_eq h.1 h.2]
    exact ⟨FileSystem.length_fileBytes _ _, Or.inr rfl⟩
  · rw [FileSystem.foundCount, if_neg h, FileSystem.readBytes_fail h]
    exact ⟨rfl, Or.inl rfl⟩

/-- Every directory entry has its 32 bytes of name. -/
theorem length_dirName {index : UInt32} {entry : Dentry} (h : fs.readDentryByIndex index = some entry) :
    entry.fileName.length = MAX_FILENAME := by
  unfold FileSystem.readDentryByIndex at h
  split at h
  · cases h
  · cases h
    simp [FileSystem.dirEntry]

end Counts

/-- How a call ends that has `count` bytes to store. -/
def StoreEnds (buf : UInt32) (count : ℕ) (r : UInt32 × List Store) : Prop :=
  (r = (FAIL, []) ∧ count = 0) ∨ ∃ ret bytes, r = (ret, storesAt buf bytes) ∧ bytes.length = count

/-- How a call ends that also returns their number. -/
def CopyEnds (buf : UInt32) (count : ℕ) (r : UInt32 × List Store) : Prop :=
  (r = (FAIL, []) ∧ count = 0) ∨ ∃ bytes, r = (UInt32.ofNat count, storesAt buf bytes) ∧ bytes.length = count

section Calls

variable {fs : FileSystem} {s : Console} {k : Kernel} {p : Slot} {i : Fin 8} {buf : UInt32} {nbytes : Int32}

/-- `file_read` returns and stores what `read_data` does. -/
theorem Kernel.fileRead_readBytes {k : Kernel} {n ret : UInt32} {bytes : List UInt8}
    (hread : fs.readBytes ((k.pcb p).fileDescArr i).inode ((k.pcb p).fileDescArr i).position n = (ret, bytes)) :
    ∃ k', k.fileRead fs p i n = (ret, bytes, k') := by
  rw [Kernel.fileRead, hread]
  by_cases hret : ret = FAIL
  · subst hret
    exact ⟨k, if_pos rfl⟩
  · exact ⟨_, if_neg hret⟩

/-- `file_read` -/
theorem fileRead_ends (n : UInt32) (t : Fin 3) :
    CopyEnds buf (fs.foundCount ((k.pcb p).fileDescArr i).inode ((k.pcb p).fileDescArr i).position n)
      ((Kernel.ReadResult.ofCall (k.fileRead fs p i n)).finish s t buf nbytes) := by
  obtain ⟨hcount, hret⟩ := readBytes_count fs ((k.pcb p).fileDescArr i).inode ((k.pcb p).fileDescArr i).position n
  cases hread : fs.readBytes ((k.pcb p).fileDescArr i).inode ((k.pcb p).fileDescArr i).position n with
  | mk ret bytes =>
    rw [hread] at hcount hret
    obtain ⟨k', hcall⟩ := Kernel.fileRead_readBytes hread
    rw [hcall, Kernel.ReadResult.ofCall, Kernel.ReadResult.finish]
    rcases hret with hfail | hret
    · obtain ⟨rfl, rfl⟩ := Prod.mk.inj hfail
      exact Or.inl ⟨rfl, hcount.symm⟩
    · exact Or.inr ⟨bytes, Prod.ext hret rfl, hcount⟩

/-- `dir_read` -/
theorem dirRead_ends (t : Fin 3) :
    CopyEnds buf ((fs.readDentryByIndex ((k.pcb p).fileDescArr i).position).elim 0 Kernel.nameLength)
      ((Kernel.ReadResult.ofCall (k.dirRead fs p i)).finish s t buf nbytes) := by
  rw [Kernel.ReadResult.ofCall, Kernel.ReadResult.finish, Kernel.dirRead]
  cases hentry : fs.readDentryByIndex ((k.pcb p).fileDescArr i).position with
  | none => exact Or.inl ⟨rfl, rfl⟩
  | some entry =>
    refine Or.inr ⟨entry.fileName.take (Kernel.nameLength entry), rfl, ?_⟩
    rw [List.length_take, length_dirName hentry]
    exact min_eq_left (min_le_right _ _)

/-- `terminal_read` -/
theorem terminalRead_ends (t : Fin 3) (k : Kernel) :
    CopyEnds buf (if buf = 0 then 0 else lineCount (s.line t).keyBuffer 0 (min nbytes.toInt KB_BUFFER_SIZE).toNat)
      ((Kernel.ReadResult.waits .stdin k).finish s t buf nbytes) := by
  rw [Kernel.ReadResult.finish]
  by_cases hnull : buf = 0
  · rw [if_pos hnull, if_pos hnull]
    exact Or.inl ⟨rfl, rfl⟩
  · rw [if_neg hnull, if_neg hnull, ← length_lineBytes]
    exact Or.inr ⟨_, rfl, rfl⟩

/-- `read` on an open descriptor. -/
theorem read_ends (fs : FileSystem) (s : Console) (hcaller : k.caller = some p) {fd : ℤ}
    (hindex : descIndex 0 fd = some i) (hopen : ((k.pcb p).fileDescArr i).flag = true) (buf : UInt32)
    (nbytes : Int32) :
    ∃ r, k.userCall fs s (.read fd buf nbytes) = some r ∧
      CopyEnds buf (driverCount fs s k.activeTerm ((k.pcb p).fileDescArr i) buf nbytes) r := by
  have hcaller' : ({ k with pcbValRead := some p } : Kernel).caller = some p := hcaller
  rw [Kernel.userCall, Kernel.read, hindex, hcaller]
  simp only [hcaller', Option.map_some, if_pos hopen]
  refine ⟨_, rfl, ?_⟩
  unfold Kernel.driverRead driverCount
  dsimp only
  cases ((k.pcb p).fileDescArr i).fop with
  | file => exact fileRead_ends nbytes.toUInt32 k.activeTerm
  | dir => exact dirRead_ends k.activeTerm
  | stdin => exact terminalRead_ends k.activeTerm _
  | stdout => exact Or.inl ⟨rfl, rfl⟩
  | rtc => exact Or.inr ⟨[], rfl, rfl⟩

/-- The number is not looked at. -/
theorem CopyEnds.storeEnds {count : ℕ} {r : UInt32 × List Store} (h : CopyEnds buf count r) :
    StoreEnds buf count r := by
  rcases h with hfail | ⟨bytes, hr, hlength⟩
  · exact Or.inl hfail
  · exact Or.inr ⟨_, bytes, hr, hlength⟩

/-- How many bytes a call has to store; `s` is the console at the end of the wait of a `read`. -/
def UserCall.count (fs : FileSystem) (s : Console) (k : Kernel) (p : Slot) : UserCall → ℕ
  | .read fd buf nbytes =>
    (descIndex 0 fd).elim 0 fun i =>
      if ((k.pcb p).fileDescArr i).flag then
        driverCount fs s k.activeTerm ((k.pcb p).fileDescArr i) buf nbytes
      else 0
  | .getargs buf nbytes => if buf ≠ 0 ∧ (k.pcb p).argsName.getD 0 0 ≠ 0 then nbytes.toUInt32.toNat else 0
  | .vidmap startScreen =>
    if startScreen.toNat < USER_LEVEL_PROG ∨ startScreen.toNat ≥ USER_LEVEL_PROG + MB_4 then 0 else 4

/-- The pointer of a call. -/
def UserCall.pointer : UserCall → UInt32
  | .read _ buf _ | .getargs buf _ | .vidmap buf => buf

/-- `getargs` -/
theorem getargs_ends (fs : FileSystem) (s : Console) (hcaller : k.caller = some p) (buf : UInt32) (nbytes : Int32) :
    ∃ r, k.userCall fs s (.getargs buf nbytes) = some r ∧
      StoreEnds buf (UserCall.count fs s k p (.getargs buf nbytes)) r := by
  rw [Kernel.userCall, UserCall.count]
  by_cases hnull : buf = 0
  · rw [if_pos hnull, if_neg (by simp [hnull])]
    exact ⟨_, rfl, Or.inl ⟨rfl, rfl⟩⟩
  have hcaller' : ({ k with pcbValRead := some p } : Kernel).caller = some p := hcaller
  rw [if_neg hnull, Kernel.getargs, hcaller]
  simp only [hcaller', Option.map_some]
  refine ⟨_, rfl, ?_⟩
  by_cases hargs : (k.pcb p).argsName.getD 0 0 ≠ 0
  · rw [if_pos hargs, if_pos ⟨hnull, hargs⟩]
    exact Or.inr ⟨0, _, rfl, length_strncpy _ _⟩
  · rw [if_neg hargs, if_neg (fun h => hargs h.2)]
    exact Or.inl ⟨rfl, rfl⟩

/-- `vidmap` -/
theorem vidmap_ends (fs : FileSystem) (s : Console) (k : Kernel) (p : Slot) (startScreen : UInt32) :
    StoreEnds startScreen (UserCall.count fs s k p (.vidmap startScreen)) (k.vidmap startScreen) := by
  rw [Kernel.vidmap, UserCall.count]
  by_cases hnull : startScreen = 0
  · rw [if_pos hnull, if_pos (by rw [hnull]; exact Or.inl (by decide))]
    exact Or.inl ⟨rfl, rfl⟩
  rw [if_neg hnull]
  split
  · exact Or.inl ⟨rfl, rfl⟩
  · exact Or.inr ⟨0, _, rfl, rfl⟩

/-- `read` on any descriptor. -/
theorem readCall_ends (fs : FileSystem) (s : Console) (hcaller : k.caller = some p) (fd : ℤ) (buf : UInt32)
    (nbytes : Int32) :
    ∃ r, k.userCall fs s (.read fd buf nbytes) = some r ∧
      StoreEnds buf (UserCall.count fs s k p (.read fd buf nbytes)) r := by
  rw [UserCall.count]
  cases hindex : descIndex 0 fd with
  | none =>
    refine ⟨(FAIL, []), ?_, Or.inl ⟨rfl, rfl⟩⟩
    rw [Kernel.userCall, Kernel.read, hindex]
    rfl
  | some i =>
    rw [Option.elim_some]
    by_cases hopen : ((k.pcb p).fileDescArr i).flag = true
    · obtain ⟨r, hr, hends⟩ := read_ends fs s hcaller hindex hopen buf nbytes
      rw [if_pos hopen]
      exact ⟨r, hr, hends.storeEnds⟩
    · have hcaller' : ({ k with pcbValRead := some p } : Kernel).caller = some p := hcaller
      rw [if_neg hopen]
      refine ⟨(FAIL, []), ?_, Or.inl ⟨rfl, rfl⟩⟩
      rw [Kernel.userCall, Kernel.read, hindex, hcaller]
      simp only [hcaller', Option.map_some, if_neg hopen]
      rfl

/-- Every call of a running process ends, having stored what it has to store. -/
theorem userCall_ends (fs : FileSystem) (s : Console) (hcaller : k.caller = some p) (call : UserCall) :
    ∃ r, k.userCall fs s call = some r ∧ StoreEnds call.pointer (call.count fs s k p) r := by
  cases call with
  | read fd buf nbytes => exact readCall_ends fs s hcaller fd buf nbytes
  | getargs buf nbytes => exact getargs_ends fs s hcaller buf nbytes
  | vidmap startScreen => exact ⟨_, rfl, vidmap_ends fs s k p startScreen⟩

end Calls

end OsKernel
