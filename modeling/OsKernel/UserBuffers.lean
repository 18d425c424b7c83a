import OsKernel.Boot
import OsKernel.UserMemory

/-!
# The bounds of a user's buffer

A call that stores `n` bytes from a pointer on stays inside a buffer, or inside the user's page,
exactly when `n` is small enough for it. `dir_read` takes no notice of the size it is given and
`file_read` passes a negative one on as a large unsigned length; `read` and `getargs` take no notice
of the pointer, and `vidmap` checks the first of its four bytes only.
-/

namespace OsKernel

open Library

/-- An address of `buf[0 .. n - 1]`. -/
def InBuffer (buf : UInt32) (n : ℕ) (addr : UInt32) : Prop := ∃ j < n, addr = buf + UInt32.ofNat j

/-- An address of the user program page. -/
def UserAddr (addr : UInt32) : Prop := USER_LEVEL_PROG ≤ addr.toNat ∧ addr.toNat < USER_LEVEL_PROG + MB_4

/-- A `read` of `nbytes` that stores only into its buffer, and returns -1 or a count inside it. -/
structure ReadBounded (buf : UInt32) (nbytes : Int32) (r : UInt32 × List Store) : Prop where
  stores : ∀ st ∈ r.2, InBuffer buf nbytes.toInt.toNat st.1
  ret : r.1.toInt32.toInt = -1 ∨ (0 ≤ r.1.toInt32.toInt ∧ r.1.toInt32.toInt ≤ max nbytes.toInt 0)

/-- A call that stores only into the user program page, or fails without a store. -/
def StoresUser (r : UInt32 × List Store) : Prop := (∀ st ∈ r.2, UserAddr st.1) ∨ r = (FAIL, [])

section Addresses

variable {buf addr : UInt32} {bytes : List UInt8} {n : ℕ}

/-- The address of byte `j`. -/
theorem toNat_add_ofNat (buf : UInt32) (j : ℕ) : (buf + UInt32.ofNat j).toNat = (buf.toNat + j) % 4294967296 := by
  rw [UInt32.toNat_add, UInt32.toNat_ofNat']
  omega

/-- The addresses of a buffer are a window of the address space. -/
theorem inBuffer_iff : InBuffer buf n addr ↔ InWindow 4294967296 buf.toNat n addr.toNat := by
  constructor
  · rintro ⟨j, hj, rfl⟩
    exact ⟨j, hj, toNat_add_ofNat buf j⟩
  · rintro ⟨j, hj, haddr⟩
    refine ⟨j, hj, UInt32.toNat_inj.mp ?_⟩
    rw [haddr, toNat_add_ofNat]

/-- Where bytes are stored. -/
theorem forall_storesAt {P : UInt32 → Prop} :
    (∀ st ∈ storesAt buf bytes, P st.1) ↔ ∀ addr, InBuffer buf bytes.length addr → P addr := by
  constructor
  · rintro h addr ⟨j, hj, rfl⟩
    have hmem : (bytes[j], j) ∈ bytes.zipIdx := List.mk_mem_zipIdx_iff_getElem?.mpr (List.getElem?_eq_getElem hj)
    exact h _ (List.mem_map_of_mem hmem)
  · intro h st hst
    obtain ⟨⟨b, j⟩, hmem, rfl⟩ := List.mem_map.mp hst
    obtain ⟨hj, -⟩ := List.getElem?_eq_some_iff.mp (List.mk_mem_zipIdx_iff_getElem?.mp hmem)
    exact h _ ⟨j, hj, rfl⟩

/-- The stores are inside a buffer exactly when there are no more of them than it has bytes. -/
theorem storesAt_inBuffer_iff (hlength : bytes.length ≤ 4294967296) :
    (∀ st ∈ storesAt buf bytes, InBuffer buf n st.1) ↔ bytes.length ≤ n := by
  rw [forall_storesAt, ← window_subset_iff hlength (a := buf.toNat)]
  constructor
  · rintro h addr ⟨j, hj, rfl⟩
    have hin := inBuffer_iff.mp (h (buf + UInt32.ofNat j) ⟨j, hj, rfl⟩)
    rwa [toNat_add_ofNat] at hin
  · intro h addr haddr
    exact inBuffer_iff.mpr (h addr.toNat (inBuffer_iff.mp haddr))

/-- The stores are inside the user program page exactly when there are none, or they end inside. -/
theorem storesAt_user_iff :
    (∀ st ∈ storesAt buf bytes, UserAddr st.1) ↔
      bytes.length = 0 ∨ USER_LEVEL_PROG ≤ buf.toNat ∧ buf.toNat + bytes.length ≤ USER_LEVEL_PROG + MB_4 := by
  rw [forall_storesAt, ← window_within_iff buf.toNat_lt (by decide)]
  constructor
  · rintro h addr ⟨j, hj, rfl⟩
    have huser := h (buf + UInt32.ofNat j) ⟨j, hj, rfl⟩
    rwa [UserAddr, toNat_add_ofNat] at huser
  · intro h addr haddr
    exact h addr.toNat (inBuffer_iff.mp haddr)

end Addresses

section Reads

variable {fs : FileSystem} {s : Console} {k : Kernel} {p : Slot} {i : Fin 8} {buf : UInt32} {nbytes : Int32}
  {count : ℕ} {r : UInt32 × List Store}

/-- A count that a signed word can hold is returned as it is. -/
theorem toInt_ofNat {count : ℕ} (h : count < 2147483648) : (UInt32.ofNat count).toInt32.toInt = count := by
  have hnat : (UInt32.ofNat count).toBitVec.toNat = count := UInt32.toNat_ofNat_of_lt' (by rw [UInt32.size]; omega)
  have hint : (UInt32.ofNat count).toInt32.toInt = (UInt32.ofNat count).toBitVec.toInt := rfl
  rw [hint, BitVec.toInt_eq_toNat_cond, hnat, if_pos (by omega)]

/-- A size argument as the unsigned length that `file_read` passes on. -/
theorem toNat_toUInt32 (n : Int32) :
    (n.toUInt32.toNat : ℤ) = if 0 ≤ n.toInt then n.toInt else n.toInt + 4294967296 := by
  have hint : n.toInt = n.toBitVec.toInt := rfl
  have hnat : n.toUInt32.toNat = n.toBitVec.toNat := rfl
  have hlt := n.toBitVec.isLt
  rw [hint, hnat, BitVec.toInt_eq_toNat_cond]
  split_ifs <;> omega

/-- A call that stores `count` bytes is bounded exactly when its buffer has as many. -/
theorem CopyEnds.readBounded_iff (h : CopyEnds buf count r) (hcount : count ≤ 4294967296) :
    ReadBounded buf nbytes r ↔ count ≤ nbytes.toInt.toNat := by
  rcases h with ⟨rfl, rfl⟩ | ⟨bytes, rfl, rfl⟩
  · exact ⟨fun _ => Nat.zero_le _, fun _ => ⟨fun st hst => absurd hst List.not_mem_nil, Or.inl (by decide)⟩⟩
  · constructor
    · intro hbounded
      exact (storesAt_inBuffer_iff hcount).mp hbounded.stores
    · intro hle
      have hmax := nbytes.toInt_lt
      refine ⟨(storesAt_inBuffer_iff hcount).mpr hle, Or.inr ?_⟩
      rw [toInt_ofNat (by omega)]
      omega

/-- A name is at most as long as its field. -/
theorem nameLength_le (entry : Dentry) : Kernel.nameLength entry ≤ MAX_FILENAME := min_le_right _ _

/-- A file has no more for a call than it asks for. -/
theorem foundCount_le (fs : FileSystem) (inode offset length : UInt32) :
    fs.foundCount inode offset length ≤ length.toNat := by
  unfold FileSystem.foundCount FileSystem.readCount
  split
  · exact min_le_left _ _
  · exact Nat.zero_le _

/-- What a driver has for one call fits the address space. -/
theorem driverCount_le (fs : FileSystem) (s : Console) (t : Fin 3) (desc : FileDesc) (buf : UInt32) (nbytes : Int32) :
    driverCount fs s t desc buf nbytes ≤ 4294967296 := by
  unfold driverCount
  cases desc.fop with
  | file =>
    have hfound := foundCount_le fs desc.inode desc.position nbytes.toUInt32
    have hlt := nbytes.toUInt32.toNat_lt
    dsimp only
    omega
  | dir =>
    cases fs.readDentryByIndex desc.position with
    | none => exact Nat.zero_le _
    | some entry => exact le_trans (nameLength_le entry) (by decide)
  | stdin =>
    dsimp only
    split
    · exact Nat.zero_le _
    · refine le_trans (lineCount_le _ _ _) ?_
      have hmin : min nbytes.toInt KB_BUFFER_SIZE ≤ 128 := min_le_right _ _
      omega
  | stdout => exact Nat.zero_le _
  | rtc => exact Nat.zero_le _

/-- A directory read finds a name no longer than its buffer, and a file read a size that is not negative,
or nothing to read. -/
def ReadFits (fs : FileSystem) (desc : FileDesc) (nbytes : Int32) : Prop :=
  match desc.fop with
  | .dir => ∀ entry, fs.readDentryByIndex desc.position = some entry →
      (Kernel.nameLength entry : ℤ) ≤ max nbytes.toInt 0
  | .file => 0 ≤ nbytes.toInt ∨ fs.inodeSize ≤ desc.inode ∨ fs.inodeInfo desc.inode = 0 ∨
      fs.fileLength desc.inode ≤ desc.position
  | .stdin | .stdout | .rtc => True

/-- A file has no more for a call than a signed size says, unless the size is negative and there is something
to read. -/
theorem foundCount_le_iff (inode offset : UInt32) (nbytes : Int32) :
    fs.foundCount inode offset nbytes.toUInt32 ≤ nbytes.toInt.toNat ↔
      0 ≤ nbytes.toInt ∨ fs.inodeSize ≤ inode ∨ fs.inodeInfo inode = 0 ∨ fs.fileLength inode ≤ offset := by
  have hlength := toNat_toUInt32 nbytes
  have hmin := nbytes.le_toInt
  by_cases hsize : 0 ≤ nbytes.toInt
  · have hfound := foundCount_le fs inode offset nbytes.toUInt32
    rw [if_pos hsize] at hlength
    exact ⟨fun _ => Or.inl hsize, fun _ => by omega⟩
  · rw [if_neg hsize] at hlength
    have hzero : nbytes.toInt.toNat = 0 := by omega
    rw [FileSystem.foundCount, hzero, Nat.le_zero]
    by_cases hinode : inode < fs.inodeSize ∧ fs.inodeInfo inode ≠ 0
    · have hlt : ¬fs.inodeSize ≤ inode := UInt32.not_le.mpr hinode.1
      have hend : fs.readCount inode offset.toNat nbytes.toUInt32.toNat = 0 ↔ fs.fileLength inode ≤ offset := by
        rw [UInt32.le_iff_toNat_le, FileSystem.readCount]
        omega
      rw [if_pos hinode, hend]
      simp [hsize, hlt, hinode.2]
    · rw [if_neg hinode]
      refine ⟨fun _ => ?_, fun _ => rfl⟩
      by_cases hlt : inode < fs.inodeSize
      · have hinfo : fs.inodeInfo inode = 0 := by
          by_contra hne
          exact hinode ⟨hlt, hne⟩
        exact Or.inr (Or.inr (Or.inl hinfo))
      · exact Or.inr (Or.inl (UInt32.not_lt.mp hlt))

/-- A driver has no more for a call than its buffer holds exactly when the read fits. -/
theorem driverCount_le_iff (fs : FileSystem) (s : Console) (t : Fin 3) (desc : FileDesc) (buf : UInt32)
    (nbytes : Int32) : driverCount fs s t desc buf nbytes ≤ nbytes.toInt.toNat ↔ ReadFits fs desc nbytes := by
  unfold driverCount ReadFits
  cases desc.fop with
  | file => exact foundCount_le_iff desc.inode desc.position nbytes
  | dir =>
    cases fs.readDentryByIndex desc.position with
    | none => simp
    | some entry =>
      simp only [Option.elim_some, Option.some.injEq, forall_eq']
      omega
  | stdin =>
    refine ⟨fun _ => trivial, fun _ => ?_⟩
    dsimp only
    split
    · exact Nat.zero_le _
    · refine le_trans (lineCount_le _ _ _) ?_
      have hmin : min nbytes.toInt KB_BUFFER_SIZE ≤ nbytes.toInt := min_le_left _ _
      omega
  | stdout => exact ⟨fun _ => trivial, fun _ => Nat.zero_le _⟩
  | rtc => exact ⟨fun _ => trivial, fun _ => Nat.zero_le _⟩

end Reads

/-- A `read` on an open descriptor stores only into its buffer, and returns -1 or a count inside it, exactly
when the read fits: for a directory, when the entry's name does; for a file, when the size is not
negative or there is nothing to read. -/
theorem read_bounded_iff (fs : FileSystem) (s : Console) {k : Kernel} {p : Slot} (hcaller : k.caller = some p)
    {i : Fin 8} (hopen : ((k.pcb p).fileDescArr i).flag = true) (buf : UInt32) (nbytes : Int32) :
    (∃ r, k.userCall fs s (.read i.val buf nbytes) = some r ∧ ReadBounded buf nbytes r) ↔
      ReadFits fs ((k.pcb p).fileDescArr i) nbytes := by
  obtain ⟨r, hr, hends⟩ := read_ends fs s hcaller (descIndex_val i) hopen buf nbytes
  have hcount := driverCount_le fs s k.activeTerm ((k.pcb p).fileDescArr i) buf nbytes
  rw [hr, ← driverCount_le_iff fs s k.activeTerm ((k.pcb p).fileDescArr i) buf nbytes,
    ← hends.readBounded_iff hcount]
  simp

/-- The stores of a call are inside the user program page exactly when it has none, or its pointer is in the
page and they end there. -/
theorem StoreEnds.storesUser_iff {buf : UInt32} {count : ℕ} {r : UInt32 × List Store} (h : StoreEnds buf count r) :
    StoresUser r ↔ count = 0 ∨ USER_LEVEL_PROG ≤ buf.toNat ∧ buf.toNat + count ≤ USER_LEVEL_PROG + MB_4 := by
  rcases h with ⟨rfl, rfl⟩ | ⟨ret, bytes, rfl, rfl⟩
  · exact ⟨fun _ => Or.inl rfl, fun _ => Or.inr rfl⟩
  · rw [← storesAt_user_iff]
    constructor
    · rintro (huser | hnone)
      · exact huser
      · intro st hst
        rw [(Prod.mk.inj hnone).2] at hst
        exact absurd hst List.not_mem_nil
    · exact Or.inl

/-- A call stores through the user's pointer only into the user program page, or fails without a store,
exactly when it has nothing to store, or the pointer is in the page and what it stores ends there. The
console is the one at the end of the wait of `terminal_read`, from which a read of the keyboard stores. -/
theorem userCall_storesUser_iff (fs : FileSystem) (s : Console) {k : Kernel} {p : Slot} (hcaller : k.caller = some p)
    (call : UserCall) :
    (∃ r, k.userCall fs s call = some r ∧ StoresUser r) ↔
      call.count fs s k p = 0 ∨ USER_LEVEL_PROG ≤ call.pointer.toNat ∧
        call.pointer.toNat + call.count fs s k p ≤ USER_LEVEL_PROG + MB_4 := by
  obtain ⟨r, hr, hends⟩ := userCall_ends fs s hcaller call
  rw [hr, ← hends.storesUser_iff]
  simp

/-- A console on which nothing was typed. -/
def idleConsole : Console := terminalInit fun _ => 0

/-- The shell runs on the booted machine. -/
theorem shellMachine_caller : shellMachine.caller = some 0 := by decide +kernel

/-- The shell opens its own executable and reads the first four bytes into a buffer of four. -/
theorem read_bounded_shell :
    ∃ k, shellMachine.openFile shellImage.fs (toBytes shellName) = some (2, k) ∧
      k.userCall shellImage.fs idleConsole (.read 2 0x8048000 4) =
        some (4, storesAt 0x8048000 [0x7F, 0x45, 0x4C, 0x46]) ∧
      ∃ r, k.userCall shellImage.fs idleConsole (.read 2 0x8048000 4) = some r ∧ ReadBounded 0x8048000 4 r := by
  have hopen : (shellMachine.openFile shellImage.fs (toBytes shellName)).map (fun r =>
      (r.1, r.2.userCall shellImage.fs idleConsole (.read 2 0x8048000 4))) =
      some (2, some (4, storesAt 0x8048000 [0x7F, 0x45, 0x4C, 0x46])) := by decide +kernel
  have hstate : (shellMachine.openFile shellImage.fs (toBytes shellName)).map (fun r =>
      (r.2.caller, (r.2.pcb 0).fileDescArr 2)) =
      some (some 0, { fop := .file, inode := 0, position := 0, flag := true }) := by decide +kernel
  obtain ⟨⟨fd, k⟩, hk, hpair⟩ := Option.map_eq_some_iff.mp hopen
  obtain ⟨rfl, hcall⟩ := Prod.mk.inj hpair
  rw [hk, Option.map_some, Option.some.injEq, Prod.mk.injEq] at hstate
  obtain ⟨hcaller, hdesc⟩ := hstate
  refine ⟨k, hk, hcall, ?_⟩
  have hiff := read_bounded_iff shellImage.fs idleConsole hcaller (i := 2) (by rw [hdesc]) 0x8048000 4
  rw [hdesc] at hiff
  exact hiff.mpr (Or.inl (by decide))

/-- `vidmap` of the last word of the page. -/
theorem userCall_storesUser_vidmap :
    ∃ r, shellMachine.userCall shellImage.fs idleConsole (.vidmap 0x83FFFFC) = some r ∧ StoresUser r :=
  (userCall_storesUser_iff shellImage.fs idleConsole shellMachine_caller (.vidmap 0x83FFFFC)).mpr
    (Or.inr (by decide))

/-- `vidmap` stores three of its bytes past the page. -/
theorem vidmap_pastPage :
    shellMachine.userCall shellImage.fs idleConsole (.vidmap 0x83FFFFF) =
        some (0, [(0x83FFFFF, 0), (0x8400000, 0), (0x8400001, 0x40), (0x8400002, 0x08)]) ∧
      ¬∃ r, shellMachine.userCall shellImage.fs idleConsole (.vidmap 0x83FFFFF) = some r ∧ StoresUser r := by
  have hcall : shellMachine.userCall shellImage.fs idleConsole (.vidmap 0x83FFFFF) =
      some (0, [(0x83FFFFF, 0), (0x8400000, 0), (0x8400001, 0x40), (0x8400002, 0x08)]) := by decide +kernel
  refine ⟨hcall, ?_⟩
  rintro ⟨r, hr, huser⟩
  obtain rfl := Option.some.inj (hcall.symm.trans hr)
  rcases huser with huser | hfail
  · have hpast := huser (0x8400000, 0) (by simp)
    exact absurd hpast.2 (by decide)
  · cases (Prod.mk.inj hfail).2

/-- The image of one executable with an entry `.` behind it. -/
def listingMem (a : UInt32) : UInt8 :=
  (([(0x10000, 2), (0x10080, 0x2E), (0x100A0, 1)] ++ shellImageBytes).lookup a).getD 0

/-- A file system that lists itself. -/
def listingDisk : Disk where
  fs := fileSystemInit listingMem 0x10000
  shellLoads _ := rfl

/-- The machine that boots from it. -/
def listingMachine : Kernel := boot listingDisk (fun _ => Pcb.zeroed) (fun _ _ => 0) zeroFrame

/-- A read of 4 bytes from the open directory stores the 5 bytes of `shell`. -/
theorem read_nameOverrun :
    ∃ k, listingMachine.openFile listingDisk.fs (toBytes [0x2E]) = some (2, k) ∧
      k.userCall listingDisk.fs idleConsole (.read 2 0x8048000 4) = some (5, storesAt 0x8048000 shellName) ∧
      ¬∃ r, k.userCall listingDisk.fs idleConsole (.read 2 0x8048000 4) = some r ∧ ReadBounded 0x8048000 4 r := by
  have hopen : (listingMachine.openFile listingDisk.fs (toBytes [0x2E])).map (fun r =>
      (r.1, r.2.userCall listingDisk.fs idleConsole (.read 2 0x8048000 4))) =
      some (2, some (5, storesAt 0x8048000 shellName)) := by decide +kernel
  obtain ⟨⟨fd, k⟩, hk, hpair⟩ := Option.map_eq_some_iff.mp hopen
  obtain ⟨rfl, hcall⟩ := Prod.mk.inj hpair
  refine ⟨k, hk, hcall, ?_⟩
  rintro ⟨r, hr, hbounded⟩
  obtain rfl := Option.some.inj (hcall.symm.trans hr)
  have hle := (storesAt_inBuffer_iff (by decide)).mp hbounded.stores
  exact absurd hle (by decide)

end OsKernel
