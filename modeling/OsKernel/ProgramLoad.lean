import OsKernel.BlockTable
import OsKernel.Paging
import OsKernel.ProgramCheck

/-!
# The load of a program

`execute` reads the whole file to the load address and never compares its length with the room in the
program's page. Behind that page are the three video pages of `vidmap`, and behind these nothing is
mapped: a long file overwrites the screen, and a longer one ends in a page fault.
-/

namespace OsKernel

open Library

section Load

variable {fs : FileSystem}

/-- The address a statement of `execute` stores to. -/
def ExecStmt.storeAddr : ExecStmt → Option ℕ
  | .store offset _ => some (PROG_IMAGE_ADDR + offset)
  | _ => none

/-- The addresses that the load of a program stores to, before it is done or faults. -/
def Program.loadAddrs (fs : FileSystem) (prog : Program) : List ℕ :=
  ((prog.loadStmts fs).takeWhile fun s => !s.faults).filterMap ExecStmt.storeAddr

/-- What a call of `execute` comes to: a return of -1, a page fault of the load, or the start of the program. -/
inductive ExecOutcome where
  | refused
  | faulted
  | started (after : Kernel)

/-- The outcome of `execute`, uninterrupted. -/
def Kernel.executeOutcome (k : Kernel) (fs : FileSystem) (command : Option Bytes) (frame : ExecFrame) : ExecOutcome :=
  match executeCheck fs command frame, k.execute fs command frame with
  | some prog, some after => if (prog.loadStmts fs).any ExecStmt.faults then .faulted else .started after
  | _, _ => .refused

/-- `page_init` makes three pages of the window present. -/
theorem pageInit_window (j : ℕ) : (pageInit.pageVmTable j).present = decide (j < 3) := by
  let entry (addr : ℕ) : Pte := { present := true, readWrite := true, userSupervisor := true, addr }
  have htable : pageInit.pageVmTable =
      Function.update (Function.update (Function.update setInitPTE 0 (entry VM_INDEX)) 1 (entry VM_T1)) 2
        (entry VM_T2) := rfl
  match j with
  | 0 | 1 | 2 => rfl
  | j + 3 =>
    rw [htable, Function.update_of_ne (by omega), Function.update_of_ne (by omega), Function.update_of_ne (by omega),
      decide_eq_false (by omega)]
    rfl

/-- A store of the load faults where `page_init` left no page present; nothing changes the present bits later. -/
theorem faults_eq_translate (offset : ℕ) (byte : UInt8) (hpde : PROG_IMAGE_ADDR + offset < VIDMAP_ADDR + MB_4) :
    (ExecStmt.store offset byte).faults = (pageInit.translate ⟨false, true⟩ (PROG_IMAGE_ADDR + offset)).isNone := by
  rw [ExecStmt.faults, Tables.translate]
  rw [VIDMAP_ADDR, MB_4, PROG_IMAGE_ADDR] at hpde
  rw [VIDMAP_END, PROG_IMAGE_ADDR]
  by_cases hpage : 0x8048000 + offset < 0x8400000
  · have hindex : (0x8048000 + offset) / 2 ^ 22 = USER_LEVEL_INDEX := by
      rw [USER_LEVEL_INDEX]
      omega
    have hentry : pageInit.pageDirectory USER_LEVEL_INDEX =
        { present := true, readWrite := true, userSupervisor := true, target := .page4mb 0 } := rfl
    rw [hindex, hentry, decide_eq_false (by omega)]
    rfl
  · have hindex : (0x8048000 + offset) / 2 ^ 22 = USER_VM_INDEX := by
      rw [USER_VM_INDEX]
      omega
    have hentry : pageInit.pageDirectory USER_VM_INDEX =
        { present := true, readWrite := true, userSupervisor := true, target := .table .pageVmTable } := rfl
    have hpte : (0x8048000 + offset) / KB_4 % NUM_PTE < 3 ↔ 0x8048000 + offset < 0x8403000 := by
      rw [KB_4, NUM_PTE]
      omega
    have hpresent := pageInit_window ((0x8048000 + offset) / KB_4 % NUM_PTE)
    simp only [hindex, hentry, Tables.table, hpresent, hpte, Access.permits, Bool.true_and, Bool.not_false,
      Bool.true_or, Bool.and_true, if_true]
    by_cases hend : 0x8048000 + offset < 0x8403000
    · simp [hend]
    · simp [hend, Nat.not_lt.mp hend]

/-- The bytes that are loaded, as a function of the program. -/
theorem image_fun : Program.image = fun fs prog =>
    (fs.readBytes prog.dentry.inodeIdx 0 (fs.fileLength prog.dentry.inodeIdx)).2 := by
  delta Program.image
  exact Eq.refl _

/-- Of numbered elements, those with a small number are in front. -/
theorem takeWhile_zipIdx (l : List UInt8) (i n : ℕ) :
    (l.zipIdx i).takeWhile (fun b => b.2 < n) = (l.take (n - i)).zipIdx i := by
  induction l generalizing i with
  | nil => rw [List.take_nil, List.zipIdx_nil, List.takeWhile_nil]
  | cons b rest ih =>
    rw [List.zipIdx_cons]
    by_cases hlt : i < n
    · obtain ⟨left, hleft⟩ := Nat.exists_eq_add_of_lt hlt
      rw [List.takeWhile_cons_of_pos (by simpa using hlt), ih, show n - i = (n - (i + 1)) + 1 by omega,
        List.take_succ_cons, List.zipIdx_cons]
    · rw [List.takeWhile_cons_of_neg (by simpa using hlt), Nat.sub_eq_zero_of_le (not_lt.mp hlt), List.take_zero]
      rfl

/-- The stores that do not fault are those of the first `0x3BB000` bytes. -/
theorem loadAddrs_eq (fs : FileSystem) (prog : Program) :
    prog.loadAddrs fs = (List.range (min 0x3BB000 (prog.image fs).length)).map (PROG_IMAGE_ADDR + ·) := by
  have hfaults : (fun s : ExecStmt => !s.faults) ∘ (fun b : UInt8 × ℕ => ExecStmt.store b.2 b.1) =
      fun b => decide (b.2 < 0x3BB000) := by
    funext b
    rw [Function.comp_apply, ExecStmt.faults, ← decide_not]
    apply decide_eq_decide.mpr
    rw [VIDMAP_END, PROG_IMAGE_ADDR]
    omega
  have haddrs : ExecStmt.storeAddr ∘ (fun b : UInt8 × ℕ => ExecStmt.store b.2 b.1) =
      some ∘ (PROG_IMAGE_ADDR + ·) ∘ Prod.snd := rfl
  rw [Program.loadAddrs, Program.loadStmts, List.takeWhile_map, hfaults, takeWhile_zipIdx, List.filterMap_map, haddrs,
    List.filterMap_eq_map, ← List.map_map, List.zipIdx_map_snd, List.length_take, ← List.range_eq_range', Nat.sub_zero]

/-- The bytes that are loaded are as many as the file is long. -/
theorem length_image {prog : Program} (hinode : fs.HasInode prog.dentry.inodeIdx) :
    (prog.image fs).length = (fs.fileLength prog.dentry.inodeIdx).toNat := by
  rw [image_fun]
  dsimp only
  rw [FileSystem.readBytes_eq hinode.1 hinode.2, FileSystem.length_fileBytes, FileSystem.readCount,
    UInt32.toNat_zero, Nat.sub_zero, Nat.min_self]

/-- The load stores as many bytes as the file is long, up to the fault. -/
theorem mem_loadAddrs {prog : Program} (hinode : fs.HasInode prog.dentry.inodeIdx) {addr : ℕ} :
    addr ∈ prog.loadAddrs fs ↔
      ∃ i < min 0x3BB000 (fs.fileLength prog.dentry.inodeIdx).toNat, addr = PROG_IMAGE_ADDR + i := by
  rw [loadAddrs_eq, length_image hinode, List.mem_map]
  simp only [List.mem_range, eq_comm]

/-- The load faults when the file is longer than the pages behind the load address. -/
theorem loadStmts_fault_iff {prog : Program} (hinode : fs.HasInode prog.dentry.inodeIdx) :
    (prog.loadStmts fs).any ExecStmt.faults ↔ 0x3BB000 < (fs.fileLength prog.dentry.inodeIdx).toNat := by
  rw [← length_image hinode, Program.loadStmts, List.any_map, List.any_eq_true]
  constructor
  · intro hfaults
    obtain ⟨b, hb, hfault⟩ := hfaults
    have hindex := List.snd_lt_of_mem_zipIdx hb
    have hend : VIDMAP_END ≤ PROG_IMAGE_ADDR + b.2 := of_decide_eq_true hfault
    rw [VIDMAP_END, PROG_IMAGE_ADDR] at hend
    omega
  · intro hlong
    have hlast : ((prog.image fs)[0x3BB000], 0x3BB000) ∈ (prog.image fs).zipIdx :=
      List.mk_mem_zipIdx_iff_getElem?.mpr (List.getElem?_eq_getElem hlong)
    have hend : VIDMAP_END ≤ PROG_IMAGE_ADDR + 0x3BB000 := by decide
    exact ⟨_, hlast, decide_eq_true hend⟩

/-- The load of a program stays below the `vidmap` window, unless `execute` returns -1, exactly when its file
fits between the load address and the end of the 4MB page. -/
theorem load_inside_iff (image : Image) {k : Kernel} {command : Bytes} {frame : ExecFrame} {prog : Program}
    (hcheck : executeCheck image.fs (some command) frame = some prog) (hslot : ∃ i, k.pid i = false) :
    (k.executeOutcome image.fs (some command) frame = .refused ∨
        ∀ addr ∈ prog.loadAddrs image.fs, 0x8048000 ≤ addr ∧ addr < 0x8400000) ↔
      (image.fs.fileLength prog.dentry.inodeIdx).toNat ≤ 0x3B8000 := by
  obtain ⟨-, i, -, htest, rfl⟩ := executeCheck_resolves_iff.mp hcheck
  obtain ⟨after, hafter⟩ : ∃ after, k.execute image.fs (some command) frame = some after :=
    Option.isSome_iff_exists.mp (Kernel.execute_isSome.mpr ⟨Option.isSome_of_eq_some hcheck, hslot⟩)
  have hgoes : k.executeOutcome image.fs (some command) frame ≠ .refused := by
    rw [Kernel.executeOutcome, hcheck, hafter]
    dsimp only
    split <;> simp
  rw [or_iff_right hgoes]
  constructor
  · intro hinside
    by_contra hlong
    have hstored : 0x3B8000 < min 0x3BB000 (image.fs.fileLength (image.fs.dirEntry i).inodeIdx).toNat :=
      lt_min (by decide) (not_le.mp hlong)
    have hlast := hinside _ ((mem_loadAddrs htest.1).mpr ⟨0x3B8000, hstored, rfl⟩)
    exact absurd hlast.2 (by decide)
  · intro hfits addr haddr
    obtain ⟨j, hj, rfl⟩ := (mem_loadAddrs htest.1).mp haddr
    rw [PROG_IMAGE_ADDR]
    omega

end Load

/-- Memory with the image of one executable of 953 blocks, one more than its page holds. -/
def longMem (a : UInt32) : UInt8 := if a = 0x11001 then 0x90 else if a = 0x11002 then 0x3B else fullMem a

/-- The block table holds zeros. -/
theorem longMem_table {a : UInt32} (hlo : 0x11002 < a.toNat) (hhi : a.toNat < 0x12000) : longMem a = 0 := by
  have hne {b : UInt32} (hb : b.toNat ≤ 0x11002) : a ≠ b := by
    rintro rfl
    omega
  rw [longMem, if_neg (hne (by decide)), if_neg (hne (by decide)), fullMem_table hlo hhi]

/-- The only inode of that image. -/
theorem longMem_inode {inode : UInt32} (h : inode < (fileSystemInit longMem 0x10000).inodeSize) : inode = 0 :=
  inode_eq_zero (by decide) h

/-- The image with the long file is well-formed. -/
def longImage : Image where
  mem := longMem
  base := 0x10000
  fits := by decide
  base_pos := imageBase_pos
  length_le inode h := by
    rw [longMem_inode h]
    decide
  block_lt inode h b hb := by
    rw [longMem_inode h] at hb ⊢
    have hlength : ((fileSystemInit longMem 0x10000).fileLength 0).toNat = 953 * DATA_BLOCK_SIZE := by decide
    rw [hlength] at hb
    have hblock : b < 953 := Nat.lt_of_mul_lt_mul_right hb
    rw [numOfBlocks_zero (fun a => longMem_table) (by omega)]
    decide
  inode_lt := by decide +kernel

/-- The program of 953 blocks starts, and its load stored to the first of the video pages. -/
theorem load_inside_long : ∃ (image : Image) (k after : Kernel) (command : Bytes) (frame : ExecFrame) (prog : Program),
    executeCheck image.fs (some command) frame = some prog ∧
      k.executeOutcome image.fs (some command) frame = .started after ∧ 0x8400000 ∈ prog.loadAddrs image.fs ∧
      pageInit.translate ⟨false, true⟩ 0x8400000 = some VIDEO := by
  have hcheck : (executeCheck longImage.fs (some (toBytes shellName)) zeroFrame).isSome := by decide +kernel
  obtain ⟨prog, hprog⟩ := Option.isSome_iff_exists.mp hcheck
  obtain ⟨after, hafter⟩ : ∃ after, zeroKernel.execute longImage.fs (some (toBytes shellName)) zeroFrame = some after :=
    Option.isSome_iff_exists.mp (Kernel.execute_isSome.mpr ⟨hcheck, 0, rfl⟩)
  obtain ⟨-, i, hi, htest, rfl⟩ := executeCheck_resolves_iff.mp hprog
  have hresolves : longImage.fs.Resolves shellName 0 :=
    ⟨by decide, by decide +kernel, fun j hj => absurd hj (Nat.not_lt_zero j)⟩
  rw [firstWord_shell] at hi
  rw [hi.unique hresolves] at htest hprog
  have hlength : (longImage.fs.fileLength (longImage.fs.dirEntry 0).inodeIdx).toNat = 0x3B9000 := by decide +kernel
  refine ⟨longImage, zeroKernel, after, toBytes shellName, zeroFrame, _, hprog, ?_, ?_, by decide⟩
  · rw [Kernel.executeOutcome, hprog, hafter]
    dsimp only
    rw [if_neg fun hfaults => absurd ((loadStmts_fault_iff htest.1).mp hfaults) (by rw [hlength]; decide)]
  · rw [mem_loadAddrs htest.1, hlength]
    exact ⟨0x3B8000, by decide, by decide⟩

/-- The shell of 28 bytes is loaded inside. -/
theorem load_inside_shell : ∃ prog, executeCheck shellImage.fs (some (toBytes shellName)) zeroFrame = some prog ∧
    (zeroKernel.executeOutcome shellImage.fs (some (toBytes shellName)) zeroFrame = .refused ∨
      ∀ addr ∈ prog.loadAddrs shellImage.fs, 0x8048000 ≤ addr ∧ addr < 0x8400000) := by
  have hcheck : (executeCheck shellImage.fs (some (toBytes shellName)) zeroFrame).isSome := by decide +kernel
  obtain ⟨prog, hprog⟩ := Option.isSome_iff_exists.mp hcheck
  refine ⟨prog, hprog, (load_inside_iff shellImage hprog ⟨0, rfl⟩).mpr ?_⟩
  have hlengths : (executeCheck shellImage.fs (some (toBytes shellName)) zeroFrame).all
      fun prog => (shellImage.fs.fileLength prog.dentry.inodeIdx).toNat ≤ 0x3B8000 := by decide +kernel
  rw [hprog, Option.all_some, decide_eq_true_eq] at hlengths
  exact hlengths

end OsKernel
