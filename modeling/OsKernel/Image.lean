import OsKernel.ReadData

/-!
# Well-formed images

What the boot loader is expected to leave in memory: an image that fits the address space, whose
files have at most 1023 blocks, all of them data blocks of the image, and whose regular files have
an inode.
-/

namespace OsKernel

/-- An image in memory: it ends inside the address space and does not start at the null pointer. -/
structure Placed (mem : UInt32 → UInt8) (base : UInt32) : Prop where
  fits : base.toNat + 4096 * (1 + (fileSystemInit mem base).inodeSize.toNat +
    (fileSystemInit mem base).dataBlockSize.toNat) ≤ 4294967296
  base_pos : 0 < base.toNat

/-- The address of an inode does not wrap to the null pointer. -/
theorem Placed.inodeInfo_ne_zero {mem : UInt32 → UInt8} {base inode : UInt32} (h : Placed mem base)
    (hinode : inode < (fileSystemInit mem base).inodeSize) : (fileSystemInit mem base).inodeInfo inode ≠ 0 := by
  intro hzero
  have hfits := h.fits
  have hpos := h.base_pos
  have hlt : inode.toNat < (fileSystemInit mem base).inodeSize.toNat := hinode
  have haddr : (fileSystemInit mem base).inodeInfo inode = base + 4096 + inode * 4096 := rfl
  have hnat := congrArg UInt32.toNat (haddr.symm.trans hzero)
  simp only [UInt32.toNat_add, UInt32.toNat_mul, UInt32.reduceToNat] at hnat
  omega

/-- A well-formed image at an address the boot loader can put it. -/
structure Image where
  mem : UInt32 → UInt8
  base : UInt32
  fits : base.toNat + 4096 * (1 + (fileSystemInit mem base).inodeSize.toNat +
    (fileSystemInit mem base).dataBlockSize.toNat) ≤ 4294967296
  base_pos : 0 < base.toNat
  length_le : ∀ inode < (fileSystemInit mem base).inodeSize,
    ((fileSystemInit mem base).fileLength inode).toNat ≤ 1023 * DATA_BLOCK_SIZE
  block_lt : ∀ inode < (fileSystemInit mem base).inodeSize,
    ∀ b, b * DATA_BLOCK_SIZE < ((fileSystemInit mem base).fileLength inode).toNat →
      (fileSystemInit mem base).numOfBlocks inode (UInt32.ofNat b) < (fileSystemInit mem base).dataBlockSize
  inode_lt : ∀ i < TOTAL_NUM_DIR, ((fileSystemInit mem base).dirEntry i).fileType = 2 →
    ((fileSystemInit mem base).dirEntry i).inodeIdx < (fileSystemInit mem base).inodeSize

namespace Image

variable (image : Image)

/-- The file system on the image. -/
def fs : FileSystem := fileSystemInit image.mem image.base

variable {image} {inode : UInt32}

/-- A well-formed image is placed. -/
theorem placed (image : Image) : Placed image.mem image.base := ⟨image.fits, image.base_pos⟩

/-- The address of an inode of the image does not wrap to the null pointer. -/
theorem inodeInfo_ne_zero (h : inode < image.fs.inodeSize) : image.fs.inodeInfo inode ≠ 0 :=
  image.placed.inodeInfo_ne_zero h

/-- A directory entry found by name lies in the table. -/
theorem inode_lt_of_lookup {fileName : Bytes} {dentry : Dentry}
    (hname : image.fs.readDentryByName fileName = some dentry) (htype : dentry.fileType = 2) :
    dentry.inodeIdx < image.fs.inodeSize := by
  unfold FileSystem.readDentryByName at hname
  split at hname
  · cases hname
  · obtain ⟨i, hi, rfl⟩ := List.mem_map.mp (List.mem_of_find?_eq_some hname)
    exact image.inode_lt i (List.mem_range.mp hi) htype

end Image

/-- The bytes of an image at 64KB with one entry, the executable `shell` of 28 bytes. -/
def shellImageBytes : List (UInt32 × UInt8) :=
  [(0x10000, 1), (0x10004, 1), (0x10008, 1), (0x10060, 2),
   (0x10040, 0x73), (0x10041, 0x68), (0x10042, 0x65), (0x10043, 0x6C), (0x10044, 0x6C),
   (0x11000, 28), (0x12000, 0x7F), (0x12001, 0x45), (0x12002, 0x4C), (0x12003, 0x46), (0x1201A, 0x04)]

/-- `"shell"` -/
def shellName : List UInt8 := [0x73, 0x68, 0x65, 0x6C, 0x6C]

/-- Memory with that image and zeros elsewhere. -/
def shellMem (a : UInt32) : UInt8 := (shellImageBytes.lookup a).getD 0

/-- An image at 64KB is not at the null pointer. -/
theorem imageBase_pos : 0 < (0x10000 : UInt32).toNat := by decide

/-- The only inode of an image at 64KB with one. -/
theorem inode_eq_zero {mem : UInt32 → UInt8} {inode : UInt32} (hsize : (fileSystemInit mem 0x10000).inodeSize = 1)
    (h : inode < (fileSystemInit mem 0x10000).inodeSize) : inode = 0 := by
  rw [hsize] at h
  have hlt : inode.toNat < 1 := h
  exact UInt32.toNat_inj.mp (Nat.lt_one_iff.mp hlt)

/-- The only inode of that image. -/
theorem shellMem_inode {inode : UInt32} (h : inode < (fileSystemInit shellMem 0x10000).inodeSize) : inode = 0 :=
  inode_eq_zero (by decide) h

/-- The image with the one executable is well-formed. -/
def shellImage : Image where
  mem := shellMem
  base := 0x10000
  fits := by decide
  base_pos := imageBase_pos
  length_le inode h := by
    rw [shellMem_inode h]
    decide
  block_lt inode h b hb := by
    rw [shellMem_inode h] at hb ⊢
    have hlength : ((fileSystemInit shellMem 0x10000).fileLength 0).toNat = 28 := by decide
    rw [hlength] at hb
    have hzero : b = 0 := by
      unfold DATA_BLOCK_SIZE at hb
      omega
    rw [hzero]
    decide
  inode_lt := by decide +kernel

end OsKernel
