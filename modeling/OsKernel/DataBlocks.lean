import OsKernel.Image

/-!
# Files as sequences of data blocks

The format describes a file by its length and the numbers of the data blocks that hold its bytes, in
order. `read_data` computes addresses instead; on an image in memory both give the same bytes, for
every alignment of the offset, the length and the end of the file with the blocks.
-/

namespace OsKernel

/-- A buffer after bytes were stored from its start on. -/
def storeBytes (buf : Bytes) (stored : List UInt8) : Bytes := fun i => stored.getD i (buf i)

namespace FileSystem

variable (fs : FileSystem)

/-- The inode of a file that the format allows: a length of at most 1023 blocks, all of them data blocks
of the image. -/
structure Covered (inode : UInt32) : Prop where
  length_le : (fs.fileLength inode).toNat ≤ 1023 * DATA_BLOCK_SIZE
  block_lt : ∀ b, b * DATA_BLOCK_SIZE < (fs.fileLength inode).toNat →
    fs.numOfBlocks inode (UInt32.ofNat b) < fs.dataBlockSize

/-- Data block `b` of the image. -/
def dataBlock (b : ℕ) : List UInt8 :=
  (List.range DATA_BLOCK_SIZE).map fun r =>
    fs.mem (UInt32.ofNat (fs.dataBlockAddr.toNat + b * DATA_BLOCK_SIZE + r))

/-- The data blocks of the image. -/
def dataBlocks : List (List UInt8) := (List.range fs.dataBlockSize.toNat).map fs.dataBlock

/-- Byte `k` of a file by the format: byte `k mod 4096` of the data block that entry `k / 4096` of the
inode's table names. -/
def formatByte (inode : UInt32) (k : ℕ) : Option UInt8 :=
  (fs.dataBlocks[(fs.numOfBlocks inode (UInt32.ofNat (k / DATA_BLOCK_SIZE))).toNat]?).bind
    fun block => block[k % DATA_BLOCK_SIZE]?

/-- The address `read_data` computes for byte `k` of a file. -/
def byteAddr (inode : UInt32) (k : ℕ) : UInt32 :=
  fs.dataInfo inode (UInt32.ofNat (k / DATA_BLOCK_SIZE)) + UInt32.ofNat (k % DATA_BLOCK_SIZE)

variable {fs} {inode offset length : UInt32}

/-- That address is the one of the byte in its data block. -/
theorem byteAddr_eq (k : ℕ) :
    fs.byteAddr inode k = UInt32.ofNat (fs.dataBlockAddr.toNat +
      (fs.numOfBlocks inode (UInt32.ofNat (k / DATA_BLOCK_SIZE))).toNat * DATA_BLOCK_SIZE +
        k % DATA_BLOCK_SIZE) := by
  rw [byteAddr, dataInfo, UInt32.ofNat_add, UInt32.ofNat_add, UInt32.ofNat_mul, UInt32.ofNat_toNat,
    UInt32.ofNat_toNat]
  rfl

/-- Inside a covered file the format and the computed addresses give the same byte. -/
theorem Covered.formatByte_eq (h : fs.Covered inode) {k : ℕ} (hk : k < (fs.fileLength inode).toNat) :
    fs.formatByte inode k = some (fs.fileByte inode k) := by
  have hblock : (fs.numOfBlocks inode (UInt32.ofNat (k / DATA_BLOCK_SIZE))).toNat < fs.dataBlockSize.toNat :=
    h.block_lt (k / DATA_BLOCK_SIZE) (lt_of_le_of_lt (Nat.div_mul_le_self k DATA_BLOCK_SIZE) hk)
  have hrem : k % DATA_BLOCK_SIZE < DATA_BLOCK_SIZE := Nat.mod_lt k (by decide)
  rw [formatByte, dataBlocks, List.getElem?_map, List.getElem?_range hblock, Option.map_some,
    Option.bind_some, dataBlock, List.getElem?_map, List.getElem?_range hrem, Option.map_some,
    ← byteAddr_eq]
  rfl

/-- The bytes `read_data` leaves in a buffer. -/
theorem storeBytes_fileBytes (buf : Bytes) (start count i : ℕ) :
    storeBytes buf (fs.fileBytes inode start count) i =
      if i < count then fs.fileByte inode (start + i) else buf i := by
  rw [storeBytes, List.getD_eq_getElem?_getD, fileBytes, List.getElem?_map]
  by_cases h : i < count
  · rw [List.getElem?_range' h, Option.map_some, Option.getD_some, if_pos h, Nat.one_mul]
  · rw [List.getElem?_eq_none (by simpa using h), Option.map_none, Option.getD_none, if_neg h]

end FileSystem

/-- The files of a well-formed image are covered. -/
theorem Image.covered {image : Image} {inode : UInt32} (h : inode < image.fs.inodeSize) : image.fs.Covered inode :=
  ⟨image.length_le inode h, image.block_lt inode h⟩

namespace FileSystem

/-- `read_data` meets the format: on an image in memory it fails on a number that is no inode's, and on a
covered file it returns the number of bytes asked for or left, with exactly these bytes of the file in
the buffer. -/
theorem readData_format {mem : UInt32 → UInt8} {base : UInt32} (hplaced : Placed mem base)
    (inode offset length : UInt32) (buf : Bytes)
    (hcovered : inode < (fileSystemInit mem base).inodeSize → (fileSystemInit mem base).Covered inode) :
    let fs := fileSystemInit mem base
    ∃ ret stored, fs.readData inode offset length = some (ret, stored) ∧
      (inode ≥ fs.inodeSize → ret = FAIL ∧ storeBytes buf stored = buf) ∧
      (inode < fs.inodeSize →
        let m := min length.toNat ((fs.fileLength inode).toNat - offset.toNat)
        ret.toNat = m ∧
          (∀ k < m, fs.formatByte inode (offset.toNat + k) = some (storeBytes buf stored k)) ∧
          ∀ i, m ≤ i → storeBytes buf stored i = buf i) := by
  intro fs
  by_cases hinode : inode ≥ fs.inodeSize
  · have hfail : fs.readData inode offset length = some (FAIL, []) := by rw [readData, if_pos hinode]
    exact ⟨FAIL, [], hfail, fun _ => ⟨rfl, rfl⟩, fun h => absurd hinode (UInt32.not_le.mpr h)⟩
  · have hlt : inode < fs.inodeSize := UInt32.not_le.mp hinode
    have hcov : fs.Covered inode := hcovered hlt
    have hread : fs.readData inode offset length = _ := readData_eq hlt (hplaced.inodeInfo_ne_zero hlt)
    refine ⟨_, _, hread, fun h => absurd h hinode, fun _ => ?_⟩
    intro m
    have hm : fs.readCount inode offset.toNat length.toNat = m := rfl
    rw [hm]
    refine ⟨UInt32.toNat_ofNat_of_lt' (lt_of_le_of_lt (Nat.min_le_left _ _) length.toNat_lt), ?_, ?_⟩
    · intro k hk
      have hinside : offset.toNat + k < (fs.fileLength inode).toNat := by omega
      rw [hcov.formatByte_eq hinside, storeBytes_fileBytes, if_pos hk]
    · intro i hi
      rw [storeBytes_fileBytes, if_neg (by omega)]

/-- Reading three bytes of the one executable from its second byte on. -/
theorem readData_format_shell : ∃ ret stored,
    (fileSystemInit shellMem 0x10000).readData 0 1 3 = some (ret, stored) ∧ ret.toNat = 3 ∧
      storeBytes (toBytes [9, 9, 9, 9]) stored 2 = 0x46 ∧ storeBytes (toBytes [9, 9, 9, 9]) stored 3 = 9 := by
  obtain ⟨ret, stored, hread, -, hread'⟩ :=
    readData_format shellImage.placed 0 1 3 (toBytes [9, 9, 9, 9]) fun h => Image.covered h
  obtain ⟨hret, hbytes, hrest⟩ := hread' (by decide)
  have hthird : (fileSystemInit shellMem 0x10000).formatByte 0 3 = some 0x46 := by decide +kernel
  refine ⟨ret, stored, hread, hret, Option.some.inj ((hbytes 2 (by decide +kernel)).symm.trans hthird), ?_⟩
  exact hrest 3 (by decide +kernel)

end FileSystem

end OsKernel
