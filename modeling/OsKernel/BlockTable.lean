import OsKernel.DataBlocks

/-!
# Where `read_data` looks

The loop advances to the next block as soon as one is full, before it tests whether the read is over.
The accesses of a call are listed here in order, beside the loop that computes its result: which
entries of the inode's block table it reads, and from which addresses it copies.
-/

namespace OsKernel

/-- An access of `read_data` to the image behind the inode's length. -/
inductive ReadAccess where
  | table (idx : UInt32)
  | copy (addr : UInt32)
  deriving DecidableEq

/-- The address a byte is copied from. -/
def ReadAccess.copyAddr : ReadAccess → Option UInt32
  | .table _ => none
  | .copy addr => some addr

namespace FileSystem

variable (fs : FileSystem)

/-- The accesses of the nested loops, turn by turn as in `readTurns`. -/
def turnAccesses (inode offset length : UInt32) :
    (fuel : ℕ) → (idxVal : UInt32) → (j : ℕ) → (dataInfo bytesIncr : UInt32) → List ReadAccess
  | 0, _, _, _, _ => []
  | fuel + 1, idxVal, j, dataInfo, bytesIncr =>
    if j < DATA_BLOCK_SIZE then
      if offset + bytesIncr = fs.fileLength inode ∨ bytesIncr = length then []
      else
        .copy (dataInfo + UInt32.ofNat j) ::
          turnAccesses inode offset length fuel idxVal (j + 1) dataInfo (bytesIncr + 1)
    else
      .table (idxVal + 1) ::
        turnAccesses inode offset length fuel (idxVal + 1) 0 (fs.dataInfo inode (idxVal + 1)) bytesIncr

/-- The accesses of `read_data`: the first table entry is read before the loops start. -/
def readAccesses (inode offset length : UInt32) : List ReadAccess :=
  if inode ≥ fs.inodeSize then []
  else if fs.inodeInfo inode = 0 then []
  else if offset ≥ fs.fileLength inode then []
  else
    .table (offset / 4096) ::
      fs.turnAccesses inode offset length (2 * (fs.fileLength inode).toNat + 2) (offset / 4096)
        (offset % 4096).toNat (fs.dataInfo inode (offset / 4096)) 0

variable {fs} {inode offset length : UInt32}

/-- The loops store the bytes at the addresses they copy from. -/
theorem readTurns_accesses {fuel j : ℕ} {idxVal dataInfo bytesIncr : UInt32} {r : UInt32 × List UInt8}
    (h : fs.readTurns inode offset length fuel idxVal j dataInfo bytesIncr = some r) :
    r.2 = ((fs.turnAccesses inode offset length fuel idxVal j dataInfo bytesIncr).filterMap
      ReadAccess.copyAddr).map fs.mem := by
  induction fuel generalizing idxVal j dataInfo bytesIncr r with
  | zero => cases h
  | succ fuel ih =>
    rw [readTurns] at h
    rw [turnAccesses]
    by_cases hj : j < DATA_BLOCK_SIZE
    · rw [if_pos hj] at h ⊢
      by_cases hexit : offset + bytesIncr = fs.fileLength inode ∨ bytesIncr = length
      · rw [if_pos hexit] at h ⊢
        cases h
        rfl
      · rw [if_neg hexit] at h ⊢
        obtain ⟨rest, hrest, rfl⟩ := Option.map_eq_some_iff.mp h
        simp only [List.filterMap_cons, ReadAccess.copyAddr, List.map_cons, ih hrest]
    · rw [if_neg hj] at h ⊢
      simp only [List.filterMap_cons, ReadAccess.copyAddr]
      exact ih h

/-- `read_data` stores the bytes at the addresses it copies from. -/
theorem readData_accesses {r : UInt32 × List UInt8} (h : fs.readData inode offset length = some r) :
    r.2 = ((fs.readAccesses inode offset length).filterMap ReadAccess.copyAddr).map fs.mem := by
  rw [readData] at h
  rw [readAccesses]
  by_cases hinode : inode ≥ fs.inodeSize
  · rw [if_pos hinode] at h ⊢
    rw [← Option.some.inj h]
    rfl
  rw [if_neg hinode] at h ⊢
  by_cases hinfo : fs.inodeInfo inode = 0
  · rw [if_pos hinfo] at h ⊢
    rw [← Option.some.inj h]
    rfl
  rw [if_neg hinfo] at h ⊢
  by_cases hend : offset ≥ fs.fileLength inode
  · rw [if_pos hend] at h ⊢
    rw [← Option.some.inj h]
    rfl
  rw [if_neg hend] at h ⊢
  have hturns := readTurns_accesses h
  rw [hturns, List.filterMap_cons_none]
  rw [ReadAccess.copyAddr]

/-- What the loops access from a position in a block on: the remaining bytes, and the table entry of
every block they come to the start of, also when no byte of it is left to copy. -/
theorem mem_turnAccesses {a : ReadAccess} {rest fuel idx j b : ℕ} (h : Remaining fs inode offset length b rest)
    (hpos : offset.toNat + b = idx * DATA_BLOCK_SIZE + j) (hj : j < DATA_BLOCK_SIZE)
    (hfuel : 2 * rest + 1 ≤ fuel) :
    a ∈ fs.turnAccesses inode offset length fuel (UInt32.ofNat idx) j
        (fs.dataInfo inode (UInt32.ofNat idx)) (UInt32.ofNat b) ↔
      (∃ k < rest, a = .copy (fs.byteAddr inode (offset.toNat + b + k))) ∨
        ∃ i, idx < i ∧ i * DATA_BLOCK_SIZE ≤ offset.toNat + b + rest ∧ a = .table (UInt32.ofNat i) := by
  induction rest generalizing fuel idx j b with
  | zero =>
    obtain ⟨fuel, rfl⟩ := Nat.exists_eq_succ_of_ne_zero (by omega : fuel ≠ 0)
    rw [turnAccesses, if_pos hj, if_pos ((readTurns_exit_iff h).mpr rfl)]
    constructor
    · intro hmem
      cases hmem
    · intro hmem
      rcases hmem with ⟨k, hk, -⟩ | ⟨i, hi, hle, -⟩
      · exact absurd hk (Nat.not_lt_zero k)
      · have hblock : (idx + 1) * DATA_BLOCK_SIZE ≤ i * DATA_BLOCK_SIZE := Nat.mul_le_mul_right _ hi
        rw [Nat.succ_mul] at hblock
        omega
  | succ rest ih =>
    obtain ⟨fuel, rfl⟩ := Nat.exists_eq_succ_of_ne_zero (by omega : fuel ≠ 0)
    have hnext : Remaining fs inode offset length (b + 1) rest := by
      unfold Remaining at h ⊢
      omega
    have haddr : fs.dataInfo inode (UInt32.ofNat idx) + UInt32.ofNat j = fs.byteAddr inode (offset.toNat + b) := by
      rw [byteAddr, hpos, Nat.mul_add_mod_of_lt hj, Nat.mul_comm, Nat.mul_add_div (by decide),
        Nat.div_eq_of_lt hj, Nat.add_zero]
    have hcopy (P : Prop) : (a = .copy (fs.byteAddr inode (offset.toNat + b)) ∨
        (∃ k < rest, a = .copy (fs.byteAddr inode (offset.toNat + (b + 1) + k))) ∨ P) ↔
        (∃ k < rest + 1, a = .copy (fs.byteAddr inode (offset.toNat + b + k))) ∨ P := by
      rw [← or_assoc, Nat.exists_lt_succ_left]
      simp only [Nat.add_zero, Nat.add_assoc, Nat.add_comm 1]
    rw [turnAccesses, if_pos hj, if_neg (by rw [readTurns_exit_iff h]; exact Nat.succ_ne_zero rest),
      List.mem_cons, haddr, ← UInt32.ofNat_one, ← UInt32.ofNat_add, ← hcopy]
    apply or_congr_right
    rcases Nat.lt_or_eq_of_le (show j + 1 ≤ DATA_BLOCK_SIZE from hj) with hin | hfull
    · rw [ih hnext (by omega) hin (by omega)]
      simp only [Nat.add_assoc, Nat.add_comm 1]
    · -- the next entry is read before the exit test of the block it names
      obtain ⟨fuel, rfl⟩ := Nat.exists_eq_succ_of_ne_zero (by omega : fuel ≠ 0)
      have hstart : offset.toNat + (b + 1) = (idx + 1) * DATA_BLOCK_SIZE + 0 := by
        rw [Nat.succ_mul]
        omega
      rw [hfull, turnAccesses, if_neg (lt_irrefl _), ← UInt32.ofNat_one, ← UInt32.ofNat_add, List.mem_cons,
        ih hnext hstart (by decide) (by omega), or_left_comm]
      apply or_congr_right
      constructor
      · intro hmem
        rcases hmem with rfl | ⟨i, hi, hle, rfl⟩
        · exact ⟨idx + 1, Nat.lt_succ_self idx, by omega, rfl⟩
        · exact ⟨i, by omega, by omega, rfl⟩
      · intro hmem
        obtain ⟨i, hi, hle, rfl⟩ := hmem
        rcases Nat.lt_or_eq_of_le hi with hlt | rfl
        · exact Or.inr ⟨i, hlt, by omega, rfl⟩
        · exact Or.inl rfl

/-- What a call accesses: the bytes it delivers, and the table entries from the block of the offset to
that of the first position behind these bytes. -/
theorem mem_readAccesses {a : ReadAccess} (hinode : inode < fs.inodeSize) (hinfo : fs.inodeInfo inode ≠ 0)
    (hoffset : offset < fs.fileLength inode) :
    a ∈ fs.readAccesses inode offset length ↔
      (∃ k < fs.readCount inode offset.toNat length.toNat, a = .copy (fs.byteAddr inode (offset.toNat + k))) ∨
        ∃ i, offset.toNat / DATA_BLOCK_SIZE ≤ i ∧
          i * DATA_BLOCK_SIZE ≤ offset.toNat + fs.readCount inode offset.toNat length.toNat ∧
          a = .table (UInt32.ofNat i) := by
  have hlt : offset.toNat < (fs.fileLength inode).toNat := hoffset
  have hrest : Remaining fs inode offset length 0 (fs.readCount inode offset.toNat length.toNat) := by
    simp only [Remaining, readCount]
    omega
  have hdiv : offset / 4096 = UInt32.ofNat (offset.toNat / DATA_BLOCK_SIZE) := by
    rw [← UInt32.toNat_inj, UInt32.toNat_div, UInt32.toNat_ofNat_of_lt']
    · rfl
    · exact lt_of_le_of_lt (Nat.div_le_self _ _) offset.toNat_lt
  have hturns : a ∈ fs.turnAccesses inode offset length (2 * (fs.fileLength inode).toNat + 2)
      (UInt32.ofNat (offset.toNat / DATA_BLOCK_SIZE)) (offset.toNat % DATA_BLOCK_SIZE)
      (fs.dataInfo inode (UInt32.ofNat (offset.toNat / DATA_BLOCK_SIZE))) (UInt32.ofNat 0) ↔ _ :=
    mem_turnAccesses hrest (by rw [Nat.mul_comm]; exact (Nat.div_add_mod _ _).symm)
      (Nat.mod_lt _ (by decide)) (by simp only [readCount]; omega)
  have hmod : (offset % 4096).toNat = offset.toNat % DATA_BLOCK_SIZE := UInt32.toNat_mod _ _
  have hzero : (0 : UInt32) = UInt32.ofNat 0 := rfl
  rw [readAccesses, if_neg (UInt32.not_le.mpr hinode), if_neg hinfo, if_neg (UInt32.not_le.mpr hoffset),
    List.mem_cons, hdiv, hmod, hzero, hturns, or_left_comm]
  apply or_congr_right
  constructor
  · intro hmem
    rcases hmem with rfl | ⟨i, hi, hle, rfl⟩
    · exact ⟨_, le_refl _, le_trans (Nat.div_mul_le_self _ _) (Nat.le_add_right _ _), rfl⟩
    · exact ⟨i, le_of_lt hi, hle, rfl⟩
  · intro hmem
    obtain ⟨i, hi, hle, rfl⟩ := hmem
    rcases Nat.lt_or_eq_of_le hi with hbehind | rfl
    · exact Or.inr ⟨i, hbehind, hle, rfl⟩
    · exact Or.inl rfl

end FileSystem

/-- An access inside the 1023 entries of the block table, or inside the data blocks of the image. -/
def ReadAccess.Inside (fs : FileSystem) : ReadAccess → Prop
  | .table idx => idx.toNat ≤ 1022
  | .copy addr => fs.dataBlockAddr.toNat ≤ addr.toNat ∧
      addr.toNat < fs.dataBlockAddr.toNat + fs.dataBlockSize.toNat * DATA_BLOCK_SIZE

namespace Image

variable {image : Image} {inode offset length : UInt32}

/-- The data blocks end inside the address space. -/
theorem dataBlocks_fit (image : Image) :
    image.fs.dataBlockAddr.toNat + image.fs.dataBlockSize.toNat * DATA_BLOCK_SIZE ≤ 4294967296 := by
  have hfits := image.fits
  have haddr : image.fs.dataBlockAddr = image.base + 4096 + image.fs.inodeSize * 4096 := rfl
  change image.base.toNat + 4096 * (1 + image.fs.inodeSize.toNat + image.fs.dataBlockSize.toNat) ≤ _ at hfits
  rw [haddr, UInt32.toNat_add, UInt32.toNat_add, UInt32.toNat_mul, DATA_BLOCK_SIZE]
  simp only [UInt32.reduceToNat]
  omega

/-- Every byte of a file comes from the data blocks. -/
theorem byteAddr_inside (hinode : inode < image.fs.inodeSize) {k : ℕ}
    (hk : k < (image.fs.fileLength inode).toNat) :
    ReadAccess.Inside image.fs (.copy (image.fs.byteAddr inode k)) := by
  have hblock : (image.fs.numOfBlocks inode (UInt32.ofNat (k / DATA_BLOCK_SIZE))).toNat + 1 ≤
      image.fs.dataBlockSize.toNat :=
    image.block_lt inode hinode (k / DATA_BLOCK_SIZE) (lt_of_le_of_lt (Nat.div_mul_le_self k _) hk)
  have hrem : k % DATA_BLOCK_SIZE < DATA_BLOCK_SIZE := Nat.mod_lt k (by decide)
  have hend := Nat.mul_le_mul_right DATA_BLOCK_SIZE hblock
  have hfit := image.dataBlocks_fit
  rw [Nat.succ_mul] at hend
  rw [ReadAccess.Inside, FileSystem.byteAddr_eq, UInt32.toNat_ofNat_of_lt' (by rw [UInt32.size]; omega)]
  omega

/-- A call stays inside the block table and the data blocks exactly when it does not read to the end of
a file that fills the whole table. -/
theorem readAccesses_inside_iff (image : Image) (inode offset length : UInt32)
    (hinode : inode < image.fs.inodeSize) :
    (∀ a ∈ image.fs.readAccesses inode offset length, a.Inside image.fs) ↔
      ¬((image.fs.fileLength inode).toNat = 1023 * DATA_BLOCK_SIZE ∧
        offset.toNat < (image.fs.fileLength inode).toNat ∧
        (image.fs.fileLength inode).toNat ≤ offset.toNat + length.toNat) := by
  have hmax := image.length_le inode hinode
  change (image.fs.fileLength inode).toNat ≤ _ at hmax
  have hinfo := inodeInfo_ne_zero hinode
  constructor
  · intro hinside hlast
    obtain ⟨hfull, hoffset, hend⟩ := hlast
    have hmem : ReadAccess.table (UInt32.ofNat 1023) ∈ image.fs.readAccesses inode offset length := by
      rw [FileSystem.mem_readAccesses hinode hinfo hoffset]
      have hcount : offset.toNat + image.fs.readCount inode offset.toNat length.toNat = 1023 * DATA_BLOCK_SIZE := by
        rw [FileSystem.readCount]
        omega
      refine Or.inr ⟨1023, ?_, by rw [hcount], rfl⟩
      exact Nat.le_of_lt (Nat.div_lt_of_lt_mul (by rw [Nat.mul_comm]; omega))
    exact absurd (show (UInt32.ofNat 1023).toNat ≤ 1022 from hinside _ hmem) (by decide)
  · intro hlast a ha
    by_cases hoffset : offset < image.fs.fileLength inode
    · rw [FileSystem.mem_readAccesses hinode hinfo hoffset] at ha
      have hlt : offset.toNat < (image.fs.fileLength inode).toNat := hoffset
      rw [FileSystem.readCount] at ha
      rcases ha with ⟨k, hk, rfl⟩ | ⟨i, -, hle, rfl⟩
      · exact byteAddr_inside hinode (by omega)
      · have hi : i < 1023 := by
          rw [DATA_BLOCK_SIZE] at hle hmax hlast
          omega
        rw [ReadAccess.Inside, UInt32.toNat_ofNat_of_lt' (by rw [UInt32.size]; omega)]
        omega
    · rw [FileSystem.readAccesses, if_neg (UInt32.not_le.mpr hinode), if_neg hinfo,
        if_pos (UInt32.not_lt.mp hoffset)] at ha
      cases ha

end Image

/-- Memory with the image of one executable, grown to the 1023 blocks that the format allows; its block
table names data block 0 throughout. -/
def fullMem (a : UInt32) : UInt8 :=
  if a = 0x11000 then 0 else if a = 0x11001 then 0xF0 else if a = 0x11002 then 0x3F else shellMem a

/-- The block table holds zeros. -/
theorem fullMem_table {a : UInt32} (hlo : 0x11002 < a.toNat) (hhi : a.toNat < 0x12000) : fullMem a = 0 := by
  have hne {b : UInt32} (hb : b.toNat ≤ 0x11002 ∨ 0x12000 ≤ b.toNat) : a ≠ b := by
    intro heq
    rw [heq] at hlo hhi
    omega
  have hkeys : shellImageBytes.all (fun p => p.1.toNat ≤ 0x11002 ∨ 0x12000 ≤ p.1.toNat) = true := by decide
  have hnone : shellImageBytes.lookup a = none :=
    List.lookup_eq_none_iff.mpr fun p hp =>
      bne_iff_ne.mpr (hne (of_decide_eq_true (List.all_eq_true.mp hkeys p hp)))
  rw [fullMem, if_neg (hne (by decide)), if_neg (hne (by decide)), if_neg (hne (by decide)), shellMem, hnone]
  rfl

/-- Block 0 stands in every entry of a table of zeros. -/
theorem numOfBlocks_zero {mem : UInt32 → UInt8}
    (hzero : ∀ a : UInt32, 0x11002 < a.toNat → a.toNat < 0x12000 → mem a = 0) {b : ℕ} (hb : b < 1023) :
    (fileSystemInit mem 0x10000).numOfBlocks 0 (UInt32.ofNat b) = 0 := by
  have hinfo : (fileSystemInit mem 0x10000).inodeInfo 0 + 4 = 0x11004 := rfl
  have hentry : ((0x11004 : UInt32) + UInt32.ofNat b * 4).toNat = 0x11004 + b * 4 := by
    rw [UInt32.toNat_add, UInt32.toNat_mul, UInt32.toNat_ofNat_of_lt' (by rw [UInt32.size]; omega)]
    simp only [UInt32.reduceToNat]
    omega
  have hbyte (c : UInt32) (hc : c.toNat ≤ 3) : mem (0x11004 + UInt32.ofNat b * 4 + c) = 0 := by
    have hsum : ((0x11004 : UInt32) + UInt32.ofNat b * 4 + c).toNat = 0x11004 + b * 4 + c.toNat := by
      rw [UInt32.toNat_add, hentry]
      omega
    apply hzero <;> omega
  have hfirst : mem (0x11004 + UInt32.ofNat b * 4) = 0 := by
    apply hzero <;> omega
  change loadWord mem ((fileSystemInit mem 0x10000).inodeInfo 0 + 4 + UInt32.ofNat b * 4) = 0
  rw [hinfo, loadWord, hfirst, hbyte 1 (by decide), hbyte 2 (by decide), hbyte 3 (by decide)]
  rfl

/-- The only inode of that image. -/
theorem fullMem_inode {inode : UInt32} (h : inode < (fileSystemInit fullMem 0x10000).inodeSize) : inode = 0 :=
  inode_eq_zero (by decide) h

/-- Its file has only block 0, over and over. -/
theorem fullMem_block_lt {inode : UInt32} (h : inode < (fileSystemInit fullMem 0x10000).inodeSize) {b : ℕ}
    (hb : b * DATA_BLOCK_SIZE < ((fileSystemInit fullMem 0x10000).fileLength inode).toNat) :
    (fileSystemInit fullMem 0x10000).numOfBlocks inode (UInt32.ofNat b) <
      (fileSystemInit fullMem 0x10000).dataBlockSize := by
  rw [fullMem_inode h] at hb ⊢
  have hlength : ((fileSystemInit fullMem 0x10000).fileLength 0).toNat = 1023 * DATA_BLOCK_SIZE := by decide
  rw [hlength] at hb
  rw [numOfBlocks_zero (fun a => fullMem_table) (Nat.lt_of_mul_lt_mul_right hb)]
  decide

/-- The image with the one full file is well-formed. -/
def fullImage : Image where
  mem := fullMem
  base := 0x10000
  fits := by decide
  base_pos := imageBase_pos
  length_le inode h := by
    rw [fullMem_inode h]
    decide
  block_lt _ h _ hb := fullMem_block_lt h hb
  inode_lt := by decide +kernel

/-- Reading the last byte of a file of 1023 blocks reads entry 1023 of its table. -/
theorem readAccesses_inside_full : ∃ (image : Image) (inode offset length : UInt32),
    inode < image.fs.inodeSize ∧ ¬∀ a ∈ image.fs.readAccesses inode offset length, a.Inside image.fs := by
  refine ⟨fullImage, 0, 4190207, 1, by decide, ?_⟩
  intro hinside
  have hmem : ReadAccess.table 1023 ∈ fullImage.fs.readAccesses 0 4190207 1 := by
    rw [FileSystem.mem_readAccesses (by decide) (by decide) (by decide)]
    exact Or.inr ⟨1023, by decide, by decide, rfl⟩
  exact absurd (show (1023 : UInt32).toNat ≤ 1022 from hinside _ hmem) (by decide)

/-- Reading all but the last byte of it stays inside. -/
theorem readAccesses_inside_partial :
    0 < fullImage.fs.inodeSize ∧ ∀ a ∈ fullImage.fs.readAccesses 0 0 4190207, a.Inside fullImage.fs :=
  ⟨by decide, (fullImage.readAccesses_inside_iff 0 0 4190207 (by decide)).mpr (by decide +kernel)⟩

end OsKernel
