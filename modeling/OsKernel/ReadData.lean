import OsKernel.FileSystem

/-!
# What `read_data` delivers

The two loops walk through the blocks of the file without losing or repeating a byte: from any
offset, `read_data` stores the bytes that follow it, as many as asked for or as are left.
-/

namespace OsKernel

namespace FileSystem

variable (fs : FileSystem)

/-- Byte `k` of a file, found through its block table. -/
def fileByte (inode : UInt32) (k : ℕ) : UInt8 :=
  fs.mem (fs.dataInfo inode (UInt32.ofNat (k / DATA_BLOCK_SIZE)) + UInt32.ofNat (k % DATA_BLOCK_SIZE))

/-- The bytes of a file from an offset on. -/
def fileBytes (inode : UInt32) (offset count : ℕ) : List UInt8 :=
  (List.range' offset count).map (fs.fileByte inode)

/-- The whole content of a file. -/
def fileContent (inode : UInt32) : List UInt8 := fs.fileBytes inode 0 (fs.fileLength inode).toNat

/-- How many bytes a read of `length` at `offset` finds. -/
def readCount (inode : UInt32) (offset length : ℕ) : ℕ :=
  min length ((fs.fileLength inode).toNat - offset)

variable {fs} {inode offset length : UInt32}

@[simp] theorem length_fileBytes (a count : ℕ) : (fs.fileBytes inode a count).length = count := by
  simp [fileBytes]

@[simp] theorem fileBytes_zero (a : ℕ) : fs.fileBytes inode a 0 = [] := rfl

/-- One more byte in front. -/
theorem fileBytes_succ (a count : ℕ) :
    fs.fileBytes inode a (count + 1) = fs.fileByte inode a :: fs.fileBytes inode (a + 1) count := by
  simp [fileBytes, List.range'_succ]

/-- Consecutive parts of a file join. -/
theorem fileBytes_append (a m n : ℕ) :
    fs.fileBytes inode a m ++ fs.fileBytes inode (a + m) n = fs.fileBytes inode a (m + n) := by
  simp [fileBytes, ← List.map_append]

/-- A prefix of the content is the bytes from the start. -/
theorem take_fileContent (n : ℕ) :
    (fs.fileContent inode).take n = fs.fileBytes inode 0 (min n (fs.fileLength inode).toNat) := by
  simp [fileContent, fileBytes, ← List.map_take, ← List.range_eq_range']

/-- What the loop of `read_data` leaves to do after `b` bytes. -/
def Remaining (fs : FileSystem) (inode offset length : UInt32) (b rest : ℕ) : Prop :=
  b + rest ≤ length.toNat ∧ offset.toNat + b + rest ≤ (fs.fileLength inode).toNat ∧
    (b + rest = length.toNat ∨ offset.toNat + b + rest = (fs.fileLength inode).toNat)

/-- The loop's exit test, read on naturals. -/
theorem readTurns_exit_iff {b rest : ℕ} (h : Remaining fs inode offset length b rest) :
    (offset + UInt32.ofNat b = fs.fileLength inode ∨ UInt32.ofNat b = length) ↔ rest = 0 := by
  obtain ⟨hlength, hfile, hlast⟩ := h
  have hmax := (fs.fileLength inode).toNat_lt
  have hb : (UInt32.ofNat b).toNat = b := UInt32.toNat_ofNat_of_lt' (by rw [UInt32.size]; omega)
  rw [← UInt32.toNat_inj, ← UInt32.toNat_inj, UInt32.toNat_add, hb, Nat.mod_eq_of_lt (by omega)]
  omega

/-- A full block is left for the next one. -/
theorem readTurns_nextBlock (fuel : ℕ) (idxVal dataInfo bytesIncr : UInt32) :
    fs.readTurns inode offset length (fuel + 1) idxVal DATA_BLOCK_SIZE dataInfo bytesIncr =
      fs.readTurns inode offset length fuel (idxVal + 1) 0 (fs.dataInfo inode (idxVal + 1)) bytesIncr := by
  rw [readTurns, if_neg (lt_irrefl _)]

/-- From inside a block, enough turns deliver exactly the remaining bytes. -/
theorem readTurns_eq {rest fuel idx j b : ℕ} (h : Remaining fs inode offset length b rest)
    (hpos : offset.toNat + b = idx * DATA_BLOCK_SIZE + j) (hj : j < DATA_BLOCK_SIZE)
    (hfuel : 2 * rest + 1 ≤ fuel) :
    fs.readTurns inode offset length fuel (UInt32.ofNat idx) j
        (fs.dataInfo inode (UInt32.ofNat idx)) (UInt32.ofNat b) =
      some (UInt32.ofNat (b + rest), fs.fileBytes inode (offset.toNat + b) rest) := by
  induction rest generalizing fuel idx j b with
  | zero =>
    obtain ⟨fuel, rfl⟩ := Nat.exists_eq_succ_of_ne_zero (by omega : fuel ≠ 0)
    rw [readTurns, if_pos hj, if_pos ((readTurns_exit_iff h).mpr rfl)]
    rfl
  | succ rest ih =>
    obtain ⟨fuel, rfl⟩ := Nat.exists_eq_succ_of_ne_zero (by omega : fuel ≠ 0)
    have hnext : Remaining fs inode offset length (b + 1) rest := by
      unfold Remaining at h ⊢
      omega
    have hbyte : fs.mem (fs.dataInfo inode (UInt32.ofNat idx) + UInt32.ofNat j) =
        fs.fileByte inode (offset.toNat + b) := by
      rw [fileByte, hpos, Nat.mul_add_mod_of_lt hj, Nat.mul_comm, Nat.mul_add_div (by decide),
        Nat.div_eq_of_lt hj, Nat.add_zero]
    have hrest : fs.readTurns inode offset length fuel (UInt32.ofNat idx) (j + 1)
        (fs.dataInfo inode (UInt32.ofNat idx)) (UInt32.ofNat (b + 1)) =
        some (UInt32.ofNat (b + 1 + rest), fs.fileBytes inode (offset.toNat + (b + 1)) rest) := by
      rcases Nat.lt_or_eq_of_le (show j + 1 ≤ DATA_BLOCK_SIZE from hj) with hin | hfull
      · exact ih hnext (by omega) hin (by omega)
      · obtain ⟨fuel, rfl⟩ := Nat.exists_eq_succ_of_ne_zero (by omega : fuel ≠ 0)
        rw [hfull, readTurns_nextBlock, ← UInt32.ofNat_one, ← UInt32.ofNat_add]
        exact ih hnext (by rw [Nat.succ_mul]; omega) (by decide) (by omega)
    rw [readTurns, if_pos hj, if_neg (by rw [readTurns_exit_iff h]; exact Nat.succ_ne_zero rest),
      hbyte, ← UInt32.ofNat_one, ← UInt32.ofNat_add, hrest, fileBytes_succ, Nat.add_right_comm b 1 rest]
    rfl

/-- `read_data` returns for every image and delivers the bytes at the offset, as many as asked for
or as are left. -/
theorem readData_eq (hinode : inode < fs.inodeSize) (hinfo : fs.inodeInfo inode ≠ 0) :
    fs.readData inode offset length =
      some (UInt32.ofNat (fs.readCount inode offset.toNat length.toNat),
        fs.fileBytes inode offset.toNat (fs.readCount inode offset.toNat length.toNat)) := by
  rw [readData, if_neg (by simpa using hinode), if_neg hinfo]
  by_cases hend : offset ≥ fs.fileLength inode
  · have hnone : fs.readCount inode offset.toNat length.toNat = 0 := by
      have hle : (fs.fileLength inode).toNat ≤ offset.toNat := hend
      simp only [readCount]
      omega
    rw [if_pos hend, hnone]
    rfl
  · have hlt : offset.toNat < (fs.fileLength inode).toNat := not_le.mp hend
    rw [if_neg hend]
    have hrest : Remaining fs inode offset length 0 (fs.readCount inode offset.toNat length.toNat) := by
      simp only [Remaining, readCount]
      omega
    have hdiv : offset / 4096 = UInt32.ofNat (offset.toNat / DATA_BLOCK_SIZE) := by
      rw [← UInt32.toNat_inj, UInt32.toNat_div, UInt32.toNat_ofNat_of_lt']
      · rfl
      · exact lt_of_le_of_lt (Nat.div_le_self _ _) offset.toNat_lt
    have hturns : fs.readTurns inode offset length (2 * (fs.fileLength inode).toNat + 2)
        (UInt32.ofNat (offset.toNat / DATA_BLOCK_SIZE)) (offset.toNat % DATA_BLOCK_SIZE)
        (fs.dataInfo inode (UInt32.ofNat (offset.toNat / DATA_BLOCK_SIZE))) (UInt32.ofNat 0) =
          some (UInt32.ofNat (0 + fs.readCount inode offset.toNat length.toNat),
            fs.fileBytes inode offset.toNat (fs.readCount inode offset.toNat length.toNat)) :=
      readTurns_eq hrest (by rw [Nat.mul_comm]; exact (Nat.div_add_mod _ _).symm)
        (Nat.mod_lt _ (by decide)) (by simp only [readCount]; omega)
    rw [Nat.zero_add] at hturns
    rw [hdiv]
    exact hturns

/-- The fuel of `read_data` is enough for every inode, offset and length. -/
theorem readData_isSome (fs : FileSystem) (inode offset length : UInt32) :
    (fs.readData inode offset length).isSome := by
  by_cases hinode : inode ≥ fs.inodeSize
  · rw [readData, if_pos hinode]
    rfl
  by_cases hinfo : fs.inodeInfo inode = 0
  · rw [readData, if_neg hinode, if_pos hinfo]
    rfl
  rw [readData_eq (UInt32.not_le.mp hinode) hinfo]
  rfl

/-- What a call of `read_data` returns and stores. -/
def readBytes (fs : FileSystem) (inode offset length : UInt32) : UInt32 × List UInt8 :=
  (fs.readData inode offset length).get (fs.readData_isSome inode offset length)

/-- The specification of `read_data` for the calls of the kernel. -/
theorem readBytes_eq (hinode : inode < fs.inodeSize) (hinfo : fs.inodeInfo inode ≠ 0) :
    fs.readBytes inode offset length =
      (UInt32.ofNat (fs.readCount inode offset.toNat length.toNat),
        fs.fileBytes inode offset.toNat (fs.readCount inode offset.toNat length.toNat)) := by
  simp only [readBytes, readData_eq hinode hinfo, Option.get_some]

/-- An inode that `read_data` refuses. -/
theorem readBytes_fail (h : ¬(inode < fs.inodeSize ∧ fs.inodeInfo inode ≠ 0)) :
    fs.readBytes inode offset length = (FAIL, []) := by
  have hdata : fs.readData inode offset length = some (FAIL, []) := by
    rw [readData]
    by_cases hinode : inode ≥ fs.inodeSize
    · rw [if_pos hinode]
    · have hinfo : fs.inodeInfo inode = 0 := by
        by_contra hne
        exact h ⟨UInt32.not_le.mp hinode, hne⟩
      rw [if_neg hinode, if_pos hinfo]
  simp only [readBytes, hdata, Option.get_some]

end FileSystem

end OsKernel
