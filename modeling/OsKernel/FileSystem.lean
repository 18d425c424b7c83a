import Mathlib.Data.Nat.Basic
import Mathlib.Data.UInt
import Mathlib.Tactic.Common

/-!
# The read-only file system

The boot loader leaves the image in memory: a boot block with the directory entries, the inodes,
the data blocks. All pointer arithmetic is on 32-bit addresses, and an index past a table reads
whatever lies behind it. The byte loop of `read_data` runs on fuel; that its fuel is enough for
every image is proved with its specification.
-/

namespace OsKernel

def MAX_FILENAME : ℕ := 32
def TOTAL_NUM_DIR : ℕ := 63
def DATA_BLOCK_SIZE : ℕ := 4096

/-- `-1` as an unsigned word. -/
def FAIL : UInt32 := 0xFFFFFFFF

/-- The error value is the largest word. -/
theorem toNat_FAIL : FAIL.toNat = 4294967295 := rfl

/-- The bytes at a pointer and behind it. -/
abbrev Bytes := ℕ → UInt8

/-- A byte list in memory, with NULs behind it. -/
def toBytes (bytes : List UInt8) : Bytes := fun i => bytes.getD i 0

/-- The loop of `strlen`, with the number of addresses left to look at. -/
def strlenFrom (s : Bytes) (len : ℕ) : ℕ → ℕ
  | 0 => len
  | left + 1 => if s len = 0 then len else strlenFrom s (len + 1) left

/-- `strlen` -/
def strlen (s : Bytes) : ℕ := strlenFrom s 0 4294967296

/-- A character as the signed `int8_t` it is compared as. -/
def charValue (c : UInt8) : ℤ := c.toInt8.toInt

/-- The loop of `strncmp` from index `i`, with the number of characters left. -/
def strncmpFrom (s1 s2 : Bytes) (i : ℕ) : ℕ → ℤ
  | 0 => 0
  | left + 1 =>
    if s1 i ≠ s2 i ∨ s1 i = 0 then charValue (s1 i) - charValue (s2 i)
    else strncmpFrom s1 s2 (i + 1) left

/-- `strncmp` -/
def strncmp (s1 s2 : Bytes) (n : ℕ) : ℤ := strncmpFrom s1 s2 0 n

/-- The loops of `strncpy` from index `i`: the characters it stores in the `n` cells left. -/
def strncpyFrom (src : Bytes) (i : ℕ) : ℕ → List UInt8
  | 0 => []
  | n + 1 => if src i = 0 then List.replicate (n + 1) 0 else src i :: strncpyFrom src (i + 1) n

/-- `strncpy`: the `n` bytes stored at the destination. -/
def strncpy (src : Bytes) (n : ℕ) : List UInt8 := strncpyFrom src 0 n

/-- The loops of `strncpy` fill the cells they are given. -/
@[simp] theorem length_strncpyFrom (src : Bytes) (i n : ℕ) : (strncpyFrom src i n).length = n := by
  induction n generalizing i with
  | zero => rfl
  | succ n ih =>
    rw [strncpyFrom]
    split
    · rw [List.length_replicate]
    · rw [List.length_cons, ih]

/-- `strncpy` stores exactly as many bytes as it is asked for. -/
theorem length_strncpy (src : Bytes) (n : ℕ) : (strncpy src n).length = n := length_strncpyFrom src 0 n

/-- `dentry_t` without its reserved bytes. -/
structure Dentry where
  fileName : List UInt8
  fileType : UInt32
  inodeIdx : UInt32
  deriving DecidableEq

/-- Memory with the image in it, and the three globals that point into it. -/
structure FileSystem where
  mem : UInt32 → UInt8
  bootBlockAddr : UInt32
  inodeAddr : UInt32
  dataBlockAddr : UInt32

/-- A little-endian word in memory. -/
def loadWord (mem : UInt32 → UInt8) (a : UInt32) : UInt32 :=
  (mem a).toUInt32 + (mem (a + 1)).toUInt32 * 0x100 + (mem (a + 2)).toUInt32 * 0x10000 +
    (mem (a + 3)).toUInt32 * 0x1000000

/-- `file_system_init`: a boot block and an inode each fill 4096 bytes. -/
def fileSystemInit (mem : UInt32 → UInt8) (baseAddress : UInt32) : FileSystem where
  mem
  bootBlockAddr := baseAddress
  inodeAddr := baseAddress + 4096
  dataBlockAddr := baseAddress + 4096 + loadWord mem (baseAddress + 4) * 4096

namespace FileSystem

variable (fs : FileSystem)

/-- `boot_block_addr->inode_size` -/
def inodeSize : UInt32 := loadWord fs.mem (fs.bootBlockAddr + 4)

/-- `boot_block_addr->data_block_size` -/
def dataBlockSize : UInt32 := loadWord fs.mem (fs.bootBlockAddr + 8)

/-- `boot_block_addr->dir_entries[i]` -/
def dirEntry (i : ℕ) : Dentry :=
  let entry := fs.bootBlockAddr + 64 + UInt32.ofNat i * 64
  { fileName := (List.range MAX_FILENAME).map fun j => fs.mem (entry + UInt32.ofNat j)
    fileType := loadWord fs.mem (entry + 32)
    inodeIdx := loadWord fs.mem (entry + 36) }

/-- `&inode_addr[inode]` -/
def inodeInfo (inode : UInt32) : UInt32 := fs.inodeAddr + inode * 4096

/-- `inode_addr[inode].file_length` -/
def fileLength (inode : UInt32) : UInt32 := loadWord fs.mem (fs.inodeInfo inode)

/-- `inode_addr[inode].num_of_blocks[idx]` -/
def numOfBlocks (inode idx : UInt32) : UInt32 :=
  loadWord fs.mem (fs.inodeInfo inode + 4 + idx * 4)

/-- `&data_block_addr[num_of_blocks[idx] * DATA_BLOCK_SIZE]` -/
def dataInfo (inode idx : UInt32) : UInt32 := fs.dataBlockAddr + fs.numOfBlocks inode idx * 4096

/-- The test of `read_dentry_by_name` on one directory entry. -/
def nameMatches (fname : Bytes) (entry : Dentry) : Bool :=
  let dentryName := toBytes entry.fileName
  strlen dentryName = strlen fname && strncmp dentryName fname MAX_FILENAME = 0

/-- `read_dentry_by_name`: the entry it copies, or `none` for -1. -/
def readDentryByName (fname : Bytes) : Option Dentry :=
  if strlen fname > MAX_FILENAME then none
  else ((List.range TOTAL_NUM_DIR).map fs.dirEntry).find? (nameMatches fname)

/-- `read_dentry_by_index` -/
def readDentryByIndex (index : UInt32) : Option Dentry :=
  if index.toNat ≥ TOTAL_NUM_DIR then none else some (fs.dirEntry index.toNat)

/-- The nested loops of `read_data`, one turn of either loop for each unit of fuel. The result is
`bytes_incr` at the return and the bytes stored into the buffer from here on. -/
def readTurns (inode offset length : UInt32) :
    (fuel : ℕ) → (idxVal : UInt32) → (j : ℕ) → (dataInfo bytesIncr : UInt32) →
      Option (UInt32 × List UInt8)
  | 0, _, _, _, _ => none
  | fuel + 1, idxVal, j, dataInfo, bytesIncr =>
    if j < DATA_BLOCK_SIZE then
      if offset + bytesIncr = fs.fileLength inode ∨ bytesIncr = length then some (bytesIncr, [])
      else
        (readTurns inode offset length fuel idxVal (j + 1) dataInfo (bytesIncr + 1)).map
          fun r => (r.1, fs.mem (dataInfo + UInt32.ofNat j) :: r.2)
    else readTurns inode offset length fuel (idxVal + 1) 0 (fs.dataInfo inode (idxVal + 1)) bytesIncr

/-- `read_data`: the returned word and the bytes stored from the start of the buffer. -/
def readData (inode offset length : UInt32) : Option (UInt32 × List UInt8) :=
  if inode ≥ fs.inodeSize then some (FAIL, [])
  else if fs.inodeInfo inode = 0 then some (FAIL, [])
  else if offset ≥ fs.fileLength inode then some (0, [])
  else
    fs.readTurns inode offset length (2 * (fs.fileLength inode).toNat + 2) (offset / 4096)
      (offset % 4096).toNat (fs.dataInfo inode (offset / 4096)) 0

end FileSystem

end OsKernel
