import OsKernel.Arguments

/-!
# Which programs `execute` starts

`execute` looks up the first 32 characters of the command word, in a buffer that leaves no room for a NUL,
and tests the first four bytes of whatever file the entry names, with the bytes a short file does not
fill left over from the stack.
-/

namespace OsKernel

open Library

namespace FileSystem

variable (fs : FileSystem)

/-- A name stands for the first of the 63 entries that has it. -/
def Resolves (name : List UInt8) (i : ℕ) : Prop :=
  i < TOTAL_NUM_DIR ∧ entryName (fs.dirEntry i) = name ∧ ∀ j < i, entryName (fs.dirEntry j) ≠ name

/-- There is a file behind the inode number: `read_data` refuses any other. -/
def HasInode (inode : UInt32) : Prop := inode < fs.inodeSize ∧ fs.inodeInfo inode ≠ 0

/-- The entry of a program: a regular file with the magic number of ELF and the bytes of an entry point. -/
structure Executable (entry : Dentry) : Prop where
  regular : entry.fileType = 2
  inode : fs.HasInode entry.inodeIdx
  length_ge : 28 ≤ (fs.fileLength entry.inodeIdx).toNat
  magic : fs.fileBytes entry.inodeIdx 0 4 = [0x7F, 0x45, 0x4C, 0x46]

/-- The test of `execute` on the file of an entry, over the old bytes of its buffer. -/
def HeaderTest (buf : List UInt8) (entry : Dentry) : Prop :=
  fs.HasInode entry.inodeIdx ∧
    (overlay buf (fs.fileBytes entry.inodeIdx 0 (min 4 (fs.fileLength entry.inodeIdx).toNat))).take 4 =
      [0x7F, 0x45, 0x4C, 0x46]

/-- A command word is the name of a program. -/
def NamesProgram (word : List UInt8) (i : ℕ) : Prop :=
  word ≠ [] ∧ word.length ≤ MAX_FILENAME ∧ fs.Resolves word i ∧ fs.Executable (fs.dirEntry i)

end FileSystem

/-- `execute` accepts exactly the programs, and starts them at the entry point in their file. -/
structure ExecutesPrograms (fs : FileSystem) (k : Kernel) (command : Bytes) (frame : ExecFrame) : Prop where
  accepts : (k.execute fs (some command) frame).isSome ↔ ∃ i, fs.NamesProgram (firstWord 0x20 (cString command)) i
  entry : ∀ k', k.execute fs (some command) frame = some k' →
    ∃ i, fs.Resolves (firstWord 0x20 (cString command)) i ∧
      k'.userEntry.1 = wordOf (fs.fileBytes (fs.dirEntry i).inodeIdx 24 4)

/-- When it does: the command word names the entry it stands for, and a file that passes the header test
is regular and long enough; any other entry that `execute` is led to fails the header test. -/
structure LedToProgram (fs : FileSystem) (word : List UInt8) (frame : ExecFrame) : Prop where
  empty : word = [] → ∀ i, fs.Resolves [] i → ¬fs.HeaderTest frame.buf (fs.dirEntry i)
  long : MAX_FILENAME < word.length → frame.afterName 0 = 0 →
    ∀ i, fs.Resolves (word.take MAX_FILENAME) i → ¬fs.HeaderTest frame.buf (fs.dirEntry i)
  unterminated : word.length = MAX_FILENAME → frame.afterName 0 ≠ 0 →
    ∀ i, fs.Resolves word i → ¬fs.Executable (fs.dirEntry i)
  named : word ≠ [] → word.length ≤ MAX_FILENAME → (word.length = MAX_FILENAME → frame.afterName 0 = 0) →
    ∀ i, fs.Resolves word i → fs.HeaderTest frame.buf (fs.dirEntry i) →
      (fs.dirEntry i).fileType = 2 ∧ 28 ≤ (fs.fileLength (fs.dirEntry i).inodeIdx).toNat

/-- `command_name` with the stack behind it. -/
def nameMemory (commandName : List UInt8) (afterName : Bytes) : Bytes := fun i =>
  if i < MAX_FILENAME then commandName.getD i 0 else afterName (i - MAX_FILENAME)

section Name

variable {fs : FileSystem} {word : List UInt8} {afterName : Bytes}

/-- Where the loop of `strlen` stops before its last address there is a NUL. -/
theorem strlenFrom_terminated {s : Bytes} {len left : ℕ} (h : strlenFrom s len left < len + left) :
    s (strlenFrom s len left) = 0 := by
  induction left generalizing len with
  | zero => exact absurd h (lt_irrefl _)
  | succ left ih =>
    rw [strlenFrom] at h ⊢
    by_cases hend : s len = 0
    · rw [if_pos hend]
      exact hend
    · rw [if_neg hend] at h ⊢
      exact ih (by omega)

/-- The name buffer holds the first 32 characters of the command word. -/
theorem nameMemory_apply {i : ℕ} (hi : i < MAX_FILENAME) :
    nameMemory ((word.take MAX_FILENAME).rightpad MAX_FILENAME 0) afterName i = toBytes (word.take MAX_FILENAME) i := by
  rw [nameMemory, if_pos hi]
  exact congrFun (toBytes_rightpad _ _) i

/-- With a NUL behind them, or with fewer than 32 characters, they are the name that is looked up. -/
theorem nameMemory_spells (hword : 0 ∉ word) (hend : MAX_FILENAME ≤ word.length → afterName 0 = 0) :
    Spells (nameMemory ((word.take MAX_FILENAME).rightpad MAX_FILENAME 0) afterName) (word.take MAX_FILENAME) := by
  have hspells : Spells (toBytes (word.take MAX_FILENAME)) (word.take MAX_FILENAME) :=
    spells_toBytes fun hmem => hword (List.mem_of_mem_take hmem)
  have hlength : (word.take MAX_FILENAME).length = min MAX_FILENAME word.length := List.length_take
  refine ⟨?_, ?_, hspells.proper⟩
  · intro i hi
    rw [nameMemory_apply (by omega)]
    exact hspells.letter i hi
  · by_cases hshort : word.length < MAX_FILENAME
    · rw [nameMemory_apply (by omega)]
      exact hspells.terminated
    · have hfull : (word.take MAX_FILENAME).length = MAX_FILENAME := by omega
      rw [hfull, nameMemory, if_neg (lt_irrefl _), Nat.sub_self]
      exact hend (not_lt.mp hshort)

/-- Without one, the name runs on into the stack and is too long. -/
theorem nameMemory_tooLong (hword : 0 ∉ word) (hlong : MAX_FILENAME ≤ word.length) (hend : afterName 0 ≠ 0) :
    MAX_FILENAME < strlen (nameMemory ((word.take MAX_FILENAME).rightpad MAX_FILENAME 0) afterName) := by
  have hspells : Spells (toBytes (word.take MAX_FILENAME)) (word.take MAX_FILENAME) :=
    spells_toBytes fun hmem => hword (List.mem_of_mem_take hmem)
  have hlength : (word.take MAX_FILENAME).length = MAX_FILENAME := by
    rw [List.length_take]
    omega
  by_contra hle
  rw [not_lt, strlen] at hle
  have hstop : strlenFrom (nameMemory ((word.take MAX_FILENAME).rightpad MAX_FILENAME 0) afterName) 0 4294967296 <
      0 + 4294967296 := lt_of_le_of_lt hle (by decide)
  have hzero := strlenFrom_terminated hstop
  rcases Nat.lt_or_eq_of_le hle with hlt | heq
  · rw [nameMemory_apply hlt] at hzero
    exact hspells.ne_zero (by omega) hzero
  · rw [heq, nameMemory, if_neg (lt_irrefl _), Nat.sub_self] at hzero
    exact hend hzero

/-- A name resolves to what the search finds. -/
theorem readDentryByName_eq_some_iff {fname : Bytes} {name : List UInt8} (hname : Spells fname name) {entry : Dentry} :
    fs.readDentryByName fname = some entry ↔ ∃ i, fs.Resolves name i ∧ fs.dirEntry i = entry := by
  constructor
  · intro hfound
    by_cases hexists : ∃ i, i < TOTAL_NUM_DIR ∧ entryName (fs.dirEntry i) = name
    · obtain ⟨hi, heq⟩ := Nat.find_spec hexists
      have hleast (j : ℕ) (hj : j < Nat.find hexists) : entryName (fs.dirEntry j) ≠ name := fun hname =>
        Nat.find_min hexists hj ⟨lt_trans hj hi, hname⟩
      rw [FileSystem.readDentryByName_found hname hi heq hleast] at hfound
      exact ⟨Nat.find hexists, ⟨hi, heq, hleast⟩, Option.some.inj hfound⟩
    · rw [FileSystem.readDentryByName_absent hname fun i hi heq => hexists ⟨i, hi, heq⟩] at hfound
      cases hfound
  · intro hresolves
    obtain ⟨i, ⟨hi, heq, hleast⟩, rfl⟩ := hresolves
    exact FileSystem.readDentryByName_found hname hi heq hleast

/-- A name that is too long is not found. -/
theorem readDentryByName_tooLong {fname : Bytes} (h : MAX_FILENAME < strlen fname) :
    fs.readDentryByName fname = none := if_pos h

end Name

namespace FileSystem

variable {fs : FileSystem} {name : List UInt8} {i j : ℕ}

/-- A name stands for one entry. -/
theorem Resolves.unique (hi : fs.Resolves name i) (hj : fs.Resolves name j) : i = j := by
  rcases Nat.lt_trichotomy i j with hlt | heq | hgt
  · exact absurd hi.2.1 (hj.2.2 i hlt)
  · exact heq
  · exact absurd hj.2.1 (hi.2.2 j hgt)

/-- A name that stands for an entry has at most 32 bytes. -/
theorem Resolves.length_le (h : fs.Resolves name i) : name.length ≤ MAX_FILENAME :=
  h.2.1 ▸ fs.length_dirEntryName_le i

end FileSystem

section Check

variable {fs : FileSystem} {command : Bytes} {frame : ExecFrame} {entry : Dentry}

/-- How many bytes the read of the header finds. -/
theorem readCount_header (fs : FileSystem) (inode : UInt32) :
    fs.readCount inode (0 : UInt32).toNat (4 : UInt32).toNat = min 4 (fs.fileLength inode).toNat := by
  rw [FileSystem.readCount, UInt32.toNat_zero, Nat.sub_zero]
  exact congrArg (fun n => min n _) (show (4 : UInt32).toNat = 4 by decide)

/-- The first four bytes of a file, as `execute` reads them. -/
theorem readBytes_header {inode : UInt32} (h : fs.HasInode inode) :
    fs.readBytes inode 0 4 =
      (UInt32.ofNat (min 4 (fs.fileLength inode).toNat),
        fs.fileBytes inode 0 (min 4 (fs.fileLength inode).toNat)) := by
  rw [FileSystem.readBytes_eq h.1 h.2, readCount_header, UInt32.toNat_zero]

/-- The two tests of `execute` on a file are the header test. -/
theorem headerTest_iff :
    fs.HeaderTest frame.buf entry ↔
      (fs.readBytes entry.inodeIdx 0 4).1 ≠ FAIL ∧
        (overlay frame.buf (fs.readBytes entry.inodeIdx 0 4).2).take 4 = [0x7F, 0x45, 0x4C, 0x46] := by
  by_cases hinode : fs.HasInode entry.inodeIdx
  · have hread := readBytes_header hinode
    have hok : (fs.readBytes entry.inodeIdx 0 4).1 ≠ FAIL := by
      intro hfail
      have hnat := congrArg UInt32.toNat hfail
      rw [hread, UInt32.toNat_ofNat_of_lt' (lt_of_le_of_lt (Nat.min_le_left _ _) (by decide)), toNat_FAIL] at hnat
      omega
    rw [FileSystem.HeaderTest]
    rw [hread] at hok ⊢
    simp only [hinode, true_and, ne_eq, hok, not_false_eq_true]
  · have hfail : fs.readBytes entry.inodeIdx 0 4 = (FAIL, []) := FileSystem.readBytes_fail hinode
    rw [FileSystem.HeaderTest, hfail]
    simp only [hinode, false_and, ne_eq, not_true_eq_false]

/-- The checks of `execute`, on the name buffer as it stands in memory. -/
theorem executeCheck_bind (fs : FileSystem) :
    executeCheck fs (some command) frame =
      (fs.readDentryByName (nameMemory (parseCmd command).1 frame.afterName)).bind fun dentry =>
        if (fs.readBytes dentry.inodeIdx 0 4).1 = FAIL then none
        else if (overlay frame.buf (fs.readBytes dentry.inodeIdx 0 4).2).take 4 = [0x7F, 0x45, 0x4C, 0x46] then
          some { dentry, fileName := (parseCmd command).2 }
        else none := by
  simp only [executeCheck, Option.bind_eq_bind, Option.bind_some]
  generalize parseCmd command = parsed
  rfl

/-- What the checks of `execute` accept: the entry that the name buffer leads to, if its file passes the
header test. -/
theorem executeCheck_eq_some_iff {prog : Program} :
    executeCheck fs (some command) frame = some prog ↔
      ∃ entry, fs.readDentryByName (nameMemory (parseCmd command).1 frame.afterName) = some entry ∧
        fs.HeaderTest frame.buf entry ∧
        { dentry := entry, fileName := (parseCmd command).2 } = prog := by
  rw [executeCheck_bind, Option.bind_eq_some_iff]
  apply exists_congr
  intro entry
  apply and_congr_right
  intro _
  rw [headerTest_iff]
  generalize fs.readBytes entry.inodeIdx 0 4 = magic
  split_ifs with hfail hmagic
  · simp [hfail]
  · simp [hfail, hmagic]
  · simp [hfail, hmagic]

/-- The first buffer of `parse_cmd` has no NUL inside the word. -/
theorem zero_notMem_firstWord (command : Bytes) : 0 ∉ firstWord 0x20 (cString command) := by
  intro hmem
  apply zero_notMem_cString command
  exact (List.dropWhile_sublist _).subset ((List.takeWhile_sublist _).subset hmem)

/-- Which entry the checks of `execute` accept: the one that the first 32 characters of the command word
stand for, if a NUL ends them and the file passes the header test. -/
theorem executeCheck_resolves_iff {prog : Program} :
    executeCheck fs (some command) frame = some prog ↔
      (MAX_FILENAME ≤ (firstWord 0x20 (cString command)).length → frame.afterName 0 = 0) ∧
        ∃ i, fs.Resolves ((firstWord 0x20 (cString command)).take MAX_FILENAME) i ∧
          fs.HeaderTest frame.buf (fs.dirEntry i) ∧
          { dentry := fs.dirEntry i, fileName := (parseCmd command).2 } = prog := by
  have hword := zero_notMem_firstWord command
  have hname : (parseCmd command).1 =
      ((firstWord 0x20 (cString command)).take MAX_FILENAME).rightpad MAX_FILENAME 0 := by rw [parseCmd_eq]
  rw [executeCheck_eq_some_iff, hname]
  by_cases hend : MAX_FILENAME ≤ (firstWord 0x20 (cString command)).length → frame.afterName 0 = 0
  · have hspells := nameMemory_spells hword hend
    constructor
    · intro haccepted
      obtain ⟨entry, hentry, htest, hprog⟩ := haccepted
      obtain ⟨i, hi, rfl⟩ := (readDentryByName_eq_some_iff hspells).mp hentry
      exact ⟨hend, i, hi, htest, hprog⟩
    · intro hled
      obtain ⟨-, i, hi, htest, hprog⟩ := hled
      exact ⟨_, (readDentryByName_eq_some_iff hspells).mpr ⟨i, hi, rfl⟩, htest, hprog⟩
  · constructor
    · intro haccepted
      obtain ⟨entry, hentry, -⟩ := haccepted
      obtain ⟨hlong, hnul⟩ := Classical.not_imp.mp hend
      rw [readDentryByName_tooLong (nameMemory_tooLong hword hlong hnul)] at hentry
      cases hentry
    · intro hled
      exact absurd hled.1 hend

/-- A program passes the header test, whatever the buffer held. -/
theorem headerTest_of_executable (h : fs.Executable entry) (buf : List UInt8) : fs.HeaderTest buf entry := by
  have hlength := h.length_ge
  refine ⟨h.inode, ?_⟩
  rw [Nat.min_eq_left (by omega), h.magic]
  rfl

/-- A regular file of at least 28 bytes that passes the header test is a program. -/
theorem executable_of_headerTest {entry : Dentry} {buf : List UInt8} (htest : fs.HeaderTest buf entry)
    (hregular : entry.fileType = 2) (hlength : 28 ≤ (fs.fileLength entry.inodeIdx).toNat) :
    fs.Executable entry := by
  refine ⟨hregular, htest.1, hlength, ?_⟩
  have hmagic := htest.2
  rw [Nat.min_eq_left (by omega), overlay, List.take_append_of_le_length (by simp),
    List.take_of_length_le (by simp)] at hmagic
  exact hmagic

/-- A word in a buffer does not depend on what is behind it. -/
theorem wordOf_append {l r : List UInt8} (h : l.length = 4) : wordOf (l ++ r) = wordOf l := by
  have hget (i : ℕ) (hi : i < 4) : (l ++ r).getD i 0 = l.getD i 0 := List.getD_append _ _ _ _ (by omega)
  rw [wordOf, wordOf, hget 0 (by decide), hget 1 (by decide), hget 2 (by decide), hget 3 (by decide)]

/-- The entry point of a file with at least 28 bytes is the word in it. -/
theorem eip_eq {prog : Program} (hinode : fs.HasInode prog.dentry.inodeIdx)
    (hlength : 28 ≤ (fs.fileLength prog.dentry.inodeIdx).toNat) :
    prog.eip fs frame = wordOf (fs.fileBytes prog.dentry.inodeIdx 24 4) := by
  have h24 : (24 : UInt32).toNat = 24 := by decide
  have h4 : (4 : UInt32).toNat = 4 := by decide
  have hcount : fs.readCount prog.dentry.inodeIdx (24 : UInt32).toNat (4 : UInt32).toNat = 4 := by
    rw [FileSystem.readCount, h24, h4]
    omega
  rw [Program.eip, FileSystem.readBytes_eq hinode.1 hinode.2, hcount, h24, overlay,
    wordOf_append (FileSystem.length_fileBytes _ _)]

/-- `execute` gets past its checks for the entry it is led to, and starts the program it found there. -/
theorem execute_resolves {k k' : Kernel} (h : k.execute fs (some command) frame = some k') :
    (MAX_FILENAME ≤ (firstWord 0x20 (cString command)).length → frame.afterName 0 = 0) ∧
      ∃ i, fs.Resolves ((firstWord 0x20 (cString command)).take MAX_FILENAME) i ∧
        fs.HeaderTest frame.buf (fs.dirEntry i) ∧
        (28 ≤ (fs.fileLength (fs.dirEntry i).inodeIdx).toNat →
          k'.userEntry.1 = wordOf (fs.fileBytes (fs.dirEntry i).inodeIdx 24 4)) := by
  obtain ⟨prog, p, hcheck, hstarted⟩ := Kernel.execute_started h
  obtain ⟨hend, i, hi, htest, rfl⟩ := executeCheck_resolves_iff.mp hcheck
  refine ⟨hend, i, hi, htest, ?_⟩
  intro hlength
  rw [hstarted.userEntry]
  exact eip_eq htest.1 hlength

/-- With a free slot, `execute` succeeds exactly for an entry that its checks accept. -/
theorem execute_isSome_iff {k : Kernel} (hslot : ∃ i, k.pid i = false) :
    (k.execute fs (some command) frame).isSome ↔
      (MAX_FILENAME ≤ (firstWord 0x20 (cString command)).length → frame.afterName 0 = 0) ∧
        ∃ i, fs.Resolves ((firstWord 0x20 (cString command)).take MAX_FILENAME) i ∧
          fs.HeaderTest frame.buf (fs.dirEntry i) := by
  rw [Kernel.execute_isSome, and_iff_left hslot, Option.isSome_iff_exists]
  constructor
  · intro hcheck
    obtain ⟨prog, hprog⟩ := hcheck
    obtain ⟨hend, i, hi, htest, -⟩ := executeCheck_resolves_iff.mp hprog
    exact ⟨hend, i, hi, htest⟩
  · intro hled
    obtain ⟨hend, i, hi, htest⟩ := hled
    exact ⟨_, executeCheck_resolves_iff.mpr ⟨hend, i, hi, htest, rfl⟩⟩

/-- When `execute` is led to a program, it is the one the command word names. -/
theorem LedToProgram.names {word : List UInt8} (h : LedToProgram fs word frame)
    (hend : MAX_FILENAME ≤ word.length → frame.afterName 0 = 0) {i : ℕ}
    (hi : fs.Resolves (word.take MAX_FILENAME) i)
    (htest : fs.HeaderTest frame.buf (fs.dirEntry i)) : fs.NamesProgram word i := by
  by_cases hempty : word = []
  · rw [hempty] at hi
    exact absurd htest (h.empty hempty i hi)
  by_cases hlong : MAX_FILENAME < word.length
  · exact absurd htest (h.long hlong (hend (le_of_lt hlong)) i hi)
  have hle : word.length ≤ MAX_FILENAME := not_lt.mp hlong
  rw [List.take_of_length_le hle] at hi
  obtain ⟨hregular, hlength⟩ := h.named hempty hle (fun heq => hend (le_of_eq heq.symm)) i hi htest
  exact ⟨hempty, hle, hi, executable_of_headerTest htest hregular hlength⟩

end Check

/-- With a free slot, `execute` accepts exactly the programs and starts them at their entry points exactly
when the command word leads it to the entry it names, and to a regular file of at least 28 bytes if that
passes the header test. -/
theorem execute_programs_iff (fs : FileSystem) (k : Kernel) (command : Bytes) (frame : ExecFrame)
    (hslot : ∃ i, k.pid i = false) :
    ExecutesPrograms fs k command frame ↔ LedToProgram fs (firstWord 0x20 (cString command)) frame := by
  constructor
  · intro hexact
    have haccept {i : ℕ} (hend : MAX_FILENAME ≤ (firstWord 0x20 (cString command)).length → frame.afterName 0 = 0)
        (hi : fs.Resolves ((firstWord 0x20 (cString command)).take MAX_FILENAME) i)
        (htest : fs.HeaderTest frame.buf (fs.dirEntry i)) :
        ∃ j, fs.NamesProgram (firstWord 0x20 (cString command)) j :=
      hexact.accepts.mp ((execute_isSome_iff hslot).mpr ⟨hend, i, hi, htest⟩)
    refine ⟨?_, ?_, ?_, ?_⟩
    · intro hempty i hi htest
      obtain ⟨j, hj⟩ := haccept (i := i) (fun hle => by rw [hempty] at hle; exact absurd hle (by decide))
        (by rw [hempty]; exact hi) htest
      exact hj.1 hempty
    · intro hlong hnul i hi htest
      obtain ⟨j, hj⟩ := haccept (fun _ => hnul) hi htest
      exact absurd hj.2.1 (not_le.mpr hlong)
    · intro hfull hnul i hi hprogram
      have hnames : ∃ i, fs.NamesProgram (firstWord 0x20 (cString command)) i :=
        ⟨i, fun hempty => by rw [hempty] at hfull; exact absurd hfull (by decide), le_of_eq hfull, hi, hprogram⟩
      exact hnul (((execute_isSome_iff hslot).mp (hexact.accepts.mpr hnames)).1 (le_of_eq hfull.symm))
    · intro _ hle hend i hi htest
      obtain ⟨j, hj⟩ := haccept (i := i) (fun hge => hend (le_antisymm hle hge))
        (by rw [List.take_of_length_le hle]; exact hi) htest
      rw [hi.unique hj.2.2.1]
      exact ⟨hj.2.2.2.regular, hj.2.2.2.length_ge⟩
  · intro hled
    refine ⟨⟨?_, ?_⟩, ?_⟩
    · intro hsome
      obtain ⟨hend, i, hi, htest⟩ := (execute_isSome_iff hslot).mp hsome
      exact ⟨i, hled.names hend hi htest⟩
    · intro hnames
      obtain ⟨i, -, hle, hi, hprogram⟩ := hnames
      rw [execute_isSome_iff hslot]
      refine ⟨?_, i, by rw [List.take_of_length_le hle]; exact hi, headerTest_of_executable hprogram _⟩
      intro hge
      by_contra hnul
      exact hled.unterminated (le_antisymm hle hge) hnul i hi hprogram
    · intro k' hexec
      obtain ⟨hend, i, hi, htest, hentry⟩ := execute_resolves hexec
      have hnames := hled.names hend hi htest
      exact ⟨i, hnames.2.2.1, hentry hnames.2.2.2.length_ge⟩

/-- `"shell"` is the command word of itself. -/
theorem firstWord_shell : firstWord 0x20 (cString (toBytes shellName)) = shellName := by decide +kernel

/-- The shell is found on the image with the one executable. -/
theorem execute_programs_shell : ExecutesPrograms shellImage.fs zeroKernel (toBytes shellName) zeroFrame := by
  have hresolves : shellImage.fs.Resolves shellName 0 :=
    ⟨by decide, by decide +kernel, fun j hj => absurd hj (Nat.not_lt_zero j)⟩
  have hled : LedToProgram shellImage.fs shellName zeroFrame := by
    refine ⟨fun hempty => absurd hempty (by decide), fun hlong => absurd hlong (by decide),
      fun hfull => absurd hfull (by decide), ?_⟩
    intro _ _ _ i hi _
    rw [hi.unique hresolves]
    decide +kernel
  exact (execute_programs_iff shellImage.fs zeroKernel (toBytes shellName) zeroFrame ⟨0, rfl⟩).mpr
    (by rw [firstWord_shell]; exact hled)

/-- Memory with the image of one executable, cut to its first four bytes. -/
def shortMem (a : UInt32) : UInt8 := if a = 0x11000 then 4 else shellMem a

/-- The only inode of that image. -/
theorem shortMem_inode {inode : UInt32} (h : inode < (fileSystemInit shortMem 0x10000).inodeSize) : inode = 0 :=
  inode_eq_zero (by decide) h

/-- The image with the short file is well-formed. -/
def shortImage : Image where
  mem := shortMem
  base := 0x10000
  fits := by decide
  base_pos := imageBase_pos
  length_le inode h := by
    rw [shortMem_inode h]
    decide
  block_lt inode h b hb := by
    rw [shortMem_inode h] at hb ⊢
    have hlength : ((fileSystemInit shortMem 0x10000).fileLength 0).toNat = 4 := by decide
    rw [hlength] at hb
    have hzero : b = 0 := by
      unfold DATA_BLOCK_SIZE at hb
      omega
    rw [hzero]
    decide
  inode_lt := by decide +kernel

/-- `execute` accepts a file of four bytes, and takes the entry point from the stack. -/
theorem execute_programs_short : ∃ (image : Image) (k : Kernel) (command : Bytes) (frame : ExecFrame),
    (∃ i, k.pid i = false) ∧ ¬ExecutesPrograms image.fs k command frame := by
  refine ⟨shortImage, zeroKernel, toBytes shellName, zeroFrame, ⟨0, rfl⟩, ?_⟩
  intro hexact
  have hcheck : (executeCheck shortImage.fs (some (toBytes shellName)) zeroFrame).isSome := by decide +kernel
  obtain ⟨i, hnames⟩ := hexact.accepts.mp (Kernel.execute_isSome.mpr ⟨hcheck, 0, rfl⟩)
  have hresolves : shortImage.fs.Resolves shellName 0 :=
    ⟨by decide, by decide +kernel, fun j hj => absurd hj (Nat.not_lt_zero j)⟩
  have hi := hnames.2.2.1
  rw [firstWord_shell] at hi
  have hlength := hnames.2.2.2.length_ge
  rw [hi.unique hresolves] at hlength
  exact absurd hlength (by decide +kernel)

end OsKernel
