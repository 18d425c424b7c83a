import OsKernel.NameLookup
import OsKernel.SequentialRead

/-!
# Listing the directory

`dir_read` goes through the 63 entries of the boot block one by one, whatever the number of entries in
use: an unused entry ends a listing only if its name is empty, and behind the last entry every read
fails.
-/

namespace OsKernel

/-- An open descriptor of the directory. -/
structure DirAt (d : FileDesc) (position : ℕ) : Prop where
  open_ : d.flag = true
  directory : d.fop = .dir
  position_eq : d.position = UInt32.ofNat position

/-- The loop of `ls` and `grep` over a directory, with a pause before each read: whether it ends at a read
that returns 0 rather than -1, and the names it went through. -/
def listNames (fs : FileSystem) {p : Slot} {i : Fin 8} (pauses : ℕ → Pause p i) :
    (fuel turn : ℕ) → Kernel → Option (Bool × List (List UInt8))
  | 0, _, _ => none
  | fuel + 1, turn, k =>
    match ((pauses turn).run k).read fs i.val 32 with
    | some (.done cnt buf k') =>
      if cnt = 0 then some (true, [])
      else if cnt = FAIL then some (false, [])
      else (listNames fs pauses fuel (turn + 1) k').map fun r => (r.1, buf :: r.2)
    | _ => none

namespace FileSystem

variable (fs : FileSystem)

/-- What read number `r` of a directory returns and stores. -/
def dirReply (r : ℕ) : UInt32 × List UInt8 :=
  if r < TOTAL_NUM_DIR then (UInt32.ofNat (entryName (fs.dirEntry r)).length, entryName (fs.dirEntry r))
  else (FAIL, [])

/-- What it is to return and store: the names in use one after the other, and 0 behind them. -/
def listedReply (r : ℕ) : UInt32 × List UInt8 :=
  if r < fs.dirNum.toNat then (UInt32.ofNat (entryName (fs.dirEntry r)).length, entryName (fs.dirEntry r))
  else (0, [])

variable {fs}

/-- A name is empty exactly when its length is returned as 0. -/
theorem nameLength_eq_zero {r : ℕ} :
    UInt32.ofNat (entryName (fs.dirEntry r)).length = 0 ↔ entryName (fs.dirEntry r) = [] := by
  rw [← UInt32.toNat_inj, fs.toNat_nameLength, ← List.length_eq_zero_iff]
  rfl

/-- No name's length is returned as -1. -/
theorem nameLength_ne_fail {r : ℕ} : UInt32.ofNat (entryName (fs.dirEntry r)).length ≠ FAIL := by
  intro hfail
  have hnat := congrArg UInt32.toNat hfail
  have hle := fs.length_dirEntryName_le r
  rw [fs.toNat_nameLength, toNat_FAIL] at hnat
  rw [MAX_FILENAME] at hle
  omega

/-- A read returns what it is to exactly when its entry is in use, or unused with an empty name. -/
theorem dirReply_eq_iff (hdir : fs.Directory) (r : ℕ) :
    fs.dirReply r = fs.listedReply r ↔
      (fs.dirNum.toNat ≤ r → r < TOTAL_NUM_DIR ∧ entryName (fs.dirEntry r) = []) := by
  have hcount := hdir.count_le
  rw [dirReply, listedReply]
  by_cases hused : r < fs.dirNum.toNat
  · rw [if_pos hused, if_pos (lt_of_lt_of_le hused hcount)]
    simp only [true_iff]
    intro hunused
    omega
  · rw [if_neg hused]
    by_cases hin : r < TOTAL_NUM_DIR
    · rw [if_pos hin, Prod.mk.injEq, nameLength_eq_zero]
      constructor
      · intro hempty _
        exact ⟨hin, hempty.1⟩
      · intro hempty
        have hnil := (hempty (not_lt.mp hused)).2
        exact ⟨hnil, hnil⟩
    · rw [if_neg hin]
      constructor
      · intro hfail
        exact absurd (Prod.mk.inj hfail).1 (by decide)
      · intro hempty
        exact absurd (hempty (not_lt.mp hused)).1 hin

end FileSystem

section Reads

variable {fs : FileSystem} {p : Slot} {i : Fin 8} {k : Kernel}

/-- `read` on an open descriptor of the directory calls `dir_read`. -/
theorem read_dir {position : ℕ} (hcaller : k.caller = some p) (hdesc : DirAt ((k.pcb p).fileDescArr i) position)
    (n : UInt32) :
    k.read fs i.val n = some (.ofCall (({ k with pcbValRead := some p } : Kernel).dirRead fs p i)) := by
  have hcaller' : ({ k with pcbValRead := some p } : Kernel).caller = some p := hcaller
  simp only [Kernel.read, descIndex_val, hcaller, hcaller', Option.map_some, hdesc.open_, if_true,
    Kernel.driverRead, hdesc.directory]

/-- One read: it replies for its position and moves on, until it is behind the table. -/
theorem read_dirAt {r : ℕ} (hcaller : k.caller = some p)
    (hdesc : DirAt ((k.pcb p).fileDescArr i) (min r TOTAL_NUM_DIR)) (n : UInt32) :
    ∃ k', k.read fs i.val n = some (.done (fs.dirReply r).1 (fs.dirReply r).2 k') ∧
      DirAt ((k'.pcb p).fileDescArr i) (min (r + 1) TOTAL_NUM_DIR) := by
  have hposition : ((({ k with pcbValRead := some p } : Kernel).pcb p).fileDescArr i).position =
      UInt32.ofNat (min r TOTAL_NUM_DIR) := hdesc.position_eq
  rw [read_dir hcaller hdesc, FileSystem.dirReply]
  by_cases hin : r < TOTAL_NUM_DIR
  · rw [Nat.min_eq_left (le_of_lt hin)] at hposition
    rw [dirRead_name hin hposition, if_pos hin, Nat.min_eq_left (show r + 1 ≤ TOTAL_NUM_DIR from hin)]
    refine ⟨_, rfl, ?_⟩
    simp only [Kernel.modifyPcb, Pcb.setDesc, Function.update_self]
    exact ⟨hdesc.open_, hdesc.directory, rfl⟩
  · have hpast : TOTAL_NUM_DIR ≤ r := not_lt.mp hin
    rw [Nat.min_eq_right hpast] at hposition hdesc
    have hnone : fs.readDentryByIndex (UInt32.ofNat TOTAL_NUM_DIR) = none := if_pos (by decide)
    rw [Kernel.dirRead, hposition, hnone, if_neg hin, Nat.min_eq_right (Nat.le_succ_of_le hpast)]
    exact ⟨_, rfl, hdesc⟩

/-- Reading again and again from a position on. -/
theorem readChunks_dirAt {r : ℕ} (hdesc : DirAt ((k.pcb p).fileDescArr i) (min r TOTAL_NUM_DIR))
    (chunks : List (Pause p i × UInt32)) :
    ∃ k', readChunks fs k chunks = some ((List.range' r chunks.length).map fs.dirReply, k') := by
  induction chunks generalizing k r with
  | nil => exact ⟨k, rfl⟩
  | cons chunk rest ih =>
    obtain ⟨pause, n⟩ := chunk
    rw [← pause.desc k] at hdesc
    obtain ⟨k₁, hread, hdesc₁⟩ := read_dirAt (pause.caller k) hdesc n
    obtain ⟨k', hrest⟩ := ih hdesc₁
    refine ⟨k', ?_⟩
    rw [readChunks_cons hread, hrest, Option.map_some, List.length_cons, List.range'_succ, List.map_cons]

variable {r e : ℕ}

/-- A turn of the listing loop whose read returns. -/
theorem listNames_succ {pauses : ℕ → Pause p i} {turn : ℕ} {cnt : UInt32} {buf : List UInt8} {k' : Kernel}
    (hread : ((pauses turn).run k).read fs i.val 32 = some (.done cnt buf k')) (fuel : ℕ) :
    listNames fs pauses (fuel + 1) turn k =
      if cnt = 0 then some (true, [])
      else if cnt = FAIL then some (false, [])
      else (listNames fs pauses fuel (turn + 1) k').map fun r => (r.1, buf :: r.2) := by
  change (match ((pauses turn).run k).read fs i.val 32 with
    | some (.done cnt buf k') =>
      if cnt = 0 then some (true, [])
      else if cnt = FAIL then some (false, [])
      else (listNames fs pauses fuel (turn + 1) k').map fun r : Bool × List (List UInt8) => (r.1, buf :: r.2)
    | _ => none) = _
  rw [hread]

/-- A turn of the listing loop at an entry with a name. -/
theorem listNames_name (pauses : ℕ → Pause p i) (fuel turn : ℕ)
    (hdesc : DirAt ((k.pcb p).fileDescArr i) (min r TOTAL_NUM_DIR))
    (hin : r < TOTAL_NUM_DIR) (hname : entryName (fs.dirEntry r) ≠ []) :
    ∃ k', DirAt ((k'.pcb p).fileDescArr i) (min (r + 1) TOTAL_NUM_DIR) ∧
      listNames fs pauses (fuel + 1) turn k =
        (listNames fs pauses fuel (turn + 1) k').map fun o => (o.1, entryName (fs.dirEntry r) :: o.2) := by
  rw [← (pauses turn).desc k] at hdesc
  obtain ⟨k', hread, hdesc'⟩ := read_dirAt ((pauses turn).caller k) hdesc 32
  refine ⟨k', hdesc', ?_⟩
  rw [listNames_succ hread, FileSystem.dirReply, if_pos hin, if_neg (mt FileSystem.nameLength_eq_zero.mp hname),
    if_neg FileSystem.nameLength_ne_fail]

/-- The listing loop ends normally at the first entry with an empty name. -/
theorem listNames_ends (pauses : ℕ → Pause p i) {fuel turn : ℕ} (he : e < TOTAL_NUM_DIR)
    (hempty : entryName (fs.dirEntry e) = []) (hnames : ∀ j < e, entryName (fs.dirEntry j) ≠ []) (hle : r ≤ e)
    (hdesc : DirAt ((k.pcb p).fileDescArr i) (min r TOTAL_NUM_DIR)) (hfuel : e - r < fuel) :
    listNames fs pauses fuel turn k =
      some (true, (List.range' r (e - r)).map fun j => entryName (fs.dirEntry j)) := by
  induction fuel generalizing k turn r with
  | zero => exact absurd hfuel (Nat.not_lt_zero _)
  | succ fuel ih =>
    rcases Nat.lt_or_eq_of_le hle with hlt | rfl
    · obtain ⟨k', hdesc', hturn⟩ := listNames_name pauses fuel turn hdesc
        (lt_trans hlt he) (hnames r hlt)
      rw [hturn, ih hlt hdesc' (by omega), show e - r = e - (r + 1) + 1 by omega, List.range'_succ]
      rfl
    · rw [← (pauses turn).desc k] at hdesc
      obtain ⟨k', hread, -⟩ := read_dirAt ((pauses turn).caller k) hdesc 32
      rw [listNames_succ hread, FileSystem.dirReply, if_pos he, Nat.sub_self,
        if_pos (FileSystem.nameLength_eq_zero.mpr hempty)]
      rfl

/-- The listing loop fails behind the table when no entry has an empty name. -/
theorem listNames_fails (pauses : ℕ → Pause p i) {fuel : ℕ} (turn : ℕ)
    (hnames : ∀ j < TOTAL_NUM_DIR, entryName (fs.dirEntry j) ≠ []) (hle : r ≤ TOTAL_NUM_DIR)
    (hdesc : DirAt ((k.pcb p).fileDescArr i) (min r TOTAL_NUM_DIR)) (hfuel : TOTAL_NUM_DIR - r < fuel) :
    ∃ names, listNames fs pauses fuel turn k = some (false, names) := by
  induction fuel generalizing k turn r with
  | zero => exact absurd hfuel (Nat.not_lt_zero _)
  | succ fuel ih =>
    rcases Nat.lt_or_eq_of_le hle with hlt | rfl
    · obtain ⟨k', hdesc', hturn⟩ := listNames_name pauses fuel turn hdesc hlt
        (hnames r hlt)
      obtain ⟨names, hrest⟩ := ih (turn + 1) hlt hdesc' (by omega)
      rw [hturn, hrest]
      exact ⟨_, rfl⟩
    · rw [← (pauses turn).desc k] at hdesc
      obtain ⟨k', hread, -⟩ := read_dirAt ((pauses turn).caller k) hdesc 32
      rw [listNames_succ hread, FileSystem.dirReply, if_neg (lt_irrefl _), if_neg (by decide), if_pos rfl]
      exact ⟨[], rfl⟩

/-- The listing loop goes through exactly the names in use, and ends normally, when the first unused entry
is in the table and has an empty name. -/
theorem listNames_iff (hdir : fs.Directory) (hdesc : DirAt ((k.pcb p).fileDescArr i) 0) (pauses : ℕ → Pause p i) :
    listNames fs pauses (TOTAL_NUM_DIR + 1) 0 k =
        some (true, (List.range fs.dirNum.toNat).map fun j => entryName (fs.dirEntry j)) ↔
      fs.dirNum.toNat < TOTAL_NUM_DIR ∧ entryName (fs.dirEntry fs.dirNum.toNat) = [] := by
  rw [← Nat.zero_min TOTAL_NUM_DIR] at hdesc
  have hends {e : ℕ} (he : e < TOTAL_NUM_DIR) (hempty : entryName (fs.dirEntry e) = [])
      (hnames : ∀ j < e, entryName (fs.dirEntry j) ≠ []) :
      listNames fs pauses (TOTAL_NUM_DIR + 1) 0 k =
        some (true, (List.range e).map fun j => entryName (fs.dirEntry j)) := by
    rw [List.range_eq_range', listNames_ends pauses he hempty hnames (Nat.zero_le e) hdesc (by omega), Nat.sub_zero]
  constructor
  · intro hlisted
    by_cases hexists : ∃ e, e < TOTAL_NUM_DIR ∧ entryName (fs.dirEntry e) = []
    · obtain ⟨he, hempty⟩ := Nat.find_spec hexists
      have hfirst := hends he hempty fun j hj hnil => Nat.find_min hexists hj ⟨lt_trans hj he, hnil⟩
      have hlength := congrArg (fun o => o.map fun r => r.2.length) (hfirst.symm.trans hlisted)
      simp only [Option.map_some, List.length_map, List.length_range, Option.some.injEq] at hlength
      rw [hlength] at he hempty
      exact ⟨he, hempty⟩
    · obtain ⟨names, hfails⟩ : ∃ names, listNames fs pauses (TOTAL_NUM_DIR + 1) 0 k = some (false, names) :=
        listNames_fails pauses 0 (fun j hj hnil => hexists ⟨j, hj, hnil⟩) (Nat.zero_le _) hdesc (by omega)
      rw [hfails] at hlisted
      cases hlisted
  · intro hfirst
    exact hends hfirst.1 hfirst.2 hdir.nonempty

end Reads

/-- Listing an opened directory with `dir_num` entries in use: any number of reads returns their names and
then 0 exactly when the reads stay in the table and meet no unused entry that still has a name; and the
loop of `ls` and `grep` ends normally after exactly these names when the first unused entry is in the
table and has an empty name. -/
theorem directory_listed_iff {fs : FileSystem} (hdir : fs.Directory) {k k₁ : Kernel} {fileName : Bytes}
    {dentry : Dentry} {fd : UInt32} (hname : fs.readDentryByName fileName = some dentry)
    (htype : dentry.fileType = 1) (hopen : k.openFile fs fileName = some (fd, k₁)) (hfd : fd ≠ FAIL) :
    ∃ p i, k.caller = some p ∧ fd = UInt32.ofNat i.val ∧
      (∀ chunks : List (Pause p i × UInt32), ∃ results k', readChunks fs k₁ chunks = some (results, k') ∧
        (results = (List.range chunks.length).map fs.listedReply ↔
          ∀ r < chunks.length, fs.dirNum.toNat ≤ r → r < TOTAL_NUM_DIR ∧ entryName (fs.dirEntry r) = [])) ∧
      ∀ pauses : ℕ → Pause p i,
        (listNames fs pauses (TOTAL_NUM_DIR + 1) 0 k₁ =
            some (true, (List.range fs.dirNum.toNat).map fun j => entryName (fs.dirEntry j)) ↔
          fs.dirNum.toNat < TOTAL_NUM_DIR ∧ entryName (fs.dirEntry fs.dirNum.toNat) = []) := by
  have hdriver : driverOfType dentry.fileType = some .dir := by
    rw [htype]
    rfl
  obtain ⟨p, i, hcaller, hindex, hdesc⟩ := openFile_desc hname hdriver hopen hfd
  have hstart : DirAt ((k₁.pcb p).fileDescArr i) 0 := by
    rw [hdesc]
    exact ⟨rfl, rfl, rfl⟩
  refine ⟨p, i, hcaller, hindex, ?_, listNames_iff hdir hstart⟩
  intro chunks
  obtain ⟨k', hrun⟩ := readChunks_dirAt (r := 0) hstart chunks
  refine ⟨_, k', hrun, ?_⟩
  rw [← List.range_eq_range', List.map_inj_left]
  simp only [List.mem_range, FileSystem.dirReply_eq_iff hdir]

/-- Memory with an image at 64KB of one entry in use, the directory `.`, whose second entry still has the
name `a`. -/
def leftoverMem (a : UInt32) : UInt8 :=
  (([(0x10000, 1), (0x10040, 0x2E), (0x10060, 1), (0x10080, 0x61)] : List (UInt32 × UInt8)).lookup a).getD 0

/-- The file system on that image. -/
def leftoverFs : FileSystem := fileSystemInit leftoverMem 0x10000

/-- Its directory is one that the format allows. -/
theorem leftoverFs_directory : leftoverFs.Directory := by
  have hcount : leftoverFs.dirNum.toNat = 1 := by decide
  refine ⟨by decide, ?_, ?_⟩
  · intro i hi
    rw [hcount, Nat.lt_one_iff] at hi
    rw [hi]
    decide +kernel
  · intro i hi j hj _
    rw [hcount, Nat.lt_one_iff] at hi hj
    rw [hi, hj]

/-- The pause after which process `p` runs again. -/
def resumePause (p : Slot) (i : Fin 8) : Pause p i where
  run k := { k with currPid := fun _ => some p }
  caller _ := rfl
  desc _ := rfl

/-- After the one entry in use the second read delivers the name of an unused entry, and after the 63
entries every read returns -1. -/
theorem directory_listed_leftover : ∃ (k k₁ : Kernel) (p : Slot) (i : Fin 8) (results : List (UInt32 × List UInt8))
    (k' : Kernel), leftoverFs.Directory ∧ k.openFile leftoverFs (toBytes [0x2E]) = some (UInt32.ofNat i.val, k₁) ∧
      readChunks leftoverFs k₁ (List.replicate 65 (resumePause p i, 32)) = some (results, k') ∧
      leftoverFs.dirNum = 1 ∧ results[1]? = some (1, [0x61]) ∧ results[64]? = some (FAIL, []) ∧
      results ≠ (List.range 65).map leftoverFs.listedReply := by
  have hopen : (soleProcess.openFile leftoverFs (toBytes [0x2E])).map Prod.fst = some 2 := by decide +kernel
  obtain ⟨⟨fd, k₁⟩, hopen, hfd⟩ := Option.map_eq_some_iff.mp hopen
  obtain rfl : fd = 2 := hfd
  have hname : leftoverFs.readDentryByName (toBytes [0x2E]) = some (leftoverFs.dirEntry 0) := by decide +kernel
  have hdriver : driverOfType (leftoverFs.dirEntry 0).fileType = some .dir := by decide +kernel
  obtain ⟨p, i, -, hindex, hdesc⟩ := openFile_desc hname hdriver hopen (by decide)
  have hstart : DirAt ((k₁.pcb p).fileDescArr i) 0 := by
    rw [hdesc]
    exact ⟨rfl, rfl, rfl⟩
  obtain ⟨k', hrun⟩ : ∃ k', readChunks leftoverFs k₁ (List.replicate 65 (resumePause p i, 32)) =
      some ((List.range' 0 65).map leftoverFs.dirReply, k') := readChunks_dirAt (r := 0) hstart _
  refine ⟨soleProcess, k₁, p, i, _, k', leftoverFs_directory, by rw [hopen, hindex], hrun, by decide, ?_, ?_, ?_⟩
  · decide +kernel
  · decide +kernel
  · decide +kernel

/-- Memory with an image at 64KB of three entries in use, the directory `.`, the file `a` and the clock `bc`. -/
def threeNamesMem (a : UInt32) : UInt8 :=
  (([(0x10000, 3), (0x10040, 0x2E), (0x10060, 1), (0x10080, 0x61), (0x100A0, 2), (0x100C0, 0x62), (0x100C1, 0x63)] :
    List (UInt32 × UInt8)).lookup a).getD 0

/-- The file system on that image. -/
def threeNamesFs : FileSystem := fileSystemInit threeNamesMem 0x10000

/-- Its directory is one that the format allows. -/
theorem threeNamesFs_directory : threeNamesFs.Directory := by
  have hcount : threeNamesFs.dirNum.toNat = 3 := by decide
  refine ⟨by decide, ?_, ?_⟩
  · rw [hcount]
    decide +kernel
  · rw [hcount]
    decide +kernel

/-- Five reads of that directory deliver its three names and then 0 twice, and the loop of `ls` ends behind them. -/
theorem directory_listed_three : ∃ k₁ p i results k', ∃ pauses : ℕ → Pause p i,
    readChunks threeNamesFs k₁ (List.replicate 5 (resumePause p i, 32)) = some (results, k') ∧
      results = [(1, [0x2E]), (1, [0x61]), (2, [0x62, 0x63]), (0, []), (0, [])] ∧
      listNames threeNamesFs pauses 64 0 k₁ = some (true, [[0x2E], [0x61], [0x62, 0x63]]) := by
  have hopen : (soleProcess.openFile threeNamesFs (toBytes [0x2E])).map Prod.fst = some 2 := by decide +kernel
  obtain ⟨⟨fd, k₁⟩, hopen, hfd⟩ := Option.map_eq_some_iff.mp hopen
  obtain rfl : fd = 2 := hfd
  have hname : threeNamesFs.readDentryByName (toBytes [0x2E]) = some (threeNamesFs.dirEntry 0) := by decide +kernel
  obtain ⟨p, i, -, -, hreads, hloop⟩ :=
    directory_listed_iff threeNamesFs_directory hname (by decide +kernel) hopen (by decide)
  obtain ⟨results, k', hrun, hlisted⟩ := hreads (List.replicate 5 (resumePause p i, 32))
  rw [List.length_replicate] at hlisted
  have hbehind : ∀ r < 5, threeNamesFs.dirNum.toNat ≤ r →
      r < TOTAL_NUM_DIR ∧ entryName (threeNamesFs.dirEntry r) = [] := by
    decide +kernel
  have hreplies : (List.range 5).map threeNamesFs.listedReply =
      [(1, [0x2E]), (1, [0x61]), (2, [0x62, 0x63]), (0, []), (0, [])] := by decide +kernel
  have hnames : (List.range threeNamesFs.dirNum.toNat).map (fun j => entryName (threeNamesFs.dirEntry j)) =
      [[0x2E], [0x61], [0x62, 0x63]] := by decide +kernel
  refine ⟨k₁, p, i, results, k', fun _ => resumePause p i, hrun, (hlisted.mpr hbehind).trans hreplies, ?_⟩
  rw [← hnames]
  exact (hloop _).mpr (by decide +kernel)

end OsKernel
