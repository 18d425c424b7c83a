import OsKernel.Image
import OsKernel.Process

/-!
# Sequential reads of a regular file

A descriptor that `open` returned for a regular file is read in chunks, with anything happening in
between that leaves that descriptor alone. The chunks are the file, in order and once.
-/

namespace OsKernel

/-- What may happen between two reads: anything after which process `p` runs again and its
descriptor `i` is as it was. -/
structure Pause (p : Slot) (i : Fin 8) where
  run : Kernel → Kernel
  caller : ∀ k, (run k).caller = some p
  desc : ∀ k, ((run k).pcb p).fileDescArr i = (k.pcb p).fileDescArr i

/-- Read chunk after chunk, each after a pause: the returned values with the bytes, and the last
state. -/
def readChunks (fs : FileSystem) {p : Slot} {i : Fin 8} :
    Kernel → List (Pause p i × UInt32) → Option (List (UInt32 × List UInt8) × Kernel)
  | k, [] => some ([], k)
  | k, (pause, n) :: rest =>
    match (pause.run k).read fs i.val n with
    | some (.done ret bytes k') => (readChunks fs k' rest).map fun r => ((ret, bytes) :: r.1, r.2)
    | _ => none

/-- The number of bytes each of the chunks finds when `left` bytes are left. -/
def chunkCounts (left : ℕ) : List ℕ → List ℕ
  | [] => []
  | n :: rest => min n left :: chunkCounts (left - min n left) rest

/-- An open descriptor of a regular file, at a position inside it. -/
structure FileAt (fs : FileSystem) (d : FileDesc) (inode : UInt32) (position : ℕ) : Prop where
  open_ : d.flag = true
  regular : d.fop = .file
  inode_eq : d.inode = inode
  position_eq : d.position = UInt32.ofNat position
  inside : position ≤ (fs.fileLength inode).toNat

section Reads

variable {image : Image} {p : Slot} {i : Fin 8} {inode : UInt32}

/-- What a chunk finds fits a word that is no error. -/
theorem readCount_lt (hinode : inode < image.fs.inodeSize) (position n : ℕ) :
    image.fs.readCount inode position n < 4294967295 := by
  have hle := image.length_le inode hinode
  change (image.fs.fileLength inode).toNat ≤ 1023 * 4096 at hle
  simp only [FileSystem.readCount]
  omega

/-- `file_read` on a descriptor whose data can be read. -/
theorem fileRead_eq {fs : FileSystem} {k : Kernel} {n ret : UInt32} {bytes : List UInt8}
    (hread : fs.readBytes ((k.pcb p).fileDescArr i).inode ((k.pcb p).fileDescArr i).position n =
      (ret, bytes)) (hret : ret ≠ FAIL) :
    k.fileRead fs p i n = (ret, bytes, k.modifyPcb p (·.setDesc i { (k.pcb p).fileDescArr i with
      position := ((k.pcb p).fileDescArr i).position + ret })) := by
  rw [Kernel.fileRead, hread]
  exact if_neg hret

/-- `read` on an open descriptor of a regular file calls `file_read`. -/
theorem read_file {fs : FileSystem} {k : Kernel} {n : UInt32} (hcaller : k.caller = some p)
    (hflag : ((k.pcb p).fileDescArr i).flag = true) (hfop : ((k.pcb p).fileDescArr i).fop = .file) :
    k.read fs i.val n = some (.ofCall (({ k with pcbValRead := some p } : Kernel).fileRead fs p i n)) := by
  have hcaller' : ({ k with pcbValRead := some p } : Kernel).caller = some p := hcaller
  simp only [Kernel.read, descIndex_val, hcaller, hcaller', Option.map_some, hflag, if_true,
    Kernel.driverRead, hfop]

/-- One read: it returns the bytes at the position and moves the position past them. -/
theorem read_fileAt {k : Kernel} {position : ℕ} (hinode : inode < image.fs.inodeSize)
    (hcaller : k.caller = some p) (hdesc : FileAt image.fs ((k.pcb p).fileDescArr i) inode position)
    (n : UInt32) :
    ∃ k', k.read image.fs i.val n =
        some (.done (UInt32.ofNat (image.fs.readCount inode position n.toNat))
          (image.fs.fileBytes inode position (image.fs.readCount inode position n.toNat)) k') ∧
      FileAt image.fs ((k'.pcb p).fileDescArr i) inode
        (position + image.fs.readCount inode position n.toNat) := by
  have hcount := readCount_lt hinode position n.toNat
  have hsize := (image.fs.fileLength inode).toNat_lt
  have hpos : (UInt32.ofNat position).toNat = position :=
    UInt32.toNat_ofNat_of_lt' (lt_of_le_of_lt hdesc.inside hsize)
  have hok : UInt32.ofNat (image.fs.readCount inode position n.toNat) ≠ FAIL := by
    intro hfail
    have hnat := congrArg UInt32.toNat hfail
    rw [UInt32.toNat_ofNat_of_lt' (lt_trans hcount (by decide)), toNat_FAIL] at hnat
    omega
  have hread : image.fs.readBytes ((k.pcb p).fileDescArr i).inode ((k.pcb p).fileDescArr i).position n =
      (UInt32.ofNat (image.fs.readCount inode position n.toNat),
        image.fs.fileBytes inode position (image.fs.readCount inode position n.toNat)) := by
    rw [hdesc.inode_eq, hdesc.position_eq, image.fs.readBytes_eq hinode (Image.inodeInfo_ne_zero hinode),
      hpos]
  have hfile := fileRead_eq (k := { k with pcbValRead := some p }) hread hok
  have hcall := (read_file (n := n) hcaller hdesc.open_ hdesc.regular).trans
    (congrArg (fun r => some (Kernel.ReadResult.ofCall r)) hfile)
  refine ⟨_, hcall, ?_⟩
  simp only [Kernel.modifyPcb, Pcb.setDesc, Function.update_self]
  refine ⟨hdesc.open_, hdesc.regular, hdesc.inode_eq, ?_, ?_⟩
  · rw [hdesc.position_eq, UInt32.ofNat_add]
  · have hinside := hdesc.inside
    simp only [FileSystem.readCount]
    omega

/-- A chunk whose read returns. -/
theorem readChunks_cons {fs : FileSystem} {k k' : Kernel} {pause : Pause p i} {n ret : UInt32} {bytes : List UInt8}
    (hread : (pause.run k).read fs i.val n = some (.done ret bytes k')) (rest : List (Pause p i × UInt32)) :
    readChunks fs k ((pause, n) :: rest) =
      (readChunks fs k' rest).map fun r => ((ret, bytes) :: r.1, r.2) := by
  change (match (pause.run k).read fs i.val n with
    | some (.done ret bytes k') =>
      (readChunks fs k' rest).map fun r : List (UInt32 × List UInt8) × Kernel => ((ret, bytes) :: r.1, r.2)
    | _ => none) = _
  rw [hread]

/-- Reading chunk after chunk from a position inside the file. -/
theorem readChunks_fileAt (hinode : inode < image.fs.inodeSize) {k : Kernel} {position : ℕ}
    (hdesc : FileAt image.fs ((k.pcb p).fileDescArr i) inode position)
    (chunks : List (Pause p i × UInt32)) :
    ∃ results k', readChunks image.fs k chunks = some (results, k') ∧
      results.map (·.1.toNat) = chunkCounts ((image.fs.fileLength inode).toNat - position)
        (chunks.map (·.2.toNat)) ∧
      (∀ r ∈ results, r.2.length = r.1.toNat) ∧
      results.flatMap (·.2) = image.fs.fileBytes inode position
        (image.fs.readCount inode position (chunks.map (·.2.toNat)).sum) ∧
      FileAt image.fs ((k'.pcb p).fileDescArr i) inode
        (position + image.fs.readCount inode position (chunks.map (·.2.toNat)).sum) := by
  induction chunks generalizing k position with
  | nil => exact ⟨[], k, rfl, rfl, by simp, by simp [FileSystem.readCount], by simpa [FileSystem.readCount]⟩
  | cons chunk rest ih =>
    obtain ⟨pause, n⟩ := chunk
    rw [← pause.desc k] at hdesc
    obtain ⟨k₁, hread, hdesc₁⟩ := read_fileAt hinode (pause.caller k) hdesc n
    obtain ⟨results, k', hrun, hcounts, hlengths, hbytes, hlast⟩ := ih hdesc₁
    have hcount := readCount_lt hinode position n.toNat
    have hnat : (UInt32.ofNat (image.fs.readCount inode position n.toNat)).toNat =
        image.fs.readCount inode position n.toNat :=
      UInt32.toNat_ofNat_of_lt' (lt_trans hcount (by decide))
    have hsum : image.fs.readCount inode position n.toNat +
        image.fs.readCount inode (position + image.fs.readCount inode position n.toNat)
          (rest.map (·.2.toNat)).sum =
        image.fs.readCount inode position (n.toNat + (rest.map (·.2.toNat)).sum) := by
      simp only [FileSystem.readCount]
      omega
    refine ⟨(UInt32.ofNat (image.fs.readCount inode position n.toNat), image.fs.fileBytes inode
      position (image.fs.readCount inode position n.toNat)) :: results, k', ?_, ?_, ?_, ?_, ?_⟩
    · rw [readChunks_cons hread, hrun, Option.map_some]
    · rw [List.map_cons, hcounts, List.map_cons, chunkCounts, hnat, FileSystem.readCount, Nat.sub_add_eq]
    · intro r hr
      rcases List.mem_cons.mp hr with rfl | hr
      · rw [hnat, FileSystem.length_fileBytes]
      · exact hlengths r hr
    · rw [List.flatMap_cons, hbytes, FileSystem.fileBytes_append, List.map_cons, List.sum_cons, hsum]
    · rw [List.map_cons, List.sum_cons, ← hsum, ← Nat.add_assoc]
      exact hlast

/-- The descriptor that `open` returns is at the start of what the name stands for. -/
theorem openFile_desc {fs : FileSystem} {k k₁ : Kernel} {fileName : Bytes} {dentry : Dentry} {fd : UInt32}
    {driver : Driver} (hname : fs.readDentryByName fileName = some dentry)
    (htype : driverOfType dentry.fileType = some driver)
    (hopen : k.openFile fs fileName = some (fd, k₁)) (hfd : fd ≠ FAIL) :
    ∃ p i, k.caller = some p ∧ fd = UInt32.ofNat i.val ∧
      (k₁.pcb p).fileDescArr i = { fop := driver, inode := dentry.inodeIdx, position := 0, flag := true } := by
  unfold Kernel.openFile at hopen
  split at hopen
  · cases hopen
    exact absurd rfl hfd
  · simp only [hname, htype] at hopen
    obtain ⟨p, hp, heq⟩ := Option.map_eq_some_iff.mp hopen
    cases hfree : (k.pcb p).freeDesc with
    | none =>
      rw [hfree] at heq
      exact absurd (Prod.mk.inj heq).1.symm hfd
    | some i =>
      rw [hfree] at heq
      obtain ⟨rfl, rfl⟩ := Prod.mk.inj heq
      refine ⟨p, i, hp, rfl, ?_⟩
      cases driver <;> simp only [Kernel.driverOpen, Kernel.modifyPcb, Pcb.setDesc, Function.update_self]

/-- `open` on a regular file: the descriptor it returns is at the start of that file. -/
theorem openFile_fileAt {k k₁ : Kernel} {fileName : Bytes} {dentry : Dentry} {fd : UInt32}
    (hname : image.fs.readDentryByName fileName = some dentry) (htype : dentry.fileType = 2)
    (hopen : k.openFile image.fs fileName = some (fd, k₁)) (hfd : fd ≠ FAIL) :
    ∃ p i, k.caller = some p ∧ fd = UInt32.ofNat i.val ∧
      FileAt image.fs ((k₁.pcb p).fileDescArr i) dentry.inodeIdx 0 := by
  have hdriver : driverOfType dentry.fileType = some .file := by
    rw [htype]
    rfl
  obtain ⟨p, i, hcaller, hindex, hdesc⟩ := openFile_desc hname hdriver hopen hfd
  refine ⟨p, i, hcaller, hindex, ?_⟩
  rw [hdesc]
  exact ⟨rfl, rfl, rfl, rfl, Nat.zero_le _⟩

end Reads

/-- Reading an opened regular file in any chunks, whatever happens between the reads: each call
returns the smaller of its size and the bytes left, the returned bytes join to a prefix of the file
of the total length, and the position is where the prefix ends. -/
theorem read_sequential {image : Image} {k k₁ : Kernel} {fileName : Bytes} {dentry : Dentry}
    {fd : UInt32} (hname : image.fs.readDentryByName fileName = some dentry)
    (htype : dentry.fileType = 2) (hopen : k.openFile image.fs fileName = some (fd, k₁))
    (hfd : fd ≠ FAIL) :
    ∃ p i, k.caller = some p ∧ fd = UInt32.ofNat i.val ∧
      ∀ chunks : List (Pause p i × UInt32), ∃ results k',
        readChunks image.fs k₁ chunks = some (results, k') ∧
        results.map (·.1.toNat) =
          chunkCounts (image.fs.fileContent dentry.inodeIdx).length (chunks.map (·.2.toNat)) ∧
        (∀ r ∈ results, r.2.length = r.1.toNat) ∧
        results.flatMap (·.2) =
          (image.fs.fileContent dentry.inodeIdx).take (chunks.map (·.2.toNat)).sum ∧
        ((k'.pcb p).fileDescArr i).position.toNat =
          min (chunks.map (·.2.toNat)).sum (image.fs.fileContent dentry.inodeIdx).length := by
  obtain ⟨p, i, hcaller, hindex, hdesc⟩ := openFile_fileAt hname htype hopen hfd
  have hinode := Image.inode_lt_of_lookup hname htype
  refine ⟨p, i, hcaller, hindex, fun chunks => ?_⟩
  obtain ⟨results, k', hrun, hcounts, hlengths, hbytes, hlast⟩ := readChunks_fileAt hinode hdesc chunks
  have hlength : (image.fs.fileContent dentry.inodeIdx).length =
      (image.fs.fileLength dentry.inodeIdx).toNat := FileSystem.length_fileBytes _ _
  refine ⟨results, k', hrun, ?_, hlengths, ?_, ?_⟩
  · rw [hcounts, hlength, Nat.sub_zero]
  · rw [hbytes, FileSystem.take_fileContent, FileSystem.readCount, Nat.sub_zero]
  · have hinside := hlast.inside
    rw [hlast.position_eq, UInt32.toNat_ofNat_of_lt'
      (lt_of_le_of_lt hinside (image.fs.fileLength dentry.inodeIdx).toNat_lt), hlength,
      FileSystem.readCount, Nat.zero_add, Nat.sub_zero]

/-- A process in slot 0 of a machine with the image of one executable. -/
def soleProcess : Kernel :=
  { bootKernel (fun _ => Pcb.zeroed.fileDescArrInitial) (fun _ _ => 0) with
    pid := fun i => i = 0
    currPid := fun t => if t = 0 then some 0 else none
    termProc := fun t => if t = 0 then some 0 else none }

/-- That process opens `shell` as descriptor 2 and reads its first bytes in any chunks. -/
theorem read_sequential_shell :
    (soleProcess.openFile shellImage.fs (toBytes shellName)).map Prod.fst = some 2 ∧
    ∃ k₁ p i, ∀ chunks : List (Pause p i × UInt32), (chunks.map (·.2.toNat)).sum = 4 →
      ∃ results k', readChunks shellImage.fs k₁ chunks = some (results, k') ∧
        results.flatMap (·.2) = [0x7F, 0x45, 0x4C, 0x46] := by
  have hname : shellImage.fs.readDentryByName (toBytes shellName) = some (shellImage.fs.dirEntry 0) := by
    decide +kernel
  have hopen : (soleProcess.openFile shellImage.fs (toBytes shellName)).map Prod.fst = some 2 := by
    decide +kernel
  refine ⟨hopen, ?_⟩
  obtain ⟨⟨fd, k₁⟩, hopen, hfd⟩ := Option.map_eq_some_iff.mp hopen
  obtain rfl : fd = 2 := hfd
  obtain ⟨p, i, -, -, hread⟩ := read_sequential hname (by decide +kernel) hopen (by decide)
  refine ⟨k₁, p, i, fun chunks hsum => ?_⟩
  obtain ⟨results, k', hrun, -, -, hbytes, -⟩ := hread chunks
  rw [hsum] at hbytes
  exact ⟨results, k', hrun, hbytes.trans (by decide +kernel)⟩

end OsKernel
