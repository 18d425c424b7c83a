import OsKernel.DirectoryListing
import OsKernel.UserProgram

/-!
# The calls of a program, one by one

What each call does on the view of a process: a print extends the output, an open takes the least free
descriptor, a read of a regular file takes the next bytes of what is left of it.
-/

namespace OsKernel

open Library

/-- The characters of a text. -/
def asciiText (s : String) : List UInt8 := s.toList.map fun c => c.toNat.toUInt8

/-- `ece391_fdputs` -/
def ece391Fdputs (fd : ℤ) (m : CharBuf) (s : ℕ) : UserProgram Unit := do
  let n ← .expect (ece391Strlen m s)
  let _ ← .ask (.write fd (m.tail s) n)
  return ()

/-- `ece391_fdputs (1, "…")` -/
def putText (text : String) : UserProgram Unit := ece391Fdputs 1 (.literal (asciiText text)) 0

namespace UserView

/-- Descriptor 1 is open on the console. -/
def Prints (v : UserView) : Prop := ∃ f, v.files 1 = some f ∧ f.fop = .stdout

/-- The view with more output. -/
def print (v : UserView) (text : List UInt8) : UserView := { v with output := v.output ++ text }

/-- Descriptor `i` is open on a regular file with some bytes left to read. -/
structure Reading (fs : FileSystem) (v : UserView) (i : Fin 8) (rest : List UInt8) : Prop where
  opened : ∃ inode position, v.files i = some { fop := .file, inode, position := UInt32.ofNat position } ∧
    inode < fs.inodeSize ∧ position ≤ (fs.fileLength inode).toNat ∧ rest = (fs.fileContent inode).drop position

/-- All but descriptor `i` is as before. -/
structure SameBut (i : Fin 8) (v v' : UserView) : Prop where
  files : ∀ j, j ≠ i → v'.files j = v.files j
  args : v'.args = v.args
  input : v'.input = v.input
  output : v'.output = v.output

variable {fs : FileSystem} {v v' : UserView} {i : Fin 8} {rest : List UInt8}

@[simp] theorem print_files (v : UserView) (text : List UInt8) : (v.print text).files = v.files := rfl

@[simp] theorem print_output (v : UserView) (text : List UInt8) : (v.print text).output = v.output ++ text := rfl

@[simp] theorem print_args (v : UserView) (text : List UInt8) : (v.print text).args = v.args := rfl

@[simp] theorem print_input (v : UserView) (text : List UInt8) : (v.print text).input = v.input := rfl

@[simp] theorem print_print (v : UserView) (first second : List UInt8) :
    (v.print first).print second = v.print (first ++ second) := by
  simp only [print, List.append_assoc]

@[simp] theorem print_nil (v : UserView) : v.print [] = v := by
  simp only [print, List.append_nil]

/-- Printing keeps the console open. -/
theorem Prints.print (h : v.Prints) (text : List UInt8) : (v.print text).Prints := h

/-- Printing moves no file. -/
theorem Reading.print (h : v.Reading fs i rest) (text : List UInt8) : (v.print text).Reading fs i rest := ⟨h.opened⟩

/-- The console stays open when another descriptor moves. -/
theorem SameBut.prints (h : SameBut i v v') (hi : i ≠ 1) (hprints : v.Prints) : v'.Prints := by
  obtain ⟨f, hf, hfop⟩ := hprints
  exact ⟨f, (h.files 1 hi.symm).trans hf, hfop⟩

/-- What two moves of one descriptor leave alone. -/
theorem SameBut.trans {v'' : UserView} (h : SameBut i v v') (h' : SameBut i v' v'') : SameBut i v v'' :=
  ⟨fun j hj => (h'.files j hj).trans (h.files j hj), h'.args.trans h.args, h'.input.trans h.input,
    h'.output.trans h.output⟩

/-- The file that a descriptor names. -/
theorem file_desc (v : UserView) (i : Fin 8) : v.file i.val = v.files i := by
  rw [file, descIndex_val, Option.bind_some]

/-- A write to the console prints the bytes of the buffer. -/
theorem answer_print (fs : FileSystem) (h : v.Prints) (buf : Bytes) (nbytes : ℤ) :
    v.answer fs (.write 1 buf nbytes) = some ((printedCount buf nbytes, []), v.print (written buf nbytes)) := by
  obtain ⟨f, hf, hfop⟩ := h
  have hfile : v.file 1 = some f := (file_desc v 1).trans hf
  simp only [answer, hfile, DescMap.writeOpen, hfop]
  rfl

/-- The count that a write returns is no error, whatever is written. -/
theorem printedCount_ne_fail {buf : Bytes} {nbytes : ℤ} (h : nbytes < 4294967295) : printedCount buf nbytes ≠ FAIL := by
  intro hfail
  have hle : (written buf nbytes).countP (· ≠ 0) ≤ nbytes.toNat := by
    refine le_of_le_of_eq List.countP_le_length ?_
    rw [written, List.length_map, List.length_range]
  have hnat := congrArg UInt32.toNat hfail
  rw [printedCount, UInt32.toNat_ofNat_of_lt' (by rw [UInt32.size]; omega), toNat_FAIL] at hnat
  omega

/-- The bytes that a call has stored are the ones a write from there hands over. -/
theorem written_filled {m m' : CharBuf} {a : ℕ} {bytes : List UInt8} (h : m.Filled m' a bytes) :
    written (m'.tail a) bytes.length = bytes := by
  apply List.ext_getElem?
  intro j
  rw [written, Int.toNat_natCast, List.getElem?_map]
  by_cases hj : j < bytes.length
  · rw [List.getElem?_range hj, ← h.stored j hj]
    rfl
  · rw [List.getElem?_eq_none (by simpa using hj), List.getElem?_eq_none (by simpa using hj)]
    rfl

/-- The bytes of a string up to its NUL. -/
theorem written_spells {m : CharBuf} {a : ℕ} {w : List UInt8} (h : m.SpellsAt a w) :
    written (m.tail a) w.length = w := by
  apply List.ext_getElem?
  intro j
  rw [written, Int.toNat_natCast, List.getElem?_map]
  by_cases hj : j < w.length
  · rw [List.getElem?_range hj, h.spells.letter j hj]
    rfl
  · rw [List.getElem?_eq_none (by simpa using hj), List.getElem?_eq_none (by simpa using hj)]
    rfl

/-- `ece391_fdputs` prints a string. -/
theorem run_fdputs (hprints : v.Prints) {m : CharBuf} {a : ℕ} {w : List UInt8} (h : m.SpellsAt a w) :
    runView fs (ece391Fdputs 1 m a) v = some ((), v.print w) := by
  rw [ece391Fdputs, ece391Strlen_eq h]
  simp only [runView, Dialogue.run_bind, Dialogue.run_expect, Option.bind_some, Dialogue.run_ask,
    answer_print fs hprints,
    written_spells h, Dialogue.run_pure]

/-- A message is printed. -/
theorem run_putText (hprints : v.Prints) (text : String) (h : 0 ∉ asciiText text) :
    runView fs (putText text) v = some ((), v.print (asciiText text)) :=
  run_fdputs hprints (CharBuf.literal_spellsAt h)

/-- A message is printed before the program goes on. -/
theorem run_message {A : Type} (hprints : v.Prints) {text : String} (h : 0 ∉ asciiText text) (a : A) :
    runView fs (do putText text; return a) v = some (a, v.print (asciiText text)) := by
  have hput : (putText text).run (fun v => v.answer fs) v = _ := run_putText hprints text h
  rw [runView, Dialogue.run_bind, hput]
  rfl

/-- What is left of a file from a position on. -/
theorem drop_fileContent (fs : FileSystem) (inode : UInt32) (position : ℕ) :
    (fs.fileContent inode).drop position = fs.fileBytes inode position ((fs.fileLength inode).toNat - position) := by
  simp [FileSystem.fileContent, FileSystem.fileBytes, ← List.map_drop]

/-- A part of the bytes of a file. -/
theorem take_fileBytes (fs : FileSystem) (inode : UInt32) (position count n : ℕ) :
    (fs.fileBytes inode position count).take n = fs.fileBytes inode position (min n count) := by
  rw [FileSystem.fileBytes, FileSystem.fileBytes, ← List.map_take]
  rcases Nat.le_total n count with hn | hn
  · rw [Nat.min_eq_left hn, List.take_range'_of_length_ge hn]
  · rw [Nat.min_eq_right hn, List.take_range'_of_length_le hn]

/-- A read of a regular file takes the next bytes. -/
theorem Reading.read {image : Image} (h : v.Reading image.fs i rest) (n : UInt32) :
    ∃ v', v.answer image.fs (.read i.val n) =
        some ((UInt32.ofNat (rest.take n.toNat).length, rest.take n.toNat), v') ∧
      v'.Reading image.fs i (rest.drop n.toNat) ∧ SameBut i v v' := by
  obtain ⟨inode, position, hfile, hinode, hle, rfl⟩ := h.opened
  have hsize := (image.fs.fileLength inode).toNat_lt
  have hcount := readCount_lt hinode position n.toNat
  have hposition : (UInt32.ofNat position).toNat = position := UInt32.toNat_ofNat_of_lt' (lt_of_le_of_lt hle hsize)
  have hread : image.fs.readBytes inode (UInt32.ofNat position) n =
      (UInt32.ofNat (image.fs.readCount inode position n.toNat),
        image.fs.fileBytes inode position (image.fs.readCount inode position n.toNat)) := by
    rw [image.fs.readBytes_eq hinode (Image.inodeInfo_ne_zero hinode), hposition]
  have hok : UInt32.ofNat (image.fs.readCount inode position n.toNat) ≠ FAIL := by
    intro hfail
    have hnat := congrArg UInt32.toNat hfail
    rw [UInt32.toNat_ofNat_of_lt' (lt_trans hcount (by decide)), toNat_FAIL] at hnat
    omega
  have htake : ((image.fs.fileContent inode).drop position).take n.toNat =
      image.fs.fileBytes inode position (image.fs.readCount inode position n.toNat) := by
    rw [drop_fileContent, take_fileBytes, FileSystem.readCount]
  have hlength : (((image.fs.fileContent inode).drop position).take n.toNat).length =
      image.fs.readCount inode position n.toNat := by
    rw [htake, FileSystem.length_fileBytes]
  let f' : OpenFile := ⟨.file, inode, UInt32.ofNat (position + image.fs.readCount inode position n.toNat)⟩
  have hcall : v.files.call image.fs (.read i.val n) =
      (some (UInt32.ofNat (image.fs.readCount inode position n.toNat)), v.files.hold i f') := by
    simp only [DescMap.call, descIndex_val, hfile, DescMap.readOpen, hread, if_neg hok, f', UInt32.ofNat_add]
  refine ⟨{ v with files := v.files.hold i f' }, ?_, ⟨inode, _, SlotMap.hold_self .., hinode, ?_, ?_⟩,
    fun j hj => SlotMap.hold_of_ne _ hj _, rfl, rfl, rfl⟩
  · rw [hlength, htake]
    simp only [answer, file_desc, hfile, readFile, hcall, storedBytes, driverBytes_file, hread]
    rfl
  · rw [FileSystem.readCount]
    omega
  · rw [List.drop_drop, FileSystem.readCount]
    rcases Nat.le_total n.toNat ((image.fs.fileLength inode).toNat - position) with hn | hn
    · rw [Nat.min_eq_left hn]
    · rw [Nat.min_eq_right hn, List.drop_of_length_le, List.drop_of_length_le] <;>
        rw [FileSystem.fileContent, FileSystem.length_fileBytes] <;> omega

/-- Descriptor `i` is open on the directory, behind entry `r - 1`. -/
structure Listing (v : UserView) (i : Fin 8) (r : ℕ) : Prop where
  opened : ∃ inode, v.files i = some { fop := .dir, inode, position := UInt32.ofNat r }
  inside : r ≤ TOTAL_NUM_DIR

/-- Printing moves no directory. -/
theorem Listing.print {r : ℕ} (h : v.Listing i r) (text : List UInt8) : (v.print text).Listing i r :=
  ⟨h.opened, h.inside⟩

/-- A read of the directory replies for its position and moves on, until it is behind the table. -/
theorem Listing.read (fs : FileSystem) {r : ℕ} (h : v.Listing i r) (n : UInt32) :
    ∃ v', v.answer fs (.read i.val n) = some (fs.dirReply r, v') ∧
      v'.Listing i (min (r + 1) TOTAL_NUM_DIR) ∧ SameBut i v v' := by
  obtain ⟨⟨inode, hfile⟩, hle⟩ := h
  rcases Nat.lt_or_eq_of_le hle with hin | hend
  · let f' : OpenFile := ⟨.dir, inode, UInt32.ofNat r + 1⟩
    have hcall : v.files.call fs (.read i.val n) =
        (some (UInt32.ofNat (entryName (fs.dirEntry r)).length), v.files.hold i f') := by
      simp only [DescMap.call, descIndex_val, hfile, DescMap.readOpen, FileSystem.readDentryByIndex_eq hin,
        fs.nameLength_eq, f']
    refine ⟨{ v with files := v.files.hold i f' }, ?_, ⟨⟨inode, ?_⟩, Nat.min_le_right _ _⟩,
      fun j hj => SlotMap.hold_of_ne _ hj _, rfl, rfl, rfl⟩
    · simp only [answer, file_desc, hfile, readFile, hcall, storedBytes, driverBytes_dir,
        FileSystem.readDentryByIndex_eq hin, Option.map_some, fs.nameLength_eq, fs.take_nameLength,
        FileSystem.dirReply, if_pos hin, Option.getD_some]
    · rw [Nat.min_eq_left (show r + 1 ≤ TOTAL_NUM_DIR from hin), UInt32.ofNat_add]
      exact SlotMap.hold_self ..
  · have hnone : fs.readDentryByIndex (UInt32.ofNat TOTAL_NUM_DIR) = none := if_pos (by decide)
    let f' : OpenFile := ⟨.dir, inode, UInt32.ofNat r⟩
    have hcall : v.files.call fs (.read i.val n) = (some FAIL, v.files.hold i f') := by
      simp only [DescMap.call, descIndex_val, hfile, DescMap.readOpen, hend, hnone, f']
    refine ⟨{ v with files := v.files.hold i f' }, ?_, ⟨⟨inode, ?_⟩, Nat.min_le_right _ _⟩,
      fun j hj => SlotMap.hold_of_ne _ hj _, rfl, rfl, rfl⟩
    · simp only [answer, file_desc, hfile, readFile, hcall, storedBytes, driverBytes_dir, hend, hnone, Option.map_none,
        FileSystem.dirReply, lt_irrefl, if_false, Option.getD_some, Option.getD_none]
    · rw [Nat.min_eq_right (hend ▸ Nat.le_succ r), ← hend]
      exact SlotMap.hold_self ..

/-- The name of a file that can be opened, with a free descriptor for it. -/
structure Opens (fs : FileSystem) (v : UserView) (fileName : Bytes) (i : Fin 8) (f : OpenFile) : Prop where
  resolves : DescMap.resolve fs fileName = some f
  free : v.files.leastFree FD_START = some i

/-- An open takes the least free descriptor. -/
theorem Opens.answer {fileName : Bytes} {f : OpenFile} (h : Opens fs v fileName i f) :
    v.answer fs (.openFile fileName) =
      some ((UInt32.ofNat i.val, []), { v with files := v.files.hold i f }) := by
  have hcall : v.files.call fs (.openFile fileName) = (some (UInt32.ofNat i.val), v.files.hold i f) := by
    simp only [DescMap.call, h.resolves, h.free]
  rw [UserView.answer, hcall]
  rfl

/-- The descriptor an open takes is none of the standard ones. -/
theorem Opens.ne_one {fileName : Bytes} {f : OpenFile} (h : Opens fs v fileName i f) : i ≠ 1 := by
  have hlo := (SlotMap.leastFree_eq_some.mp h.free).1
  rintro rfl
  exact absurd hlo (by decide)

/-- What an open leaves alone. -/
theorem sameBut_hold (v : UserView) (i : Fin 8) (f : OpenFile) : SameBut i v { v with files := v.files.hold i f } :=
  ⟨fun _ hj => SlotMap.hold_of_ne _ hj f, rfl, rfl, rfl⟩

/-- An opened regular file is all left to read. -/
theorem reading_opened {image : Image} {fileName : Bytes} {dentry : Dentry}
    (hname : image.fs.readDentryByName fileName = some dentry) (htype : dentry.fileType = 2) :
    Reading image.fs { v with files := v.files.hold i { fop := .file, inode := dentry.inodeIdx, position := 0 } } i
      (image.fs.fileContent dentry.inodeIdx) :=
  ⟨dentry.inodeIdx, 0, SlotMap.hold_self .., Image.inode_lt_of_lookup hname htype, Nat.zero_le _, rfl⟩

end UserView

end OsKernel
