import OsKernel.ProgramCalls
import OsKernel.UserBuffers

/-!
# The programs cat and ls

`cat` copies what it reads to the console until a read returns 0: a regular file to its end, a directory up
to the first empty name. `ls` does the same with the directory, a name to a line. Behind the last of the 63
entries every read fails, so both end with an error when no entry has an empty name.
-/

namespace OsKernel

open Library

/-- A turn of the loop of `cat`: the buffer for the next turn, or the status to return. -/
def catTurn (fd : ℤ) (buf : CharBuf) : UserProgram (CharBuf ⊕ UInt32) := do
  let cnt ← .ask (.read fd 1024)
  let buf ← .expect (buf.fill 0 cnt.2)
  if cnt.1 = 0 then return .inr 0
  if cnt.1 = FAIL then
    putText "file read failed\n"
    return .inr 3
  let ret ← .ask (.write 1 (buf.tail 0) cnt.1.toInt32.toInt)
  if ret.1 = FAIL then return .inr 3
  return .inl buf

/-- `main` of `cat`, with at most so many turns of its loop. -/
def catMain (turns : ℕ) (buf : CharBuf) : UserProgram UInt32 := do
  let ret ← .ask (.getargs 1024)
  let buf ← .expect (buf.fill 0 ret.2)
  if ret.1 ≠ 0 then
    putText "could not read arguments\n"
    return 3
  let fd ← .ask (.openFile (buf.tail 0))
  if fd.1 = FAIL then
    putText "file not found\n"
    return 2
  .loop (catTurn fd.1.toInt32.toInt) turns buf

/-- A turn of the loop of `ls`. -/
def lsTurn (fd : ℤ) (buf : CharBuf) : UserProgram (CharBuf ⊕ UInt32) := do
  let cnt ← .ask (.read fd 32)
  let buf ← .expect (buf.fill 0 cnt.2)
  if cnt.1 = 0 then return .inr 0
  if cnt.1 = FAIL then
    putText "directory entry read failed\n"
    return .inr 3
  let buf ← .expect (buf.store cnt.1.toNat 0x0A)
  let ret ← .ask (.write 1 (buf.tail 0) (cnt.1.toInt32.toInt + 1))
  if ret.1 = FAIL then return .inr 3
  return .inl buf

/-- `main` of `ls`, with at most so many turns of its loop. -/
def lsMain (turns : ℕ) (buf : CharBuf) : UserProgram UInt32 := do
  let fd ← .ask (.openFile ((CharBuf.literal (asciiText ".")).tail 0))
  if fd.1 = FAIL then
    putText "directory open failed\n"
    return 2
  .loop (lsTurn fd.1.toInt32.toInt) turns buf

namespace FileSystem

variable (fs : FileSystem)

/-- The names from entry `r` on, up to the first empty one. -/
def listingFrom (r : ℕ) : List (List UInt8) :=
  ((List.range' r (TOTAL_NUM_DIR - r)).map fun j => entryName (fs.dirEntry j)).takeWhile (· ≠ [])

/-- The names that a listing of the directory goes through. -/
def listing : List (List UInt8) := fs.listingFrom 0

/-- How a program ends that prints the names of a directory: it fails when no entry stops it. -/
def listEnd (shape : List UInt8 → List UInt8) (failure : String) : UInt32 × List UInt8 :=
  if fs.listing.length < TOTAL_NUM_DIR then (0, fs.listing.flatMap shape)
  else (3, fs.listing.flatMap shape ++ asciiText failure)

/-- The first entry with a name. -/
def entryNamed (name : List UInt8) : Option Dentry :=
  ((List.range TOTAL_NUM_DIR).map fs.dirEntry).find? fun entry => entryName entry = name

variable {fs} {r : ℕ}

/-- The next name of the listing. -/
theorem listingFrom_name (hr : r < TOTAL_NUM_DIR) (hname : entryName (fs.dirEntry r) ≠ []) :
    fs.listingFrom r = entryName (fs.dirEntry r) :: fs.listingFrom (r + 1) := by
  have hleft : TOTAL_NUM_DIR - r = (TOTAL_NUM_DIR - (r + 1)) + 1 := by omega
  rw [listingFrom, hleft, List.range'_succ, List.map_cons, List.takeWhile_cons_of_pos (by simpa using hname),
    listingFrom]

/-- An empty name ends the listing. -/
theorem listingFrom_empty (hr : r < TOTAL_NUM_DIR) (hname : entryName (fs.dirEntry r) = []) :
    fs.listingFrom r = [] := by
  have hleft : TOTAL_NUM_DIR - r = (TOTAL_NUM_DIR - (r + 1)) + 1 := by omega
  rw [listingFrom, hleft, List.range'_succ, List.map_cons, List.takeWhile_cons_of_neg (by simpa using hname)]

/-- So does the end of the table. -/
theorem listingFrom_end : fs.listingFrom TOTAL_NUM_DIR = [] := by
  rw [listingFrom, Nat.sub_self]
  rfl

/-- There are no more names than entries. -/
theorem length_listingFrom_le (fs : FileSystem) (r : ℕ) : (fs.listingFrom r).length ≤ TOTAL_NUM_DIR - r := by
  refine le_trans (List.takeWhile_prefix _).length_le (le_of_eq ?_)
  rw [List.length_map, List.length_range']

/-- The search of `read_dentry_by_name` finds the first entry with the name. -/
theorem readDentryByName_eq {fname : Bytes} {name : List UInt8} (h : Spells fname name) :
    fs.readDentryByName fname = fs.entryNamed name := by
  have hfind : ((List.range TOTAL_NUM_DIR).map fs.dirEntry).find? (nameMatches fname) = fs.entryNamed name := by
    rw [entryNamed, List.find?_map, List.find?_map]
    congr 2
    funext i
    rw [Function.comp_apply, Function.comp_apply, Bool.eq_iff_iff, nameMatches_iff h, decide_eq_true_eq]
  rw [readDentryByName]
  split_ifs with hlong
  · refine Eq.symm (List.find?_eq_none.mpr fun entry hentry hname => ?_)
    obtain ⟨i, -, rfl⟩ := List.mem_map.mp hentry
    have hle := fs.length_dirEntryName_le i
    rw [decide_eq_true_eq.mp hname] at hle
    rw [strlen_of_spells h] at hlong
    exact absurd (le_trans (Nat.min_le_left _ _) hle) (not_le.mpr hlong)
  · exact hfind

end FileSystem

namespace UserView

variable {fs : FileSystem} {image : Image} {v v' : UserView} {i : Fin 8} {buf : CharBuf} {bytes : List UInt8}

/-- The bytes of a reply are counted by it. -/
theorem count_eq (hlength : bytes.length ≤ 1024) :
    (UInt32.ofNat bytes.length).toInt32.toInt = bytes.length ∧ (UInt32.ofNat bytes.length).toNat = bytes.length ∧
      UInt32.ofNat bytes.length ≠ FAIL := by
  have hnat : (UInt32.ofNat bytes.length).toNat = bytes.length :=
    UInt32.toNat_ofNat_of_lt' (lt_of_le_of_lt hlength (by decide))
  refine ⟨toInt_ofNat (lt_of_le_of_lt hlength (by decide)), hnat, fun hfail => ?_⟩
  rw [hfail, toNat_FAIL] at hnat
  omega

/-- Only an empty reply counts 0 bytes. -/
theorem count_ne_zero (hlength : bytes.length ≤ 1024) (hne : bytes ≠ []) : UInt32.ofNat bytes.length ≠ 0 := by
  intro hzero
  have hnat := (count_eq hlength).2.1
  rw [hzero] at hnat
  exact hne (List.length_eq_zero_iff.mp hnat.symm)

/-- A turn of `cat` prints what the read stored. -/
theorem catTurn_copies
    (hread : v.answer fs (.read i.val 1024) = some ((UInt32.ofNat bytes.length, bytes), v'))
    (hprints : v'.Prints) (hsize : buf.size = 1024) (hlength : bytes.length ≤ 1024) (hne : bytes ≠ []) :
    ∃ buf', runView fs (catTurn i.val buf) v = some (.inl buf', v'.print bytes) ∧ buf'.size = 1024 := by
  obtain ⟨hint, -, hfail⟩ := count_eq hlength
  obtain ⟨buf', hfill, hfilled⟩ := buf.fill_eq 0 bytes (by omega)
  refine ⟨buf', ?_, hfilled.size.trans hsize⟩
  have hwritten := answer_print fs hprints (buf'.tail 0) bytes.length
  rw [written_filled hfilled] at hwritten
  have hok : printedCount (buf'.tail 0) bytes.length ≠ FAIL := printedCount_ne_fail (by omega)
  simp only [catTurn, runView, Dialogue.run_bind, Dialogue.run_ask, hread, Option.bind_some, hfill,
    Dialogue.run_expect, if_neg (count_ne_zero hlength hne), if_neg hfail, hint]
  rw [hwritten]
  simp only [Option.bind_some, if_neg hok, Dialogue.run_pure]

/-- A turn of `cat` ends it when the read returns 0. -/
theorem catTurn_ends (hread : v.answer fs (.read i.val 1024) = some ((0, []), v')) :
    runView fs (catTurn i.val buf) v = some (.inr 0, v') := by
  obtain ⟨buf', hfill, -⟩ := buf.fill_eq 0 [] (Nat.zero_le _)
  simp only [catTurn, runView, Dialogue.run_bind, Dialogue.run_ask, hread, Option.bind_some, hfill,
    Dialogue.run_expect, if_true, Dialogue.run_pure]

/-- A turn of `cat` ends it with a message when the read fails. -/
theorem catTurn_fails (hread : v.answer fs (.read i.val 1024) = some ((FAIL, []), v')) (hprints : v'.Prints) :
    runView fs (catTurn i.val buf) v = some (.inr 3, v'.print (asciiText "file read failed\n")) := by
  obtain ⟨buf', hfill, -⟩ := buf.fill_eq 0 [] (Nat.zero_le _)
  have hne : FAIL ≠ 0 := by decide
  have hput : (putText "file read failed\n").run (fun v => v.answer fs) v' = _ := run_putText hprints _ (by decide)
  simp only [catTurn, runView, Dialogue.run_bind, Dialogue.run_ask, hread, Option.bind_some, hfill,
    Dialogue.run_expect, if_neg hne, if_true]
  rw [hput]
  rfl

/-- The loop of `cat` on a regular file, with `n` bytes to go. -/
structure CatFile (image : Image) (i : Fin 8) (out : List UInt8) (n : ℕ) (buf : CharBuf) (v : UserView) : Prop where
  size : buf.size = 1024
  prints : v.Prints
  reading : ∃ rest, v.Reading image.fs i rest ∧ rest.length = n ∧ v.output ++ rest = out

/-- The loop of `cat` prints what is left of a regular file. -/
theorem catLoop_file (hi : i ≠ 1) {out : List UInt8} {n turns : ℕ} (h : CatFile image i out n buf v)
    (hturns : n < turns) :
    ∃ status v', runView image.fs (.loop (catTurn i.val) turns buf) v = some (status, v') ∧
      status = 0 ∧ v'.output = out := by
  refine Dialogue.run_loop _ (CatFile image i out) (fun status v' => status = 0 ∧ v'.output = out) ?_ h hturns
  rintro n buf v ⟨hsize, hprints, rest, hreading, rfl, rfl⟩
  obtain ⟨v', hread, hreading', hsame⟩ := hreading.read 1024
  have hprints' := hsame.prints hi hprints
  have hlength : (rest.take (1024 : UInt32).toNat).length ≤ 1024 := by
    rw [List.length_take]
    exact Nat.min_le_left _ _
  by_cases hrest : rest = []
  · subst hrest
    refine .inl ⟨0, v', catTurn_ends hread, rfl, ?_⟩
    rw [hsame.output, List.append_nil]
  · have hne : rest.take (1024 : UInt32).toNat ≠ [] := by
      rw [Ne, List.take_eq_nil_iff]
      exact not_or.mpr ⟨by decide, hrest⟩
    obtain ⟨buf', hrun, hsize'⟩ := catTurn_copies hread hprints' hsize hlength hne
    refine .inr ⟨buf', _, hrun, _, ?_, hsize', hprints'.print _, _, hreading'.print _, rfl, ?_⟩
    · have hpos : 0 < rest.length := List.length_pos_iff.mpr hrest
      have h1024 : (1024 : UInt32).toNat = 1024 := rfl
      rw [List.length_drop, h1024]
      omega
    · rw [print_output, hsame.output, List.append_assoc, List.take_append_drop]

/-- A loop over the directory with `n` reads to go, when `done` is printed behind the last name. -/
structure ListLoop (fs : FileSystem) (shape : List UInt8 → List UInt8) (i : Fin 8) (size : ℕ) (done : List UInt8)
    (n : ℕ) (buf : CharBuf) (v : UserView) : Prop where
  size_eq : buf.size = size
  prints : v.Prints
  listing : ∃ r, v.Listing i r ∧ n = TOTAL_NUM_DIR - r ∧ r + (fs.listingFrom r).length = fs.listing.length ∧
    v.output ++ (fs.listingFrom r).flatMap shape = done

/-- How a loop over the directory ends. -/
structure ListEnds (fs : FileSystem) (failure : String) (done : List UInt8) (status : UInt32) (v : UserView) :
    Prop where
  complete : fs.listing.length < TOTAL_NUM_DIR → status = 0 ∧ v.output = done
  full : fs.listing.length = TOTAL_NUM_DIR → status = 3 ∧ v.output = done ++ asciiText failure

/-- The body of a loop that prints each name of the directory in some shape. -/
structure ListTurn (fs : FileSystem) (shape : List UInt8 → List UInt8) (failure : String) (i : Fin 8) (size : ℕ)
    (nbytes : UInt32) (turn : CharBuf → UserProgram (CharBuf ⊕ UInt32)) : Prop where
  name : ∀ {v v' : UserView} {buf : CharBuf} {name : List UInt8},
    v.answer fs (.read i.val nbytes) = some ((UInt32.ofNat name.length, name), v') → v'.Prints →
    buf.size = size → name.length ≤ MAX_FILENAME → name ≠ [] →
    ∃ buf', runView fs (turn buf) v = some (.inl buf', v'.print (shape name)) ∧ buf'.size = size
  empty : ∀ {v v' : UserView} {buf : CharBuf}, v.answer fs (.read i.val nbytes) = some ((0, []), v') →
    runView fs (turn buf) v = some (.inr 0, v')
  fails : ∀ {v v' : UserView} {buf : CharBuf}, v.answer fs (.read i.val nbytes) = some ((FAIL, []), v') →
    v'.Prints → runView fs (turn buf) v = some (.inr 3, v'.print (asciiText failure))

/-- A loop whose turns print one name each goes through the listing. -/
theorem run_listLoop {shape : List UInt8 → List UInt8} {failure : String} {size : ℕ} {nbytes : UInt32}
    {turn : CharBuf → UserProgram (CharBuf ⊕ UInt32)} (hi : i ≠ 1)
    (hbody : ListTurn fs shape failure i size nbytes turn) {done : List UInt8} {n turns : ℕ}
    (h : ListLoop fs shape i size done n buf v) (hturns : n < turns) :
    ∃ status v', runView fs (.loop turn turns buf) v = some (status, v') ∧ ListEnds fs failure done status v' := by
  refine Dialogue.run_loop _ (ListLoop fs shape i size done) (ListEnds fs failure done) ?_ h hturns
  rintro n buf v ⟨hsize, hprints, r, hlisting, rfl, hcount, hout⟩
  obtain ⟨v', hread, hlisting', hsame⟩ := hlisting.read fs nbytes
  have hprints' := hsame.prints hi hprints
  rcases Nat.lt_or_eq_of_le hlisting.inside with hin | hend
  · rw [FileSystem.dirReply, if_pos hin] at hread
    rw [Nat.min_eq_left (show r + 1 ≤ TOTAL_NUM_DIR from hin)] at hlisting'
    by_cases hnil : entryName (fs.dirEntry r) = []
    · rw [hnil] at hread
      rw [FileSystem.listingFrom_empty hin hnil] at hcount hout
      rw [List.flatMap_nil, List.append_nil] at hout
      refine .inl ⟨0, v', hbody.empty hread, fun _ => ⟨rfl, hsame.output.trans hout⟩, fun hfull => ?_⟩
      exact absurd (hcount.trans hfull) (Nat.ne_of_lt hin)
    · obtain ⟨buf', hrun, hsize'⟩ := hbody.name hread hprints' hsize (fs.length_dirEntryName_le r) hnil
      rw [FileSystem.listingFrom_name hin hnil] at hcount hout
      refine .inr ⟨buf', _, hrun, _, Nat.sub_lt_sub_left hin (Nat.lt_succ_self r), hsize', hprints'.print _, r + 1,
        hlisting'.print _, rfl, ?_, ?_⟩
      · rw [List.length_cons] at hcount
        omega
      · rw [print_output, hsame.output, List.append_assoc, ← List.flatMap_cons]
        exact hout
  · rw [FileSystem.dirReply, hend, if_neg (lt_irrefl _)] at hread
    rw [hend, FileSystem.listingFrom_end] at hcount hout
    rw [List.flatMap_nil, List.append_nil] at hout
    refine .inl ⟨3, _, hbody.fails hread hprints', fun hshort => ?_, fun _ => ⟨rfl, ?_⟩⟩
    · exact absurd hcount (Nat.ne_of_gt hshort)
    · rw [print_output, hsame.output, hout]

/-- A turn of `ls` prints a name to a line. -/
theorem lsTurn_name {name : List UInt8}
    (hread : v.answer fs (.read i.val 32) = some ((UInt32.ofNat name.length, name), v')) (hprints : v'.Prints)
    (hsize : buf.size = 33) (hlength : name.length ≤ MAX_FILENAME) (hne : name ≠ []) :
    ∃ buf', runView fs (lsTurn i.val buf) v = some (.inl buf', v'.print (name ++ [0x0A])) ∧ buf'.size = 33 := by
  have hshort : name.length ≤ 1024 := le_trans hlength (by decide)
  obtain ⟨hint, hnat, hfail⟩ := count_eq hshort
  rw [MAX_FILENAME] at hlength
  obtain ⟨buf₁, hfill, hfilled⟩ := buf.fill_eq 0 name (by omega)
  have hroom : name.length < buf₁.size := by
    rw [hfilled.size]
    omega
  let buf₂ : CharBuf := { buf₁ with byte := Function.update buf₁.byte name.length 0x0A }
  have hline : buf.Filled buf₂ 0 (name ++ [0x0A]) := by
    refine ⟨hfilled.size, fun j hj => ?_, fun j hj => ?_⟩
    · rw [List.length_append, List.length_singleton] at hj
      rcases Nat.lt_or_eq_of_le (Nat.le_of_lt_succ hj) with hin | rfl
      · rw [List.getElem?_append_left hin, ← hfilled.stored j hin]
        exact congrArg some (Function.update_of_ne (by omega) ..)
      · rw [List.getElem?_append_right (Nat.le_refl _), Nat.sub_self, Nat.zero_add]
        exact congrArg some (Function.update_self ..)
    · rw [List.length_append, List.length_singleton] at hj
      rw [← hfilled.frame j (by omega)]
      exact Function.update_of_ne (by omega) ..
  refine ⟨buf₂, ?_, hline.size.trans hsize⟩
  have hwritten := answer_print fs hprints (buf₂.tail 0) (name ++ [0x0A]).length
  rw [written_filled hline] at hwritten
  have hcast : (((name ++ [0x0A]).length : ℕ) : ℤ) = name.length + 1 := by
    rw [List.length_append, List.length_singleton, Nat.cast_add, Nat.cast_one]
  rw [hcast] at hwritten
  have hok : printedCount (buf₂.tail 0) (name.length + 1) ≠ FAIL := printedCount_ne_fail (by omega)
  simp only [lsTurn, runView, Dialogue.run_bind, Dialogue.run_ask, hread, Option.bind_some, hfill,
    Dialogue.run_expect, if_neg (count_ne_zero hshort hne), if_neg hfail, hint, hnat, CharBuf.store_eq hroom]
  rw [hwritten]
  simp only [Option.bind_some, if_neg hok]
  rfl

/-- The loop of `ls` prints each name to a line. -/
theorem lsTurn_lists (fs : FileSystem) (i : Fin 8) :
    ListTurn fs (· ++ [0x0A]) "directory entry read failed\n" i 33 32 (lsTurn i.val) where
  name hread hprints hsize hlength hne := lsTurn_name hread hprints hsize hlength hne
  empty {v v' buf} hread := by
    obtain ⟨buf', hfill, -⟩ := buf.fill_eq 0 [] (Nat.zero_le _)
    simp only [lsTurn, runView, Dialogue.run_bind, Dialogue.run_ask, hread, Option.bind_some, hfill,
      Dialogue.run_expect, if_true, Dialogue.run_pure]
  fails {v v' buf} hread hprints := by
    obtain ⟨buf', hfill, -⟩ := buf.fill_eq 0 [] (Nat.zero_le _)
    have hne : FAIL ≠ 0 := by decide
    have hput : (putText "directory entry read failed\n").run (fun v => v.answer fs) v' = _ :=
      run_putText hprints _ (by decide)
    simp only [lsTurn, runView, Dialogue.run_bind, Dialogue.run_ask, hread, Option.bind_some, hfill,
      Dialogue.run_expect, if_neg hne, if_true]
    rw [hput]
    rfl

/-- On a directory the loop of `cat` prints the names one behind the other. -/
theorem catTurn_lists (fs : FileSystem) (i : Fin 8) :
    ListTurn fs id "file read failed\n" i 1024 1024 (catTurn i.val) where
  name hread hprints hsize hlength hne := catTurn_copies hread hprints hsize (le_trans hlength (by decide)) hne
  empty hread := catTurn_ends hread
  fails hread hprints := catTurn_fails hread hprints

/-- The state of a loop over a directory that was just opened. -/
theorem listLoop_opened (fs : FileSystem) (shape : List UInt8 → List UInt8) (buf : CharBuf) (inode : UInt32)
    (hi : i ≠ 1) (hprints : v.Prints) :
    ListLoop fs shape i buf.size (v.output ++ fs.listing.flatMap shape) TOTAL_NUM_DIR buf
      { v with files := v.files.hold i { fop := .dir, inode, position := 0 } } :=
  ⟨rfl, (sameBut_hold v i _).prints hi hprints, 0, ⟨⟨inode, SlotMap.hold_self ..⟩, Nat.zero_le _⟩, rfl,
    Nat.zero_add _, rfl⟩

/-- How a listing ends, in one equation. -/
theorem ListEnds.eq_listEnd {shape : List UInt8 → List UInt8} {failure : String} {out : List UInt8} {status : UInt32}
    (h : ListEnds fs failure (out ++ fs.listing.flatMap shape) status v) :
    status = (fs.listEnd shape failure).1 ∧ v.output = out ++ (fs.listEnd shape failure).2 := by
  rw [FileSystem.listEnd]
  split_ifs with hshort
  · exact h.complete hshort
  · have hfull := h.full (le_antisymm (fs.length_listingFrom_le 0) (not_lt.mp hshort))
    rw [← List.append_assoc]
    exact hfull

end UserView

namespace FileSystem

variable (fs : FileSystem)

/-- How `cat` ends on an entry of the directory: what it returns and prints. -/
def catEntry (entry : Dentry) : UInt32 × List UInt8 :=
  if entry.fileType = 1 then fs.listEnd id "file read failed\n"
  else if entry.fileType = 0 then (0, [])
  else if entry.fileType = 2 then (0, fs.fileContent entry.inodeIdx)
  else (2, asciiText "file not found\n")

/-- How `cat` ends on an argument. -/
def catEnd (name : List UInt8) : UInt32 × List UInt8 :=
  if name = [] then (3, asciiText "could not read arguments\n")
  else (fs.entryNamed name).elim (2, asciiText "file not found\n") fs.catEntry

end FileSystem

namespace UserView

variable {fs : FileSystem} {image : Image} {v : UserView} {buf : CharBuf} {name : List UInt8} {turns : ℕ}

/-- A process starts with the console open and descriptor 2 free. -/
theorem initial_free : DescMap.initial.leastFree FD_START = some 2 := by
  rw [SlotMap.leastFree_eq_some]
  decide

/-- A process starts with the console open. -/
theorem prints_initial (h : v.files = DescMap.initial) : v.Prints := by
  refine ⟨{ fop := .stdout, inode := 0, position := 0 }, ?_, rfl⟩
  rw [h]
  rfl

/-- `getargs` on the argument of a process. -/
theorem answer_getargs (hargs : Spells (toBytes v.args) name) (nbytes : UInt32) :
    v.answer fs (.getargs nbytes) =
      if name = [] then some ((FAIL, []), v) else some ((0, (name.take nbytes.toNat).rightpad nbytes.toNat 0), v) := by
  have hfirst : v.args.getD 0 0 ≠ 0 ↔ name ≠ [] := by
    have hbyte : v.args.getD 0 0 = toBytes v.args 0 := rfl
    rw [hbyte]
    cases name with
    | nil =>
      have hnul : toBytes v.args 0 = 0 := hargs.terminated
      simp [hnul]
    | cons c rest => simp [hargs.ne_zero (i := 0) (by simp)]
  rw [answer, strncpy_of_spells hargs]
  by_cases hname : name = []
  · rw [if_neg fun h => hfirst.mp h hname, if_pos hname]
  · rw [if_pos (hfirst.mpr hname), if_neg hname]

/-- A word that was stored with NULs behind it can be read from the buffer. -/
theorem spellsAt_filled {m m' : CharBuf} {a n : ℕ} (h : m.Filled m' a (name.rightpad n 0)) (hname : 0 ∉ name)
    (hfits : name.length < n) (hsize : a + n ≤ m.size) : m'.SpellsAt a name := by
  have hlength : (name.rightpad n 0).length = n := by
    rw [List.length_rightpad]
    omega
  have hbyte (j : ℕ) (hj : j < n) : some (m'.byte (a + j)) = (name.rightpad n 0)[j]? :=
    h.stored j (by rw [hlength]; exact hj)
  refine ⟨by rw [h.size]; omega, fun j hj => ?_, ?_, hname⟩
  · rw [CharBuf.tail, hbyte j (lt_trans hj hfits), List.rightpad, List.getElem?_append_left hj]
  · have hnul := hbyte name.length hfits
    rw [List.rightpad, List.getElem?_append_right (Nat.le_refl _), Nat.sub_self, List.getElem?_replicate,
      if_pos (by omega)] at hnul
    exact Option.some.inj hnul

/-- What a name resolves to. -/
theorem resolve_named (fs : FileSystem) {fname : Bytes} (h : Spells fname name) (hne : name ≠ []) :
    DescMap.resolve fs fname = (fs.entryNamed name).bind fun entry =>
      (driverOfType entry.fileType).map fun fop => { fop, inode := entry.inodeIdx, position := 0 } := by
  have hlength : strlen fname ≠ 0 := by
    have hpos := List.length_pos_iff.mpr hne
    rw [strlen_of_spells h]
    omega
  rw [DescMap.resolve, if_neg hlength, FileSystem.readDentryByName_eq h]

/-- An open of what cannot be opened fails. -/
theorem answer_open_fails {fname : Bytes} (h : DescMap.resolve fs fname = none) :
    v.answer fs (.openFile fname) = some ((FAIL, []), v) := by
  have hcall : v.files.call fs (.openFile fname) = (some FAIL, v.files) := by simp only [DescMap.call, h]
  rw [answer, hcall]
  rfl

/-- The first open of a process takes descriptor 2. -/
theorem answer_open_first (hfiles : v.files = DescMap.initial) {fname : Bytes} {f : OpenFile}
    (h : DescMap.resolve fs fname = some f) :
    v.answer fs (.openFile fname) = some ((2, []), { v with files := v.files.hold 2 f }) := by
  have hopens : Opens fs v fname 2 f := ⟨h, by rw [hfiles, initial_free]⟩
  exact hopens.answer

/-- A read of the RTC returns 0. -/
theorem answer_rtc (fs : FileSystem) {i : Fin 8} {inode position : UInt32}
    (h : v.files i = some ⟨.rtc, inode, position⟩)
    (nbytes : UInt32) : v.answer fs (.read i.val nbytes) = some ((0, []), v) := by
  simp only [answer, file_desc, h, readFile]

/-- `cat` behind a successful `getargs`. -/
theorem run_catMain_named {stored : List UInt8} {buf' : CharBuf}
    (hgetargs : v.answer fs (.getargs 1024) = some ((0, stored), v)) (hfill : buf.fill 0 stored = some buf')
    {reply : UInt32} {v' : UserView} (hopen : v.answer fs (.openFile (buf'.tail 0)) = some ((reply, []), v')) :
    runView fs (catMain turns buf) v =
      if reply = FAIL then runView fs (do putText "file not found\n"; return 2) v'
      else runView fs (.loop (catTurn reply.toInt32.toInt) turns buf') v' := by
  simp only [catMain, runView, Dialogue.run_bind, Dialogue.run_ask, hgetargs, Option.bind_some, hfill,
    Dialogue.run_expect, ne_eq, not_true_eq_false, if_false, hopen]
  split_ifs
  · exact Dialogue.run_bind _ _
  · rfl

/-- `cat` on the view of a process that was just started. -/
theorem run_catMain (image : Image) (hfiles : v.files = DescMap.initial) (hargs : Spells (toBytes v.args) name)
    (hfits : name.length ≤ MAX_FILENAME) (hsize : buf.size = 1024) (hturns : 4294967296 ≤ turns) :
    ∃ v', runView image.fs (catMain turns buf) v = some ((image.fs.catEnd name).1, v') ∧
      v'.output = v.output ++ (image.fs.catEnd name).2 := by
  have hprints := prints_initial hfiles
  rw [FileSystem.catEnd]
  by_cases hnil : name = []
  · obtain ⟨buf', hfill, -⟩ := buf.fill_eq 0 [] (Nat.zero_le _)
    have hput : (putText "could not read arguments\n").run (fun v => v.answer image.fs) v = _ :=
      run_putText hprints _ (by decide)
    refine ⟨v.print (asciiText "could not read arguments\n"), ?_, ?_⟩
    · have hne : FAIL ≠ 0 := by decide
      simp only [catMain, runView, Dialogue.run_bind, Dialogue.run_ask, answer_getargs hargs, if_pos hnil,
        Option.bind_some, hfill, Dialogue.run_expect, if_pos hne]
      rw [hput]
      rfl
    · rw [if_pos hnil, print_output]
  rw [if_neg hnil]
  rw [MAX_FILENAME] at hfits
  have hgetargs : v.answer image.fs (.getargs 1024) = some ((0, name.rightpad 1024 0), v) := by
    have hshort : name.take (1024 : UInt32).toNat = name := List.take_of_length_le (le_trans hfits (by decide))
    rw [answer_getargs hargs, if_neg hnil, hshort]
    rfl
  have hlength : (name.rightpad 1024 0).length = 1024 := by
    rw [List.length_rightpad]
    omega
  obtain ⟨buf', hfill, hfilled⟩ := buf.fill_eq 0 (name.rightpad 1024 0) (by omega)
  have hspells := (spellsAt_filled hfilled hargs.proper (by omega) (by omega)).spells
  have hresolve := resolve_named image.fs hspells hnil
  have hsize' : buf'.size = 1024 := hfilled.size.trans hsize
  have hturns' {n : ℕ} (hn : n < 4294967296) : n < turns := lt_of_lt_of_le hn hturns
  -- a name that cannot be opened
  have hmissing (hnone : DescMap.resolve image.fs (buf'.tail 0) = none) :
      ∃ v', runView image.fs (catMain turns buf) v = some (2, v') ∧
        v'.output = v.output ++ asciiText "file not found\n" := by
    refine ⟨_, (run_catMain_named hgetargs hfill (answer_open_fails hnone)).trans ?_, print_output v _⟩
    rw [if_pos rfl, run_message hprints (by decide)]
  -- a file that is open on descriptor 2
  have hopened {f : OpenFile} (hsome : DescMap.resolve image.fs (buf'.tail 0) = some f) :
      runView image.fs (catMain turns buf) v = runView image.fs (.loop (catTurn ((2 : Fin 8).val : ℤ)) turns buf')
        { v with files := v.files.hold 2 f } :=
    (run_catMain_named hgetargs hfill (answer_open_first hfiles hsome)).trans (if_neg (by decide))
  cases hentry : image.fs.entryNamed name with
  | none =>
    rw [hentry] at hresolve
    exact hmissing hresolve
  | some entry =>
    rw [hentry, Option.bind_some] at hresolve
    rw [Option.elim_some, FileSystem.catEntry]
    by_cases hdir : entry.fileType = 1
    · rw [if_pos hdir]
      rw [driverOfType, if_pos hdir, Option.map_some] at hresolve
      obtain ⟨status, v', hrun, hends⟩ := run_listLoop (by decide) (catTurn_lists image.fs 2)
        (hsize' ▸ listLoop_opened image.fs id buf' entry.inodeIdx (by decide) hprints) (hturns' (by decide))
      obtain ⟨rfl, hout⟩ := hends.eq_listEnd
      exact ⟨v', (hopened hresolve).trans hrun, hout⟩
    rw [if_neg hdir]
    rw [driverOfType, if_neg hdir] at hresolve
    by_cases hrtc : entry.fileType = 0
    · rw [if_pos hrtc]
      rw [if_pos hrtc, Option.map_some] at hresolve
      obtain ⟨turns, rfl⟩ := Nat.exists_eq_succ_of_ne_zero (Nat.ne_zero_of_lt (hturns' (n := 0) (by decide)))
      have hread := answer_rtc image.fs
        (v := { v with files := v.files.hold 2 ⟨.rtc, entry.inodeIdx, 0⟩ }) (SlotMap.hold_self ..) 1024
      exact ⟨_, (hopened hresolve).trans (Dialogue.run_loop_leave turns (catTurn_ends hread)), (List.append_nil _).symm⟩
    rw [if_neg hrtc]
    rw [if_neg hrtc] at hresolve
    by_cases hfile : entry.fileType = 2
    · rw [if_pos hfile]
      rw [if_pos hfile, Option.map_some] at hresolve
      have hname : image.fs.readDentryByName (buf'.tail 0) = some entry := by
        rw [FileSystem.readDentryByName_eq hspells, hentry]
      have hcontent : (image.fs.fileContent entry.inodeIdx).length < 4294967296 := by
        rw [FileSystem.fileContent, FileSystem.length_fileBytes]
        exact UInt32.toNat_lt _
      obtain ⟨status, v', hrun, rfl, hout⟩ := catLoop_file (by decide)
        ⟨hsize', (sameBut_hold v 2 _).prints (by decide) hprints, _, reading_opened (v := v) hname hfile, rfl, rfl⟩
        (hturns' hcontent)
      exact ⟨v', (hopened hresolve).trans hrun, hout⟩
    · rw [if_neg hfile]
      rw [if_neg hfile] at hresolve
      exact hmissing hresolve

/-- `ls` on the view of a process that was just started, when the directory lists itself. -/
theorem run_lsMain (hfiles : v.files = DescMap.initial) {dot : Dentry}
    (hdot : fs.entryNamed (asciiText ".") = some dot) (htype : dot.fileType = 1) (hsize : buf.size = 33)
    (hturns : TOTAL_NUM_DIR < turns) :
    ∃ v', runView fs (lsMain turns buf) v =
        some ((fs.listEnd (· ++ [0x0A]) "directory entry read failed\n").1, v') ∧
      v'.output = v.output ++ (fs.listEnd (· ++ [0x0A]) "directory entry read failed\n").2 := by
  have hprints := prints_initial hfiles
  have hspells := (CharBuf.literal_spellsAt (w := asciiText ".") (by decide)).spells
  have hresolve := resolve_named fs hspells (by decide)
  rw [hdot, Option.bind_some, driverOfType, if_pos htype, Option.map_some] at hresolve
  have hopen := answer_open_first (v := v) hfiles hresolve
  obtain ⟨status, v', hrun, hends⟩ := run_listLoop (i := 2) (by decide) (lsTurn_lists fs 2)
    (hsize ▸ listLoop_opened fs (· ++ [0x0A]) buf dot.inodeIdx (by decide) hprints) hturns
  obtain ⟨rfl, hout⟩ := hends.eq_listEnd
  have hne : (2 : UInt32) ≠ FAIL := by decide
  refine ⟨v', ?_, hout⟩
  simp only [lsMain, runView, Dialogue.run_bind, Dialogue.run_ask, hopen, Option.bind_some, if_neg hne]
  exact hrun

end UserView

/-! ### On the kernel -/

section Started

variable {disk : Disk} {k k' : Kernel} {live : Fin 3 → List Slot} {command : Bytes} {frame : ExecFrame}

/-- What `execute` starts a process with. -/
theorem execute_view (h : Booted k live) (hexec : k.execute disk.fs (some command) frame = some k')
    (input : List (List UInt8)) (output : List UInt8) :
    ∃ p, Running p k' ∧ (⟨k', input, output⟩ : UserSession).view p =
      ⟨.initial, (keptLetters command).rightpad (MAX_FILENAME + 1) 0, input, output⟩ := by
  obtain ⟨i, -, -, he⟩ := Kernel.execute_eq_some hexec
  obtain ⟨prog, p, hcheck, hstarted⟩ := Kernel.execute_started hexec
  have hcaller : k'.caller = some i := by
    rw [Kernel.caller, he.currPid, he.activeTerm, Function.update_self]
  obtain rfl := Option.some.inj (hcaller.symm.trans hstarted.caller)
  have hstep : step disk.fs k (.execute (some command) frame) = some k' := by
    rw [step, hexec]
    rfl
  obtain ⟨argsName, hpcb⟩ := he.pcb
  have hdescs : (k'.pcb i).descMap = DescMap.initial := by
    rw [hpcb, Function.update_self]
    exact fileDescArrInitial_descMap (k.pcb i)
  have hargs := hstarted.argsName
  rw [executeCheck_fileName hcheck, argsName_eq] at hargs
  exact ⟨i, ⟨booted_step ⟨live, h⟩ hstep, hcaller⟩, by rw [UserSession.view, hdescs, hargs]⟩

/-- Whatever ticks and whole calls of other processes come between its calls, `cat` copies the file that its
command names to the console and ends: a regular file as a whole, a directory up to its first empty name, and
with a message and a status of its own when there is no argument, no such file or no end of the directory. -/
theorem execute_cat (image : Image) (hdisk : disk.fs = image.fs) (h : Booted k live)
    (hexec : k.execute disk.fs (some command) frame = some k')
    (hfits : (keptLetters command).length ≤ MAX_FILENAME) (buf : CharBuf) (hsize : buf.size = 1024) {turns : ℕ}
    (hturns : 4294967296 ≤ turns) (input : List (List UInt8)) (output : List UInt8) :
    ∃ p, k'.caller = some p ∧ (catMain turns buf).Ensures (UserSession.answers disk p)
      (fun status s => status = (disk.fs.catEnd (keptLetters command)).1 ∧
        s.output = output ++ (disk.fs.catEnd (keptLetters command)).2) ⟨k', input, output⟩ := by
  obtain ⟨p, hrunning, hview⟩ := execute_view h hexec input output
  have hspells : Spells (toBytes ((keptLetters command).rightpad (MAX_FILENAME + 1) 0)) (keptLetters command) := by
    rw [toBytes_rightpad]
    exact spells_toBytes (zero_notMem_keptLetters command)
  obtain ⟨v', hrun, hout⟩ := UserView.run_catMain image
    (v := ⟨.initial, (keptLetters command).rightpad (MAX_FILENAME + 1) 0, input, output⟩) rfl hspells hfits hsize hturns
  rw [← hdisk, ← hview] at hrun
  rw [← hdisk] at hout
  refine ⟨p, hrunning.caller, (program_view hrunning hrun).mono ?_⟩
  rintro status s ⟨hstatus, rfl, -⟩
  exact ⟨hstatus, hout⟩

/-- A buffer of zeros. -/
def zeroBuf (size : ℕ) : CharBuf := ⟨size, fun _ => 0⟩

/-- `"cat shell"` with the executable of the image under the name of the program. -/
def catCommand : Bytes := toBytes (shellName ++ 0x20 :: shellName)

/-- The machine with one executable copies it. -/
theorem execute_cat_shell : ∃ k' p, shellMachine.execute shellDisk.fs (some catCommand) zeroFrame = some k' ∧
    k'.caller = some p ∧ (catMain 4294967296 (zeroBuf 1024)).Ensures (UserSession.answers shellDisk p)
      (fun status s => status = 0 ∧ s.output = shellImage.fs.fileContent 0) ⟨k', [], []⟩ := by
  have hsome : (shellMachine.execute shellDisk.fs (some catCommand) zeroFrame).isSome :=
    Kernel.execute_isSome.mpr ⟨by decide +kernel, 1, by decide +kernel⟩
  obtain ⟨k', hexec⟩ := Option.isSome_iff_exists.mp hsome
  have hkept : keptLetters catCommand = shellName := by decide +kernel
  have hend : shellDisk.fs.catEnd shellName = (0, shellImage.fs.fileContent 0) := by decide +kernel
  obtain ⟨p, hcaller, hcat⟩ := execute_cat shellImage rfl booted_boot hexec (by rw [hkept]; decide)
    (zeroBuf 1024) rfl (le_refl _) [] []
  rw [hkept, hend] at hcat
  exact ⟨k', p, hexec, hcaller, hcat⟩

/-- Whatever ticks and whole calls of other processes come between its calls, `ls` prints the names of the
directory up to the first empty one, each to a line, and ends with 0; when no entry has an empty name it ends
with an error behind the last one. -/
theorem execute_ls (h : Booted k live) (hexec : k.execute disk.fs (some command) frame = some k') {dot : Dentry}
    (hdot : disk.fs.entryNamed (asciiText ".") = some dot) (htype : dot.fileType = 1) (buf : CharBuf)
    (hsize : buf.size = 33) (turns : ℕ) (hturns : TOTAL_NUM_DIR < turns) (input : List (List UInt8))
    (output : List UInt8) :
    ∃ p, k'.caller = some p ∧ (lsMain turns buf).Ensures (UserSession.answers disk p)
      (fun status s => status = (disk.fs.listEnd (· ++ [0x0A]) "directory entry read failed\n").1 ∧
        s.output = output ++ (disk.fs.listEnd (· ++ [0x0A]) "directory entry read failed\n").2)
      ⟨k', input, output⟩ := by
  obtain ⟨p, hrunning, hview⟩ := execute_view h hexec input output
  obtain ⟨v', hrun, hout⟩ := UserView.run_lsMain
    (v := ⟨.initial, (keptLetters command).rightpad (MAX_FILENAME + 1) 0, input, output⟩) rfl hdot htype hsize hturns
  rw [← hview] at hrun
  refine ⟨p, hrunning.caller, (program_view hrunning hrun).mono ?_⟩
  rintro status s ⟨hstatus, rfl, -⟩
  exact ⟨hstatus, hout⟩

/-- The image of one executable that lists itself is listed in two lines. -/
theorem execute_ls_listing : ∃ k' p, listingMachine.execute listingDisk.fs shellCommand zeroFrame = some k' ∧
    k'.caller = some p ∧ (lsMain 64 (zeroBuf 33)).Ensures (UserSession.answers listingDisk p)
      (fun status s => status = 0 ∧ s.output = asciiText "shell\n.\n") ⟨k', [], []⟩ := by
  have hsome : (listingMachine.execute listingDisk.fs shellCommand zeroFrame).isSome :=
    Kernel.execute_isSome.mpr ⟨listingDisk.shellLoads zeroFrame, 1, by decide +kernel⟩
  obtain ⟨k', hexec⟩ := Option.isSome_iff_exists.mp hsome
  have hend : listingDisk.fs.listEnd (· ++ [0x0A]) "directory entry read failed\n" = (0, asciiText "shell\n.\n") := by
    decide +kernel
  have hdot : listingDisk.fs.entryNamed (asciiText ".") = some (listingDisk.fs.dirEntry 1) := by decide +kernel
  obtain ⟨p, hcaller, hls⟩ := execute_ls booted_boot hexec hdot (by decide +kernel) (zeroBuf 33) rfl 64
    (by decide) [] []
  rw [hend] at hls
  exact ⟨k', p, hexec, hcaller, hls⟩

end Started

end OsKernel
