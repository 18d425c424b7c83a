import OsKernel.Library.Terminated
import OsKernel.DataBlocks
import OsKernel.Process

/-!
# Looking up directory entries

An entry's name is what stands before the first NUL of its 32 bytes, or all of them. Looking up a name
compares two lengths and then at most 32 characters; that finds the first entry with exactly that name.
A name that `dir_read` delivered is one of them.
-/

namespace OsKernel

open Library

/-- The name of a directory entry: its bytes, cut at the first NUL. -/
def entryName (entry : Dentry) : List UInt8 := entry.fileName.takeWhile (· ≠ 0)

namespace FileSystem

variable (fs : FileSystem)

/-- `boot_block_addr->dir_num` -/
def dirNum : UInt32 := loadWord fs.mem fs.bootBlockAddr

/-- The search loop of `read_dentry_by_name` from entry `i` on: the returned word and what is then behind
the dentry pointer. -/
def dentryLoop (fname : Bytes) (fnameSize : ℕ) (dentry : Dentry) (i : ℕ) : ℕ → UInt32 × Dentry
  | 0 => (FAIL, dentry)
  | left + 1 =>
    let dentryName := (fs.dirEntry i).fileName
    if strlen (toBytes dentryName) = fnameSize then
      if strncmp (toBytes dentryName) fname MAX_FILENAME = 0 then
        (0, { fileName := dentryName, fileType := (fs.dirEntry i).fileType, inodeIdx := (fs.dirEntry i).inodeIdx })
      else dentryLoop fname fnameSize dentry (i + 1) left
    else dentryLoop fname fnameSize dentry (i + 1) left

/-- `read_dentry_by_name` on a pointer with `dentry` behind it. -/
def readDentryByNameInto (fname : Bytes) (dentry : Dentry) : UInt32 × Dentry :=
  if strlen fname > MAX_FILENAME then (FAIL, dentry)
  else fs.dentryLoop fname (strlen fname) dentry 0 TOTAL_NUM_DIR

/-- `read_dentry_by_index` on a pointer with `dentry` behind it. -/
def readDentryByIndexInto (index : UInt32) (dentry : Dentry) : UInt32 × Dentry :=
  if index.toNat ≥ TOTAL_NUM_DIR then (FAIL, dentry)
  else
    let entry := fs.dirEntry index.toNat
    (0, { fileName := entry.fileName, fileType := entry.fileType, inodeIdx := entry.inodeIdx })

/-- A directory as the format has it: at most 63 entries, with names that are not empty and differ. -/
structure Directory : Prop where
  count_le : fs.dirNum.toNat ≤ TOTAL_NUM_DIR
  nonempty : ∀ i < fs.dirNum.toNat, entryName (fs.dirEntry i) ≠ []
  distinct : ∀ i < fs.dirNum.toNat, ∀ j < fs.dirNum.toNat,
    entryName (fs.dirEntry i) = entryName (fs.dirEntry j) → i = j

end FileSystem

section Strings

variable {s t : Bytes} {v w : List UInt8}

/-- The loop of `strlen` from inside the word. -/
theorem strlenFrom_of_spells (h : Spells s w) {len left : ℕ} (hlen : len ≤ w.length) :
    strlenFrom s len left = min w.length (len + left) := by
  induction left generalizing len with
  | zero =>
    rw [strlenFrom]
    omega
  | succ left ih =>
    rw [strlenFrom]
    rcases Nat.lt_or_eq_of_le hlen with hlt | rfl
    · rw [if_neg (h.ne_zero hlt), ih hlt]
      omega
    · rw [if_pos h.terminated]
      omega

/-- `strlen` counts the letters of the word, as far as there are addresses. -/
theorem strlen_of_spells (h : Spells s w) : strlen s = min w.length 4294967296 := by
  rw [strlen, strlenFrom_of_spells h (Nat.zero_le _), Nat.zero_add]

/-- There is no NUL before where the loop of `strlen` stops. -/
theorem strlenFrom_ne_zero {len left i : ℕ} (hlo : len ≤ i) (hi : i < strlenFrom s len left) : s i ≠ 0 := by
  induction left generalizing len with
  | zero => exact absurd hi (not_lt.mpr hlo)
  | succ left ih =>
    rw [strlenFrom] at hi
    by_cases hend : s len = 0
    · rw [if_pos hend] at hi
      exact absurd hi (not_lt.mpr hlo)
    · rw [if_neg hend] at hi
      rcases Nat.lt_or_eq_of_le hlo with hlt | rfl
      · exact ih hlt hi
      · exact hend

/-- Characters differ as signed numbers when they differ as bytes. -/
theorem charValue_sub_eq_zero {a b : UInt8} : charValue a - charValue b = 0 ↔ a = b := by
  rw [Int.sub_eq_zero, charValue, charValue, Int8.toInt_inj]
  constructor
  · intro h
    have hbyte := congrArg Int8.toUInt8 h
    simpa using hbyte
  · intro h
    rw [h]

/-- The loop of `strncmp` is zero when the strings agree up to where it stops. -/
theorem strncmpFrom_eq_zero {i left : ℕ} :
    strncmpFrom s t i left = 0 ↔ ∀ k < left, (∀ j < k, s (i + j) ≠ 0) → s (i + k) = t (i + k) := by
  induction left generalizing i with
  | zero => simp [strncmpFrom]
  | succ left ih =>
    rw [strncmpFrom]
    by_cases hdiff : s i = t i
    · by_cases hend : s i = 0
      · rw [if_pos (Or.inr hend), charValue_sub_eq_zero]
        constructor
        · intro _ k _ hbefore
          rcases Nat.eq_zero_or_pos k with rfl | hk
          · exact hdiff
          · exact absurd hend (hbefore 0 hk)
        · intro _
          exact hdiff
      · rw [if_neg (by simp [hdiff, hdiff ▸ hend]), ih]
        constructor
        · intro h k hk hbefore
          rcases Nat.eq_zero_or_pos k with rfl | hpos
          · exact hdiff
          · have hnext := h (k - 1) (by omega) fun j hj => by
              rw [Nat.add_assoc]
              exact hbefore (1 + j) (by omega)
            rwa [show i + 1 + (k - 1) = i + k by omega] at hnext
        · intro h k hk hbefore
          rw [Nat.add_assoc]
          apply h (1 + k) (by omega)
          intro j hj
          rcases Nat.eq_zero_or_pos j with rfl | hpos
          · exact hend
          · have hnext := hbefore (j - 1) (by omega)
            rwa [show i + 1 + (j - 1) = i + j by omega] at hnext
    · rw [if_pos (Or.inl hdiff), charValue_sub_eq_zero]
      constructor
      · intro h
        exact absurd h hdiff
      · intro h
        exact h 0 (Nat.succ_pos left) fun j hj => absurd hj (Nat.not_lt_zero j)

/-- `strncmp` on strings of one length tells whether they are the same. -/
theorem strncmp_eq_zero_iff (hs : Spells s v) (ht : Spells t w) (hlength : v.length = w.length) {n : ℕ}
    (hn : v.length ≤ n) : strncmp s t n = 0 ↔ v = w := by
  rw [strncmp, strncmpFrom_eq_zero, ← hs.agree_iff ht hlength hn]
  simp only [Nat.zero_add]

end Strings

/-- The copy of an entry's name that the search compares. -/
theorem entry_spells (entry : Dentry) : Spells (toBytes entry.fileName) (entryName entry) := spells_cut _

/-- A name is no longer than the bytes it is cut from. -/
theorem length_entryName_le (entry : Dentry) : (entryName entry).length ≤ entry.fileName.length :=
  (List.takeWhile_prefix _).length_le

namespace FileSystem

variable {fs : FileSystem} {fname : Bytes} {name : List UInt8} {dentry : Dentry} {i : ℕ}

/-- The bytes of an entry's name. -/
theorem length_fileName (fs : FileSystem) (i : ℕ) : (fs.dirEntry i).fileName.length = MAX_FILENAME := by
  simp [dirEntry]

/-- A name of the directory has at most 32 bytes. -/
theorem length_dirEntryName_le (fs : FileSystem) (i : ℕ) : (entryName (fs.dirEntry i)).length ≤ MAX_FILENAME :=
  le_of_le_of_eq (length_entryName_le _) (fs.length_fileName i)

/-- The two comparisons of the search find the name. -/
theorem nameMatches_iff (hname : Spells fname name) (i : ℕ) :
    nameMatches fname (fs.dirEntry i) = true ↔ entryName (fs.dirEntry i) = name := by
  have hle := fs.length_dirEntryName_le i
  have hentry := entry_spells (fs.dirEntry i)
  rw [MAX_FILENAME] at hle
  simp only [nameMatches, Bool.and_eq_true, decide_eq_true_eq]
  rw [strlen_of_spells hentry, strlen_of_spells hname]
  constructor
  · intro hmatch
    exact (strncmp_eq_zero_iff hentry hname (by omega) hle).mp hmatch.2
  · intro heq
    have hlength := congrArg List.length heq
    exact ⟨by rw [hlength], (strncmp_eq_zero_iff hentry hname hlength hle).mpr heq⟩

/-- The search loop returns the first entry that matches. -/
theorem dentryLoop_eq (left : ℕ) :
    fs.dentryLoop fname (strlen fname) dentry i left =
      (((List.range' i left).map fs.dirEntry).find? (nameMatches fname)).elim (FAIL, dentry) fun d => (0, d) := by
  induction left generalizing i with
  | zero => rfl
  | succ left ih =>
    rw [dentryLoop, List.range'_succ, List.map_cons, List.find?_cons, nameMatches]
    by_cases hlength : strlen (toBytes (fs.dirEntry i).fileName) = strlen fname
    · by_cases hcmp : strncmp (toBytes (fs.dirEntry i).fileName) fname MAX_FILENAME = 0
      · simp only [hlength, hcmp, if_true, decide_true, Bool.and_self, Option.elim_some]
      · simp only [hlength, hcmp, if_true, if_false, decide_true, decide_false, Bool.and_false, ih]
    · simp only [hlength, if_false, decide_false, Bool.false_and, ih]

/-- What `read_dentry_by_name` does with the pointer, through the entry it finds. -/
theorem readDentryByNameInto_eq (fs : FileSystem) (fname : Bytes) (dentry : Dentry) :
    fs.readDentryByNameInto fname dentry =
      (fs.readDentryByName fname).elim (FAIL, dentry) fun d => (0, d) := by
  rw [readDentryByNameInto, readDentryByName]
  by_cases hlong : strlen fname > MAX_FILENAME
  · rw [if_pos hlong, if_pos hlong]
    rfl
  · rw [if_neg hlong, if_neg hlong, dentryLoop_eq, List.range_eq_range']

/-- What `read_dentry_by_index` does with the pointer. -/
theorem readDentryByIndexInto_eq (fs : FileSystem) (index : UInt32) (dentry : Dentry) :
    fs.readDentryByIndexInto index dentry =
      (fs.readDentryByIndex index).elim (FAIL, dentry) fun d => (0, d) := by
  rw [readDentryByIndexInto, readDentryByIndex]
  by_cases hpast : index.toNat ≥ TOTAL_NUM_DIR
  · rw [if_pos hpast, if_pos hpast]
    rfl
  · rw [if_neg hpast, if_neg hpast]
    rfl

/-- The least entry with a name is the one that is found. -/
theorem readDentryByName_found (hname : Spells fname name) (hi : i < TOTAL_NUM_DIR)
    (heq : entryName (fs.dirEntry i) = name) (hleast : ∀ j < i, entryName (fs.dirEntry j) ≠ name) :
    fs.readDentryByName fname = some (fs.dirEntry i) := by
  have hlength : strlen fname ≤ MAX_FILENAME := by
    rw [strlen_of_spells hname, ← heq]
    exact le_trans (Nat.min_le_left _ _) (fs.length_dirEntryName_le i)
  have hfind : (List.range TOTAL_NUM_DIR).find? (nameMatches fname ∘ fs.dirEntry) = some i := by
    rw [List.find?_range_eq_some]
    refine ⟨(nameMatches_iff hname i).mpr heq, List.mem_range.mpr hi, ?_⟩
    intro j hj
    rw [Function.comp_apply, Bool.not_eq_true', ← Bool.not_eq_true, nameMatches_iff hname j]
    exact hleast j hj
  rw [readDentryByName, if_neg (not_lt.mpr hlength), List.find?_map, hfind, Option.map_some]

/-- A name that is no entry's is not found. -/
theorem readDentryByName_absent (hname : Spells fname name)
    (habsent : ∀ i < TOTAL_NUM_DIR, entryName (fs.dirEntry i) ≠ name) : fs.readDentryByName fname = none := by
  rw [readDentryByName]
  split_ifs
  · rfl
  · rw [List.find?_eq_none]
    intro entry hentry hmatch
    obtain ⟨i, hi, rfl⟩ := List.mem_map.mp hentry
    exact habsent i (List.mem_range.mp hi) ((nameMatches_iff hname i).mp hmatch)

/-- The entry at an index of the table. -/
theorem readDentryByIndex_eq (hi : i < TOTAL_NUM_DIR) :
    fs.readDentryByIndex (UInt32.ofNat i) = some (fs.dirEntry i) := by
  have hnat : (UInt32.ofNat i).toNat = i := UInt32.toNat_ofNat_of_lt' (lt_trans hi (by decide))
  rw [readDentryByIndex, hnat, if_neg (not_le.mpr hi)]

/-- How many bytes of a name `dir_read` copies. -/
theorem nameLength_eq (fs : FileSystem) (i : ℕ) :
    Kernel.nameLength (fs.dirEntry i) = (entryName (fs.dirEntry i)).length := by
  have hle := fs.length_dirEntryName_le i
  rw [MAX_FILENAME] at hle
  rw [Kernel.nameLength, strlen_of_spells (entry_spells _), MAX_FILENAME]
  omega

/-- Which bytes of a name `dir_read` copies. -/
theorem take_nameLength (fs : FileSystem) (i : ℕ) :
    (fs.dirEntry i).fileName.take (entryName (fs.dirEntry i)).length = entryName (fs.dirEntry i) :=
  (List.prefix_iff_eq_take.mp (List.takeWhile_prefix _)).symm

/-- The value a name's length is returned as. -/
theorem toNat_nameLength (fs : FileSystem) (i : ℕ) :
    (UInt32.ofNat (entryName (fs.dirEntry i)).length).toNat = (entryName (fs.dirEntry i)).length :=
  UInt32.toNat_ofNat_of_lt' (lt_of_le_of_lt (fs.length_dirEntryName_le i) (by decide))

end FileSystem

/-- `dir_read` at a position in the table delivers that entry's name. -/
theorem dirRead_name {fs : FileSystem} {k : Kernel} {p : Slot} {d : Fin 8} {i : ℕ} (hi : i < TOTAL_NUM_DIR)
    (hposition : ((k.pcb p).fileDescArr d).position = UInt32.ofNat i) :
    k.dirRead fs p d = (UInt32.ofNat (entryName (fs.dirEntry i)).length, entryName (fs.dirEntry i),
      ({ k with dentryTemp := fs.dirEntry i } : Kernel).modifyPcb p (·.setDesc d { (k.pcb p).fileDescArr d with
        position := UInt32.ofNat (i + 1) })) := by
  rw [Kernel.dirRead, hposition, FileSystem.readDentryByIndex_eq hi]
  simp only [fs.nameLength_eq i, fs.take_nameLength i]
  rw [UInt32.ofNat_add]
  rfl

/-- Looking up by name and by index agree: a name is found exactly when it is the name of one of the 63
entries, the first such entry is the one delivered, and a failed search leaves the dentry alone. In a
directory with different names, what `dir_read` delivered for an entry is found as that entry. -/
theorem lookup_agrees (fs : FileSystem) :
    (∀ (fname : Bytes) (name : List UInt8) (dentry : Dentry), Spells fname name →
      ((fs.readDentryByNameInto fname dentry).1 = 0 ↔
        name.length ≤ MAX_FILENAME ∧ ∃ i < TOTAL_NUM_DIR, entryName (fs.dirEntry i) = name) ∧
      (∀ i < TOTAL_NUM_DIR, entryName (fs.dirEntry i) = name → (∀ j < i, entryName (fs.dirEntry j) ≠ name) →
        fs.readDentryByNameInto fname dentry = (0, fs.dirEntry i) ∧
          fs.readDentryByIndexInto (UInt32.ofNat i) dentry = (0, fs.dirEntry i)) ∧
      ((fs.readDentryByNameInto fname dentry).1 ≠ 0 → fs.readDentryByNameInto fname dentry = (FAIL, dentry))) ∧
    (fs.Directory → ∀ i < fs.dirNum.toNat, ∀ (k : Kernel) (p : Slot) (d : Fin 8) (buf : Bytes) (dentry : Dentry),
      ((k.pcb p).fileDescArr d).position = UInt32.ofNat i →
      fs.readDentryByNameInto (Function.update (storeBytes buf (k.dirRead fs p d).2.1)
        (k.dirRead fs p d).1.toNat 0) dentry = (0, fs.dirEntry i)) := by
  constructor
  · intro fname name dentry hname
    refine ⟨⟨?_, ?_⟩, ?_, ?_⟩
    · intro hfound
      by_cases hexists : ∃ i < TOTAL_NUM_DIR, entryName (fs.dirEntry i) = name
      · obtain ⟨i, hi, heq⟩ := hexists
        exact ⟨heq ▸ fs.length_dirEntryName_le i, i, hi, heq⟩
      · rw [fs.readDentryByNameInto_eq, FileSystem.readDentryByName_absent hname
          fun i hi heq => hexists ⟨i, hi, heq⟩] at hfound
        exact absurd hfound (show FAIL ≠ 0 by decide)
    · intro hexists
      have hleast := Nat.find_spec hexists.2
      rw [fs.readDentryByNameInto_eq, FileSystem.readDentryByName_found hname hleast.1 hleast.2 fun j hj heq =>
        Nat.find_min hexists.2 hj ⟨lt_trans hj hleast.1, heq⟩]
      rfl
    · intro i hi heq hleast
      rw [fs.readDentryByNameInto_eq, FileSystem.readDentryByName_found hname hi heq hleast,
        fs.readDentryByIndexInto_eq, FileSystem.readDentryByIndex_eq hi]
      exact ⟨rfl, rfl⟩
    · intro hfail
      rw [fs.readDentryByNameInto_eq] at hfail ⊢
      cases hfind : fs.readDentryByName fname with
      | none => rfl
      | some entry =>
        rw [hfind] at hfail
        exact absurd rfl hfail
  · intro hdir i hi k p d buf dentry hposition
    have hlt : i < TOTAL_NUM_DIR := lt_of_lt_of_le hi hdir.count_le
    have hspells : Spells (Function.update (storeBytes buf (entryName (fs.dirEntry i)))
        (entryName (fs.dirEntry i)).length 0) (entryName (fs.dirEntry i)) :=
      spells_store buf (entry_spells (fs.dirEntry i)).proper
    rw [dirRead_name hlt hposition, fs.toNat_nameLength, fs.readDentryByNameInto_eq,
      FileSystem.readDentryByName_found hspells hlt rfl fun j hj heq =>
        absurd (hdir.distinct j (lt_trans hj hi) i hi heq) (Nat.ne_of_lt hj)]
    rfl

/-- The one name of the image with the one executable. -/
theorem lookup_agrees_shell :
    shellImage.fs.readDentryByNameInto (toBytes shellName) (shellImage.fs.dirEntry 1) =
      (0, shellImage.fs.dirEntry 0) := by
  have hcut : shellName.takeWhile (· ≠ 0) = shellName := by decide
  have hspells : Spells (toBytes shellName) shellName := hcut ▸ spells_cut shellName
  obtain ⟨-, hfound, -⟩ :=
    (lookup_agrees shellImage.fs).1 (toBytes shellName) shellName (shellImage.fs.dirEntry 1) hspells
  exact (hfound 0 (by decide) (by decide +kernel) fun j hj => absurd hj (Nat.not_lt_zero j)).1

end OsKernel
