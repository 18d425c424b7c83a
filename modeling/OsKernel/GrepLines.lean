import OsKernel.FilePrograms
import OsKernel.Library.Lines

/-!
# The program grep

`grep` goes through the regular files of the directory. Its buffer holds 1024 bytes: lines that end in it are
searched where they are, an unfinished one is moved to the front and read on, and one that fills the buffer is
searched as if it ended there. Whatever the reads return, this comes to searching the lines of the file in
pieces of at most 1024 bytes.
-/

namespace OsKernel

open Library

def BUFSIZE : ℕ := 1024

/-- `'\n'` -/
def NEWLINE : UInt8 := 0x0A

/-- The loop that looks for the end of a line. -/
def lineEndFrom (data : CharBuf) (last : ℕ) : (turns lineEnd : ℕ) → Option ℕ
  | 0, _ => none
  | turns + 1, lineEnd =>
    if lineEnd < last then do
      let c ← data.load lineEnd
      if NEWLINE ≠ c then lineEndFrom data last turns (lineEnd + 1) else some lineEnd
    else some lineEnd

/-- The loop that searches a line from `check` on. The first character of the pattern is a signed `char`, the
bytes of the line are not. -/
def searchFrom (s : CharBuf) (sLen : ℕ) (data : CharBuf) (lineEnd : ℕ) : (turns check : ℕ) → Option Bool
  | 0, _ => none
  | turns + 1, check =>
    if check < lineEnd then do
      let first ← s.load 0
      let c ← data.load check
      if charValue first = c.toNat then do
        let order ← ece391Strncmp data check s 0 sLen
        if order = 0 then some true else searchFrom s sLen data lineEnd turns (check + 1)
      else searchFrom s sLen data lineEnd turns (check + 1)
    else some false

/-- The buffer, how far it is filled and where the next line starts. -/
structure GrepLines where
  data : CharBuf
  last : ℕ
  lineStart : ℕ

/-- A turn of the loop over the lines in the buffer: the next line, or the buffer for the next read. -/
def grepLine (s fname : CharBuf) (sLen : ℕ) (cnt : UInt32) (g : GrepLines) :
    UserProgram (GrepLines ⊕ (CharBuf × ℕ)) := do
  let lineEnd ← .expect (lineEndFrom g.data g.last (g.data.size + 1) g.lineStart)
  let c ← .expect (g.data.load lineEnd)
  if NEWLINE ≠ c ∧ 0 ≠ cnt ∧ g.lineStart ≠ 0 then
    let data ← .expect (g.data.store lineEnd 0)
    let data ← .expect (ece391Strcpy data 0 g.lineStart)
    return .inr (data, g.last - g.lineStart)
  let data ← .expect (g.data.store lineEnd 0)
  let found ← .expect (searchFrom s sLen data lineEnd (data.size + 1) g.lineStart)
  if found then
    ece391Fdputs 1 fname 0
    putText ":"
    ece391Fdputs 1 data g.lineStart
    putText "\n"
  if lineEnd + 1 ≥ g.last then return .inr (data, 0)
  return .inl ⟨data, g.last, lineEnd + 1⟩

/-- A turn of the loop over the reads: the buffer for the next one, or what `do_one_file` returns at once, if it
does. -/
def grepRead (s fname : CharBuf) (sLen : ℕ) (fd : ℤ) (buf : CharBuf × ℕ) :
    UserProgram ((CharBuf × ℕ) ⊕ Option ℤ) := do
  let cnt ← .ask (.read fd (UInt32.ofNat (BUFSIZE - buf.2)))
  let data ← .expect (buf.1.fill buf.2 cnt.2)
  if cnt.1 = FAIL then
    putText "file read failed\n"
    return .inr (some (-1))
  let buf ← .loop (grepLine s fname sLen cnt.1) (data.size + 1) ⟨data, buf.2 + cnt.1.toNat, 0⟩
  if cnt.1 = 0 then return .inr none
  return .inl buf

/-- `do_one_file`, with at most so many reads; `data` holds what was left on the stack. -/
def doOneFile (turns : ℕ) (s fname data : CharBuf) : UserProgram ℤ := do
  let sLen ← .expect (ece391Strlen s 0)
  let fd ← .ask (.openFile (fname.tail 0))
  if fd.1 = FAIL then
    putText "file open failed\n"
    return -1
  let early ← .loop (grepRead s fname sLen fd.1.toInt32.toInt) turns (data, 0)
  match early with
  | some ret => return ret
  | none =>
    let ret ← .ask (.close fd.1.toInt32.toInt)
    if ret.1 = FAIL then
      putText "file close failed\n"
      return -1
    return 0

/-- A turn of the loop of `grep` over the directory, with the number of files gone through so far: `frames` is
what the stack holds where the buffer of each call of `do_one_file` comes to lie. -/
def grepEntry (turns : ℕ) (search : CharBuf) (frames : ℕ → CharBuf) (fd : ℤ) (state : CharBuf × ℕ) :
    UserProgram ((CharBuf × ℕ) ⊕ UInt32) := do
  let cnt ← .ask (.read fd 32)
  let buf ← .expect (state.1.fill 0 cnt.2)
  if cnt.1 = 0 then return .inr 0
  if cnt.1 = FAIL then
    putText "directory entry read failed\n"
    return .inr 3
  let first ← .expect (buf.load 0)
  if 0x2E = first then return .inl (buf, state.2)
  let buf ← .expect (buf.store cnt.1.toNat 0)
  let ret ← doOneFile turns search buf (frames state.2)
  if ret ≠ 0 then return .inr 3
  return .inl (buf, state.2 + 1)

/-- `main` of `grep`. -/
def grepMain (turns : ℕ) (search buf : CharBuf) (frames : ℕ → CharBuf) : UserProgram UInt32 := do
  let ret ← .ask (.getargs 1024)
  let search ← .expect (search.fill 0 ret.2)
  if ret.1 ≠ 0 then
    putText "could not read argument\n"
    return 3
  let fd ← .ask (.openFile ((CharBuf.literal (asciiText ".")).tail 0))
  if fd.1 = FAIL then
    putText "directory open failed\n"
    return 2
  .loop (grepEntry turns search frames fd.1.toInt32.toInt) turns (buf, 0)

/-- The bytes of an array from `a` up to `b`. -/
def CharBuf.slice (m : CharBuf) (a b : ℕ) : List UInt8 := (List.range' a (b - a)).map m.byte

/-- Whether the search finds a pattern in a line: it never finds one whose first character is negative. -/
def found (pattern line : List UInt8) : Bool := (pattern.headD 0).toNat < 128 && decide (pattern <:+: line)

/-- What `grep` prints of a line. -/
def grepPrints (pattern name line : List UInt8) : List UInt8 :=
  if found pattern line then name ++ asciiText ":" ++ line ++ asciiText "\n" else []

/-- What `grep` prints of a file. -/
def grepText (pattern name text : List UInt8) : List UInt8 :=
  byPieces NEWLINE BUFSIZE (grepPrints pattern name) text

/-- A name that the loop over the directory does not skip. -/
def visible (name : List UInt8) : Bool := name.head? ≠ some 0x2E

/-- A name of a regular file, or of the RTC. -/
def Greppable (fs : FileSystem) (name : List UInt8) : Prop :=
  ∃ entry, fs.entryNamed name = some entry ∧ (entry.fileType = 0 ∨ entry.fileType = 2)

/-- What is printed of a name: nothing of the RTC, and of a text the lines with the pattern. -/
def GrepsTo (fs : FileSystem) (pattern name out : List UInt8) : Prop :=
  ∀ entry, fs.entryNamed name = some entry → (entry.fileType = 0 → out = []) ∧
    (entry.fileType = 2 → 0 ∉ fs.fileContent entry.inodeIdx →
      out = grepText pattern name (fs.fileContent entry.inodeIdx))

section Buffer

variable {m m' : CharBuf} {a b e : ℕ} {w : List UInt8} {c : UInt8}

@[simp] theorem CharBuf.length_slice (m : CharBuf) (a b : ℕ) : (m.slice a b).length = b - a := by simp [CharBuf.slice]

/-- The letters of a part of an array. -/
theorem CharBuf.getElem?_slice {j : ℕ} (hj : a + j < b) : (m.slice a b)[j]? = some (m.byte (a + j)) := by
  rw [CharBuf.slice, List.getElem?_map, List.getElem?_range' (by omega), Nat.one_mul]
  rfl

/-- A part depends on no byte outside. -/
theorem CharBuf.slice_congr (h : ∀ j, a ≤ j → j < b → m'.byte j = m.byte j) : m'.slice a b = m.slice a b := by
  refine List.map_congr_left fun j hj => ?_
  obtain ⟨hle, hlt⟩ := List.mem_range'_1.mp hj
  exact h j hle (by omega)

/-- A part in two. -/
theorem CharBuf.slice_append (m : CharBuf) (hae : a ≤ e) (heb : e ≤ b) : m.slice a e ++ m.slice e b = m.slice a b := by
  have hlast : a + (e - a) = e := Nat.add_sub_cancel' hae
  have hsum : e - a + (b - e) = b - a := by omega
  have hrange := List.range'_append_1 (s := a) (m := e - a) (n := b - e)
  rw [hlast, hsum] at hrange
  rw [CharBuf.slice, CharBuf.slice, CharBuf.slice, ← List.map_append, hrange]

/-- The first byte of a part. -/
theorem CharBuf.slice_cons (m : CharBuf) (hab : a < b) : m.slice a b = m.byte a :: m.slice (a + 1) b := by
  obtain ⟨n, rfl⟩ := Nat.exists_eq_add_of_lt hab
  have hcount : a + n + 1 - a = n + 1 := by omega
  have hrest : a + n + 1 - (a + 1) = n := by omega
  rw [CharBuf.slice, hcount, List.range'_succ, List.map_cons, CharBuf.slice, hrest]

/-- An empty part. -/
theorem CharBuf.slice_self (m : CharBuf) (hba : b ≤ a) : m.slice a b = [] := by
  rw [CharBuf.slice, Nat.sub_eq_zero_of_le hba]
  rfl

/-- A part without NULs is a string when a NUL is stored behind it. -/
theorem CharBuf.slice_spells (hae : a ≤ e) (hsize : e < m.size) (hproper : 0 ∉ m.slice a e) (hnul : m.byte e = 0) :
    m.SpellsAt a (m.slice a e) := by
  have hlast : a + (m.slice a e).length = e := by
    rw [m.length_slice]
    omega
  refine ⟨by rw [hlast]; exact hsize, fun j hj => ?_, ?_, hproper⟩
  · rw [m.length_slice] at hj
    rw [CharBuf.getElem?_slice (by omega)]
    rfl
  · change m.byte (a + _) = 0
    rw [hlast, hnul]

/-- The bytes that a call has stored. -/
theorem CharBuf.Filled.slice (h : m.Filled m' a w) : m'.slice a (a + w.length) = w := by
  apply List.ext_getElem?
  intro j
  by_cases hj : j < w.length
  · rw [CharBuf.getElem?_slice (by omega), h.stored j hj]
  · rw [List.getElem?_eq_none (by simp; omega), List.getElem?_eq_none (by omega)]

/-- The string that a copy has left at the front. -/
theorem CopiedString.slice (h : CopiedString m m' 0 w) : m'.slice 0 w.length = w := by
  apply List.ext_getElem?
  intro j
  by_cases hj : j < w.length
  · rw [CharBuf.getElem?_slice (by omega), h.letter j hj]
  · rw [List.getElem?_eq_none (by simpa using hj), List.getElem?_eq_none (by omega)]

/-- The loop stops at the next newline, or behind the last byte. -/
theorem lineEndFrom_eq {last lineEnd : ℕ} (turns : ℕ) (hlast : last ≤ m.size) (hle : lineEnd ≤ last)
    (hturns : last - lineEnd < turns) :
    ∃ e, lineEndFrom m last turns lineEnd = some e ∧ lineEnd ≤ e ∧ e ≤ last ∧ NEWLINE ∉ m.slice lineEnd e ∧
      (e < last → m.byte e = NEWLINE) := by
  induction turns generalizing lineEnd with
  | zero => exact absurd hturns (Nat.not_lt_zero _)
  | succ turns ih =>
    rw [lineEndFrom]
    by_cases hin : lineEnd < last
    · rw [if_pos hin, CharBuf.load_eq (lt_of_lt_of_le hin hlast), Option.bind_eq_bind, Option.bind_some]
      by_cases hnewline : NEWLINE ≠ m.byte lineEnd
      · have hnext : lineEnd + 1 ≤ last := hin
        obtain ⟨e, hrun, hfirst, hend, hline, hbyte⟩ := ih hnext (by omega)
        refine ⟨e, (if_pos hnewline).trans hrun, by omega, hend, ?_, hbyte⟩
        rw [m.slice_cons hfirst, List.mem_cons]
        exact not_or.mpr ⟨hnewline, hline⟩
      · have hbyte := not_not.mp hnewline
        refine ⟨lineEnd, if_neg hnewline, le_refl _, hle, ?_, fun _ => hbyte.symm⟩
        rw [m.slice_self (le_refl _)]
        exact List.not_mem_nil
    · rw [if_neg hin]
      refine ⟨lineEnd, rfl, le_refl _, hle, ?_, fun hlt => absurd hlt hin⟩
      rw [m.slice_self (le_refl _)]
      exact List.not_mem_nil

end Buffer

section Search

variable {s data : CharBuf} {pattern line : List UInt8} {c : UInt8} {e : ℕ}

/-- A signed character against a byte. -/
theorem charValue_eq_iff (first c : UInt8) : charValue first = c.toNat ↔ first.toNat < 128 ∧ first = c := by
  have hint : charValue first = first.toBitVec.toInt := rfl
  have hnat : first.toBitVec.toNat = first.toNat := rfl
  have hlt := c.toNat_lt
  rw [hint, BitVec.toInt_eq_toNat_cond, hnat, ← UInt8.toNat_inj]
  split_ifs with h <;> omega

/-- A pattern is found from the first character on or in the rest of the line. -/
theorem found_cons (pattern line : List UInt8) (c : UInt8) :
    found pattern (c :: line) = true ↔
      ((pattern.headD 0).toNat < 128 ∧ pattern <+: c :: line) ∨ found pattern line = true := by
  simp only [found, Bool.and_eq_true, decide_eq_true_eq, List.infix_cons_iff]
  tauto

/-- There is nothing to be found in an empty line. -/
theorem found_nil (hpattern : pattern ≠ []) : found pattern [] = false := by
  rw [found, Bool.and_eq_false_iff]
  right
  rw [decide_eq_false_iff_not, List.infix_nil]
  exact hpattern

/-- The search of a line that ends with a NUL stays inside the buffer, and finds the pattern where it is. -/
theorem searchFrom_eq (hpattern : s.SpellsAt 0 pattern) (hne : pattern ≠ []) (hsize : e < data.size)
    (hnul : data.byte e = 0) (turns : ℕ) {check : ℕ} (hle : check ≤ e) (hturns : e - check < turns) :
    ∃ r, searchFrom s pattern.length data e turns check = some r ∧
      ∀ line, data.SpellsAt check line → line.length = e - check → r = found pattern line := by
  induction turns generalizing check with
  | zero => exact absurd hturns (Nat.not_lt_zero _)
  | succ turns ih =>
    rw [searchFrom]
    rcases Nat.lt_or_eq_of_le hle with hin | rfl
    · obtain ⟨first, rest, rfl⟩ := List.exists_cons_of_ne_nil hne
      obtain ⟨w, hw, -⟩ := data.exists_spellsAt (a := check) (n := e - check) (by omega)
        (by rw [← hnul]; congr 1; omega)
      obtain ⟨d, horder, hstarts⟩ := ece391Strncmp_prefix hw hpattern
      have hnext : check + 1 ≤ e := hin
      obtain ⟨r, hrest, hfound⟩ := ih hnext (by omega)
      have hlater {c : UInt8} {line : List UInt8} (hline : data.SpellsAt check (c :: line))
          (hlength : (c :: line).length = e - check) : r = found (first :: rest) line :=
        hfound line hline.next (by rw [List.length_cons] at hlength; omega)
      rw [if_pos hin, CharBuf.load_eq hpattern.lt_size, hpattern.head.1,
        CharBuf.load_eq (lt_trans hin hsize), Option.bind_eq_bind, Option.bind_some, Option.bind_some]
      have hmiss (hno : ¬(first.toNat < 128 ∧ first :: rest <+: w)) (line : List UInt8)
        (hline : data.SpellsAt check line)
          (hlength : line.length = e - check) : r = found (first :: rest) line := by
        obtain rfl := hw.spells.unique hline.spells
        cases w with
        | nil => exact absurd hlength (by rw [List.length_nil]; omega)
        | cons c line =>
          rw [hlater hline hlength, Bool.eq_iff_iff, found_cons]
          exact ⟨.inr, fun h => h.resolve_left hno⟩
      by_cases hfirst : charValue first = (data.byte check).toNat
      · obtain ⟨hascii, hbyte⟩ := (charValue_eq_iff _ _).mp hfirst
        rw [if_pos hfirst, horder, Option.bind_eq_bind, Option.bind_some]
        by_cases hzero : d = 0
        · refine ⟨true, if_pos hzero, fun line hline hlength => ?_⟩
          obtain rfl := hw.spells.unique hline.spells
          have hinfix : found (first :: rest) w = true := by
            rw [found, Bool.and_eq_true, decide_eq_true_eq, decide_eq_true_eq]
            exact ⟨hascii, (hstarts.mp hzero).isInfix⟩
          exact hinfix.symm
        · rw [if_neg hzero]
          exact ⟨r, hrest, hmiss fun h => hzero (hstarts.mpr h.2)⟩
      · rw [if_neg hfirst]
        refine ⟨r, hrest, hmiss fun h => hfirst ((charValue_eq_iff _ _).mpr ⟨h.1, ?_⟩)⟩
        cases w with
        | nil => exact absurd (List.prefix_nil.mp h.2) (List.cons_ne_nil _ _)
        | cons c line =>
          rw [hw.head.1]
          exact (List.cons_prefix_cons.mp h.2).1
    · rw [if_neg (lt_irrefl _)]
      refine ⟨false, rfl, fun line _ hlength => ?_⟩
      rw [Nat.sub_self] at hlength
      rw [List.length_eq_zero_iff.mp hlength, found_nil hne]

end Search

namespace UserView

variable {fs : FileSystem} {v v₀ : UserView} {s fname data : CharBuf} {pattern name w rest total : List UInt8}
  {cnt : UInt32} {g : GrepLines} {last e : ℕ} {r : Bool} {text : Prop}

/-- A line is searched, and printed behind the name of the file when the pattern is in it. -/
theorem run_grepLine_search (fs : FileSystem) (hprints : v.Prints) (hname : fname.SpellsAt 0 name)
    (hend : lineEndFrom g.data g.last (g.data.size + 1) g.lineStart = some e) (he : e < g.data.size)
    (hsearches : ¬(NEWLINE ≠ g.data.byte e ∧ 0 ≠ cnt ∧ g.lineStart ≠ 0))
    (hstore : g.data.store e 0 = some data) (hline : data.SpellsAt g.lineStart w)
    (hfound : searchFrom s pattern.length data e (data.size + 1) g.lineStart = some r) :
    runView fs (grepLine s fname pattern.length cnt g) v =
      some (if e + 1 ≥ g.last then .inr (data, 0) else .inl ⟨data, g.last, e + 1⟩,
        v.print (if r then name ++ asciiText ":" ++ w ++ asciiText "\n" else [])) := by
  simp only [grepLine, runView, Dialogue.run_bind, hend, Dialogue.run_expect, Option.bind_some, CharBuf.load_eq he,
    if_neg hsearches, hstore, hfound]
  have hleave (v : UserView) : Dialogue.run (fun v => v.answer fs) (if e + 1 ≥ g.last then pure (.inr (data, 0))
      else pure (.inl ⟨data, g.last, e + 1⟩) : UserProgram (GrepLines ⊕ (CharBuf × ℕ))) v =
      some (if e + 1 ≥ g.last then .inr (data, 0) else .inl ⟨data, g.last, e + 1⟩, v) := by
    split_ifs <;> rfl
  cases r with
  | false => rw [if_neg Bool.false_ne_true, if_neg Bool.false_ne_true, hleave, print_nil]
  | true =>
    rw [if_pos rfl, if_pos rfl]
    simp only [Dialogue.run_bind, run_fdputs hprints hname, run_putText (hprints.print _) ":" (by decide),
      run_fdputs (hprints.print _) hline, run_putText (hprints.print _) "\n" (by decide),
      Option.bind_some, hleave, print_print]

/-- The loop over the lines in the buffer, with `rest` still in the file: when the file is a text, what was printed
and what is to come of the bytes that are left make up `total`. -/
structure Scanning (text : Prop) (pattern name rest total : List UInt8) (v₀ : UserView) (last : ℕ) (g : GrepLines)
    (v : UserView) : Prop where
  size : g.data.size = BUFSIZE + 1
  guard : g.data.byte BUFSIZE ≠ NEWLINE
  last_eq : g.last = last
  last_le : last ≤ BUFSIZE
  start_le : g.lineStart ≤ last
  printed : ∃ out, v = v₀.print out ∧ (text → 0 ∉ g.data.slice g.lineStart last ∧
    out ++ grepText pattern name (g.data.slice g.lineStart last ++ rest) = total)

/-- The buffer behind that loop: an unfinished line at the front, and room behind it. -/
structure Scanned (text : Prop) (pattern name rest total : List UInt8) (v₀ : UserView) (cnt : UInt32)
    (buf : CharBuf × ℕ) (v : UserView) : Prop where
  size : buf.1.size = BUFSIZE + 1
  guard : buf.1.byte BUFSIZE ≠ NEWLINE
  room : buf.2 < BUFSIZE
  drained : cnt = 0 → buf.2 = 0
  printed : ∃ out, v = v₀.print out ∧ (text → 0 ∉ buf.1.slice 0 buf.2 ∧
    out ++ grepText pattern name (buf.1.slice 0 buf.2 ++ rest) = total)

/-- Nothing is printed of an empty line. -/
theorem grepPrints_nil (hpattern : pattern ≠ []) : grepPrints pattern name [] = [] := by
  rw [grepPrints, found_nil hpattern, if_neg Bool.false_ne_true]

/-- Nothing is printed of an empty text. -/
theorem grepText_nil (hpattern : pattern ≠ []) : grepText pattern name [] = [] :=
  byPieces_nil (by decide) (grepPrints_nil hpattern)

/-- What is printed of a text, its first line ahead. -/
theorem grepText_line {line tail : List UInt8} (hpattern : pattern ≠ []) (hline : NEWLINE ∉ line)
    (hlength : line.length ≤ BUFSIZE) : grepText pattern name (line ++ NEWLINE :: tail) =
      grepPrints pattern name line ++ grepText pattern name tail :=
  byPieces_line (by decide) (grepPrints_nil hpattern) hline hlength tail

/-- An unfinished line that is searched is the last of the file, or fills the buffer. -/
theorem grepText_piece {line : List UInt8} (hpattern : pattern ≠ []) (hline : NEWLINE ∉ line)
    (hlength : line.length ≤ BUFSIZE) (hfull : rest = [] ∨ line.length = BUFSIZE) :
    grepText pattern name (line ++ rest) = grepPrints pattern name line ++ grepText pattern name rest := by
  rcases hfull with rfl | hfull
  · rw [List.append_nil, grepText, byPieces_last (by decide) (grepPrints_nil hpattern) hline hlength,
      grepText_nil hpattern, List.append_nil]
  · exact byPieces_full (by decide) hline hfull rest

/-- When no line is longer than the buffer, the lines of the text are searched one by one. -/
theorem grepText_lines {content : List UInt8} (hpattern : pattern ≠ [])
    (hshort : ∀ line ∈ content.splitOn NEWLINE, line.length ≤ BUFSIZE) :
    grepText pattern name content = (content.splitOn NEWLINE).flatMap (grepPrints pattern name) :=
  byPieces_lines (by decide) (grepPrints_nil hpattern) hshort

/-- A turn moves the unfinished line to the front, or searches the next line. -/
theorem Scanning.turn (fs : FileSystem) (h : Scanning text pattern name rest total v₀ last g v) (hprints : v₀.Prints)
    (hpattern : s.SpellsAt 0 pattern) (hne : pattern ≠ []) (hname : fname.SpellsAt 0 name)
    (hfull : rest = [] ∨ last = BUFSIZE ∧ 0 ≠ cnt) :
    (∃ buf v', runView fs (grepLine s fname pattern.length cnt g) v = some (.inr buf, v') ∧
        Scanned text pattern name rest total v₀ cnt buf v') ∨
      ∃ g' v', runView fs (grepLine s fname pattern.length cnt g) v = some (.inl g', v') ∧
        g.lineStart < g'.lineStart ∧ Scanning text pattern name rest total v₀ last g' v' := by
  obtain ⟨hsize, hguard, rfl, hlast, hstart, out, rfl, htext⟩ := h
  have hbufsize : BUFSIZE = 1024 := rfl
  obtain ⟨e, hend, hfirst, hle, hline, hbyte⟩ :=
    lineEndFrom_eq (m := g.data) (g.data.size + 1) (by omega) hstart (by omega)
  have he : e < g.data.size := by omega
  let data : CharBuf := { g.data with byte := Function.update g.data.byte e 0 }
  have hstore : g.data.store e 0 = some data := CharBuf.store_eq he 0
  have hkeep (j : ℕ) (hj : j ≠ e) : data.byte j = g.data.byte j := Function.update_of_ne hj ..
  have hnul : data.byte e = 0 := Function.update_self ..
  have hguard' : data.byte BUFSIZE ≠ NEWLINE := by
    by_cases heq : BUFSIZE = e
    · rw [heq, hnul]
      decide
    · rw [hkeep _ heq]
      exact hguard
  have hslice : data.slice g.lineStart e = g.data.slice g.lineStart e :=
    CharBuf.slice_congr fun j _ hj => hkeep j (Nat.ne_of_lt hj)
  obtain ⟨w, hw, hwlength⟩ := data.exists_spellsAt (a := g.lineStart) (n := e - g.lineStart)
    (by rw [Nat.add_sub_cancel' hfirst]; exact he) (by rw [Nat.add_sub_cancel' hfirst]; exact hnul)
  -- of a text the string in the buffer is the whole line
  have hword (hproper : 0 ∉ g.data.slice g.lineStart e) : w = g.data.slice g.lineStart e := by
    have hspells := CharBuf.slice_spells (m := data) hfirst he (by rw [hslice]; exact hproper) hnul
    rw [hw.spells.unique hspells.spells, hslice]
  by_cases hcarry : NEWLINE ≠ g.data.byte e ∧ 0 ≠ cnt ∧ g.lineStart ≠ 0
  · obtain ⟨hunfinished, hcnt, hlater⟩ := hcarry
    have heq : e = g.last := by
      by_contra hlt
      exact hunfinished (hbyte (by omega)).symm
    subst heq
    obtain ⟨data', hcopy, hcopied⟩ := ece391Strcpy_eq hw (Nat.zero_le _)
    refine .inl ⟨(data', g.last - g.lineStart), v₀.print out, ?_, hcopied.size.trans hsize, ?_, ?_,
      fun hzero => absurd hzero.symm hcnt, out, rfl, fun ht => ?_⟩
    · simp only [grepLine, runView, Dialogue.run_bind, hend, Dialogue.run_expect, Option.bind_some, CharBuf.load_eq he,
        if_pos (And.intro hunfinished (And.intro hcnt hlater)), hstore, hcopy, Dialogue.run_pure]
    · rw [hcopied.frame BUFSIZE (.inr (by omega))]
      exact hguard'
    · change g.last - g.lineStart < BUFSIZE
      omega
    · obtain ⟨hproper, htotal⟩ := htext ht
      have hmoved := hcopied.slice
      rw [hword hproper, CharBuf.length_slice] at hmoved
      change 0 ∉ data'.slice 0 (g.last - g.lineStart) ∧ _ ++ grepText _ _
        (data'.slice 0 (g.last - g.lineStart) ++ _) = _
      rw [hmoved]
      exact ⟨hproper, htotal⟩
  · have he' : e < data.size := he
    obtain ⟨r, hsearch, hfound⟩ := searchFrom_eq hpattern hne he' hnul (data.size + 1) hfirst
      (by have hdata : data.size = g.data.size := rfl; omega)
    have hrun := run_grepLine_search fs (hprints.print out) hname hend he hcarry hstore hw hsearch
    have hshort : (g.data.slice g.lineStart e).length ≤ BUFSIZE := by
      rw [CharBuf.length_slice]
      omega
    rw [print_print] at hrun
    -- what the search prints of a text
    have hout (hproper : 0 ∉ g.data.slice g.lineStart e) :
        (if r then name ++ asciiText ":" ++ w ++ asciiText "\n" else []) =
          grepPrints pattern name (g.data.slice g.lineStart e) := by
      have hspells := hw
      rw [hword hproper] at hspells
      rw [hfound _ hspells (CharBuf.length_slice ..), hword hproper]
      rfl
    have hsplit (hlt : e < g.last) : g.data.slice g.lineStart g.last =
        g.data.slice g.lineStart e ++ NEWLINE :: g.data.slice (e + 1) g.last := by
      rw [← g.data.slice_append hfirst hle, g.data.slice_cons hlt, hbyte hlt]
    have hpiece (hlt : ¬e < g.last) (ht : text) : 0 ∉ g.data.slice g.lineStart e ∧
        out ++ (grepPrints pattern name (g.data.slice g.lineStart e) ++ grepText pattern name rest) = total := by
      obtain ⟨hproper, htotal⟩ := htext ht
      obtain rfl : e = g.last := by omega
      refine ⟨hproper, ?_⟩
      rw [grepText_piece hne hline hshort ?_] at htotal
      · exact htotal
      · rcases hfull with hrest | ⟨hlast', hcnt⟩
        · exact .inl hrest
        · rw [← hlast'] at hguard
          have hzero : g.lineStart = 0 := by
            by_contra hlater
            exact hcarry ⟨Ne.symm hguard, hcnt, hlater⟩
          rw [CharBuf.length_slice, hzero, Nat.sub_zero]
          exact .inr hlast'
    have hnext (hlt : e < g.last) (ht : text) : 0 ∉ g.data.slice g.lineStart e ∧ 0 ∉ g.data.slice (e + 1) g.last ∧
        out ++ (grepPrints pattern name (g.data.slice g.lineStart e) ++
          grepText pattern name (g.data.slice (e + 1) g.last ++ rest)) = total := by
      obtain ⟨hproper, htotal⟩ := htext ht
      rw [hsplit hlt] at hproper htotal
      rw [List.append_assoc, List.cons_append, grepText_line hne hline hshort] at htotal
      rw [List.mem_append, List.mem_cons, not_or, not_or] at hproper
      exact ⟨hproper.1, hproper.2.2, htotal⟩
    by_cases hdone : e + 1 ≥ g.last
    · rw [if_pos hdone] at hrun
      refine .inl ⟨_, _, hrun, hsize, hguard', show 0 < BUFSIZE by decide, fun _ => rfl, _, rfl, fun ht => ?_⟩
      have hempty : data.slice 0 0 = [] := data.slice_self (le_refl 0)
      change 0 ∉ data.slice 0 0 ∧ _ ++ grepText _ _ (data.slice 0 0 ++ _) = _
      rw [hempty, List.nil_append, List.append_assoc]
      refine ⟨List.not_mem_nil, ?_⟩
      by_cases hlt : e < g.last
      · obtain ⟨hproper, -, htotal⟩ := hnext hlt ht
        rw [g.data.slice_self hdone, List.nil_append] at htotal
        rw [hout hproper]
        exact htotal
      · obtain ⟨hproper, htotal⟩ := hpiece hlt ht
        rw [hout hproper]
        exact htotal
    · have hlt : e < g.last := by omega
      rw [if_neg hdone] at hrun
      refine .inr ⟨_, _, hrun, Nat.lt_succ_of_le hfirst, hsize, hguard', rfl, hlast, hlt, _, rfl, fun ht => ?_⟩
      obtain ⟨hproper, hrest, htotal⟩ := hnext hlt ht
      have hsame : data.slice (e + 1) g.last = g.data.slice (e + 1) g.last :=
        CharBuf.slice_congr fun j hj _ => hkeep j (by omega)
      change 0 ∉ data.slice (e + 1) g.last ∧ _ ++ grepText _ _ (data.slice (e + 1) g.last ++ _) = _
      rw [hsame, List.append_assoc, hout hproper]
      exact ⟨hrest, htotal⟩

/-- The loop over the lines in the buffer comes to an end. -/
theorem Scanning.run (fs : FileSystem) (h : Scanning text pattern name rest total v₀ last g v) (hprints : v₀.Prints)
    (hpattern : s.SpellsAt 0 pattern) (hne : pattern ≠ []) (hname : fname.SpellsAt 0 name)
    (hfull : rest = [] ∨ last = BUFSIZE ∧ 0 ≠ cnt) (turns : ℕ) (hturns : BUFSIZE < turns) :
    ∃ buf v', runView fs (.loop (grepLine s fname pattern.length cnt) turns g) v = some (buf, v') ∧
      Scanned text pattern name rest total v₀ cnt buf v' := by
  have hlast := h.last_le
  refine Dialogue.run_loop _ (fun n g v => Scanning text pattern name rest total v₀ last g v ∧ n = last - g.lineStart)
    (Scanned text pattern name rest total v₀ cnt) ?_ ⟨h, rfl⟩
    (lt_of_le_of_lt (le_trans (Nat.sub_le _ _) hlast) hturns)
  rintro n g v ⟨hscanning, rfl⟩
  rcases hscanning.turn fs hprints hpattern hne hname hfull with
    ⟨buf, v', hrun, hscanned⟩ | ⟨g', v', hrun, hlt, hnext⟩
  · exact .inl ⟨buf, v', hrun, hscanned⟩
  · have hle := hnext.start_le
    exact .inr ⟨g', v', hrun, last - g'.lineStart, by omega, hnext, rfl⟩

end UserView

end OsKernel
