import OsKernel.Library.Words
import OsKernel.NameLookup
import OsKernel.Syscall

/-!
# Splitting the command line

`parse_cmd` goes over the command once, with a flag for the first space behind the command word, and
fills two buffers of different sizes. Here it is followed cell by cell in the memory of these buffers; the
result depends on the words of the command only.
-/

namespace OsKernel

open Library

/-- The characters of a string. -/
def cString (s : Bytes) : List UInt8 := (List.range (strlen s)).map s

/-- The loop that puts NULs into the first `n` cells of a buffer. -/
def fillNul (buf : Bytes) : ℕ → Bytes
  | 0 => buf
  | n + 1 => Function.update (fillNul buf n) n 0

/-- The locals of `parse_cmd` in its last loop, with the memory from its two buffers on. -/
structure ParseState where
  spaceBegin : Bool
  commandCount : ℕ
  fileNameCount : ℕ
  fileName : Bytes
  commandName : Bytes

/-- The body of the last loop of `parse_cmd`, for a character. -/
def ParseState.step (s : ParseState) (c : UInt8) : ParseState :=
  if c = 0x20 then { s with spaceBegin := true }
  else if s.commandCount < MAX_FILENAME ∧ !s.spaceBegin then
    { s with
      commandName := Function.update s.commandName s.commandCount c
      commandCount := s.commandCount + 1 }
  else if s.fileNameCount ≤ MAX_FILENAME ∧ s.spaceBegin then
    { s with
      fileName := Function.update s.fileName s.fileNameCount c
      fileNameCount := s.fileNameCount + 1 }
  else s

/-- `parse_cmd` in memory: what it leaves from `file_name` and from `command_name` on. -/
def parseCmdInto (command fileName commandName : Bytes) : Bytes × Bytes :=
  let s := ((cString command).dropWhile (· = 0x20)).foldl ParseState.step
    { spaceBegin := false
      commandCount := 0
      fileNameCount := 0
      fileName := fillNul fileName (MAX_FILENAME + 1)
      commandName := fillNul commandName MAX_FILENAME }
  (s.fileName, s.commandName)

/-- The characters of a string are no NULs. -/
theorem zero_notMem_cString (s : Bytes) : 0 ∉ cString s := by
  intro hmem
  obtain ⟨i, hi, hzero⟩ := List.mem_map.mp hmem
  exact strlenFrom_ne_zero (Nat.zero_le i) (List.mem_range.mp hi) hzero

/-- A cell of a buffer behind the initialisation loop. -/
theorem fillNul_apply (buf : Bytes) (n i : ℕ) : fillNul buf n i = if i < n then 0 else buf i := by
  induction n with
  | zero => rw [fillNul, if_neg (Nat.not_lt_zero i)]
  | succ n ih =>
    rw [fillNul]
    by_cases hi : i = n
    · rw [hi, Function.update_self, if_pos (Nat.lt_succ_self n)]
    · rw [Function.update_of_ne hi, ih]
      split_ifs <;> first | rfl | omega

/-- One more byte stored behind the others. -/
theorem storeBytes_snoc (buf : Bytes) (l : List UInt8) (c : UInt8) :
    Function.update (storeBytes buf l) l.length c = storeBytes buf (l ++ [c]) := by
  funext i
  rw [storeBytes, List.getD_eq_getElem?_getD]
  by_cases hi : i = l.length
  · rw [hi, Function.update_self, List.getElem?_concat_length]
    rfl
  · rw [Function.update_of_ne hi, storeBytes, List.getD_eq_getElem?_getD]
    rcases Nat.lt_or_gt_of_ne hi with hlt | hgt
    · rw [List.getElem?_append_left hlt]
    · rw [List.getElem?_eq_none (le_of_lt hgt), List.getElem?_eq_none (by simpa using Nat.succ_le_of_lt hgt)]

/-- Bytes stored into a buffer that was initialised come with NULs behind them. -/
theorem storeBytes_fillNul (buf : Bytes) (l : List UInt8) (n : ℕ) :
    storeBytes (fillNul buf n) l = storeBytes buf (l.rightpad n 0) := by
  funext i
  rw [storeBytes, storeBytes, List.getD_eq_getElem?_getD, List.getD_eq_getElem?_getD, fillNul_apply,
    List.rightpad]
  by_cases hi : i < l.length
  · rw [List.getElem?_append_left hi, List.getElem?_eq_getElem hi]
    rfl
  · rw [List.getElem?_eq_none (not_lt.mp hi), List.getElem?_append_right (not_lt.mp hi), List.getElem?_replicate]
    by_cases hn : i < n
    · rw [if_pos hn, if_pos (by omega), Option.getD_none, Option.getD_some]
    · rw [if_neg hn, if_neg (by omega)]

/-- The loop keeps the letters behind the first space, as many as fit. -/
theorem parseLoop_rest (commandName fileName chars : List UInt8) (hroom : fileName.length ≤ MAX_FILENAME + 1) :
    parseLoop true commandName fileName chars =
      (commandName, fileName ++ (chars.filter (· ≠ 0x20)).take (MAX_FILENAME + 1 - fileName.length)) := by
  induction chars generalizing fileName with
  | nil => simp [parseLoop]
  | cons c rest ih =>
    rw [parseLoop]
    by_cases hc : c = 0x20
    · rw [if_pos hc, ih _ hroom, List.filter_cons_of_neg (by simpa using hc)]
    · rw [if_neg hc, if_neg (by simp), List.filter_cons_of_pos (by simpa using hc)]
      by_cases hfull : fileName.length ≤ MAX_FILENAME
      · rw [if_pos ⟨hfull, rfl⟩, ih _ (by simpa using hfull), List.length_append, List.length_singleton,
          show MAX_FILENAME + 1 - fileName.length = MAX_FILENAME + 1 - (fileName.length + 1) + 1 by omega,
          List.take_succ_cons, List.append_assoc]
        rfl
      · have hnone : MAX_FILENAME + 1 - fileName.length = 0 := by omega
        rw [if_neg (fun h => hfull h.1), ih _ hroom, hnone, List.take_zero, List.take_zero]

/-- The loop keeps the first word, as far as it fits, and the letters behind it. -/
theorem parseLoop_word (commandName chars : List UInt8) (hroom : commandName.length ≤ MAX_FILENAME) :
    parseLoop false commandName [] chars =
      (commandName ++ (chars.takeWhile (· ≠ 0x20)).take (MAX_FILENAME - commandName.length),
        ((chars.dropWhile (· ≠ 0x20)).filter (· ≠ 0x20)).take (MAX_FILENAME + 1)) := by
  induction chars generalizing commandName with
  | nil => simp [parseLoop]
  | cons c rest ih =>
    rw [parseLoop]
    by_cases hc : c = 0x20
    · rw [if_pos hc, parseLoop_rest _ _ _ (Nat.zero_le _), List.takeWhile_cons_of_neg (by simpa using hc),
        List.dropWhile_cons_of_neg (by simpa using hc), List.filter_cons_of_neg (by simpa using hc)]
      simp
    · rw [if_neg hc, List.takeWhile_cons_of_pos (by simpa using hc), List.dropWhile_cons_of_pos (by simpa using hc)]
      by_cases hfull : commandName.length < MAX_FILENAME
      · rw [if_pos ⟨hfull, rfl⟩, ih _ (by simpa using Nat.succ_le_of_lt hfull), List.length_append,
          List.length_singleton,
          show MAX_FILENAME - commandName.length = MAX_FILENAME - (commandName.length + 1) + 1 by omega,
          List.take_succ_cons, List.append_assoc]
        rfl
      · have hnone : MAX_FILENAME - commandName.length = 0 := by omega
        rw [if_neg (fun h => hfull h.1), if_neg (by simp), ih _ hroom, hnone, List.take_zero, List.take_zero]

/-- The memory of the two buffers holds the characters that the list form of the loop has kept. -/
structure ParseState.Holds (s : ParseState) (file name : Bytes) (commandName fileName : List UInt8) : Prop where
  commandCount : s.commandCount = commandName.length
  fileNameCount : s.fileNameCount = fileName.length
  commandName : s.commandName = storeBytes name commandName
  fileName : s.fileName = storeBytes file fileName

/-- The loop in memory follows its list form. -/
theorem parseLoop_holds {s : ParseState} {file name : Bytes} {commandName fileName : List UInt8}
    (h : s.Holds file name commandName fileName) (chars : List UInt8) :
    (chars.foldl ParseState.step s).Holds file name (parseLoop s.spaceBegin commandName fileName chars).1
      (parseLoop s.spaceBegin commandName fileName chars).2 := by
  induction chars generalizing s commandName fileName with
  | nil => exact h
  | cons c rest ih =>
    rw [List.foldl_cons, ParseState.step, parseLoop, h.commandCount, h.fileNameCount]
    by_cases hc : c = 0x20
    · rw [if_pos hc, if_pos hc]
      exact ih ⟨rfl, rfl, h.commandName, h.fileName⟩
    · rw [if_neg hc, if_neg hc]
      by_cases hcommand : commandName.length < MAX_FILENAME ∧ (!s.spaceBegin) = true
      · rw [if_pos hcommand, if_pos hcommand]
        apply ih
        refine ⟨by simp, rfl, ?_, h.fileName⟩
        rw [h.commandName, storeBytes_snoc]
      · rw [if_neg hcommand, if_neg hcommand]
        by_cases hfile : fileName.length ≤ MAX_FILENAME ∧ s.spaceBegin = true
        · rw [if_pos hfile, if_pos hfile]
          apply ih
          refine ⟨rfl, by simp, h.commandName, ?_⟩
          rw [h.fileName, storeBytes_snoc]
        · rw [if_neg hfile, if_neg hfile]
          exact ih h

/-- What `parse_cmd` keeps of the characters of a command. -/
theorem parseLoop_eq (chars : List UInt8) :
    parseLoop false [] [] (chars.dropWhile (· = 0x20)) =
      ((firstWord 0x20 chars).take MAX_FILENAME, (laterLetters 0x20 chars).take (MAX_FILENAME + 1)) := by
  rw [parseLoop_word [] _ (Nat.zero_le _)]
  rfl

/-- The buffers of `parse_cmd`, by the words of the command. -/
theorem parseCmd_eq (command : Bytes) :
    parseCmd command =
      (((firstWord 0x20 (cString command)).take MAX_FILENAME).rightpad MAX_FILENAME 0,
        ((laterLetters 0x20 (cString command)).take (MAX_FILENAME + 1)).rightpad (MAX_FILENAME + 1) 0) := by
  rw [parseCmd]
  simp only [show (List.range (strlen command)).map command = cString command from rfl, parseLoop_eq]

/-- In memory `parse_cmd` stores the two buffers of its list form and nothing else. -/
theorem parseCmdInto_eq (command fileName commandName : Bytes) :
    parseCmdInto command fileName commandName =
      (storeBytes fileName (parseCmd command).2, storeBytes commandName (parseCmd command).1) := by
  have hstart : ParseState.Holds
      { spaceBegin := false, commandCount := 0, fileNameCount := 0, fileName := fillNul fileName (MAX_FILENAME + 1),
        commandName := fillNul commandName MAX_FILENAME } (fillNul fileName (MAX_FILENAME + 1))
      (fillNul commandName MAX_FILENAME) [] [] := ⟨rfl, rfl, rfl, rfl⟩
  have hloop := parseLoop_holds hstart ((cString command).dropWhile (· = 0x20))
  rw [parseCmdInto, hloop.fileName, hloop.commandName, storeBytes_fillNul, storeBytes_fillNul]
  rfl

/-- The length of a buffer that was filled and padded. -/
theorem length_rightpad_take (l : List UInt8) (n : ℕ) : ((l.take n).rightpad n 0).length = n := by
  rw [List.length_rightpad, List.length_take]
  omega

/-- `parse_cmd` writes 33 cells of `file_name` and 32 of `command_name`: the first word and the letters
behind it, each as far as it fits, and NULs. Separators added in front of the command, behind it or next
to another one change nothing, and a command of spaces leaves NULs only. -/
theorem parseCmdInto_spec (command fileName commandName : Bytes) :
    parseCmdInto command fileName commandName =
        (storeBytes fileName
          (((laterLetters 0x20 (cString command)).take (MAX_FILENAME + 1)).rightpad (MAX_FILENAME + 1) 0),
        storeBytes commandName
          (((firstWord 0x20 (cString command)).take MAX_FILENAME).rightpad MAX_FILENAME 0)) ∧
      (∀ i ≥ MAX_FILENAME + 1, (parseCmdInto command fileName commandName).1 i = fileName i) ∧
      (∀ i ≥ MAX_FILENAME, (parseCmdInto command fileName commandName).2 i = commandName i) ∧
      (∀ (command' : Bytes) (n : ℕ),
        cString command' = List.replicate n 0x20 ++ cString command ∨
        cString command' = cString command ++ List.replicate n 0x20 ∨
        (∃ a b, cString command = a ++ 0x20 :: b ∧ cString command' = a ++ 0x20 :: (List.replicate n 0x20 ++ b)) →
        parseCmdInto command' fileName commandName = parseCmdInto command fileName commandName) ∧
      ((∀ c ∈ cString command, c = 0x20) → parseCmdInto command fileName commandName =
        (storeBytes fileName (List.replicate (MAX_FILENAME + 1) 0),
          storeBytes commandName (List.replicate MAX_FILENAME 0))) := by
  refine ⟨?_, ?_, ?_, ?_, ?_⟩
  · rw [parseCmdInto_eq, parseCmd_eq]
  · intro i hi
    rw [parseCmdInto_eq, parseCmd_eq]
    exact List.getD_eq_default _ _ (by rw [length_rightpad_take]; exact hi)
  · intro i hi
    rw [parseCmdInto_eq, parseCmd_eq]
    exact List.getD_eq_default _ _ (by rw [length_rightpad_take]; exact hi)
  · intro command' n hspaces
    have hwords : firstWord 0x20 (cString command') = firstWord 0x20 (cString command) ∧
        laterLetters 0x20 (cString command') = laterLetters 0x20 (cString command) := by
      rcases hspaces with hfront | hback | ⟨a, b, hcommand, hinside⟩
      · rw [hfront]
        exact words_leading _ n
      · rw [hback]
        exact words_trailing _ n
      · rw [hcommand, hinside]
        exact words_inserted a b n
    rw [parseCmdInto_eq, parseCmdInto_eq, parseCmd_eq, parseCmd_eq, hwords.1, hwords.2]
  · intro hspaces
    have hwords : firstWord 0x20 (cString command) = [] ∧ laterLetters 0x20 (cString command) = [] := by
      rw [List.eq_replicate_of_mem hspaces]
      exact words_separators _
    rw [parseCmdInto_eq, parseCmd_eq, hwords.1, hwords.2]
    rfl

end OsKernel
