import OsKernel.Boot
import OsKernel.CommandLine

/-!
# The argument of a program

`execute` keeps what `parse_cmd` left of the argument in 33 bytes of the PCB, and `getargs` copies these
bytes out. The argument arrives as it was typed only if it is a single word that fits; a longer one fills
the 33 bytes with no NUL among them, and the copy can look behind them.
-/

namespace OsKernel

open Library

/-- How many characters from the start of the source `strncpy` looks at: its loop tests the character
before the bound. -/
def strncpyLooks (src : Bytes) (i : ℕ) : ℕ → ℕ
  | 0 => i + 1
  | n + 1 => if src i = 0 then i + 1 else strncpyLooks src (i + 1) n

/-- A call of `getargs`: what it returns, what it stores from the start of the buffer, and how many bytes
it looks at from `args_name` on. -/
structure ArgsCall where
  ret : UInt32
  stored : List UInt8
  looks : ℕ

/-- `args_name` with the memory behind it. -/
def argsMemory (argsName : List UInt8) (behind : Bytes) : Bytes := fun i =>
  if i < MAX_FILENAME + 1 then argsName.getD i 0 else behind (i - (MAX_FILENAME + 1))

/-- `getargs` with a non-null buffer, on the 33 bytes of `args_name` and the memory behind them. -/
def getargsIn (argsName : List UInt8) (behind : Bytes) (nbytes : UInt32) : ArgsCall :=
  let src := argsMemory argsName behind
  if src 0 ≠ 0 then
    { ret := 0
      stored := strncpy src nbytes.toNat
      looks := strncpyLooks src 0 nbytes.toNat }
  else
    { ret := FAIL
      stored := []
      looks := 1 }

/-- The call hands the argument over: it succeeds exactly when there is one that fits with its NUL both
the PCB and the buffer, and then stores it in full; it stays inside `args_name` and the buffer. -/
structure ArgsCall.HandsOver (argument : List UInt8) (nbytes : ℕ) (call : ArgsCall) : Prop where
  succeeds : call.ret = 0 ↔
    argument ≠ [] ∧ argument.length + 1 ≤ MAX_FILENAME + 1 ∧ argument.length + 1 ≤ nbytes
  fails : call.ret ≠ 0 → call.ret = FAIL
  copied : call.ret = 0 → call.stored.take (argument.length + 1) = argument ++ [0]
  reads : call.looks ≤ MAX_FILENAME + 1
  writes : call.stored.length ≤ nbytes

section Copy

variable {s : Bytes} {w : List UInt8}

/-- The loops of `strncpy` from inside a word: the rest of the word and NULs. -/
theorem strncpyFrom_of_spells (h : Spells s w) {i n : ℕ} (hi : i ≤ w.length) :
    strncpyFrom s i n = ((w.drop i).take n).rightpad n 0 := by
  induction n generalizing i with
  | zero => rfl
  | succ n ih =>
    rw [strncpyFrom]
    rcases Nat.lt_or_eq_of_le hi with hlt | rfl
    · have hletter : w[i] = s i := Option.some.inj ((List.getElem?_eq_getElem hlt).symm.trans (h.letter i hlt))
      rw [if_neg (h.ne_zero hlt), ih hlt, List.drop_eq_getElem_cons hlt, hletter, List.take_succ_cons,
        List.rightpad, List.rightpad, List.length_cons, Nat.add_sub_add_right]
      rfl
    · rw [if_pos h.terminated, List.drop_length]
      rfl

/-- What `strncpy` stores of a word. -/
theorem strncpy_of_spells (h : Spells s w) (n : ℕ) : strncpy s n = (w.take n).rightpad n 0 := by
  rw [strncpy, strncpyFrom_of_spells h (Nat.zero_le _), List.drop_zero]

/-- A word that fits with a NUL is stored with one. -/
theorem take_strncpy (h : Spells s w) {n : ℕ} (hn : w.length + 1 ≤ n) :
    (strncpy s n).take (w.length + 1) = w ++ [0] := by
  have hone : min (w.length + 1 - w.length) (n - w.length) = 1 := by omega
  rw [strncpy_of_spells h, List.take_of_length_le (Nat.le_of_succ_le hn), List.rightpad, List.take_append,
    List.take_of_length_le (Nat.le_succ _), List.take_replicate, hone]
  rfl

/-- `strncpy` looks no further than the NUL behind a word. -/
theorem strncpyLooks_le (h : Spells s w) {i : ℕ} (hi : i ≤ w.length) (n : ℕ) :
    strncpyLooks s i n ≤ w.length + 1 := by
  induction n generalizing i with
  | zero => exact Nat.succ_le_succ hi
  | succ n ih =>
    rw [strncpyLooks]
    rcases Nat.lt_or_eq_of_le hi with hlt | rfl
    · rw [if_neg (h.ne_zero hlt)]
      exact ih hlt
    · rw [if_pos h.terminated]

end Copy

/-- A byte list without NULs spells itself. -/
theorem spells_toBytes {l : List UInt8} (h : 0 ∉ l) : Spells (toBytes l) l := by
  have hcut : l.takeWhile (· ≠ 0) = l := List.takeWhile_eq_self_iff.mpr fun c hc => by
    have hne : c ≠ 0 := fun heq => h (heq ▸ hc)
    simpa using hne
  have hspells := spells_cut l
  rw [hcut] at hspells
  exact hspells

/-- NULs behind a list do not change its bytes in memory. -/
theorem toBytes_rightpad (l : List UInt8) (n : ℕ) : toBytes (l.rightpad n 0) = toBytes l := by
  funext i
  rw [toBytes, toBytes, List.getD_eq_getElem?_getD, List.getD_eq_getElem?_getD, List.rightpad]
  by_cases hi : i < l.length
  · rw [List.getElem?_append_left hi]
  · rw [List.getElem?_append_right (not_lt.mp hi), List.getElem?_replicate, List.getElem?_eq_none (not_lt.mp hi)]
    split_ifs <;> rfl

/-- What `execute` keeps in the PCB: the letters behind the command word, as far as they fit. -/
def keptLetters (command : Bytes) : List UInt8 := (laterLetters 0x20 (cString command)).take (MAX_FILENAME + 1)

/-- There is no NUL among them. -/
theorem zero_notMem_keptLetters (command : Bytes) : 0 ∉ keptLetters command := by
  intro hmem
  exact zero_notMem_cString command (mem_laterLetters (List.mem_of_mem_take hmem)).1

/-- They fit `args_name`. -/
theorem length_keptLetters_le (command : Bytes) : (keptLetters command).length ≤ MAX_FILENAME + 1 := by
  rw [keptLetters, List.length_take]
  exact Nat.min_le_left _ _

/-- `args_name` after `execute`. -/
theorem argsName_eq (command : Bytes) :
    strncpy (toBytes (parseCmd command).2) (MAX_FILENAME + 1) =
      (keptLetters command).rightpad (MAX_FILENAME + 1) 0 := by
  have hkept : (parseCmd command).2 = (keptLetters command).rightpad (MAX_FILENAME + 1) 0 := by
    rw [parseCmd_eq, keptLetters]
  rw [hkept, toBytes_rightpad, strncpy_of_spells (spells_toBytes (zero_notMem_keptLetters command)),
    List.take_of_length_le (length_keptLetters_le command)]

section Handed

variable (command behind : Bytes) (nbytes : UInt32)

/-- A byte of `args_name`. -/
theorem argsMemory_kept {i : ℕ} (hi : i < MAX_FILENAME + 1) :
    argsMemory ((keptLetters command).rightpad (MAX_FILENAME + 1) 0) behind i = toBytes (keptLetters command) i := by
  rw [argsMemory, if_pos hi]
  exact congrFun (toBytes_rightpad _ _) i

/-- Fewer than 33 letters stand in `args_name` with a NUL behind them. -/
theorem argsMemory_spells (h : (keptLetters command).length ≤ MAX_FILENAME) :
    Spells (argsMemory ((keptLetters command).rightpad (MAX_FILENAME + 1) 0) behind) (keptLetters command) := by
  have hspells := spells_toBytes (zero_notMem_keptLetters command)
  refine ⟨?_, ?_, hspells.proper⟩
  · intro i hi
    rw [argsMemory_kept _ _ (by omega)]
    exact hspells.letter i hi
  · rw [argsMemory_kept _ _ (by omega)]
    exact hspells.terminated

/-- There is an argument exactly when `args_name` does not start with a NUL. -/
theorem argsMemory_zero_iff :
    argsMemory ((keptLetters command).rightpad (MAX_FILENAME + 1) 0) behind 0 = 0 ↔
      trimmedRest 0x20 (cString command) = [] := by
  have hspells := spells_toBytes (zero_notMem_keptLetters command)
  rw [argsMemory_kept _ _ (Nat.succ_pos _), trimmedRest_eq_nil_iff]
  constructor
  · intro hzero
    by_contra hletters
    have hpos : 0 < (keptLetters command).length := by
      rw [keptLetters, List.length_take]
      exact Nat.lt_min.mpr ⟨Nat.succ_pos _, List.length_pos_iff.mpr hletters⟩
    exact hspells.ne_zero hpos hzero
  · intro hnone
    rw [keptLetters, hnone]
    rfl

/-- No space is stored into the buffer when the 33 bytes have a NUL among them. -/
theorem space_notMem_stored (h : (keptLetters command).length ≤ MAX_FILENAME) :
    0x20 ∉ strncpy (argsMemory ((keptLetters command).rightpad (MAX_FILENAME + 1) 0) behind) nbytes.toNat := by
  rw [strncpy_of_spells (argsMemory_spells command behind h), List.rightpad]
  intro hmem
  rcases List.mem_append.mp hmem with hkept | hpad
  · exact (mem_laterLetters (List.mem_of_mem_take (List.mem_of_mem_take hkept))).2 rfl
  · exact absurd (List.eq_of_mem_replicate hpad) (by decide)

/-- `getargs` without an argument. -/
theorem getargsIn_none (h : trimmedRest 0x20 (cString command) = []) :
    getargsIn ((keptLetters command).rightpad (MAX_FILENAME + 1) 0) behind nbytes =
      { ret := FAIL, stored := [], looks := 1 } := by
  rw [getargsIn]
  exact if_neg (not_not.mpr ((argsMemory_zero_iff command behind).mpr h))

/-- `getargs` with an argument. -/
theorem getargsIn_some (h : trimmedRest 0x20 (cString command) ≠ []) :
    getargsIn ((keptLetters command).rightpad (MAX_FILENAME + 1) 0) behind nbytes =
      { ret := 0
        stored := strncpy (argsMemory ((keptLetters command).rightpad (MAX_FILENAME + 1) 0) behind) nbytes.toNat
        looks := strncpyLooks (argsMemory ((keptLetters command).rightpad (MAX_FILENAME + 1) 0) behind) 0
          nbytes.toNat } := by
  rw [getargsIn]
  exact if_pos (mt (argsMemory_zero_iff command behind).mp h)

/-- An argument of at most 32 characters leaves room for a NUL. -/
theorem length_keptLetters_le_of_short (h : (trimmedRest 0x20 (cString command)).length ≤ MAX_FILENAME) :
    (keptLetters command).length ≤ MAX_FILENAME := by
  rw [keptLetters, List.length_take, ← filter_trimmedRest]
  exact le_trans (Nat.min_le_right _ _) (le_trans (List.length_filter_le _ _) h)

/-- A single word that fits is handed over. -/
theorem getargsIn_word (hshort : (trimmedRest 0x20 (cString command)).length ≤ MAX_FILENAME)
    (hfits : (trimmedRest 0x20 (cString command)).length + 1 ≤ nbytes.toNat)
    (hword : 0x20 ∉ trimmedRest 0x20 (cString command)) (hsome : trimmedRest 0x20 (cString command) ≠ []) :
    (getargsIn ((keptLetters command).rightpad (MAX_FILENAME + 1) 0) behind nbytes).HandsOver
      (trimmedRest 0x20 (cString command)) nbytes.toNat := by
  have hkept : keptLetters command = trimmedRest 0x20 (cString command) := by
    rw [keptLetters, ← trimmedRest_eq_laterLetters hword, List.take_of_length_le (Nat.le_succ_of_le hshort)]
  have hspells := argsMemory_spells command behind (length_keptLetters_le_of_short command hshort)
  have hstored := take_strncpy hspells (n := nbytes.toNat) (by rw [hkept]; exact hfits)
  have hlooks := strncpyLooks_le hspells (Nat.zero_le _) nbytes.toNat
  rw [getargsIn_some command behind nbytes hsome]
  generalize argsMemory ((keptLetters command).rightpad (MAX_FILENAME + 1) 0) behind = src at hstored hlooks
  rw [hkept] at hstored hlooks
  refine ⟨?_, fun hfail => absurd rfl hfail, fun _ => hstored, ?_, le_of_eq (length_strncpy _ _)⟩
  · simp only [true_iff]
    exact ⟨hsome, Nat.succ_le_succ hshort, hfits⟩
  · exact le_trans hlooks (Nat.succ_le_succ hshort)

/-- The argument is handed over exactly when there is none, or it is a single word that fits the PCB and
the buffer with its NUL. -/
theorem getargsIn_handsOver_iff :
    (getargsIn ((keptLetters command).rightpad (MAX_FILENAME + 1) 0) behind nbytes).HandsOver
        (trimmedRest 0x20 (cString command)) nbytes.toNat ↔
      trimmedRest 0x20 (cString command) = [] ∨
        (trimmedRest 0x20 (cString command)).length ≤ MAX_FILENAME ∧
          (trimmedRest 0x20 (cString command)).length + 1 ≤ nbytes.toNat ∧
          0x20 ∉ trimmedRest 0x20 (cString command) := by
  by_cases hnone : trimmedRest 0x20 (cString command) = []
  · rw [getargsIn_none command behind nbytes hnone]
    constructor
    · intro _
      exact Or.inl hnone
    · intro _
      refine ⟨?_, fun _ => rfl, fun hzero => absurd hzero (by decide), Nat.succ_pos _, Nat.zero_le _⟩
      constructor
      · intro hzero
        exact absurd hzero (by decide)
      · intro hsome
        exact absurd hnone hsome.1
  · constructor
    · intro hover
      rw [getargsIn_some command behind nbytes hnone] at hover
      obtain ⟨-, hshort, hfits⟩ := hover.succeeds.mp rfl
      have hroom := Nat.le_of_succ_le_succ hshort
      refine Or.inr ⟨hroom, hfits, ?_⟩
      intro hspace
      apply space_notMem_stored command behind nbytes (length_keptLetters_le_of_short command hroom)
      apply List.mem_of_mem_take
      rw [hover.copied rfl]
      exact List.mem_append_left _ hspace
    · intro hfit
      rcases hfit with hnil | ⟨hshort, hfits, hword⟩
      · exact absurd hnil hnone
      · exact getargsIn_word command behind nbytes hshort hfits hword hnone

end Handed

/-- `getargs` in memory is the `getargs` of the process code, when only NULs stand behind `args_name`. -/
theorem getargs_eq_getargsIn {k : Kernel} {p : Slot} (hcaller : k.caller = some p) (nbytes : UInt32)
    (hargs : (k.pcb p).argsName.length = MAX_FILENAME + 1) :
    (k.getargs nbytes).map (fun r => (r.1, r.2.1)) =
      some ((getargsIn (k.pcb p).argsName (fun _ => 0) nbytes).ret,
        (getargsIn (k.pcb p).argsName (fun _ => 0) nbytes).stored) := by
  have hmemory : argsMemory (k.pcb p).argsName (fun _ => 0) = toBytes (k.pcb p).argsName := by
    funext i
    rw [argsMemory, toBytes]
    split_ifs with hi
    · rfl
    · rw [List.getD_eq_default _ _ (by omega)]
  have hcaller' : ({ k with pcbValRead := some p } : Kernel).caller = some p := hcaller
  have hfirst : toBytes (k.pcb p).argsName 0 = (k.pcb p).argsName.getD 0 0 := rfl
  simp only [Kernel.getargs, hcaller, hcaller', Option.map_some, getargsIn, hmemory, hfirst]
  split_ifs <;> rfl

/-- What the checks of `execute` found has the second buffer of `parse_cmd`. -/
theorem executeCheck_fileName {fs : FileSystem} {command : Bytes} {frame : ExecFrame} {prog : Program}
    (h : executeCheck fs (some command) frame = some prog) : prog.fileName = (parseCmd command).2 := by
  simp only [executeCheck, Option.bind_eq_bind, Option.bind_some] at h
  generalize parseCmd command = parsed at h ⊢
  obtain ⟨dentry, -, h⟩ := Option.bind_eq_some_iff.mp h
  split_ifs at h
  exact congrArg Program.fileName (Option.some.inj h).symm

/-- The program that `execute` starts gets its argument exactly when the command has none, or it is a
single word of at most 32 characters that fits the buffer with its NUL. -/
theorem execute_getargs_iff {fs : FileSystem} {k k' : Kernel} {command : Bytes} {frame : ExecFrame}
    (hexec : k.execute fs (some command) frame = some k') :
    ∃ p, k'.caller = some p ∧ ∀ (behind : Bytes) (nbytes : UInt32),
      ((getargsIn (k'.pcb p).argsName behind nbytes).HandsOver (trimmedRest 0x20 (cString command)) nbytes.toNat ↔
        trimmedRest 0x20 (cString command) = [] ∨
          (trimmedRest 0x20 (cString command)).length ≤ MAX_FILENAME ∧
            (trimmedRest 0x20 (cString command)).length + 1 ≤ nbytes.toNat ∧
            0x20 ∉ trimmedRest 0x20 (cString command)) := by
  obtain ⟨prog, p, hcheck, hstarted⟩ := Kernel.execute_started hexec
  refine ⟨p, hstarted.caller, ?_⟩
  rw [hstarted.argsName, executeCheck_fileName hcheck, argsName_eq]
  exact getargsIn_handsOver_iff command

/-- The machine before its first process, with zeroed memory. -/
def zeroKernel : Kernel := bootKernel (fun _ => Pcb.zeroed) fun _ _ => 0

/-- `"shell a b"` -/
def twoWordCommand : Bytes := toBytes (shellName ++ [0x20, 0x61, 0x20, 0x62])

/-- `"shell "` and 33 letters. -/
def longWordCommand : Bytes := toBytes (shellName ++ 0x20 :: List.replicate 33 0x61)

/-- `execute` starts the shell with any argument. -/
theorem zeroKernel_execute {command : Bytes}
    (hcheck : (executeCheck shellImage.fs (some command) zeroFrame).isSome) :
    ∃ k' p, zeroKernel.execute shellImage.fs (some command) zeroFrame = some k' ∧ k'.caller = some p ∧
      (k'.pcb p).argsName = strncpy (toBytes (parseCmd command).2) (MAX_FILENAME + 1) := by
  have hsome : (zeroKernel.execute shellImage.fs (some command) zeroFrame).isSome :=
    Kernel.execute_isSome.mpr ⟨hcheck, 0, rfl⟩
  obtain ⟨k', hexec⟩ := Option.isSome_iff_exists.mp hsome
  obtain ⟨prog, p, hcheck, hstarted⟩ := Kernel.execute_started hexec
  exact ⟨k', p, hexec, hstarted.caller, by rw [hstarted.argsName, executeCheck_fileName hcheck]⟩

/-- Of the argument `a b` the program gets `ab`, and for an argument of 33 letters `getargs` looks behind
the 33 bytes. -/
theorem execute_getargs_twoWords :
    (∃ k' p, zeroKernel.execute shellImage.fs (some twoWordCommand) zeroFrame = some k' ∧ k'.caller = some p ∧
      (getargsIn (k'.pcb p).argsName (fun _ => 0) 1024).stored.take 3 = [0x61, 0x62, 0] ∧
      ¬(getargsIn (k'.pcb p).argsName (fun _ => 0) 1024).HandsOver (trimmedRest 0x20 (cString twoWordCommand)) 1024) ∧
    ∃ k' p, zeroKernel.execute shellImage.fs (some longWordCommand) zeroFrame = some k' ∧ k'.caller = some p ∧
      (getargsIn (k'.pcb p).argsName (fun _ => 0) 1024).looks = 34 := by
  constructor
  · have hcheck : (executeCheck shellImage.fs (some twoWordCommand) zeroFrame).isSome := by decide +kernel
    obtain ⟨k', p, hexec, hcaller, hargs⟩ := zeroKernel_execute hcheck
    refine ⟨k', p, hexec, hcaller, ?_, ?_⟩
    · rw [hargs]
      decide +kernel
    · intro hover
      rw [hargs] at hover
      exact absurd (hover.copied (by decide +kernel)) (by decide +kernel)
  · have hcheck : (executeCheck shellImage.fs (some longWordCommand) zeroFrame).isSome := by decide +kernel
    obtain ⟨k', p, hexec, hcaller, hargs⟩ := zeroKernel_execute hcheck
    refine ⟨k', p, hexec, hcaller, ?_⟩
    rw [hargs]
    decide +kernel

/-- `"shell abc"` -/
def oneWordCommand : Bytes := toBytes (shellName ++ [0x20, 0x61, 0x62, 0x63])

/-- A command with an argument of one word: the program gets the word with its NUL. -/
theorem execute_getargs_word : ∃ k' p, zeroKernel.execute shellImage.fs (some oneWordCommand) zeroFrame = some k' ∧
    k'.caller = some p ∧ (getargsIn (k'.pcb p).argsName (fun _ => 0) 4).HandsOver [0x61, 0x62, 0x63] 4 ∧
      (getargsIn (k'.pcb p).argsName (fun _ => 0) 4).stored = [0x61, 0x62, 0x63, 0] := by
  have hcheck : (executeCheck shellImage.fs (some oneWordCommand) zeroFrame).isSome := by decide +kernel
  obtain ⟨k', q, hexec, hcaller', hstored⟩ := zeroKernel_execute hcheck
  obtain ⟨p, hcaller, hargs⟩ := execute_getargs_iff hexec
  obtain rfl := Option.some.inj (hcaller'.symm.trans hcaller)
  have hword : trimmedRest 0x20 (cString oneWordCommand) = [0x61, 0x62, 0x63] := by decide +kernel
  have hover := (hargs (fun _ => 0) 4).mpr (Or.inr (by rw [hword]; decide +kernel))
  rw [hword] at hover
  refine ⟨k', q, hexec, hcaller, hover, ?_⟩
  rw [hstored]
  decide +kernel

end OsKernel
