import OsKernel.Arguments

/-!
# Strings in the programs

The programs keep their strings in arrays, and `ece391support.c` goes through them up to a NUL. An array
has a size here: an access behind its end has no value, so a function that has one stayed inside. On a
string that ends inside its array each function is what its name says.
-/

namespace OsKernel

open Library

/-- An array of characters. -/
structure CharBuf where
  size : ℕ
  byte : Bytes

namespace CharBuf

/-- A string literal. -/
def literal (text : List UInt8) : CharBuf := ⟨text.length + 1, toBytes text⟩

/-- Read a character of the array. -/
def load (m : CharBuf) (a : ℕ) : Option UInt8 := if a < m.size then some (m.byte a) else none

/-- Write a character of the array. -/
def store (m : CharBuf) (a : ℕ) (c : UInt8) : Option CharBuf :=
  if a < m.size then some { m with byte := Function.update m.byte a c } else none

/-- The bytes that a system call stores into the array. -/
def fill (m : CharBuf) (a : ℕ) (bytes : List UInt8) : Option CharBuf :=
  if a + bytes.length ≤ m.size then
    some { m with byte := fun i => if a ≤ i ∧ i < a + bytes.length then bytes.getD (i - a) 0 else m.byte i }
  else none

/-- The memory from an address of the array on, as a system call sees it. -/
def tail (m : CharBuf) (a : ℕ) : Bytes := fun i => m.byte (a + i)

/-- The string at an address, with its NUL inside the array. -/
structure SpellsAt (m : CharBuf) (a : ℕ) (w : List UInt8) : Prop where
  inside : a + w.length < m.size
  spells : Spells (m.tail a) w

end CharBuf

/-- The loop of `ece391_strlen`. -/
def ece391StrlenFrom (m : CharBuf) (s len : ℕ) : (turns : ℕ) → Option ℕ
  | 0 => none
  | turns + 1 => do
    let c ← m.load (s + len)
    if c = 0 then some len else ece391StrlenFrom m s (len + 1) turns

/-- `ece391_strlen` -/
def ece391Strlen (m : CharBuf) (s : ℕ) : Option ℕ := ece391StrlenFrom m s 0 (m.size + 1)

/-- The loop of `ece391_strcpy`. -/
def ece391StrcpyFrom (m : CharBuf) (dst src : ℕ) : (turns : ℕ) → Option CharBuf
  | 0 => none
  | turns + 1 => do
    let c ← m.load src
    let m ← m.store dst c
    if c = 0 then some m else ece391StrcpyFrom m (dst + 1) (src + 1) turns

/-- `ece391_strcpy` inside one array. -/
def ece391Strcpy (m : CharBuf) (dst src : ℕ) : Option CharBuf := ece391StrcpyFrom m dst src (m.size + 1)

/-- `ece391_strncmp`, the loop going down with `n`. -/
def ece391Strncmp (m₁ : CharBuf) (s₁ : ℕ) (m₂ : CharBuf) (s₂ : ℕ) : (n : ℕ) → Option ℤ
  | 0 => some 0
  | n + 1 => do
    let c₁ ← m₁.load s₁
    let c₂ ← m₂.load s₂
    if c₁ = c₂ then
      if c₁ = 0 ∨ n = 0 then some 0 else ece391Strncmp m₁ (s₁ + 1) m₂ (s₂ + 1) n
    else some ((c₁.toNat : ℤ) - c₂.toNat)

namespace CharBuf

variable {m m₁ m₂ : CharBuf} {a a₁ a₂ : ℕ} {c : UInt8} {v w : List UInt8}

theorem load_eq (h : a < m.size) : m.load a = some (m.byte a) := if_pos h

theorem store_eq (h : a < m.size) (c : UInt8) : m.store a c = some { m with byte := Function.update m.byte a c } :=
  if_pos h

/-- What an array is after a call stored bytes into it. -/
structure Filled (m m' : CharBuf) (a : ℕ) (bytes : List UInt8) : Prop where
  size : m'.size = m.size
  stored : ∀ i < bytes.length, some (m'.byte (a + i)) = bytes[i]?
  frame : ∀ j, j < a ∨ a + bytes.length ≤ j → m'.byte j = m.byte j

/-- Bytes that fit are stored. -/
theorem fill_eq (m : CharBuf) (a : ℕ) (bytes : List UInt8) (h : a + bytes.length ≤ m.size) :
    ∃ m', m.fill a bytes = some m' ∧ Filled m m' a bytes := by
  refine ⟨_, if_pos h, rfl, fun i hi => ?_, fun j hj => ?_⟩
  · have hin : a ≤ a + i ∧ a + i < a + bytes.length := ⟨Nat.le_add_right a i, Nat.add_lt_add_left hi a⟩
    simp only [if_pos hin, Nat.add_sub_cancel_left, List.getElem?_eq_getElem hi, List.getD_eq_getElem?_getD,
      Option.getD_some]
  · have hout : ¬(a ≤ j ∧ j < a + bytes.length) := by omega
    exact if_neg hout

/-- A literal without NULs spells its text. -/
theorem literal_spellsAt (h : 0 ∉ w) : (literal w).SpellsAt 0 w := by
  refine ⟨by simp [literal], ?_⟩
  have htail : (literal w).tail 0 = toBytes w := funext fun i => congrArg (toBytes w) (Nat.zero_add i)
  rw [htail]
  exact spells_toBytes h

/-- Up to a NUL inside the array there is a string. -/
theorem exists_spellsAt {n : ℕ} (hsize : a + n < m.size) (hzero : m.byte (a + n) = 0) :
    ∃ w, m.SpellsAt a w ∧ w.length ≤ n := by
  induction n generalizing a with
  | zero => exact ⟨[], ⟨hsize, ⟨by simp, hzero, by simp⟩⟩, Nat.le_refl 0⟩
  | succ n ih =>
    by_cases hfirst : m.byte a = 0
    · exact ⟨[], ⟨Nat.lt_of_le_of_lt (Nat.le_add_right a _) hsize, ⟨by simp, hfirst, by simp⟩⟩, Nat.zero_le _⟩
    · obtain ⟨w, hw, hlength⟩ := ih (a := a + 1) (by omega) (by rw [← hzero]; congr 1; omega)
      refine ⟨m.byte a :: w, ⟨by have := hw.inside; simp only [List.length_cons]; omega, ?_⟩,
        Nat.succ_le_succ hlength⟩
      have hspells : Spells (m.tail a) ([m.byte a] ++ w) := by
        refine Spells.prepend (fun i hi => ?_) (by simpa using Ne.symm hfirst) ?_
        · obtain rfl : i = 0 := by simpa using hi
          rfl
        · have hshift : (fun k => m.tail a ([m.byte a].length + k)) = m.tail (a + 1) := by
            funext k
            exact congrArg m.byte (by simp only [List.length_singleton]; omega)
          rw [hshift]
          exact hw.spells
      exact hspells

/-- A string without its first character. -/
theorem SpellsAt.next (h : m.SpellsAt a (c :: w)) : m.SpellsAt (a + 1) w := by
  have hin := h.inside
  rw [List.length_cons] at hin
  refine ⟨by omega, fun i hi => ?_, ?_, fun hmem => h.spells.proper (List.mem_cons_of_mem c hmem)⟩
  · have hletter := h.spells.letter (i + 1) (by simpa using hi)
    rw [List.getElem?_cons_succ] at hletter
    exact hletter.trans (congrArg some (congrArg m.byte (by omega)))
  · have hend := h.spells.terminated
    rw [List.length_cons] at hend
    exact (congrArg m.byte (by omega)).trans hend

/-- The first character of a string. -/
theorem SpellsAt.head (h : m.SpellsAt a (c :: w)) : m.byte a = c ∧ c ≠ 0 := by
  refine ⟨?_, fun hzero => h.spells.proper (by simp [hzero])⟩
  exact (Option.some.inj (h.spells.letter 0 (by simp))).symm

/-- The NUL behind the last character. -/
theorem SpellsAt.nil (h : m.SpellsAt a []) : m.byte a = 0 := h.spells.terminated

/-- The address of a string is inside the array. -/
theorem SpellsAt.lt_size (h : m.SpellsAt a w) : a < m.size := Nat.lt_of_le_of_lt (Nat.le_add_right a _) h.inside

end CharBuf

section Strings

variable {m m₁ m₂ : CharBuf} {a a₁ a₂ : ℕ} {v w : List UInt8}

/-- The length loop from inside a string. -/
theorem ece391StrlenFrom_eq {s len turns : ℕ} (h : m.SpellsAt (s + len) w) (hturns : w.length < turns) :
    ece391StrlenFrom m s len turns = some (len + w.length) := by
  induction w generalizing len turns with
  | nil =>
    obtain ⟨turns, rfl⟩ := Nat.exists_eq_succ_of_ne_zero (Nat.ne_zero_of_lt hturns)
    simp [ece391StrlenFrom, CharBuf.load_eq h.lt_size, h.nil]
  | cons c w ih =>
    obtain ⟨turns, rfl⟩ := Nat.exists_eq_succ_of_ne_zero (Nat.ne_zero_of_lt hturns)
    obtain ⟨hbyte, hne⟩ := h.head
    have hnext : m.SpellsAt (s + (len + 1)) w := h.next
    have hrest := ih hnext (Nat.lt_of_succ_lt_succ hturns)
    simp only [ece391StrlenFrom, CharBuf.load_eq h.lt_size, hbyte, Option.bind_eq_bind, Option.bind_some, if_neg hne,
      hrest, List.length_cons]
    congr 1
    omega

/-- `ece391_strlen` of a string. -/
theorem ece391Strlen_eq (h : m.SpellsAt a w) : ece391Strlen m a = some w.length := by
  have hstart : m.SpellsAt (a + 0) w := h
  rw [ece391Strlen, ece391StrlenFrom_eq hstart (by have := h.inside; omega), Nat.zero_add]

/-- `ece391_strncmp` over the length of its second string finds out whether the first one starts with it. -/
theorem ece391Strncmp_prefix (h₁ : m₁.SpellsAt a₁ v) (h₂ : m₂.SpellsAt a₂ w) :
    ∃ d, ece391Strncmp m₁ a₁ m₂ a₂ w.length = some d ∧ (d = 0 ↔ w <+: v) := by
  induction w generalizing v a₁ a₂ with
  | nil => exact ⟨0, rfl, by simp⟩
  | cons c w ih =>
    obtain ⟨hbyte, hne⟩ := h₂.head
    cases v with
    | nil =>
      refine ⟨(0 : UInt8).toNat - c.toNat, ?_, ?_⟩
      · simp [ece391Strncmp, CharBuf.load_eq h₁.lt_size, CharBuf.load_eq h₂.lt_size, h₁.nil, hbyte, Ne.symm hne]
      · have hpos : c.toNat ≠ 0 := fun hzero => hne (UInt8.toNat_inj.mp hzero)
        simp [List.prefix_nil, hpos]
    | cons b v =>
      obtain ⟨hbyte₁, hne₁⟩ := h₁.head
      obtain ⟨d, hd, hiff⟩ := ih h₁.next h₂.next
      simp only [List.length_cons, ece391Strncmp, CharBuf.load_eq h₁.lt_size, CharBuf.load_eq h₂.lt_size, hbyte,
        hbyte₁, Option.bind_eq_bind, Option.bind_some]
      by_cases heq : b = c
      · subst heq
        rw [if_pos rfl]
        by_cases hlast : w.length = 0
        · rw [if_pos (.inr hlast)]
          exact ⟨0, rfl, by simp [List.length_eq_zero_iff.mp hlast]⟩
        · rw [if_neg (not_or.mpr ⟨hne, hlast⟩)]
          exact ⟨d, hd, by rw [hiff, List.cons_prefix_cons]; simp⟩
      · rw [if_neg heq]
        refine ⟨_, rfl, ?_⟩
        have hnat : b.toNat ≠ c.toNat := fun hsame => heq (UInt8.toNat_inj.mp hsame)
        rw [List.cons_prefix_cons]
        constructor
        · intro hzero
          omega
        · rintro ⟨hsame, -⟩
          exact absurd hsame.symm heq

/-- What a copy of a string to an address in front of it leaves. -/
structure CopiedString (m m' : CharBuf) (dst : ℕ) (w : List UInt8) : Prop where
  size : m'.size = m.size
  letter : ∀ i < w.length, some (m'.byte (dst + i)) = w[i]?
  terminated : m'.byte (dst + w.length) = 0
  frame : ∀ j, j < dst ∨ dst + w.length < j → m'.byte j = m.byte j

/-- The copy loop, with the destination in front of the source. -/
theorem ece391StrcpyFrom_eq {dst src turns : ℕ} (h : m.SpellsAt src w) (hle : dst ≤ src) (hturns : w.length < turns) :
    ∃ m', ece391StrcpyFrom m dst src turns = some m' ∧ CopiedString m m' dst w := by
  induction w generalizing m dst src turns with
  | nil =>
    obtain ⟨turns, rfl⟩ := Nat.exists_eq_succ_of_ne_zero (Nat.ne_zero_of_lt hturns)
    have hdst := Nat.lt_of_le_of_lt hle h.lt_size
    refine ⟨{ m with byte := Function.update m.byte dst 0 }, ?_, ⟨rfl, by simp, ?_, ?_⟩⟩
    · simp only [ece391StrcpyFrom, CharBuf.load_eq h.lt_size, h.nil, Option.bind_eq_bind, Option.bind_some,
        CharBuf.store_eq hdst, if_true]
    · exact Function.update_self ..
    · intro j hj
      rw [List.length_nil] at hj
      exact Function.update_of_ne (by omega) ..
  | cons c w ih =>
    obtain ⟨turns, rfl⟩ := Nat.exists_eq_succ_of_ne_zero (Nat.ne_zero_of_lt hturns)
    obtain ⟨hbyte, hne⟩ := h.head
    have hdst := Nat.lt_of_le_of_lt hle h.lt_size
    let m₁ : CharBuf := { m with byte := Function.update m.byte dst c }
    have hkeep : ∀ j, dst < j → m₁.byte j = m.byte j := fun j hj => Function.update_of_ne (Nat.ne_of_gt hj) ..
    have hrest : m₁.SpellsAt (src + 1) w := by
      have hnext := h.next
      have htail : m₁.tail (src + 1) = m.tail (src + 1) := funext fun i => hkeep _ (by omega)
      exact ⟨hnext.inside, by rw [htail]; exact hnext.spells⟩
    have hnext : dst + 1 ≤ src + 1 := Nat.succ_le_succ hle
    obtain ⟨m', hrun, hcopied⟩ := ih hrest hnext (Nat.lt_of_succ_lt_succ hturns)
    refine ⟨m', ?_, ⟨hcopied.size, fun i hi => ?_, ?_, fun j hj => ?_⟩⟩
    · simp only [ece391StrcpyFrom, CharBuf.load_eq h.lt_size, hbyte, Option.bind_eq_bind, Option.bind_some,
        CharBuf.store_eq hdst, if_neg hne]
      exact hrun
    · cases i with
      | zero =>
        rw [Nat.add_zero, hcopied.frame dst (.inl (Nat.lt_succ_self dst))]
        exact congrArg some (Function.update_self ..)
      | succ i =>
        rw [List.getElem?_cons_succ, ← hcopied.letter i (by simpa using hi)]
        congr 2
        omega
    · rw [← hcopied.terminated, List.length_cons]
      congr 1
      omega
    · rw [List.length_cons] at hj
      rw [hcopied.frame j (by omega)]
      exact Function.update_of_ne (by omega) ..

/-- `ece391_strcpy` down inside an array. -/
theorem ece391Strcpy_eq {dst src : ℕ} (h : m.SpellsAt src w) (hle : dst ≤ src) :
    ∃ m', ece391Strcpy m dst src = some m' ∧ CopiedString m m' dst w :=
  ece391StrcpyFrom_eq h hle (by have := h.inside; omega)

end Strings

end OsKernel
