import Mathlib.Data.UInt
import Mathlib.Tactic.Ring

/-!
# Words in memory and the stack they make

A word lies in four bytes, the lowest first. A stack is the list of the words from the stack pointer up; words are
pushed below it and popped in the opposite order, and a write away from the stack leaves it as it is. Addresses go
around at the end of the address space.
-/

namespace OsKernel.Library

/-- The bytes of memory. -/
abbrev Memory := UInt32 → UInt8

/-- The word at an address. -/
def load32 (m : Memory) (a : UInt32) : UInt32 :=
  (m a).toUInt32 + (m (a + 1)).toUInt32 * 0x100 + (m (a + 2)).toUInt32 * 0x10000 + (m (a + 3)).toUInt32 * 0x1000000

/-- A word stored at an address. -/
def store32 (m : Memory) (a w : UInt32) : Memory := fun b =>
  if b = a then w.toUInt8
  else if b = a + 1 then (w >>> 8).toUInt8
  else if b = a + 2 then (w >>> 16).toUInt8
  else if b = a + 3 then (w >>> 24).toUInt8
  else m b

/-- The bytes from an address on are the same in two memories. -/
def SameFrom (a : UInt32) (n : ℕ) (m m' : Memory) : Prop := ∀ b, (b - a).toNat < n → m' b = m b

/-- Two memories are the same away from a range. -/
def SameAway (a : UInt32) (n : ℕ) (m m' : Memory) : Prop := ∀ b, n ≤ (b - a).toNat → m' b = m b

/-- The words from an address on. -/
def Stacked (m : Memory) : UInt32 → List UInt32 → Prop
  | _, [] => True
  | a, w :: ws => load32 m a = w ∧ Stacked m (a + 4) ws

/-- Memory with words pushed, the first one first. -/
def pushed : Memory → UInt32 → List UInt32 → Memory
  | m, _, [] => m
  | m, a, w :: ws => pushed (store32 m (a - 4) w) (a - 4) ws

variable {m m' : Memory} {a b w : UInt32} {n : ℕ} {ws rest : List UInt32}

/-- The offset of one word more. -/
theorem ofNat_words (w : UInt32) (ws : List UInt32) :
    UInt32.ofNat (4 * (w :: ws).length) = 4 + UInt32.ofNat (4 * ws.length) := by
  rw [List.length_cons, Nat.mul_succ, Nat.add_comm, UInt32.ofNat_add]
  rfl

/-- Words pushed behind others. -/
theorem pushed_append (m : Memory) (a : UInt32) (first second : List UInt32) :
    pushed m a (first ++ second) = pushed (pushed m a first) (a - UInt32.ofNat (4 * first.length)) second := by
  induction first generalizing m a with
  | nil => simp [pushed]
  | cons w first ih => rw [List.cons_append, pushed, ih, pushed, ofNat_words, sub_sub]

/-- The distance from an address four lower. -/
theorem toNat_sub_lower (a b : UInt32) (h : (b - a).toNat + 4 < 4294967296) :
    (b - (a - 4)).toNat = (b - a).toNat + 4 := by
  have heq : b - (a - 4) = (b - a) + 4 := by grind
  rw [heq, UInt32.toNat_add]
  exact Nat.mod_eq_of_lt h

/-- The distance from an address four higher. -/
theorem toNat_sub_higher (a b : UInt32) (h : 4 ≤ (b - a).toNat) : (b - (a + 4)).toNat = (b - a).toNat - 4 := by
  have heq : b - (a + 4) = (b - a) - 4 := by grind
  have hfour : (4 : UInt32) ≤ b - a := UInt32.le_iff_toNat_le.mpr h
  rw [heq, UInt32.toNat_sub_of_le _ _ hfour]
  rfl

/-- A store changes nothing away from its word. -/
theorem store32_of_far (h : 4 ≤ (b - a).toNat) (m : Memory) (w : UInt32) : store32 m a w b = m b := by
  have hne (i : UInt32) (hi : i.toNat < 4) : b ≠ a + i := by
    rintro rfl
    rw [add_sub_cancel_left] at h
    omega
  have hzero : b ≠ a := by
    rintro rfl
    rw [sub_self] at h
    exact absurd h (by decide)
  rw [store32, if_neg hzero, if_neg (hne 1 (by decide)), if_neg (hne 2 (by decide)), if_neg (hne 3 (by decide))]

/-- What is loaded depends on the four bytes. -/
theorem load32_congr (h : SameFrom a 4 m m') : load32 m' a = load32 m a := by
  have hbyte (i : UInt32) (hi : i.toNat < 4) : m' (a + i) = m (a + i) :=
    h _ (by rw [add_sub_cancel_left]; exact hi)
  have hzero : m' a = m a := h _ (by rw [sub_self]; decide)
  rw [load32, load32, hzero, hbyte 1 (by decide), hbyte 2 (by decide), hbyte 3 (by decide)]

/-- A stored word is loaded again. -/
theorem load32_store32 (m : Memory) (a w : UInt32) : load32 (store32 m a w) a = w := by
  have hne (i j : UInt32) (hij : i ≠ j) : a + i ≠ a + j := fun heq => hij (add_left_cancel heq)
  have hself (i : UInt32) (hi : i ≠ 0) : a + i ≠ a := fun heq => hi (add_eq_left.mp heq)
  have h0 : store32 m a w a = w.toUInt8 := if_pos rfl
  have h1 : store32 m a w (a + 1) = (w >>> 8).toUInt8 := by
    rw [store32, if_neg (hself 1 (by decide)), if_pos rfl]
  have h2 : store32 m a w (a + 2) = (w >>> 16).toUInt8 := by
    rw [store32, if_neg (hself 2 (by decide)), if_neg (hne 2 1 (by decide)), if_pos rfl]
  have h3 : store32 m a w (a + 3) = (w >>> 24).toUInt8 := by
    rw [store32, if_neg (hself 3 (by decide)), if_neg (hne 3 1 (by decide)), if_neg (hne 3 2 (by decide)), if_pos rfl]
  rw [load32, h0, h1, h2, h3]
  apply UInt32.toNat.inj
  have hw := w.toNat_lt
  simp only [UInt32.toNat_add, UInt32.toNat_mul, UInt8.toNat_toUInt32, UInt32.toNat_toUInt8, UInt32.toNat_shiftRight,
    UInt32.toNat_ofNat, Nat.shiftRight_eq_div_pow]
  norm_num
  omega

/-- A stack lies in its bytes. -/
theorem Stacked.congr (h : Stacked m a ws) (hroom : 4 * ws.length ≤ 4294967296)
    (hsame : SameFrom a (4 * ws.length) m m') :
    Stacked m' a ws := by
  induction ws generalizing a with
  | nil => trivial
  | cons w ws ih =>
    rw [List.length_cons] at hsame hroom
    refine ⟨(load32_congr fun b hb => hsame b (by omega)).trans h.1, ih h.2 (by omega) fun b hb => hsame b ?_⟩
    by_cases hnear : (b - a).toNat < 4
    · omega
    · rw [toNat_sub_higher a b (by omega)] at hb
      omega

/-- A word pushed onto a stack. -/
theorem Stacked.push (h : Stacked m a ws) (hroom : 4 * (ws.length + 1) ≤ 4294967296) (w : UInt32) :
    Stacked (store32 m (a - 4) w) (a - 4) (w :: ws) := by
  refine ⟨load32_store32 .., ?_⟩
  rw [sub_add_cancel]
  refine h.congr (by omega) fun b hb => store32_of_far ?_ m w
  rw [toNat_sub_lower a b (by omega)]
  omega

/-- The part of a stack above its first words. -/
theorem Stacked.above {first : List UInt32} (h : Stacked m a (first ++ rest)) :
    Stacked m (a + UInt32.ofNat (4 * first.length)) rest := by
  induction first generalizing a with
  | nil => simpa using h
  | cons w first ih =>
    rw [ofNat_words, ← add_assoc]
    exact ih h.2

/-- The first words of a stack. -/
theorem Stacked.first {first : List UInt32} (h : Stacked m a (first ++ rest)) : Stacked m a first := by
  induction first generalizing a with
  | nil => trivial
  | cons w first ih => exact ⟨h.1, ih h.2⟩

/-- Pushed words lie on the stack in the opposite order. -/
theorem Stacked.pushed (h : Stacked m a rest) (hroom : 4 * (ws.length + rest.length) ≤ 4294967296) :
    Stacked (pushed m a ws) (a - UInt32.ofNat (4 * ws.length)) (ws.reverse ++ rest) := by
  induction ws generalizing m a rest with
  | nil => simpa [Library.pushed] using h
  | cons w ws ih =>
    rw [List.length_cons] at hroom
    have hnext := ih (h.push (by omega) w) (by rw [List.length_cons]; omega)
    rw [ofNat_words, ← sub_sub, List.reverse_cons, List.append_assoc]
    exact hnext

/-- Words are pushed below the stack pointer. -/
theorem pushed_away (hroom : 4 * ws.length ≤ 4294967296) :
    SameAway (a - UInt32.ofNat (4 * ws.length)) (4 * ws.length) m (pushed m a ws) := by
  induction ws generalizing m a with
  | nil => exact fun _ _ => rfl
  | cons w ws ih =>
    intro b hb
    rw [ofNat_words, ← sub_sub, List.length_cons] at hb
    rw [List.length_cons] at hroom
    have hfar : (b - (a - 4)).toNat = (b - (a - 4 - UInt32.ofNat (4 * ws.length))).toNat - 4 * ws.length := by
      have heq : b - (a - 4) = (b - (a - 4 - UInt32.ofNat (4 * ws.length))) - UInt32.ofNat (4 * ws.length) := by grind
      have hsmall : (UInt32.ofNat (4 * ws.length)).toNat = 4 * ws.length :=
        UInt32.toNat_ofNat_of_lt' (show 4 * ws.length < 4294967296 by omega)
      rw [heq, UInt32.toNat_sub_of_le _ _ (UInt32.le_iff_toNat_le.mpr (by rw [hsmall]; omega)), hsmall]
    rw [pushed, ih (by omega) b (by omega), store32_of_far (by rw [hfar]; omega)]

/-- Writes to a range and then right below it. -/
theorem SameAway.below {m₀ : Memory} {k : ℕ} (h : SameAway a n m₀ m) (hbelow : SameAway (a - UInt32.ofNat k) k m m')
    (hk : k < 4294967296) : SameAway (a - UInt32.ofNat k) (k + n) m₀ m' := by
  intro b hb
  have heq : b - a = b - (a - UInt32.ofNat k) - UInt32.ofNat k := by grind
  have hsmall : (UInt32.ofNat k).toNat = k := UInt32.toNat_ofNat_of_lt' hk
  have hle : UInt32.ofNat k ≤ b - (a - UInt32.ofNat k) := UInt32.le_iff_toNat_le.mpr (by rw [hsmall]; omega)
  rw [hbelow b (by omega), h b]
  rw [heq, UInt32.toNat_sub_of_le _ _ hle, hsmall]
  omega

end OsKernel.Library
