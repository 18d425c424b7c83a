import OsKernel.Library.Numerals
import OsKernel.NameLookup

/-!
# `itoa` and `strrev`

`itoa` writes the digits of a number from the least significant one on, terminates them, and reverses
them in place with two indices. The digits go into an array of the caller; a store outside of it has no
result here, so that a result says that every store was inside.
-/

namespace OsKernel

open Library

/-- `static int8_t lookup[]` -/
def lookup : List UInt8 := ("0123456789ABCDEFGHIJKLMNOPQRSTUVWXYZ".toList.map fun c => c.toNat.toUInt8) ++ [0]

/-- The character of a digit. -/
def digitChar (d : ℕ) : UInt8 := lookup.getD d 0

/-- A store into an array of `size` bytes. -/
def storeChar (size : ℕ) (mem : Bytes) (i : ℕ) (c : UInt8) : Option Bytes :=
  if i < size then some (Function.update mem i c) else none

/-- The digit loop of `itoa`, with the number of bytes left in the array at `newbuf`. -/
def itoaLoop (radix : UInt32) : ℕ → UInt32 → ℕ → Bytes → Option (ℕ × Bytes)
  | 0, newval, newbuf, mem => if newval > 0 then none else some (newbuf, mem)
  | room + 1, newval, newbuf, mem =>
    if newval > 0 then
      -- dividing by 0 faults
      if radix = 0 then none
      else (lookup[(newval % radix).toNat]?).bind fun c =>
        itoaLoop radix room (newval / radix) (newbuf + 1) (Function.update mem newbuf c)
    else some (newbuf, mem)

/-- The loop of `strrev` on a string that starts at `s`. -/
def strrevLoop (size s beg endIdx : ℕ) (mem : Bytes) : Option Bytes :=
  if beg < endIdx then
    (storeChar size mem (s + endIdx) (mem (s + beg))).bind fun swapped =>
      (storeChar size swapped (s + beg) (mem (s + endIdx))).bind fun swapped =>
        strrevLoop size s (beg + 1) (endIdx - 1) swapped
  else some mem
termination_by endIdx - beg

/-- `strrev`; on an empty string the loop does not start, with `end` at -1 as with 0. -/
def strrev (size s : ℕ) (mem : Bytes) : Option Bytes :=
  strrevLoop size s 0 (strlen (fun k => mem (s + k)) - 1) mem

/-- `int8_t* itoa(uint32_t value, int8_t* buf, int32_t radix)` -/
def itoa (size : ℕ) (value : UInt32) (buf : ℕ) (radix : UInt32) (mem : Bytes) : Option Bytes :=
  if value = 0 then
    (storeChar size mem buf 0x30).bind fun mem => storeChar size mem (buf + 1) 0
  else
    (itoaLoop radix (size - buf) value buf mem).bind fun (newbuf, mem) =>
      (storeChar size mem newbuf 0).bind (strrev size buf)

/-- The table has an entry for each digit. -/
theorem lookup_getElem? {d : ℕ} (hd : d < 36) : lookup[d]? = some (digitChar d) := by
  have hlength : lookup.length = 37 := by decide
  have hlt : d < lookup.length := by omega
  rw [digitChar, List.getD_eq_getElem _ _ hlt, List.getElem?_eq_getElem hlt]

/-- No digit has the NUL behind the characters. -/
theorem digitChar_ne_zero {d : ℕ} (hd : d < 36) : digitChar d ≠ 0 := by
  have hproper : (0 : UInt8) ∉ lookup.take 36 := by decide
  intro hzero
  have hentry := lookup_getElem? hd
  rw [hzero, ← List.getElem?_take_of_lt hd] at hentry
  exact hproper (List.mem_of_getElem? hentry)

/-- The characters of digits have no NUL among them. -/
theorem zero_notMem_map_digitChar {digits : List ℕ} (h : ∀ d ∈ digits, d < 36) : 0 ∉ digits.map digitChar := by
  intro hmem
  obtain ⟨d, hd, hzero⟩ := List.mem_map.mp hmem
  exact digitChar_ne_zero (h d hd) hzero

/-- A store inside the array. -/
theorem storeChar_of_lt {size i : ℕ} (hi : i < size) (mem : Bytes) (c : UInt8) :
    storeChar size mem i c = some (Function.update mem i c) := if_pos hi

/-- One turn of the digit loop. -/
theorem itoaLoop_succ {radix newval : UInt32} (hradix : 1 < radix.toNat) (hmax : radix.toNat ≤ 36)
    (hpos : newval > 0) (room newbuf : ℕ) (mem : Bytes) :
    itoaLoop radix (room + 1) newval newbuf mem = itoaLoop radix room (newval / radix) (newbuf + 1)
      (Function.update mem newbuf (digitChar (newval.toNat % radix.toNat))) := by
  have hzero : radix ≠ 0 := by
    rintro rfl
    exact absurd hradix (by decide)
  have hdigit : newval.toNat % radix.toNat < 36 := Nat.lt_of_lt_of_le (Nat.mod_lt _ (by omega)) hmax
  rw [itoaLoop, if_pos hpos, if_neg hzero, UInt32.toNat_mod, lookup_getElem? hdigit, Option.bind_some]

/-- The digit loop ends at 0. -/
theorem itoaLoop_zero (radix : UInt32) (room newbuf : ℕ) (mem : Bytes) :
    itoaLoop radix room 0 newbuf mem = some (newbuf, mem) := by
  cases room <;> rfl

/-- The characters of a number's digits, from the least significant one on. -/
def lowFirst (radix newval : UInt32) : List UInt8 := (Nat.digits radix.toNat newval.toNat).map digitChar

/-- There is no digit left of 0. -/
theorem lowFirst_zero (radix : UInt32) : lowFirst radix 0 = [] := by
  rw [lowFirst, UInt32.toNat_zero, Nat.digits_zero]
  rfl

/-- The least significant digit, and the others. -/
theorem lowFirst_of_pos {radix newval : UInt32} (hradix : 1 < radix.toNat) (hpos : 0 < newval.toNat) :
    lowFirst radix newval = digitChar (newval.toNat % radix.toNat) :: lowFirst radix (newval / radix) := by
  rw [lowFirst, Nat.digits_def' hradix hpos, List.map_cons, lowFirst, UInt32.toNat_div]

/-- No character of a digit is a NUL. -/
theorem zero_notMem_lowFirst {radix : UInt32} (hradix : 1 < radix.toNat) (hmax : radix.toNat ≤ 36) (newval : UInt32) :
    0 ∉ lowFirst radix newval :=
  zero_notMem_map_digitChar fun _ hd => Nat.lt_of_lt_of_le (Nat.digits_lt_base hradix hd) hmax

/-- The numeral of a positive number has the characters the other way round. -/
theorem map_numeral {radix value : UInt32} (hpos : 0 < value.toNat) :
    (numeral radix.toNat value.toNat).map digitChar = (lowFirst radix value).reverse := by
  rw [numeral_of_pos hpos, List.map_reverse, lowFirst]

/-- The digit loop stores the digits from the least significant one on, and nothing else. -/
theorem itoaLoop_digits {radix : UInt32} (hradix : 1 < radix.toNat) (hmax : radix.toNat ≤ 36) (room : ℕ)
    (newval : UInt32) (newbuf : ℕ) (mem : Bytes) (hroom : (lowFirst radix newval).length ≤ room) :
    ∃ mem', itoaLoop radix room newval newbuf mem = some (newbuf + (lowFirst radix newval).length, mem') ∧
      (∀ i < (lowFirst radix newval).length, (lowFirst radix newval)[i]? = some (mem' (newbuf + i))) ∧
      ∀ i, i < newbuf ∨ newbuf + (lowFirst radix newval).length ≤ i → mem' i = mem i := by
  induction room generalizing newval newbuf mem with
  | zero =>
    have hzero : newval.toNat = 0 := by
      by_contra hne
      rw [lowFirst_of_pos hradix (Nat.pos_of_ne_zero hne)] at hroom
      exact absurd hroom (Nat.not_succ_le_zero _)
    obtain rfl : newval = 0 := UInt32.toNat_inj.mp hzero
    rw [lowFirst_zero]
    exact ⟨mem, itoaLoop_zero .., fun i hi => absurd hi (Nat.not_lt_zero i), fun _ _ => rfl⟩
  | succ room ih =>
    by_cases hpos : 0 < newval.toNat
    · rw [lowFirst_of_pos hradix hpos] at hroom ⊢
      obtain ⟨mem', hloop, hdigits, hkeep⟩ := ih (newval / radix) (newbuf + 1)
        (Function.update mem newbuf (digitChar (newval.toNat % radix.toNat))) (Nat.le_of_succ_le_succ hroom)
      refine ⟨mem', ?_, fun i hi => ?_, fun i hi => ?_⟩
      · rw [itoaLoop_succ hradix hmax (UInt32.lt_iff_toNat_lt.mpr hpos), hloop, List.length_cons, Nat.add_assoc,
          Nat.add_comm 1]
      · cases i with
        | zero =>
          rw [Nat.add_zero, hkeep newbuf (.inl (Nat.lt_succ_self _)), Function.update_self]
          rfl
        | succ i =>
          have hdigit := hdigits i (Nat.lt_of_succ_lt_succ hi)
          rw [Nat.add_right_comm] at hdigit
          exact hdigit
      · rw [List.length_cons] at hi
        rw [hkeep i (by omega), Function.update_of_ne (by omega)]
    · obtain rfl : newval = 0 := UInt32.toNat_inj.mp (Nat.eq_zero_of_not_pos hpos)
      rw [lowFirst_zero]
      exact ⟨mem, itoaLoop_zero .., fun i hi => absurd hi (Nat.not_lt_zero i), fun _ _ => rfl⟩

/-- The reversal loop turns the part between its indices around, and keeps the rest. -/
theorem strrevLoop_spec (size s beg endIdx : ℕ) (mem : Bytes) (hsize : s + endIdx < size) :
    ∃ mem', strrevLoop size s beg endIdx mem = some mem' ∧
      (∀ i, beg ≤ i → i ≤ endIdx → mem' (s + i) = mem (s + (beg + endIdx - i))) ∧
      ∀ j, j < s + beg ∨ s + endIdx < j → mem' j = mem j := by
  fun_induction strrevLoop size s beg endIdx mem with
  | case1 beg endIdx mem hlt ih =>
    have hbeg : s + beg < size := by omega
    rw [storeChar_of_lt hsize, Option.bind_some, storeChar_of_lt hbeg, Option.bind_some]
    obtain ⟨mem', hloop, hturned, hkeep⟩ := ih (Function.update (Function.update mem (s + endIdx) (mem (s + beg)))
      (s + beg) (mem (s + endIdx))) (by omega)
    refine ⟨mem', hloop, fun i hlower hupper => ?_, fun j hj => ?_⟩
    · rcases Nat.lt_or_eq_of_le hlower with hinner | rfl
      · rcases Nat.lt_or_eq_of_le hupper with hinner' | rfl
        · have hmirror : beg + 1 + (endIdx - 1) - i = beg + endIdx - i := by omega
          rw [hturned i hinner (by omega), hmirror, Function.update_of_ne (by omega), Function.update_of_ne (by omega)]
        · rw [hkeep _ (by omega), Function.update_of_ne (by omega), Function.update_self, Nat.add_sub_cancel]
      · rw [hkeep _ (by omega), Function.update_self, Nat.add_sub_cancel_left]
    · rw [hkeep j (by omega), Function.update_of_ne (by omega), Function.update_of_ne (by omega)]
  | case2 beg endIdx mem hge =>
    refine ⟨mem, rfl, fun i hlower hupper => ?_, fun _ _ => rfl⟩
    have hmiddle : beg + endIdx - i = i := by omega
    rw [hmiddle]

/-- Where a string is spelled, `strrev` spells it backwards, and keeps everything else. -/
theorem strrev_spells {size s : ℕ} {mem : Bytes} {w : List UInt8} (h : Spells (fun k => mem (s + k)) w)
    (hpos : 0 < w.length) (hsize : s + w.length < size) (hshort : w.length < 4294967296) :
    ∃ mem', strrev size s mem = some mem' ∧ Spells (fun k => mem' (s + k)) w.reverse ∧
      ∀ j, j < s ∨ s + w.length ≤ j → mem' j = mem j := by
  have hlen : strlen (fun k => mem (s + k)) = w.length := by
    rw [strlen_of_spells h]
    omega
  rw [strrev, hlen]
  obtain ⟨mem', hloop, hturned, hkeep⟩ := strrevLoop_spec size s 0 (w.length - 1) mem (by omega)
  have hproper : 0 ∉ w.reverse := fun hmem => h.proper (List.mem_reverse.mp hmem)
  refine ⟨mem', hloop, ⟨fun i hi => ?_, ?_, hproper⟩, fun j hj => hkeep j (by omega)⟩
  · rw [List.length_reverse] at hi
    have hmirror : 0 + (w.length - 1) - i = w.length - 1 - i := by omega
    rw [List.getElem?_reverse hi, hturned i (Nat.zero_le i) (by omega), hmirror]
    exact h.letter _ (by omega)
  · rw [List.length_reverse, hkeep _ (by omega)]
    exact h.terminated

/-- A word stored from an index on, with a NUL behind it. -/
theorem spells_terminated {mem : Bytes} {buf : ℕ} {w : List UInt8}
    (hletter : ∀ i < w.length, w[i]? = some (mem (buf + i))) (hproper : 0 ∉ w) :
    Spells (fun k => Function.update mem (buf + w.length) 0 (buf + k)) w := by
  refine ⟨fun i hi => ?_, Function.update_self .., hproper⟩
  rw [hletter i hi, Function.update_of_ne (by omega)]

/-- `itoa` writes the numeral with a NUL behind it, and nothing else. -/
theorem itoa_numeral (size buf : ℕ) (value radix : UInt32) (hradix : 1 < radix.toNat) (hmax : radix.toNat ≤ 36)
    (hroom : buf + (numeral radix.toNat value.toNat).length < size) (mem : Bytes) :
    ∃ mem', itoa size value buf radix mem = some mem' ∧
      Spells (fun k => mem' (buf + k)) ((numeral radix.toNat value.toNat).map digitChar) ∧
      ∀ i, i < buf ∨ buf + (numeral radix.toNat value.toNat).length < i → mem' i = mem i := by
  rw [itoa]
  split
  case isTrue hzero =>
    subst hzero
    have hone : numeral radix.toNat (0 : UInt32).toNat = [0] := rfl
    rw [hone, List.length_singleton] at hroom ⊢
    rw [storeChar_of_lt (by omega), Option.bind_some, storeChar_of_lt hroom]
    refine ⟨_, rfl, ?_, fun i hi => ?_⟩
    · refine spells_terminated (w := [0x30]) (fun i hi => ?_) (by decide)
      obtain rfl : i = 0 := by simpa using hi
      exact congrArg some (Function.update_self buf 0x30 mem).symm
    · rw [Function.update_of_ne (by omega), Function.update_of_ne (by omega)]
  case isFalse hne =>
    have hpos : 0 < value.toNat := Nat.pos_of_ne_zero fun hzero => hne (UInt32.toNat_inj.mp hzero)
    have hlength : (numeral radix.toNat value.toNat).length = (lowFirst radix value).length := by
      rw [numeral_of_pos hpos, List.length_reverse, lowFirst, List.length_map]
    rw [map_numeral hpos, hlength]
    rw [hlength] at hroom
    obtain ⟨stored, hloop, hdigits, hkeep⟩ := itoaLoop_digits hradix hmax (size - buf) value buf mem (by omega)
    have hspells := spells_terminated hdigits (zero_notMem_lowFirst hradix hmax value)
    have hfew : (lowFirst radix value).length ≤ 32 := by
      rw [lowFirst, List.length_map, Nat.digits_length_le_iff hradix]
      exact Nat.lt_of_lt_of_le value.toNat_lt (Nat.pow_le_pow_left hradix 32)
    have hsome : 0 < (lowFirst radix value).length := by
      rw [lowFirst_of_pos hradix hpos]
      exact Nat.succ_pos _
    obtain ⟨mem', hrev, hreversed, hkeep'⟩ := strrev_spells hspells hsome hroom (by omega)
    refine ⟨mem', ?_, hreversed, fun i hi => ?_⟩
    · rw [hloop, Option.bind_some]
      dsimp only
      rw [storeChar_of_lt hroom, Option.bind_some, hrev]
    · rw [hkeep' i (by omega), Function.update_of_ne (by omega), hkeep i (by omega)]

end OsKernel
