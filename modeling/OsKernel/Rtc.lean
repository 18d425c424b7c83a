import OsKernel.Process

/-!
# The virtual RTC

The hardware clock runs at its highest rate, and each terminal counts down its own rate in
`rtc_handler`. The reload value is one variable for all terminals. `rtc_open` and `rtc_close` are
with the descriptors; here are the interrupt, the rate and the two halves of a read.
-/

namespace OsKernel

def max_limit_freq : UInt32 := 1024
def min_limit_freq : UInt32 := 2

/-- The little-endian word at a pointer. -/
def wordAt (buf : Bytes) : UInt32 :=
  (buf 0).toUInt32 + (buf 1).toUInt32 * 0x100 + (buf 2).toUInt32 * 0x10000 + (buf 3).toUInt32 * 0x1000000

/-- The rates that `rtc_write` accepts: the powers of two in the range. -/
def validRate (freq : UInt32) : Bool :=
  !(freq > max_limit_freq || freq < min_limit_freq || freq &&& (freq - 1) != 0)

namespace Rtc

variable (r : Rtc)

/-- One turn of the loop of `rtc_handler`. -/
def countDown (l : Fin 3) : Rtc :=
  if r.active l then
    let count := r.count l - 1
    if count = 0 then
      { r with
        count := Function.update r.count l r.resetCount
        intFlag := Function.update r.intFlag l true }
    else { r with count := Function.update r.count l count }
  else r

/-- `rtc_handler` -/
def handler : Rtc := (List.finRange 3).foldl countDown r

/-- `rtc_write` on a non-null buffer. -/
def write (buf : Bytes) : UInt32 × Rtc :=
  let freq := wordAt buf
  (if validRate freq then 0 else FAIL,
    { r with resetCount := if validRate freq then max_limit_freq / freq else r.resetCount })

/-- The handler raises `rtc_int_flag[t]` when it counts the terminal down to 0. -/
def raises (t : Fin 3) : Bool := r.active t && r.count t - 1 == 0

/-- Two states of the virtual RTC show the same to a terminal, the reload value apart. -/
structure SameAt (t : Fin 3) (r r' : Rtc) : Prop where
  active : r'.active t = r.active t
  count : r'.count t = r.count t
  intFlag : r'.intFlag t = r.intFlag t

/-- A turn for another terminal. -/
theorem countDown_of_ne {l t : Fin 3} (hl : t ≠ l) :
    SameAt t r (r.countDown l) ∧ (r.countDown l).resetCount = r.resetCount := by
  unfold countDown
  dsimp only
  split
  · split
    · exact ⟨⟨rfl, Function.update_of_ne hl _ _, Function.update_of_ne hl _ _⟩, rfl⟩
    · exact ⟨⟨rfl, Function.update_of_ne hl _ _, rfl⟩, rfl⟩
  · exact ⟨⟨rfl, rfl, rfl⟩, rfl⟩

/-- The turn for a terminal. -/
structure CountedAt (t : Fin 3) (r r' : Rtc) : Prop where
  active : r'.active t = r.active t
  count : r'.count t =
    if r.active t then if r.count t - 1 = 0 then r.resetCount else r.count t - 1 else r.count t
  intFlag : r'.intFlag t = (r.raises t || r.intFlag t)

/-- The turn of the loop for the terminal itself. -/
theorem countDown_self (t : Fin 3) : CountedAt t r (r.countDown t) ∧ (r.countDown t).resetCount = r.resetCount := by
  cases hactive : r.active t with
  | false =>
    have hturn : r.countDown t = r := by simp [countDown, hactive]
    rw [hturn]
    exact ⟨⟨rfl, by simp [hactive], by simp [raises, hactive]⟩, rfl⟩
  | true =>
    by_cases hzero : r.count t - 1 = 0
    · have hturn : r.countDown t = { r with
          count := Function.update r.count t r.resetCount
          intFlag := Function.update r.intFlag t true } := by
        simp [countDown, hactive, hzero]
      rw [hturn]
      exact ⟨⟨rfl, by simp [hactive, hzero], by simp [raises, hactive, hzero]⟩, rfl⟩
    · have hturn : r.countDown t = { r with count := Function.update r.count t (r.count t - 1) } := by
        simp [countDown, hactive, hzero]
      rw [hturn]
      exact ⟨⟨rfl, by simp [hactive, hzero], by simp [raises, hactive, hzero]⟩, rfl⟩

/-- Turns for other terminals. -/
theorem foldl_countDown_of_notMem {t : Fin 3} {items : List (Fin 3)} (ht : t ∉ items) :
    SameAt t r (items.foldl countDown r) ∧ (items.foldl countDown r).resetCount = r.resetCount := by
  induction items generalizing r with
  | nil => exact ⟨⟨rfl, rfl, rfl⟩, rfl⟩
  | cons l rest ih =>
    obtain ⟨hne, hrest⟩ := List.ne_and_not_mem_of_not_mem_cons ht
    obtain ⟨hfirst, hreset⟩ := r.countDown_of_ne hne
    obtain ⟨hlast, hreset'⟩ := ih (r.countDown l) hrest
    exact ⟨⟨hlast.active.trans hfirst.active, hlast.count.trans hfirst.count, hlast.intFlag.trans hfirst.intFlag⟩,
      hreset'.trans hreset⟩

/-- What the handler does for a terminal. -/
theorem handler_at (t : Fin 3) : CountedAt t r r.handler ∧ r.handler.resetCount = r.resetCount := by
  obtain ⟨before, after, hsplit⟩ := List.append_of_mem (List.mem_finRange t)
  have hnodup := List.nodup_finRange 3
  rw [hsplit, List.nodup_append, List.nodup_cons] at hnodup
  obtain ⟨-, ⟨hafter, -⟩, hapart⟩ := hnodup
  have hbefore : t ∉ before := fun hmem => hapart t hmem t List.mem_cons_self rfl
  obtain ⟨hfirst, hreset₁⟩ := r.foldl_countDown_of_notMem hbefore
  obtain ⟨hturn, hreset₂⟩ := (before.foldl countDown r).countDown_self t
  obtain ⟨hlast, hreset₃⟩ := ((before.foldl countDown r).countDown t).foldl_countDown_of_notMem hafter
  have hhandler : r.handler = after.foldl countDown ((before.foldl countDown r).countDown t) := by
    rw [handler, hsplit, List.foldl_append, List.foldl_cons]
  rw [hhandler]
  refine ⟨⟨?_, ?_, ?_⟩, by rw [hreset₃, hreset₂, hreset₁]⟩
  · rw [hlast.active, hturn.active, hfirst.active]
  · rw [hlast.count, hturn.count, hfirst.active, hfirst.count, hreset₁]
  · rw [hlast.intFlag, hturn.intFlag, raises, hfirst.active, hfirst.count, hfirst.intFlag]
    rfl

/-- `rtc_read` up to its waiting loop: the flag is cleared if the terminal counts. -/
def readStart (t : Fin 3) : Rtc :=
  if r.active t then { r with intFlag := Function.update r.intFlag t false } else r

/-- The waiting loop of `rtc_read` ends, and the call returns 0. -/
def readDone (t : Fin 3) : Bool := r.intFlag t

end Rtc

end OsKernel
