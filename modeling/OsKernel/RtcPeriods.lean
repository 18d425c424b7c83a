import OsKernel.Library.Countdown
import OsKernel.RtcIsolation
import OsKernel.RtcWrite

/-!
# The periods of the virtual clocks

The handler tests a counter only after it has decremented it, so a counter of an active terminal must
not be 0. Opens and reloads set the counters from 1 to 512, the reload value being the quotient of 1024
by a rate that `rtc_write` accepts. An active clock is then a countdown with a reload, and raises its
flag once in each period.
-/

namespace OsKernel

open Library

/-- The reload value belongs to a rate, and the counters of the active terminals run from 1 to 512. -/
structure Rtc.Sound (r : Rtc) : Prop where
  reset : ∃ k, 1 ≤ k ∧ k ≤ 10 ∧ r.resetCount.toNat = 1024 / 2 ^ k
  count : ∀ t, r.active t = true → 1 ≤ (r.count t).toNat ∧ (r.count t).toNat ≤ 512

/-- The quotients of 1024 by the rates lie between 1 and 512. -/
theorem reload_bounds {k : ℕ} (hlower : 1 ≤ k) (hupper : k ≤ 10) : 1 ≤ 1024 / 2 ^ k ∧ 1024 / 2 ^ k ≤ 512 := by
  constructor
  · exact Nat.div_pos (Nat.pow_le_pow_right (by decide) hupper) (Nat.two_pow_pos k)
  · exact Nat.div_le_div_left (Nat.pow_le_pow_right (by decide) hlower) (by decide)

namespace Rtc

variable {r : Rtc} {t : Fin 3}

/-- The reload value is a counter value itself. -/
theorem Sound.reset_bounds (h : r.Sound) : 1 ≤ r.resetCount.toNat ∧ r.resetCount.toNat ≤ 512 := by
  obtain ⟨k, hlower, hupper, hreset⟩ := h.reset
  rw [hreset]
  exact reload_bounds hlower hupper

/-- The boot-time `rtc_init`. -/
theorem sound_boot (pcb : Slot → Pcb) (page : UInt32 → ℕ → UInt8) : (bootKernel pcb page).rtc.Sound :=
  ⟨⟨1, by decide, by decide, rfl⟩, fun t hactive => by cases hactive⟩

/-- `rtc_open` starts the terminal's counter at the default. -/
theorem Sound.open_ (h : r.Sound) (t : Fin 3) : (r.open_ t).Sound := by
  refine ⟨⟨1, by decide, by decide, rfl⟩, fun u hactive => ?_⟩
  by_cases hu : u = t
  · subst hu
    have hcount : (r.open_ u).count u = 512 := Function.update_self ..
    rw [hcount]
    decide
  · have hcount : (r.open_ t).count u = r.count u := Function.update_of_ne hu _ _
    have hkeep : (r.open_ t).active u = r.active u := Function.update_of_ne hu _ _
    rw [hcount]
    exact h.count u (hkeep.symm.trans hactive)

/-- `rtc_write` sets a reload value for an accepted rate. -/
theorem Sound.write (h : r.Sound) (buf : Bytes) : (r.write buf).2.Sound := by
  by_cases hrate : PowerRate (wordAt buf)
  · rw [r.write_of_powerRate hrate]
    obtain ⟨k, hlower, hupper, hfreq⟩ := hrate
    refine ⟨⟨k, hlower, hupper, ?_⟩, h.count⟩
    rw [← hfreq]
    exact UInt32.toNat_div ..
  · rw [r.write_of_not_powerRate hrate]
    exact h

/-- `rtc_close` stops a counter. -/
theorem Sound.close (h : r.Sound) (t : Fin 3) : (r.close t).Sound := by
  refine ⟨h.reset, fun u hactive => h.count u ?_⟩
  by_cases hu : u = t
  · subst hu
    have hstopped : (r.close u).active u = false := Function.update_self ..
    rw [hstopped] at hactive
    cases hactive
  · have hkeep : (r.close t).active u = r.active u := Function.update_of_ne hu _ _
    exact hkeep.symm.trans hactive

/-- A positive counter, one down. -/
theorem toNat_pred {count : UInt32} (hpos : 1 ≤ count.toNat) : (count - 1).toNat = count.toNat - 1 := by
  rw [UInt32.toNat_sub_of_le _ _ (by rw [UInt32.le_iff_toNat_le]; exact hpos)]
  rfl

/-- A positive counter reaches 0 from 1. -/
theorem pred_eq_zero_iff {count : UInt32} (hpos : 1 ≤ count.toNat) : count - 1 = 0 ↔ count.toNat = 1 := by
  rw [← UInt32.toNat_inj, toNat_pred hpos, UInt32.toNat_zero]
  omega

/-- What the handler leaves of a positive counter of an active terminal. -/
theorem handler_count (hactive : r.active t = true) (hpos : 1 ≤ (r.count t).toNat) :
    (r.handler.count t).toNat = reloaded r.resetCount.toNat (r.count t).toNat := by
  rw [(r.handler_at t).1.count, if_pos hactive, reloaded]
  by_cases hone : (r.count t).toNat = 1
  · rw [if_pos hone, if_pos ((pred_eq_zero_iff hpos).mpr hone)]
  · rw [if_neg hone, if_neg (mt (pred_eq_zero_iff hpos).mp hone), toNat_pred hpos]

/-- The handler raises an active terminal's flag when its counter stands at 1. -/
theorem raises_eq (hactive : r.active t = true) (hpos : 1 ≤ (r.count t).toNat) :
    r.raises t = decide ((r.count t).toNat = 1) := by
  rw [raises, hactive, Bool.true_and, Bool.eq_iff_iff, beq_iff_eq, decide_eq_true_iff]
  exact pred_eq_zero_iff hpos

/-- No decrement in the handler wraps. -/
theorem Sound.handler (h : r.Sound) : r.handler.Sound := by
  refine ⟨?_, fun t hactive => ?_⟩
  · rw [(r.handler_at 0).2]
    exact h.reset
  · rw [(r.handler_at t).1.active] at hactive
    have hcount := h.count t hactive
    rw [handler_count hactive hcount.1]
    have hreset := h.reset_bounds
    constructor
    · exact reloaded_pos hreset.1 hcount.1
    · rw [reloaded]
      split <;> omega

/-- Every step keeps the clocks sound. -/
theorem Sound.step (h : r.Sound) (e : RtcEvent) : (r.step e).Sound := by
  cases e with
  | rtcOpen v => exact h.open_ v
  | rtcWrite v buf => exact h.write buf
  | rtcClose v => exact h.close v
  | rtcHandler => exact h.handler

/-- Every run keeps the clocks sound. -/
theorem Sound.foldl (h : r.Sound) (events : List RtcEvent) : (events.foldl Rtc.step r).Sound := by
  induction events generalizing r with
  | nil => exact h
  | cons e rest ih => exact ih (h.step e)

end Rtc

/-- The record of a run extends the record it starts with. -/
theorem foldl_rtcRun_raised (t : Fin 3) (r : Rtc) (before : List Bool) (events : List RtcEvent) :
    (events.foldl (RtcRun.step t) { rtc := r, raised := before }).raised = before ++ raisedBy t r events := by
  induction events generalizing r before with
  | nil => exact (List.append_nil before).symm
  | cons e rest ih =>
    rw [raisedBy, List.foldl_cons, List.foldl_cons]
    cases e with
    | rtcHandler =>
      have hstep (raised : List Bool) : RtcRun.step t { rtc := r, raised } .rtcHandler =
          { rtc := r.handler, raised := raised ++ [r.raises t] } := rfl
      rw [hstep, hstep, ih, ih, List.nil_append, List.append_assoc]
    | rtcOpen v => exact (ih (r.open_ v) before).trans (congrArg _ (ih (r.open_ v) []).symm)
    | rtcClose v => exact (ih (r.close v) before).trans (congrArg _ (ih (r.close v) []).symm)
    | rtcWrite v buf => exact (ih (r.write buf).2 before).trans (congrArg _ (ih (r.write buf).2 []).symm)

/-- The first of several handler calls. -/
theorem raisedBy_handler (t : Fin 3) (r : Rtc) (rest : List RtcEvent) :
    raisedBy t r (.rtcHandler :: rest) = r.raises t :: raisedBy t r.handler rest :=
  foldl_rtcRun_raised t r.handler [r.raises t] rest

/-- During consecutive handler calls an active clock is a countdown with the reload value as its period. -/
theorem raisedBy_replicate {t : Fin 3} {r : Rtc} (h : r.Sound) (hactive : r.active t = true) (n : ℕ) :
    raisedBy t r (List.replicate n .rtcHandler) = fires r.resetCount.toNat (r.count t).toNat n := by
  induction n generalizing r with
  | zero => rfl
  | succ n ih =>
    obtain ⟨hat, hreset⟩ := r.handler_at t
    obtain ⟨hpos, -⟩ := h.count t hactive
    rw [List.replicate_succ, raisedBy_handler, ih h.handler (hat.active.trans hactive), fires, hreset,
      Rtc.handler_count hactive hpos, Rtc.raises_eq hactive hpos]

/-- After the boot and any steps the clocks are sound, and from any sound state the flag of an active
terminal is raised at the calls `c`, `c + r`, `c + 2 r` of the handler, and at no others. -/
theorem rtcTicks_exact :
    (∀ pcb page (events : List RtcEvent), (events.foldl Rtc.step (bootKernel pcb page).rtc).Sound) ∧
    (∀ (r : Rtc) (t : Fin 3), r.handler.intFlag t = (r.raises t || r.intFlag t)) ∧
    ∀ (r : Rtc) (t : Fin 3), r.Sound → r.active t = true → ∀ n,
      (∀ i < n, (raisedBy t r (List.replicate n .rtcHandler))[i]? = some true ↔
        ∃ m, i + 1 = (r.count t).toNat + m * r.resetCount.toNat) ∧
      (raisedBy t r (List.replicate n .rtcHandler)).count true =
        if n < (r.count t).toNat then 0 else 1 + (n - (r.count t).toNat) / r.resetCount.toNat := by
  refine ⟨fun pcb page events => (Rtc.sound_boot pcb page).foldl events, fun r t => (r.handler_at t).1.intFlag,
    fun r t h hactive n => ?_⟩
  have hperiod : 0 < r.resetCount.toNat := h.reset_bounds.1
  have hleft : 0 < (r.count t).toNat := (h.count t hactive).1
  rw [raisedBy_replicate h hactive]
  exact ⟨fun i hi => fires_getElem? hperiod hleft hi, count_fires hperiod hleft n⟩

end OsKernel
