import OsKernel.Library.Run
import OsKernel.RtcPeriods

/-!
# The statements of `rtc_open` and `rtc_write`

Both calls run with interrupts on, apart from the port accesses of `rtc_register`, so that
`rtc_handler` can run between any two statements. `rtc_init` stores a counter and reads it back for
the reload value, when `rtc_open` has already made the terminal count: an interrupt between the store
and the read decrements what is read. Without an interrupt the statements do what the atomic calls do.
-/

namespace OsKernel

open Library

/-- Where the process is: the next statement of `rtc_open`, with `rtc_init` and `rtc_register`, or of
`rtc_write`. -/
inductive RtcCode where
  /-- No call is in progress. -/
  | idle
  /-- At `rtc_active[active_term] = 1`. -/
  | setActive (activeTerm : Fin 3)
  /-- At the port accesses of `rtc_init`. -/
  | registerB (activeTerm : Fin 3)
  /-- At `rtc_count[active_term] = max_limit_freq/min_limit_freq`. -/
  | setCount (activeTerm : Fin 3)
  /-- At `rtc_reset_count = rtc_count[active_term]`, before the load. -/
  | loadCount (activeTerm : Fin 3)
  /-- At `rtc_reset_count = rtc_count[active_term]`, before the store. -/
  | storeReset (count : UInt32)
  /-- At `cli()` in `rtc_register`. -/
  | cli
  /-- At the port accesses of `rtc_register`. -/
  | registerA
  /-- At `sti()`. -/
  | sti
  /-- At `enable_irq(RTC_IRQ_NUM)`. -/
  | enableIrq
  /-- At the guard of `rtc_write`. -/
  | writeGuard (buf : Option Bytes) (nbytes : ℤ)
  /-- At `freq = *((uint32_t*)buf)`. -/
  | loadFreq (buf : Option Bytes)
  /-- At the test of the rate. -/
  | testFreq (freq : UInt32)
  /-- At `rtc_reset_count = max_limit_freq/freq`. -/
  | writeReset (freq : UInt32)
  /-- At the return. -/
  | leave (ret : UInt32)

/-- The virtual RTC with the call in progress, and the interrupt flag of the processor. -/
structure RtcMachine where
  rtc : Rtc
  code : RtcCode
  interrupts : Bool
  /-- What the last call returned. -/
  returned : UInt32
  /-- History: how often `rtc_handler` has run since `rtc_init` stored a counter. -/
  late : ℕ

/-- What can happen: a call of the process of a terminal, the next statement of a call, or an interrupt. -/
inductive RtcAction where
  | rtcOpen (activeTerm : Fin 3)
  | rtcWrite (buf : Option Bytes) (nbytes : ℤ)
  | rtcClose (activeTerm : Fin 3)
  | stmt
  | interrupt

namespace RtcMachine

variable (m : RtcMachine)

/-- The next statement of the call in progress; reading through `NULL` ends the run. -/
def next : Option RtcMachine :=
  match m.code with
  | .idle => none
  | .setActive t =>
    some { m with code := .registerB t, rtc := { m.rtc with active := Function.update m.rtc.active t true } }
  | .registerB t => some { m with code := .setCount t }
  | .setCount t =>
    some { m with code := .loadCount t, rtc := { m.rtc with count := Function.update m.rtc.count t 512 }, late := 0 }
  | .loadCount t => some { m with code := .storeReset (m.rtc.count t) }
  | .storeReset count => some { m with code := .cli, rtc := { m.rtc with resetCount := count } }
  | .cli => some { m with code := .registerA, interrupts := false }
  | .registerA => some { m with code := .sti }
  | .sti => some { m with code := .enableIrq, interrupts := true }
  | .enableIrq => some { m with code := .leave 0 }
  | .writeGuard buf nbytes =>
    some { m with code := if buf.isNone ∧ nbytes ≠ 4 then .leave FAIL else .loadFreq buf }
  | .loadFreq buf => buf.map fun bytes => { m with code := .testFreq (wordAt bytes) }
  | .testFreq freq => some { m with code := if validRate freq then .writeReset freq else .leave FAIL }
  | .writeReset freq =>
    some { m with code := .leave 0, rtc := { m.rtc with resetCount := max_limit_freq / freq } }
  | .leave ret => some { m with code := .idle, returned := ret }

/-- A call starts when no other one is in progress. -/
def enter (code : RtcCode) : Option RtcMachine :=
  match m.code with
  | .idle => some { m with code }
  | _ => none

/-- One step. -/
def step : RtcAction → Option RtcMachine
  | .rtcOpen t => m.enter (.setActive t)
  | .rtcWrite buf nbytes => m.enter (.writeGuard buf nbytes)
  | .rtcClose t => (m.enter .idle).map fun m => { m with rtc := m.rtc.close t, returned := 0 }
  | .stmt => m.next
  | .interrupt => if m.interrupts then some { m with rtc := m.rtc.handler, late := m.late + 1 } else none

/-- Without an interrupt the statements of `rtc_open` do what the atomic call does. -/
theorem run_rtcOpen (r : Rtc) (t : Fin 3) (interrupts : Bool) (returned : UInt32) (late : ℕ) :
    run step ⟨r, .idle, interrupts, returned, late⟩ (.rtcOpen t :: List.replicate 10 .stmt) =
      some ⟨r.open_ t, .idle, true, 0, 0⟩ := by
  have hcount (count : Fin 3 → UInt32) : Function.update count t 512 t = 512 := Function.update_self ..
  simp only [List.replicate, run, step, enter, next, Option.bind_some, hcount]
  rfl

/-- Where the guard leads. -/
theorem next_writeGuard (r : Rtc) (buf : Option Bytes) (nbytes : ℤ) (interrupts : Bool) (returned : UInt32) (late : ℕ) :
    next ⟨r, .writeGuard buf nbytes, interrupts, returned, late⟩ =
      some ⟨r, if buf.isNone ∧ nbytes ≠ 4 then .leave FAIL else .loadFreq buf, interrupts, returned, late⟩ := rfl

/-- Where the test of the rate leads. -/
theorem next_testFreq (r : Rtc) (freq : UInt32) (interrupts : Bool) (returned : UInt32) (late : ℕ) :
    next ⟨r, .testFreq freq, interrupts, returned, late⟩ =
      some ⟨r, if validRate freq then .writeReset freq else .leave FAIL, interrupts, returned, late⟩ := rfl

/-- From the test of the rate, the rest of the call. -/
theorem run_testFreq (r : Rtc) (freq : UInt32) (interrupts : Bool) (returned : UInt32) (late : ℕ) :
    (validRate freq = true → run step ⟨r, .testFreq freq, interrupts, returned, late⟩ (List.replicate 3 .stmt) =
      some ⟨{ r with resetCount := max_limit_freq / freq }, .idle, interrupts, 0, late⟩) ∧
    (validRate freq = false → run step ⟨r, .testFreq freq, interrupts, returned, late⟩ (List.replicate 2 .stmt) =
      some ⟨r, .idle, interrupts, FAIL, late⟩) := by
  constructor
  · intro hvalid
    refine run_cons.mpr ⟨⟨r, .writeReset freq, interrupts, returned, late⟩, ?_, rfl⟩
    rw [step, next_testFreq, if_pos hvalid]
  · intro hvalid
    refine run_cons.mpr ⟨⟨r, .leave FAIL, interrupts, returned, late⟩, ?_, rfl⟩
    rw [step, next_testFreq, hvalid]
    rfl

/-- Without an interrupt the statements of `rtc_write` do what the atomic call does. -/
theorem run_rtcWrite (buf : Option Bytes) (nbytes : ℤ) (r : Rtc) (interrupts : Bool) (returned : UInt32) (late : ℕ)
    (ret : UInt32) (r' : Rtc) (hcall : r.rtcWrite buf nbytes = some (ret, r')) :
    ∃ n, run step ⟨r, .idle, interrupts, returned, late⟩ (.rtcWrite buf nbytes :: List.replicate n .stmt) =
      some ⟨r', .idle, interrupts, ret, late⟩ := by
  rw [Rtc.rtcWrite] at hcall
  split at hcall
  case isTrue hguard =>
    obtain ⟨rfl, rfl⟩ := Prod.mk.inj (Option.some.inj hcall)
    refine ⟨2, run_cons.mpr ⟨_, rfl, run_cons.mpr ⟨⟨r, .leave FAIL, interrupts, returned, late⟩, ?_, rfl⟩⟩⟩
    rw [step, next_writeGuard, if_pos hguard]
  case isFalse hguard =>
    obtain ⟨bytes, rfl, hwrite⟩ := Option.map_eq_some_iff.mp hcall
    have hload (n : ℕ) : run step ⟨r, .idle, interrupts, returned, late⟩
        (.rtcWrite (some bytes) nbytes :: List.replicate (n + 2) .stmt) =
          run step ⟨r, .testFreq (wordAt bytes), interrupts, returned, late⟩ (List.replicate n .stmt) := by
      rw [List.replicate_succ, List.replicate_succ, run, step, enter, Option.bind_some, run, step, next_writeGuard,
        if_neg hguard]
      rfl
    by_cases hrate : PowerRate (wordAt bytes)
    · rw [r.write_of_powerRate hrate] at hwrite
      obtain ⟨rfl, rfl⟩ := Prod.mk.inj hwrite
      exact ⟨5, (hload 3).trans ((run_testFreq r _ interrupts returned late).1 (validRate_iff.mpr hrate))⟩
    · rw [r.write_of_not_powerRate hrate] at hwrite
      obtain ⟨rfl, rfl⟩ := Prod.mk.inj hwrite
      have hvalid : validRate (wordAt bytes) = false := by
        rw [← Bool.not_eq_true, validRate_iff]
        exact hrate
      exact ⟨4, (hload 2).trans ((run_testFreq r _ interrupts returned late).2 hvalid)⟩

end RtcMachine

end OsKernel
