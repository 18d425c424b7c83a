import OsKernel.Library.Purge
import OsKernel.Rtc

/-!
# Isolation of the virtual clocks

Counters, activity and interrupt flags are kept for each terminal, but the reload value is shared: a
terminal whose counter is reloaded takes the rate that was set last, whoever set it. The interrupts
of one terminal do not depend on another as long as each of its reloads finds a value that the other
one did not set.
-/

namespace OsKernel

open Library

/-- A step of a process on terminal `v`, or an interrupt of the hardware clock. -/
inductive RtcEvent where
  | rtcOpen (v : Fin 3)
  | rtcWrite (v : Fin 3) (buf : Bytes)
  | rtcClose (v : Fin 3)
  | rtcHandler

/-- The steps of one terminal's processes. -/
def RtcEvent.isOf (u : Fin 3) : RtcEvent → Bool
  | .rtcOpen v | .rtcWrite v _ | .rtcClose v => v = u
  | .rtcHandler => false

/-- One step. -/
def Rtc.step (r : Rtc) : RtcEvent → Rtc
  | .rtcOpen v => r.open_ v
  | .rtcWrite _ buf => (r.write buf).2
  | .rtcClose v => r.close v
  | .rtcHandler => r.handler

/-- The virtual RTC, with which of the handler invocations so far raised the flag of terminal `t`. -/
structure RtcRun where
  rtc : Rtc
  raised : List Bool

/-- One step. -/
def RtcRun.step (t : Fin 3) (s : RtcRun) (e : RtcEvent) : RtcRun where
  rtc := s.rtc.step e
  raised :=
    match e with
    | .rtcHandler => s.raised ++ [s.rtc.raises t]
    | _ => s.raised

/-- Which handler invocations raise the flag of a terminal. -/
def raisedBy (t : Fin 3) (r : Rtc) (events : List RtcEvent) : List Bool :=
  (events.foldl (RtcRun.step t) { rtc := r, raised := [] }).raised

/-- The reload value that a step sets, on the value before it. -/
def RtcEvent.reload (value : UInt32) : RtcEvent → UInt32
  | .rtcOpen _ => 512
  | .rtcWrite _ buf => if validRate (wordAt buf) then max_limit_freq / wordAt buf else value
  | .rtcClose _ | .rtcHandler => value

/-- A run, with the reload value that the steps of all terminals but `u` would have left. -/
def othersStep (t u : Fin 3) (s : RtcRun × UInt32) (e : RtcEvent) : RtcRun × UInt32 :=
  (s.1.step t e, if e.isOf u then s.2 else e.reload s.2)

/-- A handler that reloads the terminal's counter finds that value. -/
def ReloadsOthers (t : Fin 3) (s : RtcRun × UInt32) (e : RtcEvent) : Prop :=
  e = .rtcHandler → s.1.rtc.raises t = true → s.1.rtc.resetCount = s.2

/-- The run and the run without `u` show the same to terminal `t`. -/
structure RtcAgree (t : Fin 3) (s : RtcRun × UInt32) (p : RtcRun) : Prop where
  same : Rtc.SameAt t p.rtc s.1.rtc
  reload : p.rtc.resetCount = s.2
  raised : p.raised = s.1.raised

section Steps

variable {t u : Fin 3} {s : RtcRun × UInt32} {p : RtcRun}

/-- A step `rtc_write`. -/
theorem RtcRun.step_write (t : Fin 3) (p : RtcRun) (v : Fin 3) (buf : Bytes) :
    p.step t (.rtcWrite v buf) =
      { rtc := { p.rtc with resetCount := RtcEvent.reload p.rtc.resetCount (.rtcWrite v buf) }
        raised := p.raised } := by
  simp only [RtcRun.step, Rtc.step, Rtc.write, RtcEvent.reload]

/-- The run part of a step. -/
theorem othersStep_fst (t u : Fin 3) (s : RtcRun × UInt32) (e : RtcEvent) : (othersStep t u s e).1 = s.1.step t e := rfl

/-- The run part of a whole run. -/
theorem foldl_othersStep_fst (t u : Fin 3) (s : RtcRun × UInt32) (events : List RtcEvent) :
    (events.foldl (othersStep t u) s).1 = events.foldl (RtcRun.step t) s.1 := by
  induction events generalizing s with
  | nil => rfl
  | cons e rest ih => exact ih (othersStep t u s e)

/-- A step of another terminal changes nothing of terminal `t` but the reload value. -/
theorem RtcAgree.hidden (htu : t ≠ u) (h : RtcAgree t s p) {e : RtcEvent} (he : e.isOf u = true) :
    RtcAgree t (othersStep t u s e) p := by
  have hkeep : (othersStep t u s e).2 = s.2 := if_pos he
  cases e with
  | rtcOpen v =>
    obtain rfl : v = u := of_decide_eq_true he
    refine ⟨⟨?_, ?_, h.same.intFlag⟩, by rw [hkeep, h.reload], h.raised⟩
    · exact (Function.update_of_ne htu _ _).trans h.same.active
    · exact (Function.update_of_ne htu _ _).trans h.same.count
  | rtcWrite v buf =>
    refine ⟨?_, by rw [hkeep, h.reload], ?_⟩
    · rw [othersStep_fst, RtcRun.step_write]
      exact ⟨h.same.active, h.same.count, h.same.intFlag⟩
    · rw [othersStep_fst, RtcRun.step_write]
      exact h.raised
  | rtcClose v =>
    obtain rfl : v = u := of_decide_eq_true he
    refine ⟨⟨?_, h.same.count, h.same.intFlag⟩, by rw [hkeep, h.reload], h.raised⟩
    exact (Function.update_of_ne htu _ _).trans h.same.active
  | rtcHandler => cases he

/-- A value replaced in the same place on both sides. -/
theorem update_congr {A : Type*} {f g : Fin 3 → A} (h : f t = g t) (v : Fin 3) (a : A) :
    Function.update f v a t = Function.update g v a t := by
  by_cases hv : t = v
  · subst hv
    rw [Function.update_self, Function.update_self]
  · rw [Function.update_of_ne hv, Function.update_of_ne hv, h]

/-- A step that is not of terminal `u`, taken on both sides. -/
theorem RtcAgree.visible (h : RtcAgree t s p) {e : RtcEvent} (he : e.isOf u = false) (hcond : ReloadsOthers t s e) :
    RtcAgree t (othersStep t u s e) (p.step t e) := by
  have hreload : (othersStep t u s e).2 = e.reload s.2 := if_neg (by rw [he]; exact Bool.false_ne_true)
  cases e with
  | rtcOpen v =>
    refine ⟨⟨update_congr h.same.active v true, update_congr h.same.count v 512, h.same.intFlag⟩, ?_, h.raised⟩
    rw [hreload]
    rfl
  | rtcWrite v buf =>
    refine ⟨?_, ?_, ?_⟩
    · rw [othersStep_fst, RtcRun.step_write, RtcRun.step_write]
      exact ⟨h.same.active, h.same.count, h.same.intFlag⟩
    · rw [hreload, RtcRun.step_write, ← h.reload]
    · rw [othersStep_fst, RtcRun.step_write, RtcRun.step_write]
      exact h.raised
  | rtcClose v =>
    refine ⟨⟨update_congr h.same.active v false, h.same.count, h.same.intFlag⟩, ?_, h.raised⟩
    rw [hreload]
    exact h.reload
  | rtcHandler =>
    obtain ⟨hfull, -⟩ := s.1.rtc.handler_at t
    obtain ⟨hpurged, hkeep⟩ := p.rtc.handler_at t
    have hraises : p.rtc.raises t = s.1.rtc.raises t := by
      rw [Rtc.raises, Rtc.raises, h.same.active, h.same.count]
    refine ⟨⟨?_, ?_, ?_⟩, ?_, ?_⟩
    · exact hfull.active.trans (h.same.active.trans hpurged.active.symm)
    · refine hfull.count.trans (Eq.trans ?_ hpurged.count.symm)
      rw [← h.same.active, ← h.same.count]
      split_ifs with hactive hzero
      · have hraise : s.1.rtc.raises t = true := by simp [Rtc.raises, hactive, hzero]
        rw [hcond rfl hraise, h.reload]
      · rfl
      · rfl
    · refine hfull.intFlag.trans (Eq.trans ?_ hpurged.intFlag.symm)
      rw [hraises, h.same.intFlag]
    · rw [hreload]
      exact hkeep.trans h.reload
    · have hlist : p.raised ++ [p.rtc.raises t] = s.1.raised ++ [s.1.rtc.raises t] := by
        rw [h.raised, hraises]
      exact hlist

end Steps

/-- In every interleaving in which each reload of terminal `t` finds the value that the steps of all
terminals but `u` left, the handler raises the flag of `t` at the same invocations as in the run
without the steps of `u`. -/
theorem rtc_isolated {t u : Fin 3} (htu : t ≠ u) (r : Rtc) {events : List RtcEvent}
    (hreload : Along (fun s e => some (othersStep t u s e)) (ReloadsOthers t)
      ({ rtc := r, raised := [] }, r.resetCount) events) :
    raisedBy t r events = raisedBy t r (purge (RtcEvent.isOf u) events) := by
  have hstart : RtcAgree t ({ rtc := r, raised := [] }, r.resetCount) { rtc := r, raised := [] } :=
    ⟨⟨rfl, rfl, rfl⟩, rfl, rfl⟩
  have hhidden (s : RtcRun × UInt32) (p : RtcRun) (e : RtcEvent) (s' : RtcRun × UInt32) (h : RtcAgree t s p)
      (_ : ReloadsOthers t s e) (he : e.isOf u = true) (hs' : some (othersStep t u s e) = some s') :
      RtcAgree t s' p := by
    cases hs'
    exact h.hidden htu he
  have hvisible (s : RtcRun × UInt32) (p : RtcRun) (e : RtcEvent) (s' : RtcRun × UInt32) (h : RtcAgree t s p)
      (hcond : ReloadsOthers t s e) (he : e.isOf u = false) (hs' : some (othersStep t u s e) = some s') :
      ∃ p', some (p.step t e) = some p' ∧ RtcAgree t s' p' := by
    cases hs'
    exact ⟨_, rfl, h.visible he hcond⟩
  obtain ⟨p, hp, hagree⟩ := run_purge hhidden hvisible hstart hreload (run_some _ _ _)
  rw [run_some] at hp
  have hraised := hagree.raised
  rw [← Option.some.inj hp, foldl_othersStep_fst] at hraised
  exact hraised.symm

section Interrupts

variable {t : Fin 3} {s : RtcRun}

/-- A clock that counts: how far it has got, and what it will be reloaded with. -/
structure RtcRun.Counts (s : RtcRun) (t : Fin 3) (left rate : ℕ) : Prop where
  active : s.rtc.active t = true
  count : s.rtc.count t = UInt32.ofNat left
  reload : s.rtc.resetCount = UInt32.ofNat rate
  small : left < 1024

/-- Interrupts that only count down. -/
theorem RtcRun.Counts.wait {left rate : ℕ} (n : ℕ) (h : s.Counts t (left + n) rate) (hleft : 0 < left) :
    ((List.replicate n RtcEvent.rtcHandler).foldl (RtcRun.step t) s).Counts t left rate ∧
      ((List.replicate n RtcEvent.rtcHandler).foldl (RtcRun.step t) s).raised = s.raised ++ List.replicate n false := by
  induction n generalizing s with
  | zero => exact ⟨h, by simp⟩
  | succ n ih =>
    have hsub : s.rtc.count t - 1 = UInt32.ofNat (left + n) := by
      rw [h.count, ← Nat.add_assoc, UInt32.ofNat_add]
      simp
    have hpos : UInt32.ofNat (left + n) ≠ 0 := by
      have hsmall := h.small
      rw [Ne, ← UInt32.toNat_inj, UInt32.toNat_ofNat_of_lt' (by rw [UInt32.size]; omega)]
      simp only [UInt32.toNat_zero]
      omega
    have hraises : s.rtc.raises t = false := by
      rw [Rtc.raises, hsub, h.active, Bool.true_and, beq_eq_false_iff_ne]
      exact hpos
    obtain ⟨hat, hreset⟩ := s.rtc.handler_at t
    have hnext : (s.step t .rtcHandler).Counts t (left + n) rate := by
      refine ⟨hat.active.trans h.active, ?_, hreset.trans h.reload, by have := h.small; omega⟩
      refine hat.count.trans ?_
      rw [if_pos h.active, if_neg (by rw [hsub]; exact hpos), hsub]
    obtain ⟨hcounts, hraised⟩ := ih hnext
    refine ⟨hcounts, ?_⟩
    have hstep : (s.step t .rtcHandler).raised = s.raised ++ [s.rtc.raises t] := rfl
    rw [List.replicate_succ, List.foldl_cons, hraised, hstep, hraises, List.append_assoc]
    rfl

/-- The interrupt that counts the terminal down to 0. -/
theorem RtcRun.Counts.tick {rate : ℕ} (h : s.Counts t 1 rate) (hrate : rate < 1024) :
    (s.step t .rtcHandler).Counts t rate rate ∧ (s.step t .rtcHandler).raised = s.raised ++ [true] := by
  have hzero : s.rtc.count t - 1 = 0 := by
    rw [h.count]
    rfl
  have hraises : s.rtc.raises t = true := by
    rw [Rtc.raises, hzero, h.active]
    rfl
  obtain ⟨hat, hreset⟩ := s.rtc.handler_at t
  refine ⟨⟨hat.active.trans h.active, ?_, hreset.trans h.reload, hrate⟩, ?_⟩
  · refine hat.count.trans ?_
    rw [if_pos h.active, if_pos hzero, h.reload]
  · have hstep : (s.step t .rtcHandler).raised = s.raised ++ [s.rtc.raises t] := rfl
    rw [hstep, hraises]

end Interrupts

/-- The virtual RTC of a machine that has just been booted. -/
def bootRtc : Rtc := (bootKernel (fun _ => Pcb.zeroed) fun _ _ => 0).rtc

/-- Terminal 1 sets its rate after a reload of terminal 0's counter, and before the next one. -/
theorem rtc_isolated_between :
    raisedBy 0 { bootRtc with active := fun t => t = 0, count := fun _ => 1 }
        [.rtcHandler, .rtcOpen 1, .rtcWrite 1 (toBytes [0, 4, 0, 0]), .rtcHandler] =
      raisedBy 0 { bootRtc with active := fun t => t = 0, count := fun _ => 1 } [.rtcHandler, .rtcHandler] := by
  refine rtc_isolated (t := 0) (u := 1) (by decide) _ ⟨fun _ _ => by decide, ?_⟩
  rintro _ ⟨⟩
  refine ⟨fun h => RtcEvent.noConfusion h, ?_⟩
  rintro _ ⟨⟩
  refine ⟨fun h => RtcEvent.noConfusion h, ?_⟩
  rintro _ ⟨⟩
  refine ⟨fun _ hraises => ?_, fun _ _ => trivial⟩
  exact absurd hraises (by decide +kernel)

/-- Terminal 0 counts at the default rate while terminal 1 asks for the highest one. -/
def otherRateEvents : List RtcEvent :=
  [.rtcOpen 0, .rtcOpen 1, .rtcWrite 1 (toBytes [0, 4, 0, 0])] ++ List.replicate 513 .rtcHandler

/-- From a fresh counter, the first interrupt that raises the flag is the 512th, and the next one raises
it when the reload value is 1. -/
theorem raisedBy_first {t : Fin 3} {r : Rtc} {events : List RtcEvent} {rate : ℕ}
    (h : (events.foldl (RtcRun.step t) { rtc := r, raised := [] }).Counts t 512 rate) (hrate : rate < 1024)
    (hraised : (events.foldl (RtcRun.step t) { rtc := r, raised := [] }).raised = []) :
    raisedBy t r (events ++ List.replicate 513 .rtcHandler) =
      List.replicate 511 false ++ [true] ++ [UInt32.ofNat rate - 1 == 0] := by
  obtain ⟨hwaited, hwaiting⟩ := RtcRun.Counts.wait 511 (show RtcRun.Counts _ t (1 + 511) rate from h) Nat.one_pos
  obtain ⟨hticked, htick⟩ := hwaited.tick hrate
  rw [raisedBy, List.foldl_append, List.replicate_succ', List.foldl_append, List.replicate_succ', List.foldl_append]
  simp only [List.foldl_cons, List.foldl_nil]
  generalize List.foldl _ _ (List.replicate 511 _) = waited at *
  have hlast : ((waited.step t .rtcHandler).step t .rtcHandler).raised =
      (waited.step t .rtcHandler).raised ++ [(waited.step t .rtcHandler).rtc.raises t] := rfl
  rw [hlast, htick, hwaiting, hraised, Rtc.raises, hticked.active, hticked.count]
  rfl

/-- After its first reload terminal 0 is raised at every interrupt, but without the steps of terminal 1
only at every 512th. -/
theorem rtc_rateLeaks :
    raisedBy 0 bootRtc otherRateEvents ≠ raisedBy 0 bootRtc (purge (RtcEvent.isOf 1) otherRateEvents) := by
  have hvisible : purge (RtcEvent.isOf 1) (List.replicate 513 RtcEvent.rtcHandler) = List.replicate 513 .rtcHandler :=
    List.filter_eq_self.mpr fun e he => by rw [List.eq_of_mem_replicate he]; rfl
  have hpurge : purge (RtcEvent.isOf 1) otherRateEvents = [.rtcOpen 0] ++ List.replicate 513 .rtcHandler := by
    rw [otherRateEvents, purge, List.filter_append]
    exact congrArg _ hvisible
  have hfull : RtcRun.Counts (List.foldl (RtcRun.step 0) { rtc := bootRtc, raised := [] }
      [.rtcOpen 0, .rtcOpen 1, .rtcWrite 1 (toBytes [0, 4, 0, 0])]) 0 512 1 :=
    ⟨rfl, rfl, by decide +kernel, by decide⟩
  have hpurged : RtcRun.Counts (List.foldl (RtcRun.step 0) { rtc := bootRtc, raised := [] } [.rtcOpen 0]) 0 512 512 :=
    ⟨rfl, rfl, rfl, by decide⟩
  rw [hpurge, otherRateEvents, raisedBy_first hfull (by decide) rfl, raisedBy_first hpurged (by decide) rfl]
  intro heq
  have hlast := List.append_cancel_left heq
  exact absurd hlast (by decide)

end OsKernel
