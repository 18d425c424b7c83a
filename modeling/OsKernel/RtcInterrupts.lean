import OsKernel.RtcStatements

/-!
# Interrupts during `rtc_open`

The reload value stays a power of two as long as `rtc_init` reads a power of two back from the counter
it has stored. With no interrupt between the store and the read that is 512; each interrupt there
leaves one less.
-/

namespace OsKernel

open Library

/-- A power of two between 1 and 512. -/
def PowerCount (n : ℕ) : Prop := ∃ k ≤ 9, n = 2 ^ k

/-- An accepted rate has a power of two as its reload value. -/
theorem PowerRate.powerCount {freq : UInt32} (h : PowerRate freq) : PowerCount (max_limit_freq / freq).toNat := by
  obtain ⟨k, hlower, hupper, hfreq⟩ := h
  refine ⟨10 - k, by omega, ?_⟩
  rw [UInt32.toNat_div, hfreq]
  exact Nat.pow_div hupper Nat.two_pos

/-- The reload value of a power of two is positive. -/
theorem PowerCount.pos {n : ℕ} (h : PowerCount n) : 0 < n := by
  obtain ⟨k, -, rfl⟩ := h
  exact Nat.two_pow_pos k

namespace RtcMachine

/-- When the counter is read back, it is a power of two after the interrupts since its store. -/
def LoadsPower (m : RtcMachine) (a : RtcAction) : Prop :=
  ∀ t, a = .stmt → m.code = .loadCount t → PowerCount (leftAfter m.rtc.resetCount.toNat 512 m.late)

/-- What holds at each statement. -/
def CodeSound (m : RtcMachine) : Prop :=
  match m.code with
  | .registerB t | .setCount t => m.rtc.active t = true
  | .loadCount t => m.rtc.active t = true ∧ (m.rtc.count t).toNat = leftAfter m.rtc.resetCount.toNat 512 m.late
  | .storeReset count => PowerCount count.toNat
  | .writeReset freq => PowerRate freq
  | _ => True

/-- The reload value is a power of two, and so is what the call in progress will store. -/
structure Sound (m : RtcMachine) : Prop where
  reset : PowerCount m.rtc.resetCount.toNat
  code : m.CodeSound

variable {m m' : RtcMachine}

/-- A counter that nothing has decremented yet. -/
theorem loadsPower_of_late_zero (h : m.late = 0) (a : RtcAction) : m.LoadsPower a := by
  intro t _ _
  rw [h]
  exact ⟨9, le_rfl, rfl⟩

/-- An interrupt takes every counter a turn further. -/
theorem Sound.interrupt (h : m.Sound) : Sound { m with rtc := m.rtc.handler, late := m.late + 1 } := by
  obtain ⟨r, code, interrupts, returned, late⟩ := m
  have hreset : r.handler.resetCount = r.resetCount := (r.handler_at 0).2
  have hactive (t : Fin 3) : r.handler.active t = r.active t := (r.handler_at t).1.active
  refine ⟨?_, ?_⟩
  · rw [hreset]
    exact h.reset
  · have hcode := h.code
    cases code with
    | registerB t => exact (hactive t).trans hcode
    | setCount t => exact (hactive t).trans hcode
    | loadCount t =>
      obtain ⟨hcounts, hcount⟩ := hcode
      refine ⟨(hactive t).trans hcounts, ?_⟩
      have hpos : 1 ≤ (r.count t).toNat := by
        rw [hcount]
        exact leftAfter_pos h.reset.pos 512 late
      rw [hreset, Rtc.handler_count hcounts hpos, leftAfter_succ h.reset.pos, ← hcount]
    | _ => exact hcode

/-- A statement that reads a power of two back keeps the invariant. -/
theorem Sound.next (h : m.Sound) (hload : m.LoadsPower .stmt) (hm' : m.next = some m') : m'.Sound := by
  obtain ⟨r, code, interrupts, returned, late⟩ := m
  have hcode := h.code
  cases code with
  | idle => cases hm'
  | setActive t =>
    cases hm'
    exact ⟨h.reset, Function.update_self ..⟩
  | registerB t =>
    cases hm'
    exact ⟨h.reset, hcode⟩
  | setCount t =>
    cases hm'
    have hstored : Function.update r.count t 512 t = 512 := Function.update_self ..
    exact ⟨h.reset, hcode, congrArg UInt32.toNat hstored⟩
  | loadCount t =>
    cases hm'
    refine ⟨h.reset, ?_⟩
    change PowerCount (r.count t).toNat
    rw [hcode.2]
    exact hload t rfl rfl
  | storeReset count =>
    cases hm'
    exact ⟨hcode, trivial⟩
  | writeGuard buf nbytes =>
    rw [next_writeGuard] at hm'
    obtain rfl := Option.some.inj hm'
    refine ⟨h.reset, ?_⟩
    split <;> trivial
  | loadFreq buf =>
    obtain ⟨bytes, rfl, rfl⟩ := Option.map_eq_some_iff.mp hm'
    exact ⟨h.reset, trivial⟩
  | testFreq freq =>
    rw [next_testFreq] at hm'
    obtain rfl := Option.some.inj hm'
    refine ⟨h.reset, ?_⟩
    split
    case isTrue hvalid => exact validRate_iff.mp hvalid
    case isFalse => trivial
  | writeReset freq =>
    cases hm'
    exact ⟨PowerRate.powerCount hcode, trivial⟩
  | cli | registerA | sti | enableIrq | leave ret =>
    cases hm'
    exact ⟨h.reset, trivial⟩

/-- A call enters between two calls. -/
theorem enter_eq_some {code : RtcCode} : m.enter code = some m' ↔ m.code = .idle ∧ m' = { m with code } := by
  obtain ⟨r, c, interrupts, returned, late⟩ := m
  cases c with
  | idle =>
    change some _ = some m' ↔ _
    rw [Option.some_inj, eq_comm]
    exact (and_iff_right rfl).symm
  | _ =>
    constructor
    · intro h
      cases h
    · rintro ⟨h, -⟩
      cases h

/-- What a step does: a call starts between two calls, the call in progress executes a statement, or the
handler runs. -/
theorem step_cases {a : RtcAction} (hm' : m.step a = some m') :
    (m.code = .idle ∧ ((∃ t, m' = { m with code := .setActive t }) ∨
      (∃ buf nbytes, m' = { m with code := .writeGuard buf nbytes }) ∨
        ∃ t, m' = { m with code := .idle, rtc := m.rtc.close t, returned := 0 })) ∨
      (a = .stmt ∧ m.next = some m') ∨
        a = .interrupt ∧ m' = { m with rtc := m.rtc.handler, late := m.late + 1 } := by
  cases a with
  | rtcOpen t =>
    obtain ⟨hidle, rfl⟩ := enter_eq_some.mp hm'
    exact .inl ⟨hidle, .inl ⟨t, rfl⟩⟩
  | rtcWrite buf nbytes =>
    obtain ⟨hidle, rfl⟩ := enter_eq_some.mp hm'
    exact .inl ⟨hidle, .inr (.inl ⟨buf, nbytes, rfl⟩)⟩
  | rtcClose t =>
    obtain ⟨entered, hentered, rfl⟩ := Option.map_eq_some_iff.mp hm'
    obtain ⟨hidle, rfl⟩ := enter_eq_some.mp hentered
    exact .inl ⟨hidle, .inr (.inr ⟨t, rfl⟩)⟩
  | stmt => exact .inr (.inl ⟨rfl, hm'⟩)
  | interrupt =>
    obtain ⟨-, hm'⟩ := Option.ite_none_right_eq_some.mp hm'
    exact .inr (.inr ⟨rfl, (Option.some.inj hm').symm⟩)

/-- Every step keeps the invariant, given that a counter is read back as a power of two. -/
theorem Sound.step (h : m.Sound) {a : RtcAction} (hload : m.LoadsPower a) (hm' : m.step a = some m') : m'.Sound := by
  rcases step_cases hm' with ⟨-, ⟨t, rfl⟩ | ⟨buf, nbytes, rfl⟩ | ⟨t, rfl⟩⟩ | ⟨rfl, hnext⟩ | ⟨-, rfl⟩
  · exact ⟨h.reset, trivial⟩
  · exact ⟨h.reset, trivial⟩
  · exact ⟨h.reset, trivial⟩
  · exact h.next hload hnext
  · exact h.interrupt

/-- A counter that is no power of two has been read back, and the call has not returned yet. -/
def Spoiled (m : RtcMachine) : Prop :=
  match m.code with
  | .storeReset count => ¬PowerCount count.toNat
  | .cli | .registerA | .sti | .enableIrq | .leave _ => ¬PowerCount m.rtc.resetCount.toNat
  | _ => False

/-- No call is in progress, and the reload value is no power of two. -/
def LeftSpoiled (m : RtcMachine) : Prop := m.code = .idle ∧ ¬PowerCount m.rtc.resetCount.toNat

/-- A spoiled call goes on spoiled, or returns and leaves the value. -/
theorem Spoiled.step (h : m.Spoiled) {a : RtcAction} (hm' : m.step a = some m') : m'.Spoiled ∨ m'.LeftSpoiled := by
  obtain ⟨r, code, interrupts, returned, late⟩ := m
  rcases step_cases hm' with ⟨hidle, -⟩ | ⟨rfl, hnext⟩ | ⟨-, rfl⟩
  · obtain rfl : code = .idle := hidle
    cases h
  · cases code with
    | storeReset count | cli | registerA | sti | enableIrq =>
      cases hnext
      exact .inl h
    | leave ret =>
      cases hnext
      exact .inr ⟨rfl, h⟩
    | _ => cases h
  · have hreset : r.handler.resetCount = r.resetCount := (r.handler_at 0).2
    left
    cases code with
    | storeReset count => exact h
    | cli | registerA | sti | enableIrq | leave ret =>
      change ¬PowerCount r.handler.resetCount.toNat
      rw [hreset]
      exact h
    | _ => cases h

/-- When a run that starts in a spoiled call ends outside of calls, it has left the value on the way. -/
theorem Spoiled.run {events : List RtcAction} (h : m.Spoiled) (hrun : Library.run RtcMachine.step m events = some m')
    (hidle : m'.code = .idle) :
    ∃ before after s, events = before ++ after ∧ Library.run RtcMachine.step m before = some s ∧ s.LeftSpoiled := by
  induction events generalizing m with
  | nil =>
    obtain rfl := Option.some.inj hrun
    rw [Spoiled, hidle] at h
    exact h.elim
  | cons a rest ih =>
    obtain ⟨m₁, hm₁, hrest⟩ := run_cons.mp hrun
    obtain hspoiled | hleft := h.step hm₁
    · obtain ⟨before, after, s, rfl, hbefore, hs⟩ := ih hspoiled hrest
      exact ⟨a :: before, after, s, rfl, run_cons.mpr ⟨m₁, hm₁, hbefore⟩, hs⟩
    · exact ⟨[a], rest, m₁, rfl, run_cons.mpr ⟨m₁, hm₁, rfl⟩, hleft⟩

/-- Whenever no call is in progress, the reload value is a power of two. -/
def KeepsPower (m : RtcMachine) (events : List RtcAction) : Prop :=
  ∀ before after s, events = before ++ after → Library.run RtcMachine.step m before = some s → s.code = .idle →
    PowerCount s.rtc.resetCount.toNat

/-- In every run that reads powers of two back the reload value is a power of two outside of calls, and
a run that does not do so and returns from its calls leaves another value. -/
theorem keepsPower_iff (m : RtcMachine) (events : List RtcAction) (m' : RtcMachine) (hidle : m.code = .idle)
    (hreset : PowerCount m.rtc.resetCount.toNat) (hrun : Library.run step m events = some m') :
    (Along step LoadsPower m events → m.KeepsPower events) ∧
      (m'.code = .idle → (m.KeepsPower events ↔ Along step LoadsPower m events)) := by
  have hstart : m.Sound := ⟨hreset, by rw [CodeSound, hidle]; trivial⟩
  have hkeeps : Along step LoadsPower m events → m.KeepsPower events := by
    rintro halong before after s rfl hbefore -
    have hsound := run_invariant_of_along (fun s a s' hs hload hs' => Sound.step hs hload hs') hstart
      (along_append.mp halong).1 hbefore
    exact hsound.reset
  refine ⟨hkeeps, fun hdone => ⟨fun hpower => ?_, hkeeps⟩⟩
  by_contra hnot
  obtain ⟨before, a, after, s, rfl, halong, hbefore, hbroken⟩ := exists_of_not_along hnot
  have hsound := run_invariant_of_along (fun s a s' hs hload hs' => Sound.step hs hload hs') hstart halong hbefore
  simp only [LoadsPower, not_forall] at hbroken
  obtain ⟨t, rfl, hcode, hcount⟩ := hbroken
  rw [run_append, hbefore, Option.bind_some] at hrun
  obtain ⟨s₁, hs₁, hafter⟩ := run_cons.mp hrun
  -- the value that was read back is the counter after the interrupts
  have hspoiled : s₁.Spoiled := by
    obtain ⟨r, code, interrupts, returned, late⟩ := s
    obtain rfl : code = .loadCount t := hcode
    cases hs₁
    change ¬PowerCount (r.count t).toNat
    rw [hsound.code.2]
    exact hcount
  obtain ⟨middle, rest, left, rfl, hmiddle, hleft⟩ := hspoiled.run hafter hdone
  refine hleft.2 (hpower (before ++ .stmt :: middle) rest left (by simp) ?_ hleft.1)
  rw [run_append, hbefore, Option.bind_some]
  exact run_cons.mpr ⟨s₁, hs₁, hmiddle⟩

/-- The machine after the boot, with no call in progress. -/
def booted : RtcMachine := ⟨bootRtc, .idle, true, 0, 0⟩

/-- An interrupt between the store of the counter and its read. -/
def interruptsRead (m : RtcMachine) (a : RtcAction) : Bool :=
  match a, m.code with
  | .interrupt, .loadCount _ => true
  | _, _ => false

/-- A step with no such interrupt starts a read with no interrupt since the store. -/
theorem late_of_step (h : ∀ t, m.code = .loadCount t → m.late = 0) {a : RtcAction} (ha : m.interruptsRead a = false)
    (hm' : m.step a = some m') : ∀ t, m'.code = .loadCount t → m'.late = 0 := by
  intro t hcode
  obtain ⟨r, code, interrupts, returned, late⟩ := m
  rcases step_cases hm' with ⟨-, ⟨u, rfl⟩ | ⟨buf, nbytes, rfl⟩ | ⟨u, rfl⟩⟩ | ⟨rfl, hnext⟩ | ⟨rfl, rfl⟩
  · cases hcode
  · cases hcode
  · cases hcode
  · cases code with
    | setCount u =>
      cases hnext
      rfl
    | idle => cases hnext
    | writeGuard buf nbytes =>
      rw [next_writeGuard] at hnext
      obtain rfl := Option.some.inj hnext
      dsimp only at hcode
      split at hcode <;> cases hcode
    | loadFreq buf =>
      obtain ⟨bytes, rfl, rfl⟩ := Option.map_eq_some_iff.mp hnext
      cases hcode
    | testFreq freq =>
      rw [next_testFreq] at hnext
      obtain rfl := Option.some.inj hnext
      dsimp only at hcode
      split at hcode <;> cases hcode
    | _ =>
      cases hnext
      cases hcode
  · obtain rfl : code = .loadCount t := hcode
    cases ha

/-- With no interrupt between a store and its read, every counter is read back as it was stored. -/
theorem along_loadsPower {events : List RtcAction} (h : ∀ t, m.code = .loadCount t → m.late = 0)
    (hquiet : Along step (fun m a => m.interruptsRead a = false) m events) : Along step LoadsPower m events :=
  Along.imp (fun _ _ _ hlate ha hs' => late_of_step hlate ha hs')
    (fun _ a hlate _ t ha hcode => loadsPower_of_late_zero (hlate t hcode) a t ha hcode) h hquiet

/-- `rtc_open` of terminal 1 with interrupts before the store of the counter and after the read. -/
def quietOpen : List RtcAction :=
  [.rtcOpen 1, .stmt, .interrupt, .stmt, .stmt, .stmt, .interrupt, .stmt, .stmt, .stmt, .stmt, .stmt, .stmt]

/-- Interrupts before the store and after the read are harmless. -/
theorem keepsPower_quiet : booted.KeepsPower quietOpen := by
  have halong : Along step LoadsPower booted quietOpen :=
    along_loadsPower (fun t hcode => by cases hcode) (by decide +kernel)
  exact (keepsPower_iff booted quietOpen _ rfl ⟨9, le_rfl, rfl⟩ rfl).1 halong

/-- `rtc_open` of terminal 1 with an interrupt between the store and the read. -/
def lateOpen : List RtcAction :=
  [.rtcOpen 1, .stmt, .stmt, .stmt, .interrupt, .stmt, .stmt, .stmt, .stmt, .stmt, .stmt, .stmt]

/-- The interrupt in between leaves the reload value 511. -/
theorem not_keepsPower : ¬booted.KeepsPower lateOpen := by
  intro h
  have hvalue : (Library.run step booted lateOpen).map (fun s => s.rtc.resetCount.toNat) = some 511 := by
    decide +kernel
  obtain ⟨s, hrun, hreset⟩ := Option.map_eq_some_iff.mp hvalue
  have hidle : (Library.run step booted lateOpen).map RtcMachine.code = some .idle := rfl
  rw [hrun] at hidle
  obtain ⟨k, hk, hpower⟩ := h lateOpen [] s (List.append_nil _).symm hrun (Option.some.inj hidle)
  rw [hreset] at hpower
  cases k with
  | zero => omega
  | succ k =>
    rw [Nat.pow_succ] at hpower
    omega

end RtcMachine

end OsKernel
