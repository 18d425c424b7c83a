import OsKernel.DescriptorTable
import OsKernel.Library.Tracked
import OsKernel.Lineage
import OsKernel.Residence

/-!
# The activity bit and the open RTC descriptors

A terminal's virtual clock counts while its activity bit is set. Every `rtc_open` sets the bit and
every `rtc_close` clears it, so that it should say whether a live process of the terminal has an RTC
descriptor open. It does as long as no close leaves another RTC descriptor open behind it, and no
process ends with the last one open. A read that starts then waits for an interrupt after its start.
-/

namespace OsKernel

open Library

/-- A call or a tick, a call of `write`, or an interrupt of the hardware clock. -/
inductive ClockEvent where
  | call (e : Event)
  | write (fd : ℤ) (buf : Option Bytes) (nbytes : ℤ)
  | interrupt

/-- The state in which a `read` waits or has returned: `rtc_read` has run up to its loop. -/
def Kernel.ReadResult.started : Kernel.ReadResult → Kernel
  | .waits .rtc k => { k with rtc := k.rtc.readStart k.activeTerm }
  | r => r.after

/-- One step of the kernel. -/
def clockKernel (fs : FileSystem) (k : Kernel) : ClockEvent → Option Kernel
  | .call (.read fd nbytes) => (k.read fs fd nbytes).map Kernel.ReadResult.started
  | .call e => step fs k e
  | .write fd buf nbytes => (k.write fd buf nbytes).map Kernel.WriteResult.after
  | .interrupt => some { k with rtc := k.rtc.handler }

/-- One step. -/
def clockStep (fs : FileSystem) (s : HomedKernel) (e : ClockEvent) : Option HomedKernel :=
  (clockKernel fs s.k e).map s.after

/-- The open RTC descriptors of the live processes of a terminal. -/
def HomedKernel.rtcDescs (s : HomedKernel) (t : Fin 3) : Set (Slot × Fin 8) :=
  { x | s.LiveOn t x.1 ∧ (s.k.pcb x.1).OpenRtc x.2 }

/-- `rtc_active[t]` is 1 exactly when a live process of terminal `t` holds an open RTC descriptor. -/
def ActiveMirrors (s : HomedKernel) : Prop := ∀ t, s.k.rtc.active t = true ↔ (s.rtcDescs t).Nonempty

/-- The event is a read on an open RTC descriptor. -/
def ReadsRtc (s : HomedKernel) : ClockEvent → Prop
  | .call (.read fd _) => ∃ c i, s.k.caller = some c ∧ descIndex 0 fd = some i ∧ (s.k.pcb c).OpenRtc i
  | _ => False

/-- The waiting loop of a read that started here on terminal `t` does not end before an interrupt that
raises the terminal's flag. -/
def WaitsForRaise (fs : FileSystem) (t : Fin 3) (s : HomedKernel) : Prop :=
  ∀ later s', run (clockStep fs) s later = some s' → s'.k.rtc.readDone t = true →
    ∃ before after m, later = before ++ .interrupt :: after ∧ run (clockStep fs) s before = some m ∧
      m.k.rtc.raises t = true

/-- After the step `rtc_active` mirrors the open descriptors, and a read waits for an interrupt. -/
def ClockSound (fs : FileSystem) (s : HomedKernel) (e : ClockEvent) : Prop :=
  ∀ s', clockStep fs s e = some s' →
    ActiveMirrors s' ∧ (ReadsRtc s e → WaitsForRaise fs s.k.activeTerm s')

/-- The condition on a step. An open RTC descriptor that is closed is the only one of its terminal. When a
process ends whose parent has an RTC descriptor open, which `halt` then closes, nobody else has one; when a
base shell ends or the parent has none, the process that ends does not hold the last ones. -/
def ClosesLast (s : HomedKernel) : ClockEvent → Prop
  | .call (.close fd) => ∀ c i, s.k.caller = some c → descIndex FD_START fd = some i → (s.k.pcb c).OpenRtc i →
      s.rtcDescs s.k.activeTerm ⊆ {(c, i)}
  | .call (.halt _ _) => ∀ c, s.k.caller = some c →
      if c = base s.k.activeTerm then
        s.rtcDescs s.k.activeTerm ⊆ { x | x.1 = c } → s.rtcDescs s.k.activeTerm = ∅
      else ∀ p, (s.k.pcb c).parentPid = some p →
        if ∃ i, (s.k.pcb p).OpenRtc i then s.rtcDescs s.k.activeTerm ⊆ { x | x.1 = c ∨ x.1 = p }
        else s.rtcDescs s.k.activeTerm ⊆ { x | x.1 = c ∨ x.1 = p } → s.rtcDescs s.k.activeTerm = ∅
  | _ => True

/-- A step changed the bit and the descriptors of at most one terminal. -/
structure ClockChange (s s' : HomedKernel) (t : Fin 3) (b : Bool) (S : Set (Slot × Fin 8)) : Prop where
  active : s'.k.rtc.active = Function.update s.k.rtc.active t b
  descs : s'.rtcDescs = Function.update s.rtcDescs t S

/-- A change that neither opened nor closed an RTC descriptor. -/
structure ClockKept (k k' : Kernel) : Prop where
  descs : ∀ p i, (k'.pcb p).OpenRtc i ↔ (k.pcb p).OpenRtc i
  rtc : k'.rtc = k.rtc

/-- How a call on descriptors changed the open RTC descriptors. -/
inductive DescClock (k : Kernel) (e : Event) (k' : Kernel) : Prop where
  | kept (hkept : ClockKept k k')
      (hclose : ∀ fd, e = .close fd → ∀ c i, k.caller = some c → descIndex FD_START fd = some i → ¬(k.pcb c).OpenRtc i)
  | opened {c i} (hcaller : k.caller = some c) (hi : FD_START ≤ i.val)
      (hdescs : ∀ p j, (k'.pcb p).OpenRtc j ↔ (k.pcb p).OpenRtc j ∨ p = c ∧ j = i)
      (hrtc : k'.rtc = k.rtc.open_ k.activeTerm) (he : ∀ fd, e ≠ .close fd)
  | closed {fd c i} (he : e = .close fd) (hcaller : k.caller = some c) (hindex : descIndex FD_START fd = some i)
      (hopen : (k.pcb c).OpenRtc i)
      (hdescs : ∀ p j, (k'.pcb p).OpenRtc j ↔ (k.pcb p).OpenRtc j ∧ ¬(p = c ∧ j = i))
      (hrtc : k'.rtc = k.rtc.close k.activeTerm)

section Descriptors

variable {fs : FileSystem} {k k' : Kernel}

/-- A change of nothing. -/
theorem ClockKept.refl (k : Kernel) : ClockKept k k := ⟨fun _ _ => Iff.rfl, rfl⟩

/-- Setting `pcb_val_read` before a call on descriptors. -/
theorem ClockKept.of_pcbValRead {pcbValRead : Option Slot} (h : ClockKept { k with pcbValRead } k') : ClockKept k k' :=
  ⟨h.descs, h.rtc⟩

/-- Setting one descriptor of a process. -/
theorem openRtc_setDesc (k : Kernel) (c p : Slot) (i j : Fin 8) (d : FileDesc) :
    (Function.update k.pcb c ((k.pcb c).setDesc i d) p).OpenRtc j ↔
      if p = c ∧ j = i then d.flag = true ∧ d.fop = .rtc else (k.pcb p).OpenRtc j := by
  by_cases hp : p = c
  · subst p
    by_cases hj : j = i
    · subst j
      simp [Pcb.OpenRtc, Pcb.setDesc]
    · simp [Pcb.OpenRtc, Pcb.setDesc, hj]
  · simp [Pcb.OpenRtc, hp]

/-- The descriptor that `open` takes was free. -/
theorem freeDesc_spec {p : Pcb} {i : Fin 8} (h : p.freeDesc = some i) :
    FD_START ≤ i.val ∧ (p.fileDescArr i).flag = false := by
  have hfound := List.find?_some h
  simpa using hfound

/-- What `open` does to the RTC. -/
theorem openFile_clock {fileName : Bytes} {ret : UInt32} (h : k.openFile fs fileName = some (ret, k')) :
    DescClock k (.openFile fileName) k' := by
  have hkept : DescClock k (.openFile fileName) k := .kept (.refl k) fun _ he => nomatch he
  unfold Kernel.openFile at h
  split at h
  · cases h
    exact hkept
  · split at h
    · cases h
      exact hkept
    · rename_i dentry _
      obtain ⟨c, hcaller, h⟩ := Option.map_eq_some_iff.mp h
      split at h
      · rename_i i driver hfree _
        obtain ⟨hi, hflag⟩ := freeDesc_spec hfree
        have hclosed : ¬(k.pcb c).OpenRtc i := fun hopen => by
          rw [hopen.1] at hflag
          cases hflag
        let d : FileDesc := { fop := driver, inode := dentry.inodeIdx, position := 0, flag := true }
        have hdescs (p : Slot) (j : Fin 8) := openRtc_setDesc k c p i j d
        obtain rfl := (Prod.mk.inj h).2
        cases driver with
        | rtc =>
          refine .opened hcaller hi (fun p j => (hdescs p j).trans ?_) rfl fun fd he => nomatch he
          by_cases hpj : p = c ∧ j = i
          · simp [hpj, d]
          · simp [hpj]
        | dir | file | stdin | stdout =>
          refine .kept ⟨fun p j => (hdescs p j).trans ?_, rfl⟩ fun fd he => nomatch he
          by_cases hpj : p = c ∧ j = i
          · obtain ⟨rfl, rfl⟩ := hpj
            simp [hclosed, d]
          · simp [hpj]
      · cases h
        exact hkept

/-- What `close` does to the RTC. -/
theorem close_clock {fd : ℤ} {ret : UInt32} (h : k.close fd = some (ret, k')) : DescClock k (.close fd) k' := by
  cases hindex : descIndex FD_START fd with
  | none =>
    have hsame : k.close fd = some (FAIL, k) := by simp only [Kernel.close, hindex]
    cases hsame.symm.trans h
    refine .kept (.refl k) fun fd' he c i _ hi => ?_
    cases he
    rw [hindex] at hi
    cases hi
  | some i =>
    obtain ⟨rfl, hi⟩ := descIndex_eq_some.mp hindex
    cases hcaller : k.caller with
    | none =>
      simp [Kernel.close, hindex, hcaller] at h
    | some c =>
      obtain ⟨ret', hclose⟩ := Kernel.close_some hcaller i
      obtain rfl := (Prod.mk.inj (Option.some.inj (hclose.symm.trans h))).2
      have hdescs (p : Slot) (j : Fin 8) :
          (Function.update k.pcb c ((k.pcb c).closeAll [i]) p).OpenRtc j ↔
            (k.pcb p).OpenRtc j ∧ ¬(p = c ∧ j = i) := by
        by_cases hp : p = c
        · subst p
          by_cases hj : j = i
          · subst j
            simp [Pcb.OpenRtc, Pcb.closeAll, hi]
          · simp [Pcb.OpenRtc, Pcb.closeAll, hj]
        · simp [hp]
      have hcloses : (k.pcb c).ClosesRtc [i] ↔ (k.pcb c).OpenRtc i := by
        simp [Pcb.ClosesRtc, hi]
      by_cases hopen : (k.pcb c).OpenRtc i
      · exact .closed rfl hcaller hindex hopen hdescs (if_pos (hcloses.mpr hopen))
      · refine .kept ⟨fun p j => (hdescs p j).trans ?_, if_neg (hcloses.not.mpr hopen)⟩ fun fd he c' i' hc' hi' => ?_
        · constructor
          · exact fun hj => hj.1
          · intro hj
            refine ⟨hj, ?_⟩
            rintro ⟨rfl, rfl⟩
            exact hopen hj
        · cases he
          rw [hcaller] at hc'
          rw [hindex] at hi'
          cases hc'
          cases hi'
          exact hopen

/-- A descriptor that moved is open as before. -/
theorem openRtc_moved (k : Kernel) (c : Slot) (i : Fin 8) (position : UInt32) (p : Slot) (j : Fin 8) :
    ((k.modifyPcb c (·.setDesc i { (k.pcb c).fileDescArr i with position })).pcb p).OpenRtc j ↔
      (k.pcb p).OpenRtc j := by
  rw [Kernel.modifyPcb, openRtc_setDesc]
  split_ifs with hpj
  · obtain ⟨rfl, rfl⟩ := hpj
    rfl
  · rfl

/-- `file_read` opens and closes nothing. -/
theorem fileRead_clock (fs : FileSystem) (k : Kernel) (c : Slot) (i : Fin 8) (nbytes : UInt32) :
    ClockKept k (k.fileRead fs c i nbytes).2.2 := by
  rw [Kernel.fileRead]
  generalize fs.readBytes _ _ _ = read
  split
  · exact .refl k
  · exact ⟨openRtc_moved k c i _, rfl⟩

/-- `dir_read` opens and closes nothing. -/
theorem dirRead_clock (fs : FileSystem) (k : Kernel) (c : Slot) (i : Fin 8) :
    ClockKept k (k.dirRead fs c i).2.2 := by
  rw [Kernel.dirRead]
  generalize fs.readDentryByIndex _ = entry
  cases entry with
  | none => exact .refl k
  | some entry => exact ⟨openRtc_moved { k with dentryTemp := entry } c i _, rfl⟩

/-- `read` opens and closes nothing. -/
theorem read_clock {fd : ℤ} {nbytes : UInt32} {r : Kernel.ReadResult} (h : k.read fs fd nbytes = some r) :
    ClockKept k r.after := by
  unfold Kernel.read at h
  split at h
  · cases h
    exact .of_pcbValRead (.refl _)
  · rename_i i _
    obtain ⟨c, -, rfl⟩ := Option.map_eq_some_iff.mp h
    refine .of_pcbValRead (?_ : ClockKept { k with pcbValRead := k.caller } _)
    split
    · unfold Kernel.driverRead
      split
      · rw [Kernel.ReadResult.after_ofCall]
        exact fileRead_clock fs _ c i nbytes
      · rw [Kernel.ReadResult.after_ofCall]
        exact dirRead_clock fs _ c i
      all_goals exact .refl _
    · exact .refl _

/-- `read` on an open RTC descriptor waits for an interrupt. -/
theorem read_rtc {fd : ℤ} {nbytes : UInt32} {c : Slot} {i : Fin 8} (hcaller : k.caller = some c)
    (hindex : descIndex 0 fd = some i) (hopen : (k.pcb c).OpenRtc i) :
    k.read fs fd nbytes = some (.waits .rtc { k with pcbValRead := some c }) := by
  have hcaller' : ({ k with pcbValRead := some c } : Kernel).caller = some c := hcaller
  simp only [Kernel.read, hindex, hcaller, hcaller', Option.map_some, hopen.1, if_true, Kernel.driverRead, hopen.2]

/-- What a call on descriptors does to the RTC. -/
theorem descClock_of_step {e : Event} (he : e.onDescs) (h : step fs k e = some k') : DescClock k e k' := by
  cases e with
  | openFile fileName =>
    obtain ⟨⟨ret, k'⟩, hr, rfl⟩ := Option.map_eq_some_iff.mp h
    exact openFile_clock hr
  | close fd =>
    obtain ⟨⟨ret, k'⟩, hr, rfl⟩ := Option.map_eq_some_iff.mp h
    exact close_clock hr
  | read fd nbytes =>
    obtain ⟨r, hr, rfl⟩ := Option.map_eq_some_iff.mp h
    exact .kept (read_clock hr) fun _ he => nomatch he
  | getargs nbytes =>
    obtain ⟨r, hr, rfl⟩ := Option.map_eq_some_iff.mp h
    obtain ⟨c, -, rfl⟩ := Option.map_eq_some_iff.mp hr
    refine .kept ?_ fun _ he => nomatch he
    dsimp only
    split <;> exact ⟨fun _ _ => Iff.rfl, rfl⟩
  | execute _ _ | halt _ _ | tick _ _ => cases he

end Descriptors

section Changes

variable {disk : Disk} {s : HomedKernel} {k' : Kernel} {live live' : Fin 3 → List Slot} {t : Fin 3}

/-- The open RTC descriptors of a terminal are those of the processes on its stack. -/
theorem Resident.mem_rtcDescs (h : Resident s live) {x : Slot × Fin 8} :
    x ∈ s.rtcDescs t ↔ x.1 ∈ live t ∧ (s.k.pcb x.1).OpenRtc x.2 := and_congr_left fun _ => h.liveOn_iff

/-- The open RTC descriptors after a step that changed the stack of one terminal and the descriptors of its
processes. -/
theorem Resident.rtcDescs_after (h : Resident s live) {L : List Slot} {S : Set (Slot × Fin 8)}
    (h' : Resident (s.after k') (Function.update live t L))
    (hother : ∀ u, u ≠ t → ∀ p ∈ live u, ∀ j, (k'.pcb p).OpenRtc j ↔ (s.k.pcb p).OpenRtc j)
    (hself : ∀ p j, p ∈ L ∧ (k'.pcb p).OpenRtc j ↔ (p, j) ∈ S) :
    (s.after k').rtcDescs = Function.update s.rtcDescs t S := by
  funext u
  ext ⟨p, j⟩
  rw [h'.mem_rtcDescs]
  by_cases hu : u = t
  · subst u
    rw [Function.update_self, Function.update_self]
    exact hself p j
  · rw [Function.update_of_ne hu, Function.update_of_ne hu, h.mem_rtcDescs]
    exact and_congr_right fun hp => hother u hu p hp j

/-- A process starts without an RTC descriptor. -/
theorem not_openRtc_spawned (p : Pcb) (pid : Slot) (parentPid : Option Slot) (saved : Regs) (argsName : List UInt8)
    (i : Fin 8) : ¬(p.spawned pid parentPid saved argsName).OpenRtc i := by
  simp only [Pcb.OpenRtc, Pcb.spawned, Pcb.fileDescArrInitial]
  split_ifs <;> simp

/-- Which RTC descriptors are open is read off the descriptor table. -/
theorem openRtc_congr {p q : Pcb} (h : p.fileDescArr = q.fileDescArr) (i : Fin 8) : p.OpenRtc i ↔ q.OpenRtc i := by
  rw [Pcb.OpenRtc, Pcb.OpenRtc, h]

/-- The condition on a call on descriptors that closes no RTC descriptor. -/
theorem closesLast_of_kept {e : Event} (he : e.onDescs) (hclose : ∀ fd, e = .close fd → ∀ c i, s.k.caller = some c →
    descIndex FD_START fd = some i → ¬(s.k.pcb c).OpenRtc i) : ClosesLast s (.call e) := by
  cases e with
  | close fd => exact fun c i hc hi hopen => absurd hopen (hclose fd rfl c i hc hi)
  | openFile _ | read _ _ | getargs _ => trivial
  | execute _ _ | halt _ _ | tick _ _ => cases he

/-- What a step says about the bit that it may have changed: the bit tracks the descriptors exactly under the
condition. -/
structure ClockStepped (s s' : HomedKernel) (e : ClockEvent) (t : Fin 3) (b : Bool) (S : Set (Slot × Fin 8)) : Prop
    extends ClockChange s s' t b S where
  tracks : Tracks b S ↔ ClosesLast s e
  own : ∀ x ∈ S, FD_START ≤ x.2.val

/-- The states of a run in which the bits mirrored the descriptors so far. -/
structure Clocked (s : HomedKernel) : Prop where
  mirrors : ActiveMirrors s
  own : ∀ t, ∀ x ∈ s.rtcDescs t, FD_START ≤ x.2.val

/-- A step that kept bits and descriptors, and on which there is no condition. -/
theorem Clocked.kept (hs : Clocked s) {s' : HomedKernel} {e : ClockEvent} (hactive : s'.k.rtc.active = s.k.rtc.active)
    (hdescs : s'.rtcDescs = s.rtcDescs) (hcond : ClosesLast s e) :
    ClockStepped s s' e t (s.k.rtc.active t) (s.rtcDescs t) where
  active := by rw [hactive, Function.update_eq_self]
  descs := by rw [hdescs, Function.update_eq_self]
  tracks := iff_of_true (hs.mirrors t) hcond
  own := hs.own t

/-- The descriptors after a step that kept the stacks and every descriptor. -/
theorem Resident.rtcDescs_kept (h : Resident s live) (h' : Resident (s.after k') live)
    (hdescs : ∀ p j, (k'.pcb p).OpenRtc j ↔ (s.k.pcb p).OpenRtc j) : (s.after k').rtcDescs = s.rtcDescs := by
  funext u
  ext x
  rw [h'.mem_rtcDescs, h.mem_rtcDescs]
  exact and_congr_right fun _ => hdescs x.1 x.2

/-- The descriptors after a new process was set up in a free slot. -/
theorem Resident.rtcDescs_pushed (h : Resident s live) {i : Slot} (hfree : s.k.pid i = false)
    (h' : Resident (s.after k') (Function.update live t (i :: live t)))
    (hnew : ∀ j, ¬(k'.pcb i).OpenRtc j)
    (hold : ∀ p, p ≠ i → ∀ j, (k'.pcb p).OpenRtc j ↔ (s.k.pcb p).OpenRtc j) : (s.after k').rtcDescs = s.rtcDescs := by
  have hne {u : Fin 3} {p : Slot} (hp : p ∈ live u) : p ≠ i := by
    rintro rfl
    exact h.not_mem hfree u hp
  rw [h.rtcDescs_after (S := s.rtcDescs t) h' (fun u _ p hp => hold p (hne hp)), Function.update_eq_self]
  intro p j
  rw [h.mem_rtcDescs]
  constructor
  · rintro ⟨hp, hj⟩
    rcases List.mem_cons.mp hp with rfl | hp
    · exact absurd hj (hnew j)
    · exact ⟨hp, (hold p (hne hp) j).mp hj⟩
  · rintro ⟨hp, hj⟩
    exact ⟨List.mem_cons_of_mem i hp, (hold p (hne hp) j).mpr hj⟩

/-- A call on descriptors. -/
theorem Clocked.described (hs : Clocked s) (h : Resident s live) {e : Event} (he : e.onDescs)
    (h' : Resident (s.after k') live) (hclock : DescClock s.k e k') :
    ∃ t b S, ClockStepped s (s.after k') (.call e) t b S := by
  have hother {c : Slot} (hcaller : s.k.caller = some c) {u : Fin 3} (hu : u ≠ s.k.activeTerm) {p : Slot}
      (hp : p ∈ live u) : p ≠ c := by
    rintro rfl
    obtain ⟨rest, htop⟩ := h.live_of_caller hcaller
    exact hu (h.separate.unique u s.k.activeTerm p hp (by rw [htop]; exact List.mem_cons_self))
  have hupdate : Resident (s.after k') (Function.update live s.k.activeTerm (live s.k.activeTerm)) := by
    rwa [Function.update_eq_self]
  cases hclock with
  | kept hkept hclose =>
    exact ⟨s.k.activeTerm, _, _, hs.kept (congrArg Rtc.active hkept.rtc) (h.rtcDescs_kept h' hkept.descs)
      (closesLast_of_kept he hclose)⟩
  | @opened c i hcaller hi hdescs hrtc hne =>
    obtain ⟨rest, htop⟩ := h.live_of_caller hcaller
    refine ⟨s.k.activeTerm, true, insert (c, i) (s.rtcDescs s.k.activeTerm), ⟨congrArg Rtc.active hrtc, ?_⟩, ?_, ?_⟩
    · apply h.rtcDescs_after hupdate
      · intro u hu p hp j
        rw [hdescs p j, or_iff_left]
        exact fun hpc => hother hcaller hu hp hpc.1
      · intro p j
        rw [hdescs p j, Set.mem_insert_iff, h.mem_rtcDescs, Prod.mk.injEq]
        constructor
        · rintro ⟨hp, hj | hpc⟩
          · exact Or.inr ⟨hp, hj⟩
          · exact Or.inl hpc
        · rintro (⟨rfl, rfl⟩ | ⟨hp, hj⟩)
          · exact ⟨by rw [htop]; exact List.mem_cons_self, Or.inr ⟨rfl, rfl⟩⟩
          · exact ⟨hp, Or.inl hj⟩
    · exact iff_of_true (tracks_insert _ _) (closesLast_of_kept he fun fd heq => absurd heq (hne fd))
    · intro x hx
      rcases Set.mem_insert_iff.mp hx with rfl | hx
      · exact hi
      · exact hs.own _ x hx
  | @closed fd c i heq hcaller hindex hopen hdescs hrtc =>
    subst heq
    refine ⟨s.k.activeTerm, false, s.rtcDescs s.k.activeTerm \ {(c, i)}, ⟨congrArg Rtc.active hrtc, ?_⟩, ?_, ?_⟩
    · apply h.rtcDescs_after hupdate
      · intro u hu p hp j
        rw [hdescs p j, and_iff_left]
        exact fun hpc => hother hcaller hu hp hpc.1
      · intro p j
        rw [hdescs p j, Set.mem_sdiff, h.mem_rtcDescs, Set.mem_singleton_iff, Prod.mk.injEq, and_assoc]
    · rw [tracks_false_diff]
      constructor
      · intro hsub c' i' hc' hi' _
        rw [hcaller] at hc'
        rw [hindex] at hi'
        cases hc'
        cases hi'
        exact hsub
      · exact fun hcond => hcond c i hcaller hindex hopen
    · exact fun x hx => hs.own _ x hx.1

/-- The loop of `halt` closes every RTC descriptor of a live process. -/
theorem Clocked.not_openRtc_closeAll (hs : Clocked s) (h : Resident s live) {p : Slot} {t : Fin 3} (hp : p ∈ live t)
    (j : Fin 8) : ¬((s.k.pcb p).closeAll (List.finRange 8)).OpenRtc j := by
  intro hopen
  have hj : (p, j) ∈ s.rtcDescs t := by
    rw [h.mem_rtcDescs]
    refine ⟨hp, ?_⟩
    simp only [Pcb.OpenRtc, Pcb.closeAll] at hopen ⊢
    split_ifs at hopen with hclose
    · exact hopen.1.elim
    · exact hopen
  have hlo : FD_START ≤ j.val := hs.own _ _ hj
  simp [Pcb.OpenRtc, Pcb.closeAll, hlo] at hopen

/-- The loop of `halt` closes an RTC descriptor of a live process if it has one. -/
theorem Clocked.closesRtc_iff (hs : Clocked s) (h : Resident s live) {p : Slot} {t : Fin 3} (hp : p ∈ live t) :
    (s.k.pcb p).ClosesRtc (List.finRange 8) ↔ ∃ i, (s.k.pcb p).OpenRtc i := by
  constructor
  · rintro ⟨i, -, -, hi⟩
    exact ⟨i, hi⟩
  · rintro ⟨i, hi⟩
    have hmem : (p, i) ∈ s.rtcDescs t := by
      rw [h.mem_rtcDescs]
      exact ⟨hp, hi⟩
    exact ⟨i, List.mem_finRange i, hs.own _ _ hmem, hi⟩

/-- The end of a process that returns to its parent. -/
theorem Clocked.returned (hs : Clocked s) (h : Resident s live) {cause : Cause} {frame : ExecFrame} {c p : Slot}
    {rest : List Slot} (hlive : live s.k.activeTerm = c :: p :: rest) (hbase : c ≠ base s.k.activeTerm)
    (hr : Kernel.Returned s.k k' c p)
    (h' : Resident (s.after k') (Function.update live s.k.activeTerm (p :: rest))) :
    ∃ t b S, ClockStepped s (s.after k') (.call (.halt cause frame)) t b S := by
  have hcaller : s.k.caller = some c := by
    rw [h.caller_eq, hlive]
    rfl
  have hnodup := h.separate.nodup s.k.activeTerm
  have hlinks := h.links s.k.activeTerm
  rw [hlive] at hnodup hlinks
  obtain ⟨hc, hnodup⟩ := List.nodup_cons.mp hnodup
  have hparent : (s.k.pcb c).parentPid = some p := hlinks.1.resolve_left hbase
  have hlivep : p ∈ live s.k.activeTerm := by simp [hlive]
  have hclosed (j : Fin 8) : ¬(k'.pcb p).OpenRtc j := by
    rw [hr.pcb, Function.update_self]
    exact hs.not_openRtc_closeAll h hlivep j
  have hother {x : Slot} (hxc : x ≠ c) (hxp : x ≠ p) (j : Fin 8) : (k'.pcb x).OpenRtc j ↔ (s.k.pcb x).OpenRtc j := by
    rw [hr.pcb, Function.update_of_ne hxp, Function.update_of_ne hxc]
  have hcloses := hs.closesRtc_iff h hlivep
  refine ⟨s.k.activeTerm, if ∃ i, (s.k.pcb p).OpenRtc i then false else s.k.rtc.active s.k.activeTerm,
    s.rtcDescs s.k.activeTerm \ { x | x.1 = c ∨ x.1 = p }, ⟨?_, ?_⟩, ?_, ?_⟩
  · change k'.rtc.active = _
    rw [hr.rtc]
    split_ifs with h₁ h₂ h₂
    · rfl
    · exact absurd (hcloses.mp h₁) h₂
    · exact absurd (hcloses.mpr h₂) h₁
    · rw [Function.update_eq_self]
  · apply h.rtcDescs_after h'
    · intro u hu x hx j
      refine hother ?_ ?_ j
      · rintro rfl
        exact hu (h.separate.unique u s.k.activeTerm x hx (by simp [hlive]))
      · rintro rfl
        exact hu (h.separate.unique u s.k.activeTerm x hx (by simp [hlive]))
    · intro x j
      rw [Set.mem_sdiff, h.mem_rtcDescs, hlive]
      simp only [Set.mem_ofPred_eq, not_or, List.mem_cons]
      by_cases hxp : x = p
      · subst x
        simp [hclosed j]
      · by_cases hxc : x = c
        · subst x
          have hnot : c ∉ rest := fun hmem => hc (List.mem_cons_of_mem p hmem)
          simp [hxp, hnot]
        · simp [hxp, hxc, hother hxc hxp j]
  · have hcond : ClosesLast s (.call (.halt cause frame)) ↔
        if ∃ i, (s.k.pcb p).OpenRtc i then s.rtcDescs s.k.activeTerm ⊆ { x | x.1 = c ∨ x.1 = p }
        else s.rtcDescs s.k.activeTerm ⊆ { x | x.1 = c ∨ x.1 = p } → s.rtcDescs s.k.activeTerm = ∅ := by
      simp only [ClosesLast, hcaller, Option.some.injEq, forall_eq', if_neg hbase, hparent]
    rw [hcond]
    split_ifs
    · exact tracks_false_diff
    · exact Tracks.diff (hs.mirrors _)
  · exact fun x hx => hs.own _ x hx.1

/-- A base shell that is replaced. -/
theorem Clocked.restarted (hs : Clocked s) (h : Resident s live) {cause : Cause} {frame : ExecFrame}
    {rest : List Slot} (hlive : live s.k.activeTerm = base s.k.activeTerm :: rest)
    (hr : Restarted s.k k' cause (base s.k.activeTerm) frame) (h' : Resident (s.after k') live) :
    ∃ t b S, ClockStepped s (s.after k') (.call (.halt cause frame)) t b S := by
  have hcaller : s.k.caller = some (base s.k.activeTerm) := by
    rw [h.caller_eq, hlive]
    rfl
  have hupdate : Resident (s.after k') (Function.update live s.k.activeTerm (live s.k.activeTerm)) := by
    rwa [Function.update_eq_self]
  obtain ⟨argsName, hpcb⟩ := hr.pcb
  have hother {x : Slot} (hx : x ≠ base s.k.activeTerm) (j : Fin 8) : (k'.pcb x).OpenRtc j ↔ (s.k.pcb x).OpenRtc j := by
    rw [hpcb, Function.update_of_ne hx]
  refine ⟨s.k.activeTerm, s.k.rtc.active s.k.activeTerm,
    s.rtcDescs s.k.activeTerm \ { x | x.1 = base s.k.activeTerm }, ⟨?_, ?_⟩, ?_, ?_⟩
  · rw [Function.update_eq_self]
    exact congrArg Rtc.active hr.rtc
  · apply h.rtcDescs_after hupdate
    · intro u hu x hx j
      refine hother ?_ j
      rintro rfl
      exact hu (h.separate.unique u s.k.activeTerm _ hx (by simp [hlive]))
    · intro x j
      rw [Set.mem_sdiff, h.mem_rtcDescs]
      by_cases hx : x = base s.k.activeTerm
      · subst x
        rw [hpcb, Function.update_self]
        simp [not_openRtc_spawned]
      · simp [hx, hother hx j]
  · have hcond : ClosesLast s (.call (.halt cause frame)) ↔
        (s.rtcDescs s.k.activeTerm ⊆ { x | x.1 = base s.k.activeTerm } → s.rtcDescs s.k.activeTerm = ∅) := by
      simp only [ClosesLast, hcaller, Option.some.injEq, forall_eq', if_true]
    rw [hcond]
    exact Tracks.diff (hs.mirrors _)
  · exact fun x hx => hs.own _ x hx.1

/-- A call or a tick. -/
theorem Clocked.stepped (hs : Clocked s) (h : Resident s live) {e : Event} (hk' : step disk.fs s.k e = some k')
    (hstep : Stepped disk.fs s.k live e k' live') : ∃ t b S, ClockStepped s (s.after k') (.call e) t b S := by
  have h' := h.stepped hstep
  cases hstep with
  | @executed command frame k' i hfree hleast he =>
    obtain ⟨argsName, hpcb⟩ := he.pcb
    have hdescs := h.rtcDescs_pushed hfree h'
      (by rw [hpcb, Function.update_self]; exact not_openRtc_spawned _ _ _ _ _)
      (fun p hp j => by rw [hpcb, Function.update_of_ne hp])
    exact ⟨s.k.activeTerm, _, _, hs.kept (congrArg Rtc.active he.rtc) hdescs trivial⟩
  | refused _ => exact ⟨s.k.activeTerm, _, _, hs.kept rfl (h.rtcDescs_kept h' fun _ _ => Iff.rfl) trivial⟩
  | returned hlive hbase hr => exact hs.returned h hlive hbase hr h'
  | restarted hlive hr => exact hs.restarted h hlive hr h'
  | described he _ => exact hs.described h he h' (descClock_of_step he hk')
  | @started regs frame k' i haction hnone hfree hleast he =>
    obtain ⟨argsName, hpcb⟩ := he.pcb
    have hsaved (p : Slot) (j : Fin 8) :
        ((s.k.saveSchedule (base s.k.activeTerm) regs).pcb p).OpenRtc j ↔ (s.k.pcb p).OpenRtc j :=
      openRtc_congr (saveSchedule_kept s.k (base s.k.activeTerm) p regs).2 j
    have hpush : Resident (s.after k')
        (Function.update live (s.k.activeTerm + 1) (i :: live (s.k.activeTerm + 1))) := by
      rwa [hnone]
    have hdescs := h.rtcDescs_pushed hfree hpush
      (by rw [hpcb, Function.update_self]; exact not_openRtc_spawned _ _ _ _ _)
      (fun p hp j => by rw [hpcb, Function.update_of_ne hp]; exact hsaved p j)
    exact ⟨s.k.activeTerm, _, _, hs.kept (congrArg Rtc.active he.rtc) hdescs trivial⟩
  | @startRefused regs frame haction hfull =>
    have hsaved (p : Slot) (j : Fin 8) :=
      openRtc_congr (saveSchedule_kept s.k (base s.k.activeTerm) p regs).2 j
    exact ⟨s.k.activeTerm, _, _, hs.kept rfl (h.rtcDescs_kept h' hsaved) trivial⟩
  | @switched regs frame k' p q restp restq haction hp hq hsw =>
    have hsaved (x : Slot) (j : Fin 8) : (k'.pcb x).OpenRtc j ↔ (s.k.pcb x).OpenRtc j := by
      rw [show k'.pcb = (s.k.saveSchedule p regs).pcb from hsw.pcb]
      exact openRtc_congr (saveSchedule_kept s.k p x regs).2 j
    exact ⟨s.k.activeTerm, _, _, hs.kept (congrArg Rtc.active hsw.rtc) (h.rtcDescs_kept h' hsaved) trivial⟩

/-- A change of the RTC that leaves the bits alone. -/
theorem ClockStepped.setRtc {e : ClockEvent} {b : Bool} {S : Set (Slot × Fin 8)} {rtc : Rtc}
    (h : ClockStepped s (s.after k') e t b S) (hactive : rtc.active = k'.rtc.active) :
    ClockStepped s (s.after { k' with rtc }) e t b S where
  active := hactive.trans h.active
  descs := h.descs
  tracks := h.tracks
  own := h.own

/-- The RTC is no part of the process table. -/
theorem Resident.setRtc {rtc : Rtc} (h : Resident (s.after k') live) : Resident (s.after { k' with rtc }) live where
  toProcessTable := h.toProcessTable.congr ⟨rfl, rfl, rfl, fun _ => rfl, fun _ => rfl⟩
  first := h.first
  second := h.second
  home := h.home

/-- A step that changes nothing. -/
theorem Resident.after_self (h : Resident s live) : Resident (s.after s.k) live where
  toBooted := h.toBooted
  home _ _ hp := h.after_home hp

/-- The first half of `rtc_read` changes no bit and raises no flag. -/
theorem started_eq (r : Kernel.ReadResult) : ∃ rtc, r.started = { r.after with rtc } ∧
    rtc.active = r.after.rtc.active ∧ ∀ t, rtc.intFlag t = true → r.after.rtc.intFlag t = true := by
  have hstart (q : Rtc) (t u : Fin 3) : (q.readStart t).active = q.active ∧
      ((q.readStart t).intFlag u = true → q.intFlag u = true) := by
    unfold Rtc.readStart
    split
    · refine ⟨rfl, fun (hflag : Function.update q.intFlag t false u = true) => ?_⟩
      by_cases hu : u = t
      · subst u
        rw [Function.update_self] at hflag
        cases hflag
      · rwa [Function.update_of_ne hu] at hflag
    · exact ⟨rfl, id⟩
  cases r with
  | done ret bytes k => exact ⟨k.rtc, rfl, rfl, fun _ => id⟩
  | waits driver k =>
    cases driver with
    | rtc => exact ⟨_, rfl, (hstart k.rtc k.activeTerm 0).1, fun t => (hstart k.rtc k.activeTerm t).2⟩
    | stdin | stdout | dir | file => exact ⟨k.rtc, rfl, rfl, fun _ => id⟩

/-- `rtc_write` changes at most the reload value. -/
theorem rtcWrite_eq (r : Rtc) (buf : Bytes) : ∃ resetCount, (r.write buf).2 = { r with resetCount } := by
  rw [Rtc.write]
  exact ⟨_, rfl⟩

/-- `write` changes at most the reload value. -/
theorem write_rtc {k : Kernel} {fd : ℤ} {buf : Option Bytes} {nbytes : ℤ} {r : Kernel.WriteResult}
    (h : k.write fd buf nbytes = some r) :
    ∃ rtc, r.after = { k with rtc } ∧ rtc.active = k.rtc.active ∧ rtc.intFlag = k.rtc.intFlag := by
  unfold Kernel.write at h
  split at h
  · rename_i bytes _
    obtain ⟨c, -, rfl⟩ := Option.map_eq_some_iff.mp h
    split
    · unfold Kernel.driverWrite
      split
      · obtain ⟨resetCount, hrtc⟩ := rtcWrite_eq k.rtc bytes
        rw [hrtc]
        exact ⟨_, rfl, rfl, rfl⟩
      all_goals exact ⟨k.rtc, rfl, rfl, rfl⟩
    · exact ⟨k.rtc, rfl, rfl, rfl⟩
  · cases h
    exact ⟨k.rtc, rfl, rfl, rfl⟩

/-- The interrupt of the hardware clock changes no bit. -/
theorem handler_active (r : Rtc) : r.handler.active = r.active := funext fun t => (r.handler_at t).1.active

/-- The steps of the machine with the clock: a call or a tick, followed by a change of the RTC that leaves the
bits alone. -/
theorem clockStep_cases {e : ClockEvent} {s' : HomedKernel} (hs' : clockStep disk.fs s e = some s') :
    ∃ k' rtc, s' = s.after { k' with rtc } ∧ rtc.active = k'.rtc.active ∧
      ((∃ e', e = .call e' ∧ step disk.fs s.k e' = some k' ∧
          ∀ t, rtc.intFlag t = true → k'.rtc.intFlag t = true) ∨
        k' = s.k ∧ (∀ e', e ≠ .call e') ∧
          ∀ t, rtc.intFlag t = true → s.k.rtc.intFlag t = true ∨ e = .interrupt ∧ s.k.rtc.raises t = true) := by
  obtain ⟨k₁, hk₁, rfl⟩ := Option.map_eq_some_iff.mp hs'
  cases e with
  | call e =>
    cases e with
    | read fd nbytes =>
      obtain ⟨r, hr, rfl⟩ := Option.map_eq_some_iff.mp hk₁
      obtain ⟨rtc, hstarted, hactive, hflag⟩ := started_eq r
      refine ⟨r.after, rtc, by rw [hstarted], hactive, Or.inl ⟨_, rfl, ?_, hflag⟩⟩
      rw [step, hr]
      rfl
    | execute _ _ | halt _ _ | openFile _ | close _ | getargs _ | tick _ _ =>
      exact ⟨k₁, k₁.rtc, rfl, rfl, Or.inl ⟨_, rfl, hk₁, fun _ => id⟩⟩
  | write fd buf nbytes =>
    obtain ⟨r, hr, rfl⟩ := Option.map_eq_some_iff.mp hk₁
    obtain ⟨rtc, hafter, hactive, hflag⟩ := write_rtc hr
    refine ⟨s.k, rtc, by rw [hafter], hactive, Or.inr ⟨rfl, fun _ => ClockEvent.noConfusion, fun t ht => ?_⟩⟩
    rw [hflag] at ht
    exact Or.inl ht
  | interrupt =>
    cases hk₁
    refine ⟨s.k, _, rfl, handler_active _, Or.inr ⟨rfl, fun _ => ClockEvent.noConfusion, fun t ht => ?_⟩⟩
    rw [(s.k.rtc.handler_at t).1.intFlag, Bool.or_eq_true] at ht
    exact ht.symm.imp_right fun hraises => ⟨rfl, hraises⟩

/-- Every step keeps the stacks. -/
theorem Resident.clockStepped (h : Resident s live) {e : ClockEvent} {s' : HomedKernel}
    (hs' : clockStep disk.fs s e = some s') : ∃ live', Resident s' live' := by
  obtain ⟨k', rtc, rfl, -, ⟨e', -, hk', -⟩ | ⟨rfl, -, -⟩⟩ := clockStep_cases hs'
  · obtain ⟨live', hstep⟩ := h.toBooted.step_cases hk'
    exact ⟨live', (h.stepped hstep).setRtc⟩
  · exact ⟨live, h.after_self.setRtc⟩

/-- Every step changes the bit and the descriptors of at most one terminal. -/
theorem Clocked.clockStepped (hs : Clocked s) (h : Resident s live) {e : ClockEvent} {s' : HomedKernel}
    (hs' : clockStep disk.fs s e = some s') : ∃ t b S, ClockStepped s s' e t b S := by
  obtain ⟨k', rtc, rfl, hactive, ⟨e', rfl, hk', -⟩ | ⟨rfl, hne, -⟩⟩ := clockStep_cases hs'
  · obtain ⟨live', hstep⟩ := h.toBooted.step_cases hk'
    obtain ⟨t, b, S, hchange⟩ := hs.stepped h hk' hstep
    exact ⟨t, b, S, hchange.setRtc hactive⟩
  · have hcond : ClosesLast s e := by
      cases e with
      | call e => exact absurd rfl (hne e)
      | write _ _ _ | interrupt => trivial
    have hsame : (s.after s.k).rtcDescs = s.rtcDescs := h.rtcDescs_kept h.after_self fun _ _ => Iff.rfl
    have hkept : ClockStepped s (s.after s.k) e 0 _ _ := hs.kept rfl hsame hcond
    exact ⟨0, _, _, hkept.setRtc hactive⟩

/-- No call and no tick changes a flag. -/
theorem Stepped.intFlag {e : Event} {k : Kernel} (hstep : Stepped disk.fs k live e k' live')
    (hk' : step disk.fs k e = some k') : k'.rtc.intFlag = k.rtc.intFlag := by
  cases hstep with
  | executed _ _ he => rw [he.rtc]
  | refused _ => rfl
  | returned _ _ hr =>
    rw [hr.rtc]
    split <;> rfl
  | restarted _ hr => rw [hr.rtc]
  | described he _ =>
    cases descClock_of_step he hk' with
    | kept hkept _ => rw [hkept.rtc]
    | opened _ _ _ hrtc _ | closed _ _ _ _ _ hrtc =>
      rw [hrtc]
      rfl
  | started _ _ _ _ he => rw [he.rtc]; rfl
  | startRefused _ _ => rfl
  | switched _ _ _ hs => rw [hs.rtc]

/-- A step that is no interrupt raises no flag. -/
theorem Resident.flag_raised (h : Resident s live) {e : ClockEvent} {s' : HomedKernel}
    (hs' : clockStep disk.fs s e = some s') (hflag : s'.k.rtc.intFlag t = true) :
    s.k.rtc.intFlag t = true ∨ e = .interrupt ∧ s.k.rtc.raises t = true := by
  obtain ⟨k', rtc, rfl, -, ⟨e', rfl, hk', hcall⟩ | ⟨rfl, -, hother⟩⟩ := clockStep_cases hs'
  · obtain ⟨live', hstep⟩ := h.toBooted.step_cases hk'
    refine Or.inl ?_
    rw [← hstep.intFlag hk']
    exact hcall t hflag
  · exact hother t hflag

/-- With its flag cleared, a terminal waits for an interrupt that raises it. -/
theorem Resident.waitsForRaise (h : Resident s live) (hflag : s.k.rtc.intFlag t = false) :
    WaitsForRaise disk.fs t s := by
  intro later s' hrun hdone
  let Quiet (m : HomedKernel) (e : ClockEvent) : Prop := ¬(e = .interrupt ∧ m.k.rtc.raises t = true)
  by_cases hquiet : Along (clockStep disk.fs) Quiet s later
  · -- no interrupt raised the flag, so that it is still clear
    have hstep (m : HomedKernel) (e : ClockEvent) (m' : HomedKernel)
        (hm : (∃ live, Resident m live) ∧ m.k.rtc.intFlag t = false) (hq : Quiet m e)
        (hm' : clockStep disk.fs m e = some m') : (∃ live, Resident m' live) ∧ m'.k.rtc.intFlag t = false := by
      obtain ⟨⟨liveₘ, hₘ⟩, hclear⟩ := hm
      refine ⟨hₘ.clockStepped hm', ?_⟩
      by_contra hraised
      rcases hₘ.flag_raised hm' ((Bool.not_eq_false _).mp hraised) with hset | hraises
      · rw [hclear] at hset
        cases hset
      · exact hq hraises
    have hlast := run_invariant_of_along hstep ⟨⟨live, h⟩, hflag⟩ hquiet hrun
    rw [Rtc.readDone, hlast.2] at hdone
    cases hdone
  · obtain ⟨before, e, after, m, rfl, -, hbefore, hraised⟩ := exists_of_not_along hquiet
    obtain ⟨rfl, hraises⟩ := not_not.mp hraised
    exact ⟨before, after, m, rfl, hbefore, hraises⟩

/-- A read that starts while the bit of its terminal is set clears the flag. -/
theorem Resident.read_clears (h : Resident s live) (hmirrors : ActiveMirrors s) {e : ClockEvent} (he : ReadsRtc s e)
    {s' : HomedKernel} (hs' : clockStep disk.fs s e = some s') : s'.k.rtc.intFlag s.k.activeTerm = false := by
  match e with
  | .call (.read fd nbytes) =>
    obtain ⟨c, i, hcaller, hindex, hopen⟩ := he
    obtain ⟨rest, htop⟩ := h.live_of_caller hcaller
    have hactive : s.k.rtc.active s.k.activeTerm = true := by
      refine (hmirrors _).mpr ⟨(c, i), h.mem_rtcDescs.mpr ⟨?_, hopen⟩⟩
      rw [htop]
      exact List.mem_cons_self
    obtain ⟨k', hk', rfl⟩ := Option.map_eq_some_iff.mp hs'
    rw [clockKernel, read_rtc hcaller hindex hopen] at hk'
    cases hk'
    have hcleared : (s.k.rtc.readStart s.k.activeTerm).intFlag s.k.activeTerm = false := by
      rw [Rtc.readStart, if_pos hactive]
      exact Function.update_self _ _ _
    exact hcleared

/-- The bits and descriptors after a step that met the condition. -/
theorem Clocked.after (hs : Clocked s) {s' : HomedKernel} {e : ClockEvent} {b : Bool} {S : Set (Slot × Fin 8)}
    (hchange : ClockStepped s s' e t b S) (hcond : ClosesLast s e) : Clocked s' where
  mirrors := by
    intro u
    rw [hchange.active, hchange.descs]
    exact (tracks_update hs.mirrors t b S).mpr (hchange.tracks.mpr hcond) u
  own := by
    intro u x hx
    rw [hchange.descs] at hx
    by_cases hu : u = t
    · subst u
      rw [Function.update_self] at hx
      exact hchange.own x hx
    · rw [Function.update_of_ne hu] at hx
      exact hs.own u x hx

/-- There is no condition on a step that cannot be taken. -/
theorem Resident.closesLast_of_none (h : Resident s live) {e : ClockEvent} (hnone : clockStep disk.fs s e = none) :
    ClosesLast s e := by
  rw [clockStep, Option.map_eq_none_iff] at hnone
  match e with
  | .call (.close fd) =>
    intro c i hcaller hindex _
    obtain ⟨rfl, -⟩ := descIndex_eq_some.mp hindex
    obtain ⟨ret, hclose⟩ := Kernel.close_some hcaller i
    rw [clockKernel, step, hclose] at hnone
    · cases hnone
    · intro _ _ heq
      cases heq
  | .call (.halt cause frame) =>
    intro c hcaller
    obtain ⟨rest, htop⟩ := h.live_of_caller hcaller
    have hend : s.k.haltBy disk.fs cause frame = none := by
      rw [clockKernel, step, Option.map_eq_none_iff] at hnone
      · exact hnone
      · intro _ _ heq
        cases heq
    split_ifs with hbase
    · rw [hbase] at htop
      obtain ⟨k', hk', -⟩ : ∃ k', s.k.haltBy disk.fs cause frame = some (.restarted k') ∧ _ :=
        h.halt_base htop cause frame
      rw [hend] at hk'
      cases hk'
    · cases rest with
      | nil =>
        intro p hparent
        have hlinks := h.links s.k.activeTerm
        rw [htop] at hlinks
        have hnone : (s.k.pcb c).parentPid = none := hlinks.1.resolve_left hbase
        rw [hnone] at hparent
        cases hparent
      | cons q rest =>
        obtain ⟨k', hk', -⟩ : ∃ k', s.k.haltBy disk.fs cause frame = some (.returned _ k') ∧ _ :=
          h.halt_child htop hbase cause frame
        rw [hend] at hk'
        cases hk'
  | .call (.execute _ _) | .call (.openFile _) | .call (.read _ _) | .call (.getargs _) | .call (.tick _ _)
  | .write _ _ _ | .interrupt => trivial

/-- A step is sound exactly under the condition. -/
theorem Clocked.sound_iff (hs : Clocked s) (h : Resident s live) (e : ClockEvent) :
    ClockSound disk.fs s e ↔ ClosesLast s e := by
  cases hs' : clockStep disk.fs s e with
  | none =>
    refine iff_of_true (fun s' heq => ?_) (h.closesLast_of_none hs')
    rw [hs'] at heq
    cases heq
  | some s' =>
    obtain ⟨t, b, S, hchange⟩ := hs.clockStepped h hs'
    constructor
    · intro hsound
      have hmirrors := (hsound s' hs').1
      have htracks := hmirrors t
      rw [hchange.active, hchange.descs, Function.update_self, Function.update_self] at htracks
      exact hchange.tracks.mp htracks
    · intro hcond s'' heq
      cases hs'.symm.trans heq
      obtain ⟨live', h'⟩ := h.clockStepped hs'
      exact ⟨(hs.after hchange hcond).mirrors, fun he => h'.waitsForRaise (h.read_clears hs.mirrors he hs')⟩

end Changes

section Boot

variable {disk : Disk} {pcb : Slot → Pcb} {page : UInt32 → ℕ → UInt8} {frame : ExecFrame}

/-- At boot no clock counts and no RTC descriptor is open. -/
theorem clocked_boot : Clocked (homedBoot disk pcb page frame) := by
  have hempty (t : Fin 3) : (homedBoot disk pcb page frame).rtcDescs t = ∅ := by
    apply Set.eq_empty_of_forall_notMem
    rintro ⟨p, i⟩ hx
    obtain ⟨hp, hopen⟩ := resident_boot.mem_rtcDescs.mp hx
    have he : Kernel.Executed (bootKernel pcb page) (boot disk pcb page frame) (base 0) frame := executed_boot
    obtain ⟨argsName, hpcb⟩ := he.pcb
    rcases mem_update.mp hp with ⟨-, hin⟩ | ⟨-, hin⟩
    · obtain rfl := List.mem_singleton.mp hin
      change ((boot disk pcb page frame).pcb (base 0)).OpenRtc i at hopen
      rw [hpcb, Function.update_self] at hopen
      exact not_openRtc_spawned _ _ _ _ _ _ hopen
    · exact absurd hin List.not_mem_nil
  refine ⟨fun t => ?_, fun t x hx => ?_⟩
  · have hrtc : (homedBoot disk pcb page frame).k.rtc.active t = false := by
      change (boot disk pcb page frame).rtc.active t = false
      rw [executed_boot.rtc]
      rfl
    rw [hrtc, hempty]
    simp
  · rw [hempty] at hx
    exact hx.elim

/-- From boot, after every step the activity bits mirror the open RTC descriptors, and every read on such a
descriptor waits for an interrupt after its start, if and only if every step that closes an RTC descriptor
or ends a process meets the condition. -/
theorem rtcActive_mirrors_iff (events : List ClockEvent) :
    Along (clockStep disk.fs) (ClockSound disk.fs) (homedBoot disk pcb page frame) events ↔
      Along (clockStep disk.fs) ClosesLast (homedBoot disk pcb page frame) events := by
  have hstep (s : HomedKernel) (e : ClockEvent) (s' : HomedKernel) (hs : (∃ live, Resident s live) ∧ Clocked s)
      (hsound : ClockSound disk.fs s e) (hs' : clockStep disk.fs s e = some s') :
      (∃ live, Resident s' live) ∧ Clocked s' := by
    obtain ⟨⟨live, h⟩, hclocked⟩ := hs
    obtain ⟨t, b, S, hchange⟩ := hclocked.clockStepped h hs'
    exact ⟨h.clockStepped hs', hclocked.after hchange ((hclocked.sound_iff h e).mp hsound)⟩
  apply along_congr hstep
  · rintro s e ⟨⟨live, h⟩, hclocked⟩
    exact hclocked.sound_iff h e
  · exact ⟨⟨bootLive, resident_boot⟩, clocked_boot⟩

end Boot

/-- The image of one executable with the device `rtc` behind it. -/
def clockMem (a : UInt32) : UInt8 :=
  (([(0x10000, 2), (0x10080, 0x72), (0x10081, 0x74), (0x10082, 0x63)] ++ shellImageBytes).lookup a).getD 0

/-- A file system with an RTC. -/
def clockDisk : Disk where
  fs := fileSystemInit clockMem 0x10000
  shellLoads _ := rfl

/-- `"rtc"` -/
def rtcName : Bytes := toBytes [0x72, 0x74, 0x63]

/-- A shell opens the RTC twice and closes one of the descriptors: the clock stands still and the other one is
open. -/
theorem rtcActive_closedOne :
    ∃ s, run (clockStep clockDisk.fs) (homedBoot clockDisk (fun _ => Pcb.zeroed) (fun _ _ => 0) zeroFrame)
        [.call (.openFile rtcName), .call (.openFile rtcName), .call (.close 2)] = some s ∧
      s.k.rtc.active 0 = false ∧ (0, 3) ∈ s.rtcDescs 0 ∧ ¬ActiveMirrors s := by
  have hrun : (run (clockStep clockDisk.fs) (homedBoot clockDisk (fun _ => Pcb.zeroed) (fun _ _ => 0) zeroFrame)
      [.call (.openFile rtcName), .call (.openFile rtcName), .call (.close 2)]).map (fun s =>
        (s.k.rtc.active 0, decide (s.LiveOn 0 0), decide ((s.k.pcb 0).OpenRtc 3))) = some (false, true, true) := by
    decide +kernel
  obtain ⟨s, hs, heq⟩ := Option.map_eq_some_iff.mp hrun
  simp only [Prod.mk.injEq, decide_eq_true_eq] at heq
  obtain ⟨hactive, hlive, hopen⟩ := heq
  have hmem : ((0, 3) : Slot × Fin 8) ∈ s.rtcDescs 0 := ⟨hlive, hopen⟩
  refine ⟨s, hs, hactive, hmem, fun hmirrors => ?_⟩
  have hset := (hmirrors 0).mpr ⟨_, hmem⟩
  rw [hactive] at hset
  cases hset

end OsKernel
