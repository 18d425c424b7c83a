import OsKernel.ThreadOwner

/-!
# What a thread does to its slots

Each statement of `execute` and `halt`, taken by the thread of one terminal, keeps what the thread
knows of its own slots and leaves the slots of other terminals alone. The one exception is a search
that finds a slot another thread still needs; that a restart does not is an assumption here.
-/

namespace OsKernel

open Library

section Statements

variable {k k' : Kernel} {fs : FileSystem} {t : Fin 3} {stack rest : List Slot} {pcb : Slot}

/-- A thread at rest, with its running process taken apart. -/
theorem AtRest.cons (h : AtRest k t stack) (htop : stack.head? = some pcb) :
    ∃ rest, stack = pcb :: rest ∧ Settled k t rest ∧ (pcb = base t ∨ (k.pcb pcb).parentPid = rest.head?) := by
  obtain ⟨rest, rfl⟩ := List.head?_eq_some_iff.mp htop
  refine ⟨rest, rfl, ⟨?_, ?_, h.links.2⟩, h.links.1⟩
  · exact fun i hi => h.used i (List.mem_cons_of_mem _ hi)
  · exact fun i hi => h.pcbPid i (List.mem_cons_of_mem _ hi)

/-- A change to one PCB is not seen by the other processes. -/
theorem sameProc_modifyPcb (k : Kernel) (f : Pcb → Pcb) {i : Slot} (hi : i ≠ pcb) :
    SameProc k (k.modifyPcb pcb f) i where
  pid := rfl
  pcbPid := congrArg Pcb.pid (k.modifyPcb_of_ne hi f)
  parentPid := congrArg Pcb.parentPid (k.modifyPcb_of_ne hi f)

/-- A change that keeps both pids of a PCB is not seen by any process. -/
theorem sameProc_keep (k : Kernel) {f : Pcb → Pcb} (hpid : ∀ p : Pcb, (f p).pid = p.pid)
    (hparent : ∀ p : Pcb, (f p).parentPid = p.parentPid) (i : Slot) : SameProc k (k.modifyPcb pcb f) i := by
  by_cases hi : i = pcb
  · subst i
    exact ⟨rfl, by rw [Kernel.modifyPcb_self, hpid], by rw [Kernel.modifyPcb_self, hparent]⟩
  · exact sameProc_modifyPcb k f hi

/-- The statements of `execute` change the process table at the new process only. -/
theorem sameProc_execStmt (k : Kernel) (s : ExecStmt) {i : Slot} (hi : i ≠ pcb) : SameProc k (s.run pcb k) i := by
  cases s with
  | store offset byte =>
    obtain ⟨page, hpage⟩ := Kernel.store_eq k pcb offset byte
    rw [hpage]
    exact ⟨rfl, rfl, rfl⟩
  | setPid | setParentPid | setActive | initDescs | setArgs _ | saveEbp _ | saveEsp _ =>
    rw [ExecStmt.run]
    exact sameProc_modifyPcb k _ hi
  | setupMem | setEsp0 | setTermProc | iret _ =>
    simp only [ExecStmt.run]
    exact ⟨rfl, rfl, rfl⟩

/-- A statement that is not the first of those still to come. -/
theorem mem_of_mem_cons_of_ne {A : Type*} {a s : A} {todo : List A} (h : a ∈ s :: todo) (hne : a ≠ s) : a ∈ todo :=
  (List.mem_cons.mp h).resolve_left hne

/-- Statements of `execute` that do not matter here. -/
theorem SettingUp.skip {s : ExecStmt} {todo : List ExecStmt} (h : SettingUp k t pcb rest (s :: todo))
    (hpid : .setPid ≠ s) (hparent : .setParentPid ≠ s) (hterm : .setTermProc ≠ s) :
    SettingUp k t pcb rest todo where
  toSettled := h.toSettled
  usedTop := h.usedTop
  curr := h.curr
  prev := h.prev
  pcbPidTop := h.pcbPidTop.imp (mem_of_mem_cons_of_ne · hpid) id
  link := h.link.imp (mem_of_mem_cons_of_ne · hparent) id
  proc := h.proc.imp id fun h => ⟨mem_of_mem_cons_of_ne h.1 hterm, h.2⟩

/-- A change to parts of the new PCB that do not matter here. -/
theorem SettingUp.modifyPcb {todo : List ExecStmt} {f : Pcb → Pcb} (h : SettingUp k t pcb rest todo)
    (hnot : pcb ∉ rest) (hpid : ∀ p : Pcb, (f p).pid = p.pid) (hparent : ∀ p : Pcb, (f p).parentPid = p.parentPid) :
    SettingUp (k.modifyPcb pcb f) t pcb rest todo where
  toSettled := h.toSettled.congr fun i hi => sameProc_modifyPcb k f fun heq => hnot (heq ▸ hi)
  usedTop := h.usedTop
  curr := h.curr
  prev := h.prev
  pcbPidTop := by
    rw [Kernel.modifyPcb_self, hpid]
    exact h.pcbPidTop
  link := by
    rw [Kernel.modifyPcb_self, hparent]
    exact h.link
  proc := h.proc

/-- A statement of `execute` in the new process. -/
theorem SettingUp.step {s : ExecStmt} {todo : List ExecStmt} (h : SettingUp k k.activeTerm pcb rest (s :: todo))
    (hnot : pcb ∉ rest) : SettingUp (s.run pcb k) k.activeTerm pcb rest todo := by
  have hsettled : Settled (s.run pcb k) k.activeTerm rest := h.toSettled.congr fun i hi =>
    sameProc_execStmt k s fun heq => hnot (heq ▸ hi)
  cases s with
  | setPid =>
    refine ⟨hsettled, h.usedTop, h.curr, h.prev, Or.inr ?_, ?_, ?_⟩
    · rw [ExecStmt.run, Kernel.modifyPcb_self]
      exact h.curr
    · rw [ExecStmt.run, Kernel.modifyPcb_self]
      exact h.link.imp (mem_of_mem_cons_of_ne · (by simp)) id
    · exact h.proc.imp id fun h => ⟨mem_of_mem_cons_of_ne h.1 (by simp), h.2⟩
  | setParentPid =>
    refine ⟨hsettled, h.usedTop, h.curr, h.prev, ?_, Or.inr ?_, ?_⟩
    · rw [ExecStmt.run, Kernel.modifyPcb_self]
      exact h.pcbPidTop.imp (mem_of_mem_cons_of_ne · (by simp)) id
    · rw [ExecStmt.run, Kernel.modifyPcb_self]
      exact h.prev
    · exact h.proc.imp id fun h => ⟨mem_of_mem_cons_of_ne h.1 (by simp), h.2⟩
  | setTermProc =>
    refine ⟨hsettled, h.usedTop, h.curr, h.prev, ?_, ?_, Or.inl ?_⟩
    · exact h.pcbPidTop.imp (mem_of_mem_cons_of_ne · (by simp)) id
    · exact h.link.imp (mem_of_mem_cons_of_ne · (by simp)) id
    · exact (Function.update_self _ _ _).trans h.curr
  | setActive | initDescs | setArgs fileName | saveEbp ebp | saveEsp esp =>
    have hskip := h.skip (by simp) (by simp) (by simp)
    rw [ExecStmt.run]
    exact hskip.modifyPcb hnot (fun _ => rfl) fun _ => rfl
  | store offset byte =>
    obtain ⟨page, hpage⟩ := Kernel.store_eq k pcb offset byte
    have hskip := h.skip (by simp) (by simp) (by simp)
    rw [hpage] at hsettled ⊢
    exact ⟨hsettled, hskip.usedTop, hskip.curr, hskip.prev, hskip.pcbPidTop, hskip.link, hskip.proc⟩
  | setupMem | setEsp0 | iret eip =>
    have hskip := h.skip (by simp) (by simp) (by simp)
    simp only [ExecStmt.run] at hsettled ⊢
    exact ⟨hsettled, hskip.usedTop, hskip.curr, hskip.prev, hskip.pcbPidTop, hskip.link, hskip.proc⟩

/-- A process that is set up. -/
theorem SettingUp.atRest (h : SettingUp k t pcb rest []) : AtRest k t (pcb :: rest) where
  used i hi := (List.mem_cons.mp hi).elim (fun heq => heq ▸ h.usedTop) (h.used i)
  pcbPid i hi := by
    have htop : (k.pcb pcb).pid = some pcb := h.pcbPidTop.resolve_left List.not_mem_nil
    exact (List.mem_cons.mp hi).elim (fun heq => heq ▸ htop) (h.pcbPid i)
  links := ⟨h.link.resolve_left List.not_mem_nil, h.links⟩
  curr := h.curr
  proc := h.proc.resolve_right fun h => List.not_mem_nil h.1

/-- `prev_pid` is read from the parent's PCB after `curr_pid` names the parent. -/
theorem setCurrPid_before_setPrevPid {todo : List HaltStmt} (h : .setPrevPid :: todo <:+ haltStmts) :
    .setCurrPid ∉ todo := by
  have hall : ∀ r ∈ haltStmts.tails, r.head? = some .setPrevPid → HaltStmt.setCurrPid ∉ r.tail := by
    decide
  exact hall _ ((List.mem_tails _ _).mpr h) rfl

/-- A process that starts to end. -/
theorem AtRest.tearingDown (h : AtRest k t (pcb :: rest)) (hbase : pcb ≠ base t) :
    TearingDown k t pcb rest haltStmts where
  used i hi := h.used i (List.mem_cons_of_mem _ hi)
  pcbPid i hi := h.pcbPid i (List.mem_cons_of_mem _ hi)
  links := h.links.2
  suffix := List.suffix_refl _
  below := Or.inl (by decide)
  pcbPidTop := h.pcbPid pcb List.mem_cons_self
  link := h.links.1.resolve_left hbase
  usedTop := (h.used pcb List.mem_cons_self).trans (by decide)
  curr := h.curr
  proc := h.proc

/-- Statements of `halt` that change nothing that matters here. -/
theorem TearingDown.skip {s : HaltStmt} {todo : List HaltStmt} (h : TearingDown k t pcb rest (s :: todo))
    (hpid : k'.pid = k.pid) (hcurr : k'.currPid = k.currPid) (hproc : k'.termProc = k.termProc)
    (hpcb : ∀ i, SameProc k k' i)
    (hnot : s ≠ .freePid ∧ s ≠ .setCurrPid ∧ s ≠ .setTermProc ∧ s ≠ .setPrevPid) :
    TearingDown k' t pcb rest todo := by
  obtain ⟨hfree, hcurrStmt, htermStmt, hprevStmt⟩ := hnot
  have hmem {s' : HaltStmt} (hne : s ≠ s') : s' ∈ s :: todo ↔ s' ∈ todo := by simp [hne.symm]
  refine ⟨h.toSettled.congr fun i _ => hpcb i, (List.suffix_cons s todo).trans h.suffix, ?_, ?_, ?_, ?_, ?_, ?_⟩
  · exact h.below.imp (hmem hprevStmt).mp id
  · rw [(hpcb pcb).pcbPid, h.pcbPidTop]
  · rw [(hpcb pcb).parentPid, h.link]
  · rw [hpid, h.usedTop]
    exact decide_eq_decide.mpr (hmem hfree)
  · rw [hcurr, h.curr]
    simp only [hmem hcurrStmt]
  · rw [hproc, h.proc]
    simp only [hmem htermStmt]

/-- A statement of `halt` in the ending process. -/
theorem TearingDown.step {s : HaltStmt} {todo : List HaltStmt} (h : TearingDown k k.activeTerm pcb rest (s :: todo))
    (hnot : pcb ∉ rest) (hrun : s.run pcb k = some k') : TearingDown k' k.activeTerm pcb rest todo := by
  have hsuffix := (List.suffix_cons s todo).trans h.suffix
  have hnext := not_mem_of_suffix h.suffix
  obtain ⟨-, htermOrder, -⟩ := haltStmts_order h.suffix
  cases s with
  | freePid =>
    obtain ⟨p, hp, rfl⟩ := Option.map_eq_some_iff.mp hrun
    obtain rfl : pcb = p := Option.some.inj (h.pcbPidTop.symm.trans hp)
    have hother {i : Slot} (hi : i ∈ rest) : Function.update k.pid pcb false i = k.pid i :=
      Function.update_of_ne (fun heq : i = pcb => hnot (heq ▸ hi)) _ _
    refine ⟨h.toSettled.congr fun i hi => ⟨hother hi, rfl, rfl⟩, hsuffix, h.below.imp (by simp) id, h.pcbPidTop,
      h.link, ?_, ?_, ?_⟩
    · exact (Function.update_self _ _ _).trans (decide_eq_false hnext).symm
    · exact h.curr.trans (by simp)
    · exact h.proc.trans (by simp)
  | setCurrPid =>
    cases hrun
    refine ⟨h.toSettled.congr fun i _ => ⟨rfl, rfl, rfl⟩, hsuffix, h.below.imp (by simp) id, h.pcbPidTop, h.link, ?_,
      ?_, ?_⟩
    · exact h.usedTop.trans (by simp)
    · rw [if_neg hnext]
      exact (Function.update_self _ _ _).trans h.link
    · exact h.proc.trans (by simp)
  | setTermProc =>
    cases hrun
    have hcurr : k.currPid k.activeTerm = rest.head? := by
      rw [h.curr, if_neg]
      simpa using (htermOrder rfl).1
    refine ⟨h.toSettled.congr fun i _ => ⟨rfl, rfl, rfl⟩, hsuffix, h.below.imp (by simp) id, h.pcbPidTop, h.link, ?_,
      ?_, ?_⟩
    · exact h.usedTop.trans (by simp)
    · exact h.curr.trans (by simp)
    · rw [if_neg hnext]
      exact (Function.update_self _ _ _).trans hcurr
  | setPrevPid =>
    obtain ⟨p, hp, rfl⟩ := Option.map_eq_some_iff.mp hrun
    have hcurr : k.caller = rest.head? := by
      rw [Kernel.caller, h.curr, if_neg]
      simpa using setCurrPid_before_setPrevPid h.suffix
    have hbelow : rest ≠ [] := by
      rintro rfl
      cases hp.symm.trans hcurr
    refine ⟨h.toSettled.congr fun i _ => ⟨rfl, rfl, rfl⟩, hsuffix, Or.inr hbelow, h.pcbPidTop, h.link, ?_, ?_, ?_⟩
    · exact h.usedTop.trans (by simp)
    · exact h.curr.trans (by simp)
    · exact h.proc.trans (by simp)
  | clearActive =>
    cases hrun
    exact h.skip rfl rfl rfl (sameProc_keep k (fun _ => rfl) fun _ => rfl) (by simp)
  | setPde =>
    simp only [HaltStmt.run, Option.some.injEq] at hrun
    subst hrun
    exact h.skip rfl rfl rfl (fun i => ⟨rfl, rfl, rfl⟩) (by simp)
  | close fd =>
    obtain ⟨⟨ret, k'⟩, hclose, rfl⟩ := Option.map_eq_some_iff.mp hrun
    have hd := (descCall_close hclose).sameTable
    have hpcb (i : Slot) : SameProc k k' i := ⟨congrFun hd.pid i, hd.pcbPid i, hd.parentPid i⟩
    exact h.skip hd.pid hd.currPid hd.termProc hpcb (by simp)
  | setEsp0 =>
    obtain ⟨p, -, rfl⟩ := Option.map_eq_some_iff.mp hrun
    exact h.skip rfl rfl rfl (fun i => ⟨rfl, rfl, rfl⟩) (by simp)

/-- The statements of `halt` change the process table at the ending process only. -/
theorem sameProc_haltStmt {s : HaltStmt} (hpid : (k.pcb pcb).pid = some pcb) (hrun : s.run pcb k = some k') :
    ∀ i ∉ pcb :: rest, SameProc k k' i := by
  intro i hi
  have hne : i ≠ pcb := fun heq => hi (heq ▸ List.mem_cons_self)
  cases s with
  | freePid =>
    obtain ⟨p, hp, rfl⟩ := Option.map_eq_some_iff.mp hrun
    obtain rfl : pcb = p := Option.some.inj (hpid.symm.trans hp)
    exact ⟨Function.update_of_ne hne _ _, rfl, rfl⟩
  | clearActive =>
    cases hrun
    exact sameProc_modifyPcb k _ hne
  | setCurrPid | setTermProc =>
    cases hrun
    exact ⟨rfl, rfl, rfl⟩
  | setPde =>
    simp only [HaltStmt.run, Option.some.injEq] at hrun
    subst hrun
    exact ⟨rfl, rfl, rfl⟩
  | close fd =>
    obtain ⟨⟨ret, k'⟩, hclose, rfl⟩ := Option.map_eq_some_iff.mp hrun
    have hd := (descCall_close hclose).sameTable
    exact ⟨congrFun hd.pid i, hd.pcbPid i, hd.parentPid i⟩
  | setPrevPid | setEsp0 =>
    obtain ⟨p, -, rfl⟩ := Option.map_eq_some_iff.mp hrun
    exact ⟨rfl, rfl, rfl⟩

/-- A process that has ended leaves its parent at rest. -/
theorem TearingDown.atRest (h : TearingDown k t pcb rest []) : AtRest k t rest ∧ rest ≠ [] :=
  ⟨⟨h.toSettled, h.curr, h.proc⟩, h.below.resolve_left List.not_mem_nil⟩

/-- What the next statement of a thread does: its terminal's stack, and what the others see of it. -/
structure OwnStep (k k' : Kernel) (t : Fin 3) (stack stack' : List Slot) (code' : Code) : Prop where
  owns : ThreadOwns k' t stack' code'
  other : ∀ i ∉ stack, SameProc k k' i
  left : ∀ i ∈ stack, i ∈ stack' ∨ k'.pid i = false
  bottom : ∀ b, stack.getLast? = some b → stack'.getLast? = some b

/-- A statement that keeps the stack. -/
theorem OwnStep.stay {code : Code} (howns : ThreadOwns k' t stack code) (hother : ∀ i ∉ stack, SameProc k k' i) :
    OwnStep k k' t stack stack code :=
  ⟨howns, hother, fun _ hi => Or.inl hi, fun _ hb => hb⟩

/-- The search loop. A restart finds the slot of its own base shell. -/
theorem OwnStep.search {call : ExecCall} {i : Slot} {code' : Code} (h : ThreadOwns k t stack (.search call i))
    (hpick : call.halting ≠ none → k.pid i = false → i = base t)
    (hnext : (Code.search call i).next fs k = some (code', k')) :
    OwnStep k k' t stack ((Code.search call i).stackAfter k stack) code' := by
  have hsame : ∀ i ∉ stack, SameProc k k i := fun _ _ => ⟨rfl, rfl, rfl⟩
  cases hhalting : call.halting with
  | none =>
    simp only [ThreadOwns, hhalting] at h
    simp only [Code.next, hhalting, Code.refused] at hnext
    split_ifs at hnext with hused hlast <;> cases hnext
    · rw [Code.stackAfter, if_pos hused]
      exact .stay (by simpa only [ThreadOwns, hhalting] using h) hsame
    · rw [Code.stackAfter, if_pos hused]
      exact .stay h hsame
    · rw [Code.stackAfter, if_neg hused, hhalting]
      refine ⟨?_, hsame, fun j hj => Or.inl (List.mem_cons_of_mem i hj), fun b hb => ?_⟩
      · simp only [ThreadOwns, hhalting]
        exact ⟨stack, rfl, h⟩
      · exact (List.getLast?_cons).trans (by rw [hb]; rfl)
  | some halting =>
    simp only [ThreadOwns, hhalting] at h
    obtain ⟨hle, hfree, hpicked⟩ := h
    simp only [Code.next] at hnext
    split_ifs at hnext with hused hlast <;> cases hnext
    · have hlt : i < base t := lt_of_le_of_ne hle fun heq => by
        rw [heq, hfree] at hused
        cases hused
      rw [Code.stackAfter, if_pos hused]
      refine .stay ?_ hsame
      simp only [ThreadOwns, hhalting]
      exact ⟨Fin.le_def.mpr hlt, hfree, hpicked⟩
    · have hlt : i < base t := lt_of_le_of_ne hle fun heq => by
        rw [heq, hfree] at hused
        cases hused
      exact absurd (lt_of_le_of_lt (Nat.succ_le_of_lt hlt) (base t).isLt) hlast
    · obtain rfl : i = base t := hpick (by simp [hhalting]) ((Bool.not_eq_true _).mp hused)
      have hown : call.halting.map Prod.fst = some (base t) := by
        obtain ⟨rest, -, hpcb, -⟩ := hpicked
        rw [hhalting, Option.map_some, hpcb]
      rw [Code.stackAfter, if_neg hused, if_pos hown]
      refine .stay ?_ hsame
      simp only [ThreadOwns, hhalting]
      exact hpicked

/-- Marking the found slot. -/
theorem OwnStep.mark {call : ExecCall} {i : Slot} (h : ThreadOwns k t stack (.mark call i)) (hnodup : stack.Nodup) :
    OwnStep k (k.markPid i) t stack stack (.savePrev call i) := by
  have hother {j : Slot} (hj : j ≠ i) : SameProc k (k.markPid i) j := ⟨Function.update_of_ne hj _ _, rfl, rfl⟩
  refine .stay ⟨Function.update_self _ _ _, Picked.congr h rfl rfl fun j hj => hother ?_⟩ fun j hj => hother ?_
  · obtain ⟨rest, rfl, -⟩ := h
    rintro rfl
    exact (List.nodup_cons.mp hnodup).1 hj
  · rintro rfl
    exact hj (Picked.mem h)

/-- Making the found slot the terminal's process. -/
theorem OwnStep.setCurr {call : ExecCall} {i : Slot} (h : ThreadOwns k k.activeTerm stack (.setCurr call i)) :
    OwnStep k (k.setCurrPid (some i)) k.activeTerm stack stack (.setup i (call.prog.execStmts fs call.frame)) := by
  obtain ⟨hused, hprev, rest, rfl, hrest⟩ := h
  have hsame (j : Slot) : SameProc k (k.setCurrPid (some i)) j := ⟨rfl, rfl, rfl⟩
  have hcurr : (k.setCurrPid (some i)).currPid k.activeTerm = some i := Function.update_self _ _ _
  obtain ⟨hpid, hparent, -, hterm⟩ := mem_execStmts call.prog fs call.frame
  refine .stay ⟨rest, rfl, ?_⟩ fun j _ => hsame j
  cases hhalting : call.halting with
  | none =>
    rw [hhalting] at hrest
    have hrest : AtRest k k.activeTerm rest := hrest
    refine ⟨hrest.toSettled.congr fun j _ => hsame j, hused, hcurr, Or.inr (hprev.trans hrest.curr), Or.inl hpid,
      Or.inl hparent, Or.inr ⟨hterm, hrest.proc⟩⟩
  | some halting =>
    rw [hhalting] at hrest
    obtain ⟨-, hbase, hsettled, -, hproc⟩ := hrest
    exact ⟨hsettled.congr fun j _ => hsame j, hused, hcurr, Or.inl hbase, Or.inl hpid, Or.inl hparent, Or.inl hproc⟩

/-- Freeing the slot of a base shell that is about to be replaced. -/
theorem OwnStep.freeBase {disk : Disk} {status : UInt8} {frame : ExecFrame}
    (h : ThreadOwns k k.activeTerm stack (.freeBase pcb status frame)) (hnodup : stack.Nodup) :
    OwnStep k { k with pid := Function.update k.pid (base k.activeTerm) false } k.activeTerm stack stack
      (.enter disk.fs shellCommand frame (some (pcb, status))) := by
  obtain ⟨hbase, htop, hrest⟩ := h
  obtain ⟨rest, rfl, hsettled, -⟩ := hrest.cons htop
  subst hbase
  have hother {j : Slot} (hj : j ≠ base k.activeTerm) :
      SameProc k { k with pid := Function.update k.pid (base k.activeTerm) false } j :=
    ⟨Function.update_of_ne hj _ _, rfl, rfl⟩
  obtain ⟨prog, hprog⟩ := Option.isSome_iff_exists.mp (disk.shellLoads frame)
  rw [Code.enter, hprog]
  refine .stay ⟨Fin.zero_le _, Function.update_self _ _ _, rest, rfl, rfl, rfl, hsettled.congr fun j hj => hother ?_,
    hrest.curr, hrest.proc⟩ fun j hj => hother ?_
  · rintro rfl
    exact (List.nodup_cons.mp hnodup).1 hj
  · rintro rfl
    exact hj List.mem_cons_self

/-- The rest of `halt`, and the return to the parent. -/
theorem OwnStep.unwind {status : UInt8} {todo : List HaltStmt} {code' : Code}
    (h : ThreadOwns k k.activeTerm stack (.unwind pcb status todo)) (hnodup : stack.Nodup)
    (hnext : (Code.unwind pcb status todo).next fs k = some (code', k')) :
    OwnStep k k' k.activeTerm stack ((Code.unwind pcb status todo).stackAfter k stack) code' := by
  obtain ⟨rest, rfl, hdown⟩ := h
  have hnot : pcb ∉ rest := (List.nodup_cons.mp hnodup).1
  cases todo with
  | nil =>
    cases hnext
    obtain ⟨hrest, hbelow⟩ := hdown.atRest
    have hsame (j : Slot) : SameProc k (k.haltExit pcb status).after j := by
      rw [Kernel.haltExit_eq]
      exact ⟨rfl, rfl, rfl⟩
    refine ⟨?_, fun j _ => hsame j, fun j hj => ?_, fun b hb => ?_⟩
    · rw [Kernel.haltExit_eq] at hsame ⊢
      exact AtRest.congr hrest rfl rfl fun j _ => hsame j
    · refine (List.mem_cons.mp hj).symm.imp id fun heq => ?_
      rw [heq, (hsame pcb).pid, hdown.usedTop]
      rfl
    · obtain ⟨p, below, rfl⟩ := List.exists_cons_of_ne_nil hbelow
      exact (List.getLast?_cons_cons).symm.trans hb
  | cons s todo =>
    obtain ⟨k₁, hrun, hnext⟩ := Option.map_eq_some_iff.mp hnext
    cases hnext
    exact .stay ⟨rest, rfl, hdown.step hnot hrun⟩ (sameProc_haltStmt hdown.pcbPidTop hrun)

/-- A statement of a thread in its own terminal. -/
theorem OwnStep.of_next {disk : Disk} {code code' : Code} (h : ThreadOwns k k.activeTerm stack code)
    (hnodup : stack.Nodup)
    (hpick : ∀ call i, code = .search call i → call.halting ≠ none → k.pid i = false → i = base k.activeTerm)
    (hnext : code.next disk.fs k = some (code', k')) :
    OwnStep k k' k.activeTerm stack (code.stackAfter k stack) code' := by
  have hsame : ∀ i ∉ stack, SameProc k k i := fun _ _ => ⟨rfl, rfl, rfl⟩
  cases code with
  | user => cases hnext
  | search call i => exact .search h (hpick call i rfl) hnext
  | mark call i =>
    cases hnext
    exact .mark h hnodup
  | savePrev call i =>
    cases hnext
    obtain ⟨hused, hpicked⟩ := h
    refine .stay ⟨hused, Function.update_self _ _ _, ?_⟩ fun _ _ => ⟨rfl, rfl, rfl⟩
    exact hpicked.congr rfl rfl fun _ _ => ⟨rfl, rfl, rfl⟩
  | setCurr call i =>
    cases hnext
    exact .setCurr h
  | setup pcb todo =>
    obtain ⟨rest, rfl, hsetup⟩ := h
    have hnot : pcb ∉ rest := (List.nodup_cons.mp hnodup).1
    cases todo with
    | nil =>
      cases hnext
      exact .stay hsetup.atRest hsame
    | cons s todo =>
      obtain ⟨rfl, rfl⟩ := Code.next_setup hnext
      refine .stay ⟨rest, rfl, hsetup.step hnot⟩ fun i hi => sameProc_execStmt k s ?_
      rintro rfl
      exact hi List.mem_cons_self
  | testBase pcb status frame =>
    obtain ⟨htop, hrest⟩ := h
    have hcaller : k.caller = some pcb := hrest.curr.trans htop
    simp only [Code.next, hcaller, Option.some.injEq] at hnext
    split_ifs at hnext with hbase <;> cases hnext
    · exact .stay ⟨hbase, htop, hrest⟩ hsame
    · obtain ⟨rest, rfl⟩ := List.head?_eq_some_iff.mp htop
      exact .stay ⟨rest, rfl, hrest.tearingDown hbase⟩ hsame
  | clearBase pcb status frame =>
    cases hnext
    obtain ⟨hbase, htop, hrest⟩ := h
    have hother (i : Slot) : SameProc k (k.modifyPcb pcb fun p => { p with activeFlag := false }) i := by
      refine sameProc_keep k ?_ ?_ i <;> exact fun _ => rfl
    exact .stay ⟨hbase, htop, AtRest.congr hrest rfl rfl fun i _ => hother i⟩ fun i _ => hother i
  | freeBase pcb status frame =>
    cases hnext
    exact .freeBase h hnodup
  | unwind pcb status todo => exact .unwind h hnodup hnext

/-- The statements of `halt`, uninterrupted. -/
theorem TearingDown.run {todo : List HaltStmt} (h : TearingDown k k.activeTerm pcb rest todo) (hnot : pcb ∉ rest)
    (hrun : todo.foldlM (HaltStmt.run pcb) k = some k') :
    TearingDown k' k.activeTerm pcb rest [] ∧ ∀ i ∉ pcb :: rest, SameProc k k' i := by
  induction todo generalizing k with
  | nil =>
    cases hrun
    exact ⟨h, fun _ _ => ⟨rfl, rfl, rfl⟩⟩
  | cons s todo ih =>
    obtain ⟨k₁, hs, hrest⟩ := Option.bind_eq_some_iff.mp hrun
    have hactive := (confined_haltStmt hs).activeTerm
    have hsame : ∀ i ∉ pcb :: rest, SameProc k k₁ i := sameProc_haltStmt h.pcbPidTop hs
    have hnext := h.step hnot hs
    rw [← hactive] at hnext ⊢
    obtain ⟨hlast, hrestSame⟩ := ih hnext hrest
    refine ⟨hlast, fun i hi => ⟨?_, ?_, ?_⟩⟩
    · rw [(hrestSame i hi).pid, (hsame i hi).pid]
    · rw [(hrestSame i hi).pcbPid, (hsame i hi).pcbPid]
    · rw [(hrestSame i hi).parentPid, (hsame i hi).parentPid]

/-- A process that ends uninterrupted and returns to its parent. -/
theorem OwnStep.returned {status : UInt8} {r : HaltResult} (h : AtRest k k.activeTerm stack) (hnodup : stack.Nodup)
    (htop : stack.head? = some pcb) (hbase : pcb ≠ base k.activeTerm) (hrun : k.haltReturn pcb status = some r) :
    OwnStep k r.after k.activeTerm stack stack.tail .user := by
  obtain ⟨rest, rfl⟩ := List.head?_eq_some_iff.mp htop
  have hnot : pcb ∉ rest := (List.nodup_cons.mp hnodup).1
  obtain ⟨k₁, hstmts, rfl⟩ := Option.map_eq_some_iff.mp hrun
  have hactive := (confined_haltReturn hrun).activeTerm
  obtain ⟨hdown, hsame⟩ := (h.tearingDown hbase).run hnot hstmts
  have hexit : (Code.unwind pcb status []).next shellDisk.fs k₁ = some (.user, (k₁.haltExit pcb status).after) := rfl
  have hactive₁ : k₁.activeTerm = k.activeTerm := (confined_next hexit).activeTerm.symm.trans hactive
  rw [← hactive₁] at hdown ⊢
  have hlast := OwnStep.unwind ⟨rest, rfl, hdown⟩ hnodup hexit
  refine ⟨hlast.owns, fun i hi => ⟨?_, ?_, ?_⟩, hlast.left, hlast.bottom⟩
  · rw [(hlast.other i hi).pid, (hsame i hi).pid]
  · rw [(hlast.other i hi).pcbPid, (hsame i hi).pcbPid]
  · rw [(hlast.other i hi).parentPid, (hsame i hi).parentPid]

/-- A base shell that is replaced in its slot. -/
theorem OwnStep.restarted {frame : ExecFrame} (h : AtRest k k.activeTerm stack) (hnodup : stack.Nodup)
    (htop : stack.head? = some (base k.activeTerm))
    (he : Kernel.Executed (k.dropBase (base k.activeTerm)) k' (base k.activeTerm) frame) :
    OwnStep k k' k.activeTerm stack stack .user := by
  obtain ⟨rest, rfl, hsettled, -⟩ := h.cons htop
  obtain ⟨argsName, hpcb⟩ := he.pcb
  have hother {j : Slot} (hj : j ≠ base k.activeTerm) : SameProc k k' j := by
    have hold : k'.pcb j = k.pcb j := by
      rw [hpcb, Function.update_of_ne hj]
      exact Function.update_of_ne hj _ _
    have hpid : k'.pid j = k.pid j := by
      rw [he.pid, Function.update_of_ne hj]
      exact Function.update_of_ne hj _ _
    exact ⟨hpid, by rw [hold], by rw [hold]⟩
  have hnew : (k'.pcb (base k.activeTerm)).pid = some (base k.activeTerm) := by
    rw [hpcb, Function.update_self]
    rfl
  have hpid : k'.pid (base k.activeTerm) = true := by
    rw [he.pid, Function.update_self]
  have hnot : base k.activeTerm ∉ rest := (List.nodup_cons.mp hnodup).1
  have hrest := hsettled.congr fun j hj => hother fun heq => hnot (heq ▸ hj)
  refine .stay ⟨⟨?_, ?_, Or.inl rfl, hrest.links⟩, ?_, ?_⟩ fun j hj => hother fun heq => hj (heq ▸ List.mem_cons_self)
  · exact fun i hi => (List.mem_cons.mp hi).elim (fun heq => heq ▸ hpid) (hrest.used i)
  · exact fun i hi => (List.mem_cons.mp hi).elim (fun heq => heq ▸ hnew) (hrest.pcbPid i)
  · rw [he.currPid]
    exact Function.update_self _ _ _
  · rw [he.termProc]
    exact Function.update_self _ _ _

/-- What others see of a step is the same from the state in which `halt` is called. -/
theorem OwnStep.of_raise {stack' : List Slot} {code : Code} {cause : Cause}
    (h : OwnStep (k.raise cause) k' t stack stack' code) : OwnStep k k' t stack stack' code :=
  ⟨h.owns, fun i hi => ⟨(h.other i hi).pid, (h.other i hi).pcbPid, (h.other i hi).parentPid⟩, h.left, h.bottom⟩

/-- The stack after a process ended with interrupts masked. -/
def HaltResult.stackAfter (stack : List Slot) : HaltResult → List Slot
  | .restarted _ => stack
  | .returned _ _ => stack.tail

/-- A process that ends with interrupts masked. -/
theorem OwnStep.of_haltBy {disk : Disk} {cause : Cause} {frame : ExecFrame} {r : HaltResult}
    (h : AtRest k k.activeTerm stack) (hnodup : stack.Nodup)
    (hpick : ∀ i, k.caller = some (base k.activeTerm) → (k.dropBase (base k.activeTerm)).freeSlot = some i →
      i = base k.activeTerm)
    (hhalt : k.haltBy disk.fs cause frame = some r) :
    OwnStep k r.after k.activeTerm stack (r.stackAfter stack) .user ∧
      (∀ k', r = .restarted k' → k'.caller = some (base k.activeTerm) ∧ k.caller = k'.caller) := by
  rw [haltBy_eq] at hhalt
  have hraise (i : Slot) : SameProc k (k.raise cause) i := ⟨rfl, rfl, rfl⟩
  have hrest : AtRest (k.raise cause) (k.raise cause).activeTerm stack := AtRest.congr h rfl rfl fun i _ => hraise i
  obtain ⟨c, hcaller, hhalt⟩ := Option.bind_eq_some_iff.mp hhalt
  have htop : stack.head? = some c := h.curr.symm.trans hcaller
  split at hhalt
  · rename_i hbase
    subst hbase
    split at hhalt
    · rename_i k' hexec
      cases hhalt
      obtain ⟨i, hfree, hleast, he⟩ := Kernel.execute_eq_some hexec
      obtain rfl : i = base k.activeTerm := hpick i hcaller (Kernel.freeSlot_eq_some.mpr ⟨hfree, hleast⟩)
      have hown := OwnStep.restarted hrest hnodup htop he
      refine ⟨hown.of_raise, fun k₁ heq => ?_⟩
      cases heq
      have hafter : k'.caller = some (base k.activeTerm) := by
        rw [Kernel.caller, he.currPid, he.activeTerm]
        exact Function.update_self _ _ _
      exact ⟨hafter, hcaller.trans hafter.symm⟩
    · rename_i hnone
      have hsome : (((k.raise cause).dropBase (base (k.raise cause).activeTerm)).execute disk.fs shellCommand
          frame).isSome :=
        Kernel.execute_isSome.mpr ⟨disk.shellLoads frame, base k.activeTerm, Function.update_self _ _ _⟩
      rw [hnone] at hsome
      cases hsome
  · rename_i hbase
    have hown := OwnStep.returned hrest hnodup htop hbase hhalt
    obtain ⟨k₁, -, hr⟩ := Option.map_eq_some_iff.mp hhalt
    rw [Kernel.haltExit_eq] at hr
    subst hr
    exact ⟨hown.of_raise, fun k' heq => by cases heq⟩

end Statements

end OsKernel
