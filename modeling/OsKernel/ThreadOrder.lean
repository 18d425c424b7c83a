import OsKernel.SlotOwnership

/-!
# The order of the variables that name a process

`execute` updates `curr_pid` before and `term_proc` behind the PCB of the new process, and `halt` updates them in
one go before it leaves the slot. So a process that both variables name has its own PCB, with the process below it
as its parent, wherever a tick or a key interrupts the thread.
-/

namespace OsKernel

open Library

section Setup

variable {k k' : Kernel} {fs : FileSystem} {t : Fin 3} {stack : List Slot} {code code' : Code} {pcb c : Slot}

/-- A suffix of a list is behind an element, or contains it. -/
theorem suffix_around {A : Type*} {front back todo : List A} {a : A} (h : todo <:+ front ++ a :: back) :
    todo <:+ back ∨ ∃ mid, mid <:+ front ∧ todo = mid ++ a :: back := by
  obtain ⟨before, hsplit⟩ := h
  rcases List.append_eq_append_iff.mp hsplit with ⟨mid, hfront, htodo⟩ | ⟨mid, hbefore, hback⟩
  · exact Or.inr ⟨mid, ⟨before, hfront.symm⟩, htodo⟩
  · cases mid with
    | nil => exact Or.inr ⟨[], List.nil_suffix, hback.symm⟩
    | cons b mid =>
      obtain ⟨rfl, hrest⟩ := List.cons.inj hback
      exact Or.inl ⟨mid, hrest.symm⟩

/-- The first of two last elements, if it occurs nowhere before them, is ahead of a suffix or in it. -/
theorem suffix_last_two {A : Type*} {front todo : List A} {a b : A} (hfront : a ∉ front)
    (h : todo <:+ front ++ [a, b]) : todo <:+ [b] ∨ ∃ mid, a ∉ mid ∧ todo = mid ++ [a, b] := by
  refine (suffix_around h).imp id fun hmid => ?_
  obtain ⟨mid, hsuffix, htodo⟩ := hmid
  exact ⟨mid, fun hmem => hfront (hsuffix.mem hmem), htodo⟩

/-- The statement that updates `term_proc` is the last but one of `execute`. -/
theorem execStmts_split (prog : Program) (fs : FileSystem) (frame : ExecFrame) :
    ∃ front, .setTermProc ∉ front ∧
      prog.execStmts fs frame = front ++ [.setTermProc, .iret (prog.eip fs frame)] := by
  have hload : .setTermProc ∉ prog.loadStmts fs := by
    intro hmem
    obtain ⟨b, -, hb⟩ := List.mem_map.mp hmem
    cases hb
  refine ⟨([.setPid, .setParentPid, .setActive, .initDescs, .setArgs prog.fileName, .setupMem] ++ prog.loadStmts fs) ++
    [.saveEbp frame.regs.ebp, .saveEsp frame.regs.esp, .setEsp0], ?_, ?_⟩
  · simp only [List.mem_append, not_or]
    exact ⟨⟨by simp, hload⟩, by simp⟩
  · rw [Program.execStmts, List.append_assoc _ _ [ExecStmt.setTermProc, _]]
    rfl

/-- The rest of `execute` behind the update of `term_proc`, or ahead of it. -/
theorem suffix_setTermProc {prog : Program} {frame : ExecFrame} {todo : List ExecStmt}
    (h : todo <:+ prog.execStmts fs frame) :
    todo <:+ [.iret (prog.eip fs frame)] ∨
      ∃ mid, .setTermProc ∉ mid ∧ todo = mid ++ [.setTermProc, .iret (prog.eip fs frame)] := by
  obtain ⟨front, hfront, hsplit⟩ := execStmts_split prog fs frame
  rw [hsplit] at h
  exact suffix_last_two hfront h

/-- Only the one statement changes `term_proc`. -/
theorem termProc_execStmt (k : Kernel) (pcb : Slot) {s : ExecStmt} (hs : s ≠ .setTermProc) :
    (s.run pcb k).termProc = k.termProc := by
  cases s with
  | setTermProc => exact absurd rfl hs
  | store offset byte =>
    obtain ⟨page, hpage⟩ := Kernel.store_eq k pcb offset byte
    rw [hpage]
  | setupMem =>
    have hrun : ExecStmt.run pcb k .setupMem = { k with userPde := userPdeAddr k.caller } := by rw [ExecStmt.run]
    generalize userPdeAddr k.caller = pde at hrun
    rw [hrun]
  | setEsp0 =>
    have hrun : ExecStmt.run pcb k .setEsp0 = { k with esp0 := kernelStack k.caller } := by rw [ExecStmt.run]
    generalize kernelStack k.caller = esp0 at hrun
    rw [hrun]
  | iret progEip => rfl
  | setPid | setParentPid | setActive | initDescs | setArgs _ | saveEbp _ | saveEsp _ =>
    rw [ExecStmt.run]
    rfl

/-- A thread that sets up a process is at a suffix of the statements, and the process is in `term_proc` only behind
the update, unless it replaces a base shell. -/
def SetupPlaced (fs : FileSystem) (k : Kernel) (t : Fin 3) (code : Code) : Prop :=
  ∀ pcb todo, code = .setup pcb todo → (∃ prog frame, todo <:+ Program.execStmts fs prog frame) ∧
    (k.termProc t = some pcb → pcb = base t ∨ .setTermProc ∉ todo)

/-- A thread at any other place. -/
theorem SetupPlaced.of_ne (h : ∀ pcb todo, code ≠ .setup pcb todo) : SetupPlaced fs k t code :=
  fun pcb todo hcode => absurd hcode (h pcb todo)

/-- A thread whose terminal keeps its `term_proc`. -/
theorem SetupPlaced.congr (h : SetupPlaced fs k t code) (hproc : k'.termProc t = k.termProc t) :
    SetupPlaced fs k' t code := by
  intro pcb todo hcode
  rw [hproc]
  exact h pcb todo hcode

/-- Where a refused `execute` returns to. -/
theorem Code.refused_ne_setup {todo : List ExecStmt} (halting : Option (Slot × UInt8)) :
    Code.refused halting ≠ .setup pcb todo := by
  cases halting <;> exact Code.noConfusion

/-- `execute` begins with its checks. -/
theorem Code.enter_ne_setup {todo : List ExecStmt} (command : Option Bytes) (frame : ExecFrame)
    (halting : Option (Slot × UInt8)) : Code.enter fs command frame halting ≠ .setup pcb todo := by
  unfold Code.enter
  split
  · exact Code.refused_ne_setup halting
  · exact Code.noConfusion

/-- A thread comes to the rest of `execute` from the update of `curr_pid`, or from the statement before. -/
theorem Code.next_eq_setup {todo : List ExecStmt} (h : code.next fs k = some (.setup pcb todo, k')) :
    (∃ call, code = .setCurr call pcb ∧ todo = call.prog.execStmts fs call.frame ∧ k' = k.setCurrPid (some pcb)) ∨
      ∃ s, code = .setup pcb (s :: todo) ∧ k' = s.run pcb k := by
  cases code with
  | user => cases h
  | search call i =>
    simp only [Code.next] at h
    split_ifs at h
    · cases h
    · exact absurd (congrArg Prod.fst (Option.some.inj h)) (Code.refused_ne_setup _)
    · cases h
  | mark call i | savePrev call i | clearBase i status frame => cases h
  | setCurr call i =>
    cases h
    exact Or.inl ⟨call, rfl, rfl, rfl⟩
  | setup i rest =>
    cases rest with
    | nil => cases h
    | cons s rest =>
      obtain ⟨hcode, rfl⟩ := Code.next_setup h
      cases hcode
      exact Or.inr ⟨s, rfl, rfl⟩
  | testBase i status frame =>
    simp only [Code.next] at h
    split_ifs at h <;> cases h
  | freeBase i status frame =>
    exact absurd (congrArg Prod.fst (Option.some.inj h)) (Code.enter_ne_setup _ _ _)
  | unwind i status rest =>
    cases rest with
    | nil => cases h
    | cons s rest =>
      obtain ⟨k₁, -, h⟩ := Option.map_eq_some_iff.mp h
      cases h

/-- A found slot that replaces no base shell is not in `term_proc`. -/
theorem Picked.termProc {halting : Option (Slot × UInt8)} (h : Picked k t stack halting c) (hnodup : stack.Nodup)
    (hproc : k.termProc t = some c) : c = base t := by
  obtain ⟨rest, rfl, h⟩ := h
  cases halting with
  | none =>
    have hmem : c ∈ rest := List.mem_of_mem_head? ((AtRest.proc h).symm.trans hproc)
    exact absurd hmem (List.nodup_cons.mp hnodup).1
  | some halting => exact h.2.1

/-- A statement keeps the order. -/
theorem SetupPlaced.next (h : SetupPlaced fs k k.activeTerm code) (howns : ThreadOwns k k.activeTerm stack code)
    (hnodup : stack.Nodup) (hnext : code.next fs k = some (code', k')) : SetupPlaced fs k' k.activeTerm code' := by
  rintro pcb todo rfl
  rcases Code.next_eq_setup hnext with ⟨call, rfl, rfl, rfl⟩ | ⟨s, rfl, rfl⟩
  · exact ⟨⟨call.prog, call.frame, List.suffix_refl _⟩, fun hproc => Or.inl (howns.2.2.termProc hnodup hproc)⟩
  · obtain ⟨⟨prog, frame, hsuffix⟩, hplaced⟩ := h pcb (s :: todo) rfl
    refine ⟨⟨prog, frame, (List.suffix_cons s todo).trans hsuffix⟩, fun hproc => ?_⟩
    by_cases hs : s = .setTermProc
    · subst s
      refine Or.inr ?_
      rcases suffix_setTermProc hsuffix with hlast | ⟨mid, hmid, htodo⟩
      · exact absurd (hlast.mem List.mem_cons_self) (by simp)
      · cases mid with
        | nil =>
          obtain ⟨-, rfl⟩ := List.cons.inj htodo
          simp
        | cons b mid =>
          obtain ⟨rfl, -⟩ := List.cons.inj htodo
          exact absurd List.mem_cons_self hmid
    · rw [termProc_execStmt k pcb hs] at hproc
      exact (hplaced hproc).imp id fun hnot hmem => hnot (List.mem_cons_of_mem s hmem)

/-- The running process of a terminal at rest, and what is below it. -/
theorem AtRest.running (h : AtRest k t stack) (hcurr : k.currPid t = some c) (hbase : c ≠ base t) :
    ∃ below, c :: below <:+ stack ∧ (k.pcb c).pid = some c ∧ (k.pcb c).parentPid = below.head? := by
  obtain ⟨below, rfl⟩ := List.head?_eq_some_iff.mp (h.curr.symm.trans hcurr)
  exact ⟨below, List.suffix_refl _, h.pcbPid c List.mem_cons_self, h.links.1.resolve_left hbase⟩

/-- The running process while a slot is found. -/
theorem Picked.running {halting : Option (Slot × UInt8)} {i : Slot} (h : Picked k t stack halting i)
    (hcurr : k.currPid t = some c) (hbase : c ≠ base t) :
    ∃ below, c :: below <:+ stack ∧ (k.pcb c).pid = some c ∧ (k.pcb c).parentPid = below.head? := by
  obtain ⟨rest, rfl, h⟩ := h
  cases halting with
  | none =>
    obtain ⟨below, hsuffix, hpid, hparent⟩ := AtRest.running h hcurr hbase
    exact ⟨below, hsuffix.trans (List.suffix_cons i rest), hpid, hparent⟩
  | some halting =>
    obtain ⟨-, hi, -, hc, -⟩ := h
    rw [hcurr, hi, Option.some.injEq] at hc
    exact absurd hc hbase

/-- A process that both variables of its terminal name has its PCB, and its parent is the process below it. -/
theorem ThreadOwns.running (h : ThreadOwns k t stack code) (hsetup : SetupPlaced fs k t code)
    (hcurr : k.currPid t = some c) (hproc : k.termProc t = some c) (hbase : c ≠ base t) :
    ∃ below, c :: below <:+ stack ∧ (k.pcb c).pid = some c ∧ (k.pcb c).parentPid = below.head? := by
  cases code with
  | user => exact AtRest.running h hcurr hbase
  | search call i =>
    cases hhalting : call.halting with
    | none =>
      simp only [ThreadOwns, hhalting] at h
      exact h.running hcurr hbase
    | some halting =>
      simp only [ThreadOwns, hhalting] at h
      exact h.2.2.running hcurr hbase
  | mark call i => exact Picked.running h hcurr hbase
  | savePrev call i => exact h.2.running hcurr hbase
  | setCurr call i => exact h.2.2.running hcurr hbase
  | setup pcb todo =>
    obtain ⟨rest, rfl, h⟩ := h
    obtain rfl : pcb = c := Option.some.inj (h.curr.symm.trans hcurr)
    obtain ⟨⟨prog, frame, hsuffix⟩, hplaced⟩ := hsetup pcb todo rfl
    have hnot := (hplaced hproc).resolve_left hbase
    have hlast : todo <:+ [.iret (prog.eip fs frame)] := by
      refine (suffix_setTermProc hsuffix).resolve_right fun hmid => ?_
      obtain ⟨mid, -, rfl⟩ := hmid
      exact hnot (by simp)
    have hgone {s : ExecStmt} (hs : s ≠ .iret (prog.eip fs frame)) : s ∉ todo := fun hmem =>
      hs (List.mem_singleton.mp (hlast.mem hmem))
    exact ⟨rest, List.suffix_refl _, h.pcbPidTop.resolve_left (hgone (by simp)),
      (h.link.resolve_left (hgone (by simp))).resolve_left hbase⟩
  | testBase pcb status frame => exact h.2.running hcurr hbase
  | clearBase pcb status frame | freeBase pcb status frame => exact h.2.2.running hcurr hbase
  | unwind pcb status todo =>
    obtain ⟨rest, rfl, h⟩ := h
    have hwhich := h.curr.symm.trans hcurr
    split_ifs at hwhich
    · obtain rfl := Option.some.inj hwhich
      exact ⟨rest, List.suffix_refl _, h.pcbPidTop, h.link⟩
    · obtain ⟨below, rfl⟩ := List.head?_eq_some_iff.mp hwhich
      exact ⟨below, List.suffix_cons _ _, h.pcbPid c List.mem_cons_self, h.links.1.resolve_left hbase⟩

/-- `curr_pid` names a process of its terminal. -/
theorem ThreadOwns.curr_mem (h : ThreadOwns k t stack code) (hcurr : k.currPid t = some c) : c ∈ stack := by
  have hrest {stack : List Slot} (h : AtRest k t stack) : c ∈ stack := List.mem_of_mem_head? (h.curr.symm.trans hcurr)
  have hpicked {halting : Option (Slot × UInt8)} {i : Slot} (h : Picked k t stack halting i) : c ∈ stack := by
    obtain ⟨rest, rfl, h⟩ := h
    cases halting with
    | none => exact List.mem_cons_of_mem i (hrest h)
    | some halting =>
      obtain rfl := Option.some.inj (hcurr.symm.trans h.2.2.2.1)
      exact List.mem_cons_self
  cases code with
  | user => exact hrest h
  | search call i =>
    cases hhalting : call.halting with
    | none =>
      simp only [ThreadOwns, hhalting] at h
      exact hrest h
    | some halting =>
      simp only [ThreadOwns, hhalting] at h
      exact hpicked h.2.2
  | mark call i => exact hpicked h
  | savePrev call i => exact hpicked h.2
  | setCurr call i => exact hpicked h.2.2
  | setup pcb todo =>
    obtain ⟨rest, rfl, h⟩ := h
    obtain rfl := Option.some.inj (hcurr.symm.trans h.curr)
    exact List.mem_cons_self
  | testBase pcb status frame => exact hrest h.2
  | clearBase pcb status frame | freeBase pcb status frame => exact hrest h.2.2
  | unwind pcb status todo =>
    obtain ⟨rest, rfl, h⟩ := h
    have hwhich := h.curr.symm.trans hcurr
    split_ifs at hwhich
    · obtain rfl := Option.some.inj hwhich
      exact List.mem_cons_self
    · exact List.mem_cons_of_mem pcb (List.mem_of_mem_head? hwhich)

/-- `term_proc` names a process of its terminal. -/
theorem ThreadOwns.proc_mem (h : ThreadOwns k t stack code) (hproc : k.termProc t = some c) : c ∈ stack :=
  h.termProc_cases.elim (fun heq => List.mem_of_mem_head? (heq.symm.trans hproc)) fun heq =>
    List.mem_of_mem_tail (List.mem_of_mem_head? (heq.symm.trans hproc))

end Setup

section Machine

variable {disk : Disk} {m m' : Machine}

/-- The states with a process on the scheduled terminal. -/
structure InOrder (fs : FileSystem) (m : Machine) : Prop extends Owners m where
  setup : ∀ t, SetupPlaced fs m.k t (m.code t)
  idle : ∀ t, m.owned t = [] → m.code t = .user

/-- A thread whose terminal owns a slot still owns one after its next statement. -/
theorem ThreadOwns.stackAfter_ne_nil {k : Kernel} {t : Fin 3} {stack : List Slot} {code : Code}
    (h : ThreadOwns k t stack code) (hstack : stack ≠ []) : code.stackAfter k stack ≠ [] := by
  cases code with
  | search call i =>
    simp only [Code.stackAfter]
    split_ifs <;> simp [hstack]
  | unwind pcb status todo =>
    cases todo with
    | nil =>
      obtain ⟨rest, rfl, h⟩ := h
      exact h.atRest.2
    | cons s todo => exact hstack
  | _ => exact hstack

/-- The scheduled thread is where it went. -/
theorem Machine.goto_code (m : Machine) (code : Code) (k : Kernel) : (m.goto code k).code m.active = code :=
  Function.update_self _ _ _

/-- A terminal with a running process owns a slot. -/
theorem Owners.owned_ne_nil (h : Owners m) {c : Slot} (hcaller : m.k.caller = some c) : m.owned m.active ≠ [] :=
  List.ne_nil_of_mem ((h.threads m.active).curr_mem hcaller)

/-- A step of the scheduled terminal's own. -/
theorem InOrder.own {fs : FileSystem} (h : InOrder fs m) (howners : Owners m') (hconfined : Confined m.k m'.k)
    (hcode : ∀ t, t ≠ m.active → m'.code t = m.code t) (howned : ∀ t, t ≠ m.active → m'.owned t = m.owned t)
    (hsetup : SetupPlaced fs m'.k m.active (m'.code m.active))
    (hidle : m'.owned m.active = [] → m'.code m.active = .user) : InOrder fs m' := by
  refine ⟨howners, fun t => ?_, fun t => ?_⟩ <;> by_cases ht : t = m.active
  · exact ht ▸ hsetup
  · rw [hcode t ht]
    exact (h.setup t).congr (hconfined.termProc t ht)
  · exact ht ▸ hidle
  · rw [hcode t ht, howned t ht]
    exact h.idle t

/-- A step of the machine keeps the order. -/
theorem InOrder.step (h : InOrder disk.fs m) {e : Action} (hready : SlotReady m e)
    (hstep : m.step disk.fs e = some m') : InOrder disk.fs m' := by
  have howners := h.toOwners.step hready hstep
  have hsame : Confined m.k m.k := .of_eq rfl rfl rfl rfl
  have hmoved (code : Code) (t : Fin 3) (ht : t ≠ m.active) : Function.update m.code m.active code t = m.code t :=
    Function.update_of_ne ht _ _
  cases Machine.step_moved hstep with
  | @executes command frame p huser hcaller =>
    refine h.own howners hsame (hmoved _) (fun _ _ => rfl) (.of_ne fun pcb todo => ?_)
      fun hnil => absurd hnil (h.owned_ne_nil hcaller)
    rw [m.goto_code]
    exact Code.enter_ne_setup command frame none
  | @halts status frame p huser hcaller =>
    refine h.own howners hsame (hmoved _) (fun _ _ => rfl) (.of_ne fun pcb todo => ?_)
      fun hnil => absurd hnil (h.owned_ne_nil hcaller)
    rw [m.goto_code]
    exact Code.noConfusion
  | @restarted byException frame k' huser hhalt =>
    refine h.own howners (confined_haltBy hhalt) (fun _ _ => rfl) (fun t ht => ?_) (.of_ne fun pcb todo => ?_)
      fun _ => huser
    · cases hafter : k'.caller with
      | none => rfl
      | some i =>
        simp only [Option.elim_some, Machine.pick]
        split_ifs
        · rfl
        · exact Function.update_of_ne ht _ _
    · rw [huser]
      exact Code.noConfusion
  | returned huser hhalt =>
    refine h.own howners (confined_haltBy hhalt) (fun _ _ => rfl) (fun t ht => Function.update_of_ne ht _ _)
      (.of_ne fun pcb todo => ?_) fun _ => huser
    rw [huser]
    exact Code.noConfusion
  | @ran code k' hnext =>
    have hthread := h.threads m.active
    refine h.own howners (confined_next hnext) (hmoved _) (fun t ht => ?_) ?_ fun hnil => ?_
    · rw [Machine.ownedAfter_eq]
      exact Function.update_of_ne ht _ _
    · simp only [Machine.goto, Function.update_self]
      exact (h.setup m.active).next hthread (h.separate.nodup _) hnext
    · simp only [Machine.ownedAfter_eq, Function.update_self] at hnil
      have hstack : m.owned m.active = [] := by
        by_contra hne
        exact hthread.stackAfter_ne_nil hne hnil
      rw [h.idle _ hstack] at hnext
      cases hnext
  | idle => exact h
  | @started regs frame k' i haction hfree hleast he =>
    refine ⟨howners, fun t => ?_, fun t => ?_⟩ <;> by_cases ht : t = m.active + 1
    · subst t
      simp only [Function.update_self]
      exact .of_ne fun pcb todo => Code.noConfusion
    · simp only [Function.update_of_ne ht]
      exact (h.setup t).congr ((congrFun he.termProc t).trans (Function.update_of_ne ht _ _))
    · subst t
      exact fun _ => Function.update_self _ _ _
    · simp only [Function.update_of_ne ht]
      exact h.idle t
  | switched haction hs _ => exact ⟨howners, fun t => (h.setup t).congr (congrFun hs.termProc t), h.idle⟩

end Machine

end OsKernel
