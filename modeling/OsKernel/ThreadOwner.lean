import OsKernel.Preemption

/-!
# What a thread knows about its slots

The slots that a terminal's processes own form a stack, as in the uninterrupted machine, but its top
may be a process that is being set up or torn down. Where the thread is determines what holds of the
top; the processes below are at rest. All of it is about the terminal's own variables and slots, so
a step elsewhere keeps it.
-/

namespace OsKernel

open Library

/-- Processes that are neither being set up nor torn down. -/
structure Settled (k : Kernel) (t : Fin 3) (stack : List Slot) : Prop where
  used : ∀ i ∈ stack, k.pid i = true
  pcbPid : ∀ i ∈ stack, (k.pcb i).pid = some i
  links : Linked (fun i => (k.pcb i).parentPid) (· = base t) stack

/-- A terminal whose thread is in its program, or has changed nothing yet. -/
structure AtRest (k : Kernel) (t : Fin 3) (stack : List Slot) : Prop extends Settled k t stack where
  curr : k.currPid t = stack.head?
  proc : k.termProc t = stack.head?

/-- A terminal that found slot `i`. The shell that replaces a base shell gets its slot. -/
def Picked (k : Kernel) (t : Fin 3) (stack : List Slot) (halting : Option (Slot × UInt8)) (i : Slot) : Prop :=
  ∃ rest, stack = i :: rest ∧ match halting with
    | none => AtRest k t rest
    | some (pcb, _) => pcb = base t ∧ i = base t ∧ Settled k t rest ∧ k.currPid t = some i ∧ k.termProc t = some i

/-- A new process in slot `pcb`, with these statements of `execute` still to come. -/
structure SettingUp (k : Kernel) (t : Fin 3) (pcb : Slot) (rest : List Slot) (todo : List ExecStmt) : Prop
    extends Settled k t rest where
  usedTop : k.pid pcb = true
  curr : k.currPid t = some pcb
  prev : pcb = base t ∨ k.prevPid t = rest.head?
  pcbPidTop : .setPid ∈ todo ∨ (k.pcb pcb).pid = some pcb
  link : .setParentPid ∈ todo ∨ pcb = base t ∨ (k.pcb pcb).parentPid = rest.head?
  proc : k.termProc t = some pcb ∨ .setTermProc ∈ todo ∧ k.termProc t = rest.head?

/-- A process in slot `pcb` that ends, with these statements of `halt` still to come. -/
structure TearingDown (k : Kernel) (t : Fin 3) (pcb : Slot) (rest : List Slot) (todo : List HaltStmt) : Prop
    extends Settled k t rest where
  suffix : todo <:+ haltStmts
  below : .setPrevPid ∈ todo ∨ rest ≠ []
  pcbPidTop : (k.pcb pcb).pid = some pcb
  link : (k.pcb pcb).parentPid = rest.head?
  usedTop : k.pid pcb = decide (.freePid ∈ todo)
  curr : k.currPid t = if .setCurrPid ∈ todo then some pcb else rest.head?
  proc : k.termProc t = if .setTermProc ∈ todo then some pcb else rest.head?

/-- What holds of a terminal's variables and slots while its thread is at a place. -/
def ThreadOwns (k : Kernel) (t : Fin 3) (stack : List Slot) : Code → Prop
  | .user => AtRest k t stack
  | .search call i =>
    match call.halting with
    | none => AtRest k t stack
    | some halting => i ≤ base t ∧ k.pid (base t) = false ∧ Picked k t stack (some halting) (base t)
  | .mark call i => Picked k t stack call.halting i
  | .savePrev call i => k.pid i = true ∧ Picked k t stack call.halting i
  | .setCurr call i => k.pid i = true ∧ k.prevPid t = k.currPid t ∧ Picked k t stack call.halting i
  | .setup pcb todo => ∃ rest, stack = pcb :: rest ∧ SettingUp k t pcb rest todo
  | .testBase pcb _ _ => stack.head? = some pcb ∧ AtRest k t stack
  | .clearBase pcb _ _ => pcb = base t ∧ stack.head? = some pcb ∧ AtRest k t stack
  | .freeBase pcb _ _ => pcb = base t ∧ stack.head? = some pcb ∧ AtRest k t stack
  | .unwind pcb _ todo => ∃ rest, stack = pcb :: rest ∧ TearingDown k t pcb rest todo

/-- The thread is between finding the slot free and marking it, or between freeing the slot and
leaving `halt`, for a base shell between freeing it and marking it again. -/
def Code.holds (i : Slot) : Code → Bool
  | search call _ => call.halting.map Prod.fst = some i
  | mark _ j => j = i
  | unwind pcb _ todo => pcb = i ∧ HaltStmt.freePid ∉ todo
  | _ => false

/-- The slots that the terminal's processes own after the thread's next statement. -/
def Code.stackAfter (k : Kernel) (stack : List Slot) : Code → List Slot
  | search call i =>
    if k.pid i then stack else if call.halting.map Prod.fst = some i then stack else i :: stack
  | unwind _ _ [] => stack.tail
  | _ => stack

/-- A change that keeps what others know of the process in a slot. -/
structure SameProc (k k' : Kernel) (i : Slot) : Prop where
  pid : k'.pid i = k.pid i
  pcbPid : (k'.pcb i).pid = (k.pcb i).pid
  parentPid : (k'.pcb i).parentPid = (k.pcb i).parentPid

/-- A change that a terminal with this stack does not see. -/
structure SameTerm (k k' : Kernel) (t : Fin 3) (stack : List Slot) : Prop where
  currPid : k'.currPid t = k.currPid t
  prevPid : k'.prevPid t = k.prevPid t
  termProc : k'.termProc t = k.termProc t
  proc : ∀ i ∈ stack, SameProc k k' i

section Frame

variable {k k' : Kernel} {t : Fin 3} {stack rest : List Slot}

/-- Settled processes stay settled. -/
theorem Settled.congr (h : Settled k t stack) (hsame : ∀ i ∈ stack, SameProc k k' i) : Settled k' t stack where
  used i hi := by rw [(hsame i hi).pid, h.used i hi]
  pcbPid i hi := by rw [(hsame i hi).pcbPid, h.pcbPid i hi]
  links := h.links.congr fun i hi => (hsame i hi).parentPid

/-- A terminal at rest stays at rest. -/
theorem AtRest.congr (h : AtRest k t stack) (hcurr : k'.currPid t = k.currPid t)
    (hproc : k'.termProc t = k.termProc t) (hsame : ∀ i ∈ stack, SameProc k k' i) : AtRest k' t stack where
  toSettled := h.toSettled.congr hsame
  curr := hcurr.trans h.curr
  proc := hproc.trans h.proc

/-- A found slot stays found, whatever happens to its own entries. -/
theorem Picked.congr {halting : Option (Slot × UInt8)} {i : Slot} (h : Picked k t stack halting i)
    (hcurr : k'.currPid t = k.currPid t) (hproc : k'.termProc t = k.termProc t)
    (hsame : ∀ j ∈ stack.tail, SameProc k k' j) : Picked k' t stack halting i := by
  obtain ⟨rest, rfl, h⟩ := h
  refine ⟨rest, rfl, ?_⟩
  cases halting with
  | none => exact AtRest.congr h hcurr hproc hsame
  | some halting =>
    obtain ⟨hpcb, hi, hsettled, hc, hp⟩ := h
    exact ⟨hpcb, hi, hsettled.congr hsame, hcurr.trans hc, hproc.trans hp⟩

/-- The found slot is the top. -/
theorem Picked.mem {halting : Option (Slot × UInt8)} {i : Slot} (h : Picked k t stack halting i) : i ∈ stack := by
  obtain ⟨rest, rfl, -⟩ := h
  exact List.mem_cons_self

/-- A found slot stays found in a change that the terminal does not see. -/
theorem SameTerm.picked {halting : Option (Slot × UInt8)} {i : Slot} (hsame : SameTerm k k' t stack)
    (h : Picked k t stack halting i) : Picked k' t stack halting i :=
  h.congr hsame.currPid hsame.termProc fun j hj => hsame.proc j (List.mem_of_mem_tail hj)

/-- A terminal at rest stays at rest in a change that it does not see. -/
theorem SameTerm.atRest (hsame : SameTerm k k' t stack) (h : AtRest k t stack) : AtRest k' t stack :=
  h.congr hsame.currPid hsame.termProc hsame.proc

/-- What a thread knows of its terminal stays true when nothing it sees changes. -/
theorem ThreadOwns.congr {code : Code} (h : ThreadOwns k t stack code) (hsame : SameTerm k k' t stack) :
    ThreadOwns k' t stack code := by
  cases code with
  | user => exact hsame.atRest h
  | search call i =>
    cases hhalting : call.halting with
    | none =>
      simp only [ThreadOwns, hhalting] at h ⊢
      exact hsame.atRest h
    | some halting =>
      simp only [ThreadOwns, hhalting] at h ⊢
      obtain ⟨hle, hfree, hpicked⟩ := h
      exact ⟨hle, (hsame.proc _ hpicked.mem).pid.trans hfree, hsame.picked hpicked⟩
  | mark call i => exact hsame.picked h
  | savePrev call i =>
    obtain ⟨hused, hpicked⟩ := h
    exact ⟨(hsame.proc i hpicked.mem).pid.trans hused, hsame.picked hpicked⟩
  | setCurr call i =>
    obtain ⟨hused, hprev, hpicked⟩ := h
    refine ⟨(hsame.proc i hpicked.mem).pid.trans hused, ?_, hsame.picked hpicked⟩
    rw [hsame.prevPid, hsame.currPid, hprev]
  | setup pcb todo =>
    obtain ⟨rest, rfl, h⟩ := h
    have htop := hsame.proc pcb List.mem_cons_self
    refine ⟨rest, rfl, ⟨h.toSettled.congr fun i hi => hsame.proc i (List.mem_cons_of_mem _ hi), ?_, ?_, ?_, ?_, ?_, ?_⟩⟩
    · rw [htop.pid, h.usedTop]
    · rw [hsame.currPid, h.curr]
    · rw [hsame.prevPid]
      exact h.prev
    · rw [htop.pcbPid]
      exact h.pcbPidTop
    · rw [htop.parentPid]
      exact h.link
    · rw [hsame.termProc]
      exact h.proc
  | testBase pcb status frame => exact ⟨h.1, hsame.atRest h.2⟩
  | clearBase pcb status frame | freeBase pcb status frame => exact ⟨h.1, h.2.1, hsame.atRest h.2.2⟩
  | unwind pcb status todo =>
    obtain ⟨rest, rfl, h⟩ := h
    have htop := hsame.proc pcb List.mem_cons_self
    refine ⟨rest, rfl, ⟨h.toSettled.congr fun i hi => hsame.proc i (List.mem_cons_of_mem _ hi), h.suffix, h.below,
      ?_, ?_, ?_, ?_, ?_⟩⟩
    · rw [htop.pcbPid, h.pcbPidTop]
    · rw [htop.parentPid, h.link]
    · rw [htop.pid, h.usedTop]
    · rw [hsame.currPid, h.curr]
    · rw [hsame.termProc, h.proc]

/-- An owned slot is in use, or its thread holds it. -/
theorem ThreadOwns.used_or_holds {code : Code} (h : ThreadOwns k t stack code) {i : Slot} (hi : i ∈ stack) :
    k.pid i = true ∨ code.holds i = true := by
  have hpicked {halting : Option (Slot × UInt8)} {j : Slot} (h : Picked k t stack halting j) :
      i = j ∨ k.pid i = true := by
    obtain ⟨rest, rfl, h⟩ := h
    refine (List.mem_cons.mp hi).imp id fun hi => ?_
    cases halting with
    | none => exact h.used i hi
    | some halting => exact h.2.2.1.used i hi
  cases code with
  | user => exact Or.inl (h.used i hi)
  | search call j =>
    cases hhalting : call.halting with
    | none =>
      simp only [ThreadOwns, hhalting] at h
      exact Or.inl (h.used i hi)
    | some halting =>
      simp only [ThreadOwns, hhalting] at h
      obtain ⟨-, -, hp⟩ := h
      rcases hpicked hp with rfl | hused
      · obtain ⟨rest, -, hpcb, -⟩ := hp
        exact Or.inr (by simp [Code.holds, hhalting, hpcb])
      · exact Or.inl hused
  | mark call j =>
    rcases hpicked h with rfl | hused
    · exact Or.inr (by simp [Code.holds])
    · exact Or.inl hused
  | savePrev call j =>
    rcases hpicked h.2 with rfl | hused
    · exact Or.inl h.1
    · exact Or.inl hused
  | setCurr call j =>
    rcases hpicked h.2.2 with rfl | hused
    · exact Or.inl h.1
    · exact Or.inl hused
  | setup pcb todo =>
    obtain ⟨rest, rfl, h⟩ := h
    rcases List.mem_cons.mp hi with rfl | hi
    · exact Or.inl h.usedTop
    · exact Or.inl (h.used i hi)
  | testBase pcb status frame => exact Or.inl (h.2.used i hi)
  | clearBase pcb status frame | freeBase pcb status frame => exact Or.inl (h.2.2.used i hi)
  | unwind pcb status todo =>
    obtain ⟨rest, rfl, h⟩ := h
    rcases List.mem_cons.mp hi with rfl | hi
    · by_cases hfree : HaltStmt.freePid ∈ todo
      · exact Or.inl (by rw [h.usedTop, decide_eq_true hfree])
      · exact Or.inr (by simp [Code.holds, hfree])
    · exact Or.inl (h.used i hi)

/-- A thread holds only slots that its terminal owns. -/
theorem ThreadOwns.mem_of_holds {code : Code} (h : ThreadOwns k t stack code) {i : Slot}
    (hi : code.holds i = true) : i ∈ stack := by
  cases code with
  | search call j =>
    cases hhalting : call.halting with
    | none => simp [Code.holds, hhalting] at hi
    | some halting =>
      simp only [ThreadOwns, hhalting] at h
      obtain ⟨-, -, hpicked⟩ := h
      have hpcb : halting.1 = i := by simpa [Code.holds, hhalting] using hi
      have hmem := hpicked.mem
      obtain ⟨rest, -, hbase, -⟩ := hpicked
      rwa [← hpcb, hbase]
  | mark call j =>
    obtain rfl : j = i := by simpa [Code.holds] using hi
    exact Picked.mem h
  | unwind pcb status todo =>
    obtain ⟨rest, rfl, -⟩ := h
    simp only [Code.holds, decide_eq_true_eq] at hi
    exact hi.1 ▸ List.mem_cons_self
  | _ => simp [Code.holds] at hi

/-- `term_proc` names the process on top, or while the top is set up or torn down the one below. -/
theorem ThreadOwns.termProc_cases {code : Code} (h : ThreadOwns k t stack code) :
    k.termProc t = stack.head? ∨ k.termProc t = stack.tail.head? := by
  have hpicked {halting : Option (Slot × UInt8)} {j : Slot} (h : Picked k t stack halting j) :
      k.termProc t = stack.head? ∨ k.termProc t = stack.tail.head? := by
    obtain ⟨rest, rfl, h⟩ := h
    cases halting with
    | none => exact Or.inr h.proc
    | some halting => exact Or.inl h.2.2.2.2
  cases code with
  | user => exact Or.inl h.proc
  | search call j =>
    cases hhalting : call.halting with
    | none =>
      simp only [ThreadOwns, hhalting] at h
      exact Or.inl h.proc
    | some halting =>
      simp only [ThreadOwns, hhalting] at h
      exact hpicked h.2.2
  | mark call j => exact hpicked h
  | savePrev call j => exact hpicked h.2
  | setCurr call j => exact hpicked h.2.2
  | setup pcb todo =>
    obtain ⟨rest, rfl, h⟩ := h
    exact h.proc.imp id And.right
  | testBase pcb status frame => exact Or.inl h.2.proc
  | clearBase pcb status frame | freeBase pcb status frame => exact Or.inl h.2.2.proc
  | unwind pcb status todo =>
    obtain ⟨rest, rfl, h⟩ := h
    rw [h.proc]
    split
    · exact Or.inl rfl
    · exact Or.inr rfl

/-- A terminal that owns no slot runs no process. -/
theorem ThreadOwns.currPid_nil {code : Code} (h : ThreadOwns k t [] code) : k.currPid t = none := by
  have hpicked {halting : Option (Slot × UInt8)} {j : Slot} : ¬Picked k t [] halting j := fun hp =>
    List.not_mem_nil hp.mem
  cases code with
  | user => exact h.curr
  | search call j =>
    cases hhalting : call.halting with
    | none =>
      simp only [ThreadOwns, hhalting] at h
      exact h.curr
    | some halting =>
      simp only [ThreadOwns, hhalting] at h
      exact absurd h.2.2 hpicked
  | mark call j => exact absurd h hpicked
  | savePrev call j => exact absurd h.2 hpicked
  | setCurr call j => exact absurd h.2.2 hpicked
  | setup pcb todo =>
    obtain ⟨rest, hnil, -⟩ := h
    cases hnil
  | testBase pcb status frame => exact h.2.curr
  | clearBase pcb status frame | freeBase pcb status frame => exact h.2.2.curr
  | unwind pcb status todo =>
    obtain ⟨rest, hnil, -⟩ := h
    cases hnil

end Frame

end OsKernel
