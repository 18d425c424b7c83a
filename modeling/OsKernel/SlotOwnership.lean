import OsKernel.UserMapping
import OsKernel.ThreadStep

/-!
# Exclusive ownership of pid slots

`execute` tests a slot and marks it in two statements, and `halt` frees a slot while it still runs
on that slot's stack. A tick in between lets another terminal's search find the same slot. The
stacks of owned slots stay separate exactly as long as no search finds a slot that a suspended
thread found and has not marked, or freed and has not left.
-/

namespace OsKernel

open Library

namespace Machine

/-- The slot that a step finds for a new process, with its terminal: the test of the search loop, a
restart with interrupts masked, or the start of a shell by the timer. -/
def finds (m : Machine) : Action → Option (Fin 3 × Slot)
  | .stmt =>
    match m.code m.active with
    | .search _ i => if m.k.pid i then none else some (m.active, i)
    | _ => none
  | .kill _ _ =>
    match m.code m.active with
    | .user =>
      if m.k.caller = some (base m.active) then (m.k.dropBase (base m.active)).freeSlot.map (m.active, ·) else none
    | _ => none
  | .tick _ _ => if m.k.pitAction = .startShell then m.k.freeSlot.map (m.active + 1, ·) else none
  | _ => none

end Machine

/-- The condition on a step: no thread of another terminal holds the slot that it finds. -/
def SlotReady (m : Machine) (e : Action) : Prop :=
  ∀ t i, m.finds e = some (t, i) → ∀ u, u ≠ t → (m.code u).holds i = false

/-- After the step no slot is owned by two processes. -/
def SlotExclusive (fs : FileSystem) (m : Machine) (e : Action) : Prop :=
  ∀ m', m.step fs e = some m' → SeparateStacks m'.owned

/-- The states of a run in which no slot had two owners. -/
structure Owners (m : Machine) : Prop where
  separate : SeparateStacks m.owned
  threads : ∀ t, ThreadOwns m.k t (m.owned t) (m.code t)
  used : ∀ i, m.k.pid i = true → ∃ t, i ∈ m.owned t
  first : (m.owned 0).getLast? = some (base 0)
  second : (m.owned 1 = [] ∧ m.owned 2 = [] ∧ m.active = 0) ∨
    (m.owned 1).getLast? = some (base 1) ∨ (m.owned 1).getLast? = some (base 2)
  waiting : ∀ t, t ≠ m.active → m.k.termProc t = none → m.owned t = []

section Machine

variable {disk : Disk} {m m' : Machine} {e : Action}

/-- A free slot that a terminal owns is held by its thread. -/
theorem Owners.holds (h : Owners m) {i : Slot} (hfree : m.k.pid i = false) {t : Fin 3} (hi : i ∈ m.owned t) :
    (m.code t).holds i = true :=
  ((h.threads t).used_or_holds hi).resolve_left (by rw [hfree]; decide)

/-- While a terminal owns the slot of its base shell, the slots below are owned by other terminals. -/
theorem Owners.below_base (h : Owners m) {t : Fin 3} (ht : base t ∈ m.owned t) {i : Slot} (hi : i < base t) :
    ∃ u, u ≠ t ∧ i ∈ m.owned u := by
  have hfirst : base 0 ∈ m.owned 0 := List.mem_of_getLast? h.first
  match t with
  | 0 => exact absurd hi (Fin.not_lt_zero i)
  | 1 =>
    have hbelow : ∀ i < base 1, i = base 0 := by decide
    exact ⟨0, by decide, hbelow i hi ▸ hfirst⟩
  | 2 =>
    have hbelow : ∀ i < base 2, i = base 0 ∨ i = base 1 := by decide
    rcases hbelow i hi with rfl | rfl
    · exact ⟨0, by decide, hfirst⟩
    · refine ⟨1, by decide, ?_⟩
      rcases h.second with ⟨-, hnone, -⟩ | hlast | hlast
      · rw [hnone] at ht
        cases ht
      · exact List.mem_of_getLast? hlast
      · exact absurd (h.separate.unique 1 2 _ (List.mem_of_getLast? hlast) ht) (by decide)

/-- A restart at the right moment finds the slot of its own base shell. -/
theorem Owners.own_base (h : Owners m) (hready : SlotReady m e) {i : Slot} (hfinds : m.finds e = some (m.active, i))
    (hfree : m.k.pid i = false ∨ i = base m.active) (hmem : base m.active ∈ m.owned m.active)
    (hle : i ≤ base m.active) : i = base m.active := by
  rcases lt_or_eq_of_le hle with hlt | heq
  · obtain ⟨u, hu, hi⟩ := h.below_base hmem hlt
    have hholds := h.holds (hfree.resolve_right hlt.ne) hi
    rw [hready _ _ hfinds u hu] at hholds
    cases hholds
  · exact heq

/-- A slot found at the right moment, and not by a restart, has no owner. -/
theorem Owners.fresh (h : Owners m) (hready : SlotReady m e) {t : Fin 3} {i : Slot} (hfinds : m.finds e = some (t, i))
    (hfree : m.k.pid i = false) (hown : (m.code t).holds i = false ∨ m.owned t = []) (u : Fin 3) : i ∉ m.owned u := by
  intro hi
  have hholds := h.holds hfree hi
  by_cases hu : u = t
  · subst u
    rcases hown with hown | hown
    · rw [hown] at hholds
      cases hholds
    · rw [hown] at hi
      cases hi
  · rw [hready t i hfinds u hu] at hholds
    cases hholds

/-- A step of the scheduled terminal's own. -/
theorem Owners.own (h : Owners m) (hconfined : Confined m.k m'.k) {stack : List Slot} {code : Code}
    (hstep : OwnStep m.k m'.k m.active (m.owned m.active) stack code)
    (hcode : ∀ t, t ≠ m.active → m'.code t = m.code t) (hown : m'.code m.active = code)
    (howned : m'.owned = Function.update m.owned m.active stack)
    (hseparate : SeparateStacks (Function.update m.owned m.active stack)) : Owners m' := by
  have hactive : m'.active = m.active := hconfined.activeTerm
  have hself : m'.owned m.active = stack := by rw [howned, Function.update_self]
  have hkeep (t : Fin 3) (ht : t ≠ m.active) : m'.owned t = m.owned t := by rw [howned, Function.update_of_ne ht]
  have hlast (t : Fin 3) {b : Slot} (hb : (m.owned t).getLast? = some b) : (m'.owned t).getLast? = some b := by
    by_cases ht : t = m.active
    · subst t
      rw [hself]
      exact hstep.bottom b hb
    · rw [hkeep t ht, hb]
  refine ⟨howned ▸ hseparate, fun t => ?_, fun i hi => ?_, hlast 0 h.first, ?_, fun t ht hproc => ?_⟩
  · by_cases ht : t = m.active
    · subst t
      rw [hself, hown]
      exact hstep.owns
    · rw [hkeep t ht, hcode t ht]
      refine (h.threads t).congr ⟨hconfined.currPid t ht, hconfined.prevPid t ht, hconfined.termProc t ht, ?_⟩
      exact fun i hi => hstep.other i fun hmem => ht (h.separate.unique t m.active i hi hmem)
  · by_cases hmem : i ∈ m.owned m.active
    · refine ⟨m.active, hself ▸ (hstep.left i hmem).resolve_right ?_⟩
      rw [hi]
      decide
    · rw [(hstep.other i hmem).pid] at hi
      obtain ⟨t, ht⟩ := h.used i hi
      have hne : t ≠ m.active := fun heq => hmem (heq ▸ ht)
      exact ⟨t, by rwa [hkeep t hne]⟩
  · rcases h.second with ⟨hone, htwo, hzero⟩ | hsecond
    · refine Or.inl ⟨?_, ?_, hactive.trans hzero⟩
      · rw [hkeep 1 (by rw [hzero]; decide), hone]
      · rw [hkeep 2 (by rw [hzero]; decide), htwo]
    · exact Or.inr (hsecond.imp (hlast 1) (hlast 1))
  · rw [hactive] at ht
    rw [hkeep t ht]
    exact h.waiting t ht (by rw [← hconfined.termProc t ht, hproc])

/-- A step that changes no stack. -/
theorem Owners.stay (h : Owners m) : SeparateStacks (Function.update m.owned m.active (m.owned m.active)) := by
  rw [Function.update_eq_self]
  exact h.separate

/-- Leaving a slot keeps the stacks separate. -/
theorem Owners.tail (h : Owners m) : SeparateStacks (Function.update m.owned m.active (m.owned m.active).tail) := by
  cases hstack : m.owned m.active with
  | nil =>
    rw [List.tail_nil, ← hstack]
    exact h.stay
  | cons i rest => exact h.separate.pop hstack

/-- The owners after a statement of the scheduled thread. -/
theorem Machine.ownedAfter_eq (m : Machine) :
    m.ownedAfter = Function.update m.owned m.active ((m.code m.active).stackAfter m.k (m.owned m.active)) := by
  unfold Machine.ownedAfter
  cases m.code m.active with
  | search call i =>
    simp only [Code.stackAfter, Machine.pick]
    split_ifs <;> simp
  | unwind pcb status todo =>
    cases todo with
    | nil => rfl
    | cons s todo => exact (Function.update_eq_self _ _).symm
  | _ => exact (Function.update_eq_self _ _).symm

/-- A search finds a slot at the right moment. -/
theorem Owners.ran (h : Owners m) (hready : SlotReady m .stmt) {code' : Code} {k' : Kernel}
    (hnext : (m.code m.active).next disk.fs m.k = some (code', k')) :
    Owners { m.goto code' k' with owned := m.ownedAfter } := by
  have hthread := h.threads m.active
  have hsearch {call : ExecCall} {i : Slot} (hcode : m.code m.active = .search call i) (hfree : m.k.pid i = false) :
      m.finds .stmt = some (m.active, i) := by simp [Machine.finds, hcode, hfree]
  have hpick (call : ExecCall) (i : Slot) (hcode : m.code m.active = .search call i) (hhalting : call.halting ≠ none)
      (hfree : m.k.pid i = false) : i = base m.active := by
    obtain ⟨halting, hhalting⟩ := Option.ne_none_iff_exists'.mp hhalting
    rw [hcode] at hthread
    simp only [ThreadOwns, hhalting] at hthread
    obtain ⟨hle, -, hpicked⟩ := hthread
    exact h.own_base hready (hsearch hcode hfree) (Or.inl hfree) hpicked.mem hle
  have hseparate : SeparateStacks
      (Function.update m.owned m.active ((m.code m.active).stackAfter m.k (m.owned m.active))) := by
    cases hcode : m.code m.active with
    | search call i =>
      simp only [Code.stackAfter]
      split_ifs with hused hown
      · exact h.stay
      · exact h.stay
      · have hfree := (Bool.not_eq_true _).mp hused
        refine h.separate.push (h.fresh hready (hsearch hcode hfree) hfree (Or.inl ?_))
        simp [hcode, Code.holds, hown]
    | unwind pcb status todo =>
      cases todo with
      | nil => exact h.tail
      | cons s todo => exact h.stay
    | _ => exact h.stay
  exact h.own (confined_next hnext) (OwnStep.of_next hthread (h.separate.nodup _) hpick hnext)
    (fun t ht => Function.update_of_ne ht _ _) (Function.update_self _ _ _) m.ownedAfter_eq hseparate

/-- A process ends with interrupts masked. -/
theorem Owners.killed (h : Owners m) {byException : Bool} {frame : ExecFrame}
    (hready : SlotReady m (.kill byException frame)) (huser : m.code m.active = .user) {cause : Cause} {r : HaltResult}
    (hhalt : m.k.haltBy disk.fs cause frame = some r) :
    Owners { m with k := r.after, owned := Function.update m.owned m.active (r.stackAfter (m.owned m.active)) } ∧
      (∀ k', r = .restarted k' → k'.caller = some (base m.active) ∧ m.k.caller = k'.caller) := by
  have hthread := h.threads m.active
  rw [huser] at hthread
  have hpick (i : Slot) (hcaller : m.k.caller = some (base m.active))
      (hfound : (m.k.dropBase (base m.active)).freeSlot = some i) : i = base m.active := by
    obtain ⟨hfree, hleast⟩ := Kernel.freeSlot_eq_some.mp hfound
    have hmem : base m.active ∈ m.owned m.active := List.mem_of_mem_head? (hthread.curr.symm.trans hcaller)
    have hdropped : (m.k.dropBase (base m.active)).pid (base m.active) = false := Function.update_self _ _ _
    refine h.own_base hready (by simp [Machine.finds, huser, hcaller, hfound]) ?_ hmem ?_
    · by_cases hi : i = base m.active
      · exact Or.inr hi
      · exact Or.inl (hfree.symm.trans (Function.update_of_ne hi _ _)).symm
    · by_contra hlt
      rw [hleast _ (not_le.mp hlt)] at hdropped
      cases hdropped
  obtain ⟨hown, hrestart⟩ := OwnStep.of_haltBy hthread (h.separate.nodup _) hpick hhalt
  refine ⟨h.own (confined_haltBy hhalt) hown (fun _ _ => rfl) huser rfl ?_, hrestart⟩
  cases r with
  | restarted k' => exact h.stay
  | returned value k' => exact h.tail

/-- The first terminal's processes while it runs its own shell, or sets up another one. -/
theorem Owners.first_stack (h : Owners m) (hproc : m.k.termProc 0 = some (base 0)) {i : Slot} (hi : i ∈ m.owned 0) :
    i = base 0 ∨ (m.owned 0).head? = some i := by
  have hnodup := h.separate.nodup 0
  have hfirst := h.first
  rcases (h.threads 0).termProc_cases with hhead | htail
  · rw [eq_singleton_of_head_of_last hnodup (hhead.symm.trans hproc) hfirst] at hi
    exact Or.inl (List.mem_singleton.mp hi)
  · cases hstack : m.owned 0 with
    | nil =>
      rw [hstack] at hi
      cases hi
    | cons x rest =>
      rw [hstack] at hi hnodup htail hfirst
      have hlast : rest.getLast? = some (base 0) := by
        cases rest with
        | nil => cases htail.symm.trans hproc
        | cons y rest => rwa [List.getLast?_cons_cons] at hfirst
      have hrest := eq_singleton_of_head_of_last (List.nodup_cons.mp hnodup).2 (htail.symm.trans hproc) hlast
      rcases List.mem_cons.mp hi with rfl | hi
      · exact Or.inr rfl
      · rw [hrest] at hi
        exact Or.inl (List.mem_singleton.mp hi)

/-- A shell that a tick starts on the second terminal at the right moment gets one of two slots. -/
theorem Owners.second_slot (h : Owners m) (hproc : m.k.termProc 0 = some (base 0)) (hone : m.owned 1 = [])
    (htwo : m.owned 2 = []) {i : Slot} (hfresh : ∀ u, i ∉ m.owned u) (hleast : ∀ j < i, m.k.pid j = true) :
    i = base 1 ∨ i = base 2 := by
  have howned {j : Slot} (hj : j < i) : j ∈ m.owned 0 := by
    obtain ⟨t, ht⟩ := h.used j (hleast j hj)
    match t with
    | 0 => exact ht
    | 1 =>
      rw [hone] at ht
      cases ht
    | 2 =>
      rw [htwo] at ht
      cases ht
  have hzero : i ≠ base 0 := by
    rintro rfl
    exact hfresh 0 (List.mem_of_getLast? h.first)
  by_contra hnot
  obtain ⟨hone', htwo'⟩ := not_or.mp hnot
  have hall : ∀ i, i ≠ base 0 → i ≠ base 1 → i ≠ base 2 → base 1 < i ∧ base 2 < i := by decide
  have hlow := hall i hzero hone' htwo'
  have hsecond := (h.first_stack hproc (howned hlow.1)).resolve_left (by decide)
  have hthird := (h.first_stack hproc (howned hlow.2)).resolve_left (by decide)
  exact absurd (Option.some.inj (hsecond.symm.trans hthird)) (by decide)

/-- A terminal that owns no slot has no process. -/
theorem Owners.termProc_nil (h : Owners m) {t : Fin 3} (hstack : m.owned t = []) : m.k.termProc t = none := by
  have hcases := (h.threads t).termProc_cases
  rw [hstack] at hcases
  exact hcases.elim id id

section Started

variable {k k' : Kernel} {i : Slot} {regs : Regs} {frame : ExecFrame}

/-- A tick that starts a shell leaves the other processes as they were. -/
theorem sameProc_started
    (he : Kernel.Executed { k.saveSchedule (base k.activeTerm) regs with activeTerm := k.activeTerm + 1 } k' i frame)
    {j : Slot} (hj : j ≠ i) : SameProc k k' j := by
  obtain ⟨argsName, hpcb⟩ := he.pcb
  have htable := sameTable_startShell k regs
  have hold := (congrFun hpcb j).trans (Function.update_of_ne hj _ _)
  refine ⟨(congrFun he.pid j).trans (Function.update_of_ne hj _ _), ?_, ?_⟩
  · rw [hold, htable.pcbPid]
  · rw [hold, htable.parentPid]

/-- The shell that a tick starts is at rest, alone on its terminal. -/
theorem atRest_started
    (he : Kernel.Executed { k.saveSchedule (base k.activeTerm) regs with activeTerm := k.activeTerm + 1 } k' i frame)
    (hcaller : k.currPid (k.activeTerm + 1) = none) : AtRest k' (k.activeTerm + 1) [i] := by
  obtain ⟨argsName, hpcb⟩ := he.pcb
  have hpcbNew := (congrFun hpcb i).trans (Function.update_self _ _ _)
  refine ⟨⟨fun j hj => ?_, fun j hj => ?_, Or.inr ?_, trivial⟩, ?_, ?_⟩
  · obtain rfl := List.mem_singleton.mp hj
    rw [he.pid, Function.update_self]
  · obtain rfl := List.mem_singleton.mp hj
    rw [hpcbNew]
    rfl
  · exact (congrArg Pcb.parentPid hpcbNew).trans hcaller
  · rw [he.currPid]
    exact Function.update_self _ _ _
  · rw [he.termProc]
    exact Function.update_self _ _ _

end Started

/-- A tick that starts a shell at the right moment. -/
theorem Owners.started (h : Owners m) {regs : Regs} {frame : ExecFrame} (hready : SlotReady m (.tick regs frame))
    {k' : Kernel} {i : Slot} (haction : m.k.pitAction = .startShell) (hfree : m.k.pid i = false)
    (hleast : ∀ j < i, m.k.pid j = true)
    (he : Kernel.Executed
      { m.k.saveSchedule (base m.k.activeTerm) regs with activeTerm := m.k.activeTerm + 1 } k' i frame) :
    Owners
      { k := k'
        code := Function.update m.code (m.active + 1) .user
        owned := Function.update m.owned (m.active + 1) (i :: m.owned (m.active + 1))
        suspended := m.suspend regs } := by
  obtain ⟨hzero, hnone, hactive⟩ := pitAction_startShell haction
  have hrunning : m.k.termProc m.active ≠ none := by
    rcases hactive with hactive | ⟨hactive, hone⟩
    · rw [Machine.active, hactive, hzero]
      exact Option.some_ne_none _
    · rwa [Machine.active, hactive]
  have hnext : m.owned (m.active + 1) = [] := h.waiting _ (next_ne _) hnone
  have hfound : m.k.freeSlot = some i := Kernel.freeSlot_eq_some.mpr ⟨hfree, hleast⟩
  have hfresh : ∀ u, i ∉ m.owned u :=
    h.fresh hready (by simp [Machine.finds, haction, hfound]) hfree (Or.inr hnext)
  have hcaller : m.k.currPid (m.active + 1) = none := by
    have hthread := h.threads (m.active + 1)
    rw [hnext] at hthread
    exact hthread.currPid_nil
  refine ⟨h.separate.push hfresh, fun t => ?_, fun j hj => ?_, ?_, ?_, fun t ht hproc => ?_⟩
  · by_cases ht : t = m.active + 1
    · subst t
      simp only [Function.update_self, hnext]
      exact atRest_started he hcaller
    · simp only [Function.update_of_ne ht]
      refine (h.threads t).congr ⟨?_, ?_, ?_, fun j hj => sameProc_started he fun heq => hfresh t (heq ▸ hj)⟩
      · exact (congrFun he.currPid t).trans (Function.update_of_ne ht _ _)
      · exact (congrFun he.prevPid t).trans (Function.update_of_ne ht _ _)
      · exact (congrFun he.termProc t).trans (Function.update_of_ne ht _ _)
  · by_cases hji : j = i
    · subst j
      exact ⟨m.active + 1, by simp⟩
    · have hold := (sameProc_started he hji).pid.symm.trans hj
      obtain ⟨t, ht⟩ := h.used j hold
      have hne : t ≠ m.active + 1 := by
        rintro rfl
        rw [hnext] at ht
        cases ht
      exact ⟨t, by simpa only [Function.update_of_ne hne] using ht⟩
  · have hne : 0 ≠ m.active + 1 := by
      rcases hactive with hactive | ⟨hactive, -⟩ <;> rw [Machine.active, hactive] <;> decide
    simpa only [Function.update_of_ne hne] using h.first
  · refine Or.inr ?_
    rcases hactive with hactive | ⟨hactive, -⟩
    · have hnextOne : m.active + 1 = 1 := by rw [Machine.active, hactive]; rfl
      have hone : m.owned 1 = [] := hnextOne ▸ hnext
      have htwo : m.owned 2 = [] := by
        rcases h.second with ⟨-, htwo, -⟩ | hlast
        · exact htwo
        · rw [hone] at hlast
          rcases hlast with hlast | hlast <;> cases hlast
      simp only [hnextOne, Function.update_self, hone]
      rcases h.second_slot hzero hone htwo hfresh hleast with rfl | rfl
      · exact Or.inl rfl
      · exact Or.inr rfl
    · have hne : 1 ≠ m.active + 1 := by rw [Machine.active, hactive]; decide
      have hsecond := h.second.resolve_left fun hfirst => absurd (hactive.symm.trans hfirst.2.2) (by decide)
      simpa only [Function.update_of_ne hne] using hsecond
  · have hactive' : t ≠ m.active + 1 := fun heq => ht (heq.trans he.activeTerm.symm)
    have hold : m.k.termProc t = none :=
      ((congrFun he.termProc t).trans (Function.update_of_ne hactive' _ _)).symm.trans hproc
    simp only [Function.update_of_ne hactive']
    refine h.waiting t (fun heq => ?_) hold
    rw [heq] at hold
    exact hrunning hold

/-- A tick that switches between two terminals. -/
theorem Owners.switched (h : Owners m) {regs : Regs} {k' : Kernel} {p q : Slot}
    (haction : m.k.pitAction = .contextSwitch (some p) (some q)) (hs : Switched m.k k' p q regs) :
    Owners { m with k := k', suspended := m.suspend regs } := by
  obtain ⟨hp, hq⟩ := pitAction_contextSwitch haction
  have htable := hs.sameTable
  have hsame (i : Slot) : SameProc m.k k' i := ⟨congrFun hs.pid i, htable.pcbPid i, htable.parentPid i⟩
  refine ⟨h.separate, fun t => ?_, fun i hi => h.used i ((hsame i).pid.symm.trans hi), h.first, Or.inr ?_,
    fun t ht hproc => ?_⟩
  · exact (h.threads t).congr ⟨congrFun hs.currPid t, congrFun hs.prevPid t, congrFun hs.termProc t, fun i _ => hsame i⟩
  · refine h.second.resolve_left fun hfirst => ?_
    obtain ⟨hone, -, hzero⟩ := hfirst
    have hnone := h.termProc_nil hone
    rw [Machine.active] at hzero
    rw [hzero] at hq
    cases hq.trans hnone
  · have hold : m.k.termProc t = none := (congrFun hs.termProc t).symm.trans hproc
    refine h.waiting t (fun heq => ?_) hold
    rw [heq] at hold
    cases hp.trans hold

/-- A step at the right moment keeps the invariant. -/
theorem Owners.step (h : Owners m) (hready : SlotReady m e) (hstep : m.step disk.fs e = some m') : Owners m' := by
  have hsame : ∀ i ∉ m.owned m.active, SameProc m.k m.k i := fun _ _ => ⟨rfl, rfl, rfl⟩
  have hconfined : Confined m.k m.k := .of_eq rfl rfl rfl rfl
  have hthread := h.threads m.active
  cases Machine.step_moved hstep with
  | @executes command frame p huser hcaller =>
    rw [huser] at hthread
    have howns : ThreadOwns m.k m.active (m.owned m.active) (.enter disk.fs command frame none) := by
      unfold Code.enter
      split <;> exact hthread
    exact h.own hconfined (.stay howns hsame) (fun t ht => Function.update_of_ne ht _ _) (Function.update_self _ _ _)
      (Function.update_eq_self _ _).symm h.stay
  | @halts status frame p huser hcaller =>
    rw [huser] at hthread
    have howns : ThreadOwns m.k m.active (m.owned m.active) (.testBase p status frame) :=
      ⟨hthread.curr.symm.trans hcaller, hthread⟩
    exact h.own hconfined (.stay howns hsame)
      (fun t ht => Function.update_of_ne ht _ _) (Function.update_self _ _ _) (Function.update_eq_self _ _).symm h.stay
  | restarted huser hhalt =>
    obtain ⟨hkilled, hrestart⟩ := h.killed hready huser hhalt
    obtain ⟨hafter, hbefore⟩ := hrestart _ rfl
    rw [HaltResult.stackAfter, Function.update_eq_self] at hkilled
    rw [hafter, Option.elim_some, Machine.pick, if_pos (hbefore.trans hafter)]
    exact hkilled
  | returned huser hhalt => exact (h.killed hready huser hhalt).1
  | ran hnext => exact h.ran hready hnext
  | idle => exact h
  | started haction hfree hleast he => exact h.started hready haction hfree hleast he
  | switched haction hs _ => exact h.switched haction hs

/-- A slot that is pushed while another terminal owns it has two owners. -/
theorem not_separate_push {owned : Fin 3 → List Slot} {t u : Fin 3} {i : Slot} (hu : u ≠ t) (hi : i ∈ owned u) :
    ¬SeparateStacks (Function.update owned t (i :: owned t)) := by
  intro hseparate
  refine hu (hseparate.unique u t i ?_ ?_)
  · rwa [Function.update_of_ne hu]
  · rw [Function.update_self]
    exact List.mem_cons_self

/-- `execute` of the shell takes the slot its search finds. -/
theorem execute_shell (disk : Disk) {k : Kernel} {i : Slot} (hfound : k.freeSlot = some i) (frame : ExecFrame) :
    ∃ k', k.execute disk.fs shellCommand frame = some k' ∧ Kernel.Executed k k' i frame := by
  obtain ⟨hfree, hleast⟩ := Kernel.freeSlot_eq_some.mp hfound
  have hsome : (k.execute disk.fs shellCommand frame).isSome :=
    Kernel.execute_isSome.mpr ⟨disk.shellLoads frame, i, hfree⟩
  obtain ⟨k', hk'⟩ := Option.isSome_iff_exists.mp hsome
  obtain ⟨j, hjfree, hjleast, he⟩ := Kernel.execute_eq_some hk'
  have hfound' := Kernel.freeSlot_eq_some.mpr ⟨hjfree, hjleast⟩
  cases hfound'.symm.trans hfound
  exact ⟨k', hk', he⟩

/-- A slot that the search loop of a system call finds has no owner on another terminal. -/
theorem Owners.search_sole (h : Owners m) (hexclusive : SlotExclusive disk.fs m .stmt) {call : ExecCall} {j : Slot}
    (hcode : m.code m.active = .search call j) (hused : m.k.pid j = false) {u : Fin 3} (hu : u ≠ m.active) :
    j ∉ m.owned u := by
  intro hmem
  have hthread := h.threads m.active
  by_cases hown : call.halting.map Prod.fst = some j
  · rw [hcode] at hthread
    obtain ⟨halting, hhalting, hfst⟩ := Option.map_eq_some_iff.mp hown
    simp only [ThreadOwns, hhalting] at hthread
    obtain ⟨-, -, hpicked⟩ := hthread
    have hbase := hpicked.mem
    obtain ⟨rest, -, hpcb, -⟩ := hpicked
    exact hu (h.separate.unique u m.active j hmem (by rwa [← hfst, hpcb]))
  · have hstep : m.step disk.fs .stmt = some { m.goto (.mark call j) m.k with owned := m.ownedAfter } := by
      simp [Machine.step, hcode, Code.next, hused]
    refine not_separate_push hu hmem ?_
    have hafter := hexclusive _ hstep
    simpa [Machine.ownedAfter_eq, hcode, Code.stackAfter, hused, hown] using hafter

/-- A slot that the restart of a killed base shell finds has no owner on another terminal. -/
theorem Owners.restart_sole (h : Owners m) {byException : Bool} {frame : ExecFrame}
    (hexclusive : SlotExclusive disk.fs m (.kill byException frame)) (hcode : m.code m.active = .user)
    (hcaller : m.k.caller = some (base m.active)) {j : Slot}
    (hfound : ((m.k.raise (if byException then .exception else .ctrlC)).dropBase (base m.active)).freeSlot = some j)
    {u : Fin 3} (hu : u ≠ m.active) : j ∉ m.owned u := by
  intro hmem
  have hthread := h.threads m.active
  let cause : Cause := if byException then .exception else .ctrlC
  obtain ⟨k', hk', he⟩ := execute_shell disk hfound frame
  have hhalt : m.k.haltBy disk.fs cause frame = some (.restarted k') := by
    rw [haltBy_eq]
    exact Kernel.halt_of_base hcaller hk'
  have hafter : k'.caller = some j := by
    rw [Kernel.caller, he.currPid, he.activeTerm]
    exact Function.update_self _ _ _
  have hstep : m.step disk.fs (.kill byException frame) =
      some { m with k := k', owned := m.pick m.active m.k.caller j } := by
    simp [Machine.step, hcode, cause] at hhalt ⊢
    simp [hhalt, hafter]
  have hseparate := hexclusive _ hstep
  simp only [Machine.pick, hcaller, Option.some.injEq] at hseparate
  rw [hcode] at hthread
  split_ifs at hseparate with hbase
  · have hown : j ∈ m.owned m.active := hbase ▸ List.mem_of_mem_head? (hthread.curr.symm.trans hcaller)
    exact hu (h.separate.unique u m.active j hmem hown)
  · exact not_separate_push hu hmem hseparate

/-- A slot that a tick finds for the shell of the next terminal has no owner on another one. -/
theorem Owners.start_sole {regs : Regs} {frame : ExecFrame} (hexclusive : SlotExclusive disk.fs m (.tick regs frame))
    (haction : m.k.pitAction = .startShell) {j : Slot} (hfound : m.k.freeSlot = some j)
    {u : Fin 3} (hu : u ≠ m.active + 1) : j ∉ m.owned u := by
  intro hmem
  have hsaved : Kernel.freeSlot
      { m.k.saveSchedule (base m.k.activeTerm) regs with activeTerm := m.k.activeTerm + 1 } = some j := hfound
  obtain ⟨k', hk', he⟩ := execute_shell disk hsaved frame
  have hafter : k'.caller = some j := by
    rw [Kernel.caller, he.currPid, he.activeTerm]
    exact Function.update_self _ _ _
  have hstep : m.step disk.fs (.tick regs frame) = some
      { k := k'
        code := Function.update m.code (m.active + 1) .user
        owned := Function.update m.owned (m.active + 1) (j :: m.owned (m.active + 1))
        suspended := m.suspend regs } := by
    simp only [Machine.step, Machine.tick, haction]
    rw [hk', Option.bind_some, hafter]
    rfl
  exact not_separate_push hu hmem (hexclusive _ hstep)

/-- A search that finds a slot held by another terminal's thread gives it a second owner. -/
theorem Owners.ready (h : Owners m) (hexclusive : SlotExclusive disk.fs m e) : SlotReady m e := by
  intro t i hfinds u hu
  by_contra hholds
  have hmem : i ∈ m.owned u := (h.threads u).mem_of_holds ((Bool.not_eq_false _).mp hholds)
  cases e with
  | execute command frame | halt status frame => cases hfinds
  | stmt =>
    cases hcode : m.code m.active with
    | search call j =>
      simp only [Machine.finds, hcode] at hfinds
      split_ifs at hfinds with hused
      obtain ⟨rfl, rfl⟩ := Prod.mk.inj (Option.some.inj hfinds)
      exact h.search_sole hexclusive hcode (Bool.not_eq_true _ ▸ hused) hu hmem
    | _ => simp [Machine.finds, hcode] at hfinds
  | kill byException frame =>
    cases hcode : m.code m.active with
    | user =>
      simp only [Machine.finds, hcode] at hfinds
      split_ifs at hfinds with hcaller
      obtain ⟨j, hfound, hj⟩ := Option.map_eq_some_iff.mp hfinds
      obtain ⟨rfl, rfl⟩ := Prod.mk.inj hj
      exact h.restart_sole hexclusive hcode hcaller hfound hu hmem
    | _ => simp [Machine.finds, hcode] at hfinds
  | tick regs frame =>
    simp only [Machine.finds] at hfinds
    split_ifs at hfinds with haction
    obtain ⟨j, hfound, hj⟩ := Option.map_eq_some_iff.mp hfinds
    obtain ⟨rfl, rfl⟩ := Prod.mk.inj hj
    exact Owners.start_sole hexclusive haction hfound hu hmem

end Machine

/-- When the first shell runs it owns the first slot. -/
theorem owners_boot (disk : Disk) (pcb : Slot → Pcb) (page : UInt32 → ℕ → UInt8) (frame : ExecFrame) :
    Owners (Machine.boot disk pcb page frame) := by
  have hbooted : Booted (boot disk pcb page frame) bootLive := booted_boot
  refine ⟨hbooted.separate, fun t => ⟨⟨?_, hbooted.pcbPid t, hbooted.links t⟩, hbooted.curr t, hbooted.proc t⟩,
    fun i hi => (hbooted.used i).mp hi, rfl, Or.inl ⟨rfl, rfl, executed_boot.activeTerm⟩, fun t _ hproc => ?_⟩
  · exact fun i hi => (hbooted.used i).mpr ⟨t, hi⟩
  · exact List.head?_eq_none_iff.mp ((hbooted.proc t).symm.trans hproc)

/-- Along every run from boot, whatever calls, ends of processes and ticks fall between the statements
of the three terminals' threads, no slot ever has two owners if and only if no search finds a slot that
another terminal's thread found and has not marked, or freed and has not left. -/
theorem slotExclusive_iff (disk : Disk) (pcb : Slot → Pcb) (page : UInt32 → ℕ → UInt8) (frame : ExecFrame)
    (actions : List Action) :
    Along (Machine.step disk.fs) (SlotExclusive disk.fs) (Machine.boot disk pcb page frame) actions ↔
      Along (Machine.step disk.fs) SlotReady (Machine.boot disk pcb page frame) actions := by
  have hiff (m : Machine) (e : Action) (h : Owners m) : SlotExclusive disk.fs m e ↔ SlotReady m e :=
    ⟨h.ready, fun hready m' hstep => (h.step hready hstep).separate⟩
  exact along_congr (fun m e m' h hexclusive hstep => h.step ((hiff m e h).mp hexclusive) hstep) hiff
    (owners_boot disk pcb page frame)

/-- The first terminal's shell executes a program and is suspended when it has found slot 3 free; the
second terminal's shell does the same. Both own the slot. -/
theorem slotExclusive_lost :
    ((run (Machine.step shellDisk.fs) Machine.shell ([zeroTick, zeroTick, zeroTick,
        .execute shellCommand zeroFrame] ++ List.replicate 4 .stmt ++
          [zeroTick, .execute shellCommand zeroFrame] ++ List.replicate 3 .stmt)).bind fun m =>
      (m.step shellDisk.fs .stmt).map fun m' => (m'.owned 0, m'.owned 1)) = some ([3, 0], [3, 1]) ∧
    ¬Along (Machine.step shellDisk.fs) (SlotExclusive shellDisk.fs) Machine.shell
      ([zeroTick, zeroTick, zeroTick, .execute shellCommand zeroFrame] ++ List.replicate 4 .stmt ++
        [zeroTick, .execute shellCommand zeroFrame] ++ List.replicate 3 .stmt ++ [.stmt]) := by
  have hrun : ((run (Machine.step shellDisk.fs) Machine.shell ([zeroTick, zeroTick, zeroTick,
        .execute shellCommand zeroFrame] ++ List.replicate 4 .stmt ++
          [zeroTick, .execute shellCommand zeroFrame] ++ List.replicate 3 .stmt)).bind fun m =>
      (m.step shellDisk.fs .stmt).map fun m' => (m'.owned 0, m'.owned 1)) = some ([3, 0], [3, 1]) := by
    decide +kernel
  refine ⟨hrun, fun hexclusive => ?_⟩
  obtain ⟨m, hm, hlast⟩ := Option.bind_eq_some_iff.mp hrun
  obtain ⟨m', hm', howned⟩ := Option.map_eq_some_iff.mp hlast
  obtain ⟨hzero, hone⟩ := Prod.mk.inj howned
  have hseparate := hexclusive.last hm m' hm'
  exact absurd (hseparate.unique 0 1 3 (by simp [hzero]) (by simp [hone])) (by decide)

end OsKernel
