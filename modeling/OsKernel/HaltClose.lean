import OsKernel.Lineage

/-!
# Which descriptors `halt` closes

`halt` makes the parent the current process before its close loop, and `close` finds its PCB through
the current pid. So the loop closes the descriptors of the parent, and those of the process that
ends stay open.
-/

namespace OsKernel

open Library

/-- `halt` closed every open descriptor of the process in slot `c`, with one call of its driver. -/
def ClosesOwn (c : Slot) (before after : Kernel) : Prop :=
  ∀ i : Fin 8, FD_START ≤ i.val → ((before.pcb c).fileDescArr i).flag = true →
    ((after.pcb c).fileDescArr i).flag = false ∧
      after.closeCalls.count (c, i) = before.closeCalls.count (c, i) + 1

/-- A process without open descriptors. -/
theorem openDescs_eq_nil {p : Pcb} :
    p.openDescs = [] ↔ ∀ i : Fin 8, FD_START ≤ i.val → (p.fileDescArr i).flag = false := by
  simp [Pcb.openDescs, List.filter_eq_nil_iff]

/-- Closing all descriptors is visible unless none is open. -/
theorem closeAll_eq_iff {p : Pcb} :
    (p.closeAll (List.finRange 8)).fileDescArr = p.fileDescArr ↔ p.openDescs = [] := by
  rw [openDescs_eq_nil]
  constructor
  · intro hsame i hi
    have hone := congrArg (fun descs => (descs i).flag) hsame
    simpa [Pcb.closeAll, hi] using hone.symm
  · intro hclosed
    rw [Pcb.closeAll_of_closed fun i _ => hclosed i]

section Halt

variable {k k' : Kernel} {c p : Slot}

/-- The process that ends keeps its descriptors, and no driver is called for it. -/
theorem closesOwn_iff (hr : Kernel.Returned k k' c p) (hne : c ≠ p) :
    ClosesOwn c k k' ↔ (k.pcb c).openDescs = [] := by
  have hdescs : (k'.pcb c).fileDescArr = (k.pcb c).fileDescArr := by
    rw [hr.pcb, Function.update_of_ne hne, Function.update_self]
  rw [openDescs_eq_nil]
  constructor
  · intro hcloses i hi
    by_contra hopen
    have hclosed := (hcloses i hi ((Bool.not_eq_false _).mp hopen)).1
    rw [hdescs] at hclosed
    exact hopen hclosed
  · intro hclosed i hi hopen
    rw [hclosed i hi] at hopen
    cases hopen

/-- The parent keeps its descriptors exactly when it has none open. -/
theorem parentDescs_iff (hr : Kernel.Returned k k' c p) :
    (k'.pcb p).fileDescArr = (k.pcb p).fileDescArr ↔ (k.pcb p).openDescs = [] := by
  rw [hr.pcb, Function.update_self, closeAll_eq_iff]

end Halt

/-- From the `execute` of a parent to the end of the child, whatever happens in between: `halt`
returns to the parent; it closes exactly the child's descriptors, and leaves the parent's as they
were at the `execute`, if and only if neither has a descriptor open. -/
theorem halt_closes_iff {disk : Disk} {pcb : Slot → Pcb} {page : UInt32 → ℕ → UInt8}
    {bootFrame frame : ExecFrame} {command : Option Bytes} {earlier meanwhile : List Event}
    {k₀ k₁ k₂ : Kernel} {c p : Slot}
    (hearlier : run (step disk.fs) (boot disk pcb page bootFrame) earlier = some k₀)
    (hparent : k₀.caller = some p) (hexec : k₀.execute disk.fs command frame = some k₁)
    (hchild : k₁.caller = some c) (hlive : Along (step disk.fs) (NotEnd c) k₁ meanwhile)
    (hmeanwhile : run (step disk.fs) k₁ meanwhile = some k₂) (hcaller : k₂.caller = some c)
    (hbase : c ≠ base k₂.activeTerm) (cause : Cause) (haltFrame : ExecFrame) :
    ∃ value k₃, k₂.haltBy disk.fs cause haltFrame = some (.returned value k₃) ∧
      (ClosesOwn c k₂ k₃ ∧ (k₃.pcb p).fileDescArr = (k₀.pcb p).fileDescArr ↔
        (k₂.pcb c).openDescs = [] ∧ (k₀.pcb p).openDescs = []) := by
  obtain ⟨live₀, h₀⟩ := booted_run hearlier
  obtain ⟨live₁, h₁, -, hl₁⟩ := lineage_execute h₀ hexec hparent hchild
  obtain ⟨live₂, h₂, hl₂⟩ := hl₁.run h₁ hlive hmeanwhile
  obtain ⟨rest, htop⟩ := hl₂.live_of_caller h₂ hcaller
  obtain ⟨k₃, hhalt, hr⟩ := h₂.halt_child htop hbase cause haltFrame
  refine ⟨_, k₃, hhalt, ?_⟩
  have hne : c ≠ p := by
    rintro rfl
    have hnodup := h₂.separate.nodup k₂.activeTerm
    rw [htop] at hnodup
    simp at hnodup
  have hopen : (k₂.pcb p).openDescs = (k₀.pcb p).openDescs := by
    simp only [Pcb.openDescs, hl₂.descs_eq]
  rw [closesOwn_iff hr hne, ← hl₂.descs_eq, parentDescs_iff hr, hopen]

/-- Nothing is open when the shell's child halts, so the descriptors are as they should be. -/
theorem halt_closes_iff_shell :
    ∃ k₁ value k₃, shellMachine.execute shellDisk.fs shellCommand zeroFrame = some k₁ ∧
      k₁.haltBy shellDisk.fs (.exit 0) zeroFrame = some (.returned value k₃) ∧
      (ClosesOwn 1 k₁ k₃ ∧ (k₃.pcb 0).fileDescArr = (shellMachine.pcb 0).fileDescArr ↔
        (k₁.pcb 1).openDescs = [] ∧ (shellMachine.pcb 0).openDescs = []) := by
  have hcallers : (shellMachine.execute shellDisk.fs shellCommand zeroFrame).map
      (fun k => (k.caller, k.activeTerm)) = some (some 1, 0) := by
    decide +kernel
  obtain ⟨k₁, hexec, hk₁⟩ := Option.map_eq_some_iff.mp hcallers
  obtain ⟨hcaller, hactive⟩ := Prod.mk.inj hk₁
  have hbase : (1 : Slot) ≠ base k₁.activeTerm := by
    rw [hactive]
    decide
  have hearlier : run (step shellDisk.fs) shellMachine [] = some shellMachine := rfl
  have hmeanwhile : run (step shellDisk.fs) k₁ [] = some k₁ := rfl
  have hparent : shellMachine.caller = some 0 := by decide +kernel
  obtain ⟨value, k₃, hhalt, hiff⟩ := halt_closes_iff hearlier hparent hexec hcaller (along_nil k₁) hmeanwhile
    hcaller hbase (.exit 0) zeroFrame
  exact ⟨k₁, value, k₃, hexec, hhalt, hiff⟩

/-- A shell opens a file and executes a program that opens one too. When the program halts, its file
stays open and the shell's is closed. -/
theorem halt_closes_parent :
    ∃ k₀ k₁ k₂ value k₃, run (step shellDisk.fs) shellMachine [.openFile (toBytes shellName)] = some k₀ ∧
      k₀.caller = some 0 ∧ k₀.execute shellDisk.fs shellCommand zeroFrame = some k₁ ∧ k₁.caller = some 1 ∧
      run (step shellDisk.fs) k₁ [.openFile (toBytes shellName)] = some k₂ ∧ k₂.caller = some 1 ∧
      k₂.haltBy shellDisk.fs (.exit 0) zeroFrame = some (.returned value k₃) ∧
      ¬ClosesOwn 1 k₂ k₃ ∧ (k₃.pcb 0).fileDescArr ≠ (k₀.pcb 0).fileDescArr := by
  have hopened : (run (step shellDisk.fs) shellMachine [.openFile (toBytes shellName)]).bind (fun k₀ =>
      (k₀.execute shellDisk.fs shellCommand zeroFrame).bind fun k₁ =>
        (run (step shellDisk.fs) k₁ [.openFile (toBytes shellName)]).bind fun k₂ =>
          (k₂.haltBy shellDisk.fs (.exit 0) zeroFrame).bind fun r =>
            r.returns.map fun ret =>
              ([k₀.caller, k₁.caller, k₂.caller], [((k₂.pcb 1).fileDescArr 2).flag,
                ((ret.2.pcb 1).fileDescArr 2).flag, ((k₀.pcb 0).fileDescArr 2).flag,
                ((ret.2.pcb 0).fileDescArr 2).flag])) =
      some ([some 0, some 1, some 1], [true, true, true, false]) := by
    decide +kernel
  obtain ⟨k₀, hk₀, hrest⟩ := Option.bind_eq_some_iff.mp hopened
  obtain ⟨k₁, hk₁, hrest⟩ := Option.bind_eq_some_iff.mp hrest
  obtain ⟨k₂, hk₂, hrest⟩ := Option.bind_eq_some_iff.mp hrest
  obtain ⟨r, hr, hrest⟩ := Option.bind_eq_some_iff.mp hrest
  cases r with
  | restarted _ => cases hrest
  | returned value k₃ =>
    have hends := Option.some.inj hrest
    simp only [Prod.mk.injEq, List.cons.injEq, and_true] at hends
    obtain ⟨⟨hcaller₀, hcaller₁, hcaller₂⟩, hopen, hstill, hparent, hclosed⟩ := hends
    refine ⟨k₀, k₁, k₂, value, k₃, hk₀, hcaller₀, hk₁, hcaller₁, hk₂, hcaller₂, hr, fun hcloses => ?_, fun hsame => ?_⟩
    · have hflag := (hcloses 2 (by decide) hopen).1
      rw [hstill] at hflag
      cases hflag
    · rw [hsame, hparent] at hclosed
      cases hclosed

end OsKernel
