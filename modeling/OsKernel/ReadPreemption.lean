import OsKernel.Lineage
import OsKernel.ReadStatements

/-!
# `file_read` and `dir_read` under preemption

A tick between two statements of a read lets a process of another terminal set `pcb_val_read`, and the
read goes on with that process's descriptor. As long as each statement of `file_read` and `dir_read` that
goes through the pointer runs while the last call that set it is the thread's own, every read uses the
inode and the position of its caller's descriptor and moves no other position; and a name that `dir_read`
moves past is that of the caller's entry, although it is counted and copied through the global `dentry_temp`.
-/

namespace OsKernel

open Library

/-- The statement of `file_read` or `dir_read` goes through `pcb_val_read`. -/
def ReadCode.usesDesc : ReadCode → Bool
  | fileRead _ _ | fileMove _ _ | dirCount _ | dirLookup _ _ | dirMove _ _ _ _ => true
  | _ => false

/-- A statement of `file_read` or `dir_read` that goes through `pcb_val_read` runs only while no process of
another terminal has begun a `read` or `getargs` since the thread's own call began. -/
def LastAssigned (m : ReadMachine) : ReadAction → Prop
  | .stmt => (m.code m.active).usesDesc = true → m.assigned = some m.active
  | _ => True

instance (m : ReadMachine) : (a : ReadAction) → Decidable (LastAssigned m a)
  | .stmt => inferInstanceAs (Decidable (_ → _))
  | .read _ _ | .getargs _ _ | .wake _ _ | .tick _ _ => inferInstanceAs (Decidable True)

/-- The name of the entry at a position, with the number of its letters. -/
def FileSystem.NameAt (fs : FileSystem) (position : UInt32) (readNum : ℕ) (bytes : List UInt8) : Prop :=
  ∃ entry, fs.readDentryByIndex position = some entry ∧ readNum = Kernel.nameLength entry ∧
    bytes = entry.fileName.take readNum

/-- What a statement may do for the process in slot `p`: `file_read` reads at the inode and the position of
the process's own descriptor and moves that position by the number of bytes it returns, `dir_read` looks
up its own position and moves it by one entry behind having counted and copied the name of the entry there,
and nothing else moves a position. -/
def OwnStmt (fs : FileSystem) (p : Slot) (k : Kernel) (code code' : ReadCode) (k' : Kernel) : Prop :=
  match code with
  | .fileRead i nbytes =>
    code' = .fileTest i
      (fs.readBytes ((k.pcb p).fileDescArr i).inode ((k.pcb p).fileDescArr i).position nbytes) ∧ k'.pcb = k.pcb
  | .fileMove i read =>
    code' = .leave read.1 read.2 ∧ k'.pcb = (k.modifyPcb p fun q =>
      q.setDesc i { q.fileDescArr i with position := (q.fileDescArr i).position + read.1 }).pcb
  | .dirCount i => code' = .dirLookup i ((k.pcb p).fileDescArr i).position ∧ k'.pcb = k.pcb
  | .dirLookup i counterVal =>
    counterVal = ((k.pcb p).fileDescArr i).position ∧
      code' = .dirTest i counterVal (fs.readDentryByIndex counterVal).isSome ∧ k'.pcb = k.pcb
  | .dirMove i _ readNum bytes =>
    fs.NameAt ((k.pcb p).fileDescArr i).position readNum bytes ∧
      code' = .leave (UInt32.ofNat readNum) bytes ∧ k'.pcb = (k.modifyPcb p fun q =>
        q.setDesc i { q.fileDescArr i with position := (q.fileDescArr i).position + 1 }).pcb
  | _ => k'.pcb = k.pcb

/-- Every statement of the scheduled thread does this for the scheduled process. -/
def OwnReads (fs : FileSystem) (m : ReadMachine) : ReadAction → Prop
  | .stmt => ∀ m', m.step fs .stmt = some m' →
    ∃ p, m.k.caller = some p ∧ OwnStmt fs p m.k (m.code m.active) (m'.code m.active) m'.k
  | _ => True

/-- What `counterVal` was read as, where it is live: its value, less the increment. -/
def ReadCode.counter : ReadCode → Option (Fin 8 × UInt32)
  | dirLookup i c | dirTest i c _ | dirLong i c | dirLength i c | dirCopy i c _ | dirNext i c _ _ => some (i, c)
  | dirMove i c _ _ => some (i, c - 1)
  | _ => none

/-- What `dir_read` knows of the name on its way from the lookup of the entry to the move. -/
def ReadCode.Named (fs : FileSystem) (k : Kernel) : ReadCode → Prop
  | dirTest _ c true | dirLong _ c => fs.readDentryByIndex c = some k.dentryTemp
  | dirLength _ c =>
    fs.readDentryByIndex c = some k.dentryTemp ∧ strlen (toBytes k.dentryTemp.fileName) < MAX_FILENAME
  | dirCopy _ c readNum => fs.readDentryByIndex c = some k.dentryTemp ∧ readNum = Kernel.nameLength k.dentryTemp
  | dirNext _ c readNum bytes => fs.NameAt c readNum bytes
  | dirMove _ c readNum bytes => fs.NameAt (c - 1) readNum bytes
  | _ => True

/-- The globals through which reads find their caller and their entry are as they were. -/
structure SameGlobals (k k' : Kernel) : Prop where
  pcbValRead : k'.pcbValRead = k.pcbValRead
  dentryTemp : k'.dentryTemp = k.dentryTemp

section Ticks

variable {k k' k'' : Kernel}

/-- Two changes behind each other. -/
theorem SameGlobals.trans (h : SameGlobals k k') (h' : SameGlobals k' k'') : SameGlobals k k'' where
  pcbValRead := h'.pcbValRead.trans h.pcbValRead
  dentryTemp := h'.dentryTemp.trans h.dentryTemp

/-- No statement of `execute` sets `pcb_val_read` or `dentry_temp`. -/
theorem sameGlobals_execStmt (i : Slot) (k : Kernel) (stmt : ExecStmt) : SameGlobals k (stmt.run i k) := by
  cases stmt with
  | store offset byte =>
    obtain ⟨page, hpage⟩ := Kernel.store_eq k i offset byte
    rw [hpage]
    exact ⟨rfl, rfl⟩
  -- the new addresses are kept folded
  | setupMem =>
    have hpde (userPde : UInt32) : SameGlobals k { k with userPde } := ⟨rfl, rfl⟩
    exact hpde _
  | setEsp0 =>
    have hesp0 (esp0 : UInt32) : SameGlobals k { k with esp0 } := ⟨rfl, rfl⟩
    exact hesp0 _
  | _ => exact ⟨rfl, rfl⟩

/-- The statements of `execute` do not set them. -/
theorem sameGlobals_execStmts (i : Slot) (stmts : List ExecStmt) (k : Kernel) :
    SameGlobals k (stmts.foldl (ExecStmt.run i) k) := by
  induction stmts generalizing k with
  | nil => exact ⟨rfl, rfl⟩
  | cons stmt rest ih => exact (sameGlobals_execStmt i k stmt).trans (ih _)

/-- `execute` does not set them. -/
theorem sameGlobals_execute {fs : FileSystem} {command : Option Bytes} {frame : ExecFrame}
    (h : k.execute fs command frame = some k') : SameGlobals k k' := by
  obtain ⟨prog, -, h⟩ := Option.bind_eq_some_iff.mp h
  obtain ⟨i, -, h⟩ := Option.bind_eq_some_iff.mp h
  obtain rfl := Option.some.inj h
  have hfound : SameGlobals k (((k.markPid i).setPrevPid).setCurrPid (some i)) := ⟨rfl, rfl⟩
  exact hfound.trans (sameGlobals_execStmts i _ _)

/-- No tick sets them. -/
theorem sameGlobals_pitHandler {fs : FileSystem} {regs : Regs} {frame : ExecFrame}
    (h : k.pitHandler fs regs frame = some k') : SameGlobals k k' := by
  unfold Kernel.pitHandler at h
  cases haction : k.pitAction with
  | idle =>
    rw [haction] at h
    cases h
    exact ⟨rfl, rfl⟩
  | startShell =>
    rw [haction] at h
    cases h
    let k₁ : Kernel := { k.saveSchedule (base k.activeTerm) regs with activeTerm := k.activeTerm + 1 }
    have hsaved : SameGlobals k k₁ := ⟨rfl, rfl⟩
    refine hsaved.trans ?_
    change SameGlobals k₁ ((k₁.execute fs shellCommand frame).getD k₁)
    cases hexec : k₁.execute fs shellCommand frame with
    | none => exact ⟨rfl, rfl⟩
    | some k₂ => exact sameGlobals_execute hexec
  | contextSwitch switchFrom switchTo =>
    rw [haction] at h
    obtain ⟨p, -, h⟩ := Option.bind_eq_some_iff.mp h
    obtain ⟨q, -, h⟩ := Option.bind_eq_some_iff.mp h
    cases h
    exact ⟨rfl, rfl⟩

/-- A tick keeps the running process of a terminal, and its descriptors. -/
theorem Booted.tick_kept {disk : Disk} {live : Fin 3 → List Slot} (h : Booted k live) {regs : Regs} {frame : ExecFrame}
    (hk' : k.pitHandler disk.fs regs frame = some k') :
    ∃ live', Booted k' live' ∧ ∀ u p, (live u).head? = some p →
      (live' u).head? = some p ∧ (k'.pcb p).fileDescArr = (k.pcb p).fileDescArr := by
  obtain ⟨live', hstep⟩ := h.tick_cases hk'
  refine ⟨live', hstep.booted h, fun u p hp => ?_⟩
  have hmem : p ∈ live u := List.mem_of_mem_head? hp
  cases hstep with
  | described he _ => cases he
  | @started _ _ _ i _ hnone hfree _ he =>
    have hu : u ≠ k.activeTerm + 1 := by
      rintro rfl
      rw [hnone] at hmem
      cases hmem
    have hp' : p ≠ i := by
      rintro rfl
      exact h.not_mem hfree u hmem
    obtain ⟨argsName, hpcb⟩ := he.pcb
    rw [Function.update_of_ne hu, hpcb, Function.update_of_ne hp']
    exact ⟨hp, (saveSchedule_kept k _ p regs).2⟩
  | startRefused _ _ => exact ⟨hp, (saveSchedule_kept k _ p regs).2⟩
  | @switched _ _ _ p' _ _ _ _ _ _ hs =>
    rw [show k'.pcb = (k.saveSchedule p' regs).pcb from hs.pcb]
    exact ⟨hp, (saveSchedule_kept k p' p regs).2⟩

end Ticks

/-- The changes a statement can make: it sets `pcb_val_read` or `dentry_temp`, or, through the pointer, a descriptor. -/
inductive ReadCode.Effect (k : Kernel) (code : ReadCode) : Kernel → Prop where
  | assigned (hassigns : code.assigns = true) : Effect k code { k with pcbValRead := k.caller }
  | looked (hassigns : code.assigns = false) (dentryTemp : Dentry)
      (hkept : code.usesDesc = false → dentryTemp = k.dentryTemp) : Effect k code { k with dentryTemp }
  | moved (hassigns : code.assigns = false) (huses : code.usesDesc = true) {p : Slot} (hptr : k.pcbValRead = some p)
      (i : Fin 8) (d : FileDesc) : Effect k code (k.modifyPcb p (·.setDesc i d))

section Statements

variable {fs : FileSystem} {k k' : Kernel} {code code' : ReadCode} {p : Slot}

/-- A statement that is not an assignment and changes nothing. -/
theorem ReadCode.Effect.refl (hassigns : code.assigns = false) : code.Effect k k :=
  .looked hassigns k.dentryTemp fun _ => rfl

/-- The change that each statement makes. -/
theorem ReadCode.next_effect (h : code.next fs k = some (code', k')) : code.Effect k k' := by
  cases code with
  | user | wait | leave => cases h
  | enter | enterArgs =>
    cases h
    exact .assigned rfl
  | test fd nbytes =>
    rw [ReadCode.next] at h
    cases hfd : descIndex 0 fd with
    | none =>
      rw [hfd] at h
      cases h
      exact .refl rfl
    | some i =>
      rw [hfd] at h
      obtain ⟨p, -, h⟩ := Option.map_eq_some_iff.mp h
      cases h
      exact .refl rfl
  | fileMove i read =>
    obtain ⟨p, hptr, h⟩ := Option.map_eq_some_iff.mp h
    cases h
    exact .moved rfl rfl hptr i _
  | dirMove i counterVal readNum bytes =>
    obtain ⟨p, hptr, h⟩ := Option.map_eq_some_iff.mp h
    cases h
    exact .moved rfl rfl hptr i _
  | dirLookup i counterVal =>
    obtain ⟨p, -, h⟩ := Option.map_eq_some_iff.mp h
    cases hentry : fs.readDentryByIndex ((k.pcb p).fileDescArr i).position with
    | none =>
      rw [hentry] at h
      cases h
      exact .refl rfl
    | some entry =>
      rw [hentry] at h
      cases h
      exact .looked rfl entry fun huses => by cases huses
  | dispatch | fileRead | dirCount | testArgs | copyArgs =>
    obtain ⟨p, -, h⟩ := Option.map_eq_some_iff.mp h
    cases h
    exact .refl rfl
  | fileTest | dirTest | dirLong | dirLength | dirCopy | dirNext =>
    cases h
    exact .refl rfl

/-- A statement whose pointer is its caller's PCB is a call on the caller's descriptors. -/
theorem ReadCode.Effect.descCall (h : code.Effect k k') (hown : code.usesDesc = true → k.pcbValRead = k.caller) :
    DescCall k k' := by
  cases h with
  | assigned | looked => exact .unchanged rfl rfl rfl rfl rfl rfl rfl rfl rfl
  | moved _ huses hptr i d =>
    exact .setDesc ((hown huses).symm.trans hptr) i d k.rtc k.dentryTemp k.pcbValRead k.closeCalls

/-- The pointer after a statement. -/
theorem ReadCode.Effect.pcbValRead (h : code.Effect k k') :
    k'.pcbValRead = if code.assigns then k.caller else k.pcbValRead := by
  cases h with
  | assigned hassigns => rw [if_pos hassigns]
  | looked hassigns | moved hassigns => rw [hassigns]; rfl

/-- Another process's PCB is left alone. -/
theorem ReadCode.Effect.pcb_of_ne (h : code.Effect k k') (hown : code.usesDesc = true → k.pcbValRead = some p)
    {q : Slot} (hq : q ≠ p) : k'.pcb q = k.pcb q := by
  cases h with
  | assigned | looked => rfl
  | moved _ huses hptr i d =>
    obtain rfl := Option.some.inj (hptr.symm.trans (hown huses))
    exact Function.update_of_ne hq _ _

/-- A statement whose pointer, counter and name are its caller's does what it should do for the caller. -/
theorem ReadCode.next_own (h : code.next fs k = some (code', k'))
    (hown : code.usesDesc = true → k.pcbValRead = some p)
    (hcounter : ∀ i c, code.counter = some (i, c) → ((k.pcb p).fileDescArr i).position = c)
    (hnamed : code.usesDesc = true → code.Named fs k) : OwnStmt fs p k code code' k' := by
  cases code with
  | user | wait | leave => cases h
  | fileRead i nbytes =>
    rw [ReadCode.next, hown rfl, Option.map_some] at h
    cases h
    exact ⟨rfl, rfl⟩
  | fileMove i read =>
    rw [ReadCode.next, hown rfl, Option.map_some] at h
    cases h
    exact ⟨rfl, rfl⟩
  | dirCount i =>
    rw [ReadCode.next, hown rfl, Option.map_some] at h
    cases h
    exact ⟨rfl, rfl⟩
  | dirLookup i counterVal =>
    have hposition := hcounter i counterVal rfl
    rw [ReadCode.next, hown rfl, Option.map_some, hposition] at h
    refine ⟨hposition.symm, ?_⟩
    cases hentry : fs.readDentryByIndex counterVal with
    | none | some =>
      rw [hentry] at h
      cases h
      exact ⟨rfl, rfl⟩
  | dirMove i counterVal readNum bytes =>
    have hposition := hcounter i (counterVal - 1) rfl
    have hnext : counterVal = ((k.pcb p).fileDescArr i).position + 1 := by
      rw [hposition, UInt32.sub_add_cancel]
    have hname : fs.NameAt (counterVal - 1) readNum bytes := hnamed rfl
    rw [ReadCode.next, hown rfl, Option.map_some] at h
    cases h
    rw [← hposition] at hname
    rw [hnext]
    exact ⟨hname, rfl, rfl⟩
  | enter | enterArgs | test | dispatch | fileTest | dirTest | dirLong | dirLength | dirCopy | dirNext | testArgs
  | copyArgs =>
    cases ReadCode.next_effect h with
    | assigned | looked => rfl
    | moved _ huses => cases huses

/-- What is known of the name depends on `dentry_temp` only. -/
theorem ReadCode.Named.congr (h : code.Named fs k) (hsame : k'.dentryTemp = k.dentryTemp) : code.Named fs k' := by
  unfold ReadCode.Named
  rw [hsame]
  exact h

/-- A statement that does not go through the pointer leaves `dentry_temp` alone. -/
theorem ReadCode.Effect.dentryTemp (h : code.Effect k k') (huses : code.usesDesc = false) :
    k'.dentryTemp = k.dentryTemp := by
  cases h with
  | assigned => rfl
  | looked _ _ hkept => exact hkept huses
  | moved _ huses' =>
    rw [huses] at huses'
    cases huses'

/-- A call that has just begun knows no name. -/
theorem ReadCode.named_of_assigns (hassigns : code.assigns = true) (h : code.next fs k = some (code', k')) :
    code'.Named fs k' := by
  cases code with
  | enter | enterArgs =>
    cases h
    trivial
  | _ => cases hassigns

/-- A statement of `dir_read` knows what the one before it knew, and the lookup finds the entry. -/
theorem ReadCode.Named.next (h : code.Named fs k) (hnext : code.next fs k = some (code', k'))
    (hown : code.usesDesc = true → k.pcbValRead = some p)
    (hcounter : ∀ i c, code.counter = some (i, c) → ((k.pcb p).fileDescArr i).position = c) : code'.Named fs k' := by
  cases code with
  | user | wait | leave => cases hnext
  | enter | enterArgs =>
    cases hnext
    trivial
  | test fd nbytes =>
    rw [ReadCode.next] at hnext
    cases hfd : descIndex 0 fd with
    | none =>
      rw [hfd] at hnext
      cases hnext
      trivial
    | some i =>
      rw [hfd] at hnext
      obtain ⟨q, -, hnext⟩ := Option.map_eq_some_iff.mp hnext
      cases hnext
      split <;> trivial
  | dispatch i nbytes =>
    obtain ⟨q, -, hnext⟩ := Option.map_eq_some_iff.mp hnext
    cases hnext
    cases ((k.pcb q).fileDescArr i).fop <;> trivial
  | fileRead | fileMove | dirCount | dirMove | copyArgs =>
    obtain ⟨q, -, hnext⟩ := Option.map_eq_some_iff.mp hnext
    cases hnext
    trivial
  | fileTest i read =>
    cases hnext
    split <;> trivial
  | testArgs buf nbytes =>
    obtain ⟨q, -, hnext⟩ := Option.map_eq_some_iff.mp hnext
    cases hnext
    split <;> trivial
  | dirLookup i counterVal =>
    rw [ReadCode.next, hown rfl, Option.map_some, hcounter i counterVal rfl] at hnext
    cases hentry : fs.readDentryByIndex counterVal with
    | none =>
      rw [hentry] at hnext
      cases hnext
      trivial
    | some entry =>
      rw [hentry] at hnext
      cases hnext
      exact hentry
  | dirTest i counterVal found =>
    cases hnext
    cases found with
    | false => trivial
    | true => exact h
  | dirLong i counterVal =>
    cases hnext
    split
    · next hshort => exact ⟨h, hshort⟩
    · next hlong => exact ⟨h, (Nat.min_eq_right (Nat.le_of_not_lt hlong)).symm⟩
  | dirLength i counterVal =>
    cases hnext
    exact ⟨h.1, (Nat.min_eq_left h.2.le).symm⟩
  | dirCopy i counterVal readNum =>
    cases hnext
    exact ⟨k.dentryTemp, h.1, h.2, rfl⟩
  | dirNext i counterVal readNum bytes =>
    cases hnext
    have hname : fs.NameAt counterVal readNum bytes := h
    rwa [ReadCode.Named, UInt32.add_sub_cancel]

/-- The read function of a driver starts without a counter. -/
theorem ReadCode.counter_driverRead (i : Fin 8) (nbytes : UInt32) (driver : Driver) :
    (ReadCode.driverRead i nbytes driver).counter = none := by
  cases driver <;> rfl

/-- The counter of the next statement is that of this one, or the position that `dir_read` reads. -/
theorem ReadCode.next_counter (h : code.next fs k = some (code', k')) {i : Fin 8} {c : UInt32}
    (hcode' : code'.counter = some (i, c)) :
    k'.pcb = k.pcb ∧ (code.counter = some (i, c) ∨
      code = .dirCount i ∧ ∀ p, k.pcbValRead = some p → ((k.pcb p).fileDescArr i).position = c) := by
  cases code with
  | user | wait | leave => cases h
  | enter | enterArgs =>
    cases h
    cases hcode'
  | test fd nbytes =>
    rw [ReadCode.next] at h
    cases hfd : descIndex 0 fd with
    | none =>
      rw [hfd] at h
      cases h
      cases hcode'
    | some j =>
      rw [hfd] at h
      obtain ⟨p, -, h⟩ := Option.map_eq_some_iff.mp h
      cases h
      split at hcode' <;> cases hcode'
  | dispatch j nbytes =>
    obtain ⟨p, -, h⟩ := Option.map_eq_some_iff.mp h
    cases h
    rw [ReadCode.counter_driverRead] at hcode'
    cases hcode'
  | fileRead | fileMove | dirMove | copyArgs =>
    obtain ⟨p, -, h⟩ := Option.map_eq_some_iff.mp h
    cases h
    cases hcode'
  | fileTest =>
    cases h
    split at hcode' <;> cases hcode'
  | testArgs =>
    obtain ⟨p, -, h⟩ := Option.map_eq_some_iff.mp h
    cases h
    split at hcode' <;> cases hcode'
  | dirCount j =>
    obtain ⟨p, hptr, h⟩ := Option.map_eq_some_iff.mp h
    cases h
    cases hcode'
    refine ⟨rfl, Or.inr ⟨rfl, fun q hq => ?_⟩⟩
    rw [Option.some.inj (hq.symm.trans hptr)]
  | dirLookup j counterVal =>
    obtain ⟨p, -, h⟩ := Option.map_eq_some_iff.mp h
    cases hentry : fs.readDentryByIndex ((k.pcb p).fileDescArr j).position with
    | none | some =>
      rw [hentry] at h
      cases h
      exact ⟨rfl, Or.inl hcode'⟩
  | dirTest j counterVal found =>
    cases h
    cases found with
    | false => cases hcode'
    | true => exact ⟨rfl, Or.inl hcode'⟩
  | dirLong j counterVal =>
    cases h
    refine ⟨rfl, Or.inl ?_⟩
    split at hcode' <;> exact hcode'
  | dirLength | dirCopy =>
    cases h
    exact ⟨rfl, Or.inl hcode'⟩
  | dirNext j counterVal readNum bytes =>
    cases h
    cases hcode'
    refine ⟨rfl, Or.inl ?_⟩
    rw [ReadCode.counter, UInt32.add_sub_cancel]

end Statements

/-- What holds of the machine when every use of the pointer follows its caller's own assignment: a terminal in
a call has a process, the pointer is the PCB of the process that set it last, and a position read by `dir_read`
is still the one of its descriptor. -/
structure ReadInv (m : ReadMachine) (live : Fin 3 → List Slot) : Prop where
  booted : Booted m.k live
  inCall : ∀ u, m.code u ≠ .user → live u ≠ []
  assigned : ∀ u, m.assigned = some u → live u ≠ [] ∧ m.k.pcbValRead = (live u).head?
  counter : ∀ u p i c, (live u).head? = some p → (m.code u).counter = some (i, c) →
    ((m.k.pcb p).fileDescArr i).position = c

/-- What the thread that set the pointer last knows of the name it reads. -/
def NamesRead (fs : FileSystem) (m : ReadMachine) : Prop := ∀ u, m.assigned = some u → (m.code u).Named fs m.k

section Invariant

variable {disk : Disk} {m m' : ReadMachine} {live : Fin 3 → List Slot}

/-- The scheduled thread goes to a place that knows no name. -/
theorem NamesRead.goto {fs : FileSystem} (h : NamesRead fs m) {code : ReadCode} (hcode : code.Named fs m.k) :
    NamesRead fs (m.goto code) := by
  intro u hu
  by_cases hactive : u = m.active
  · subst u
    rw [m.goto_active]
    exact hcode
  · rw [m.goto_of_ne code hactive]
    exact h u hu

/-- The scheduled thread is in a call of the scheduled process. -/
theorem ReadInv.caller (h : ReadInv m live) (hcode : m.code m.active ≠ .user) : ∃ p, m.k.caller = some p := by
  obtain ⟨p, rest, hlive⟩ := List.exists_cons_of_ne_nil (h.inCall m.active hcode)
  refine ⟨p, ?_⟩
  rw [h.booted.caller_eq]
  exact congrArg List.head? hlive

/-- The scheduled thread goes to a place with no counter. -/
theorem ReadInv.goto (h : ReadInv m live) {code : ReadCode} (hcounter : code.counter = none)
    (hcall : code ≠ .user → live m.active ≠ []) : ReadInv (m.goto code) live where
  booted := h.booted
  inCall u hu := by
    by_cases hactive : u = m.active
    · subst u
      rw [m.goto_active] at hu
      exact hcall hu
    · rw [m.goto_of_ne code hactive] at hu
      exact h.inCall u hu
  assigned := h.assigned
  counter u p i c hp hu := by
    by_cases hactive : u = m.active
    · subst u
      rw [m.goto_active, hcounter] at hu
      cases hu
    · rw [m.goto_of_ne code hactive] at hu
      exact h.counter u p i c hp hu

/-- A tick keeps the invariant: it changes neither the pointer nor the descriptors of a running process. -/
theorem ReadInv.tick (h : ReadInv m live) {regs : Regs} {frame : ExecFrame} {k' : Kernel}
    (hk' : m.k.pitHandler disk.fs regs frame = some k') : ∃ live', ReadInv { m with k := k' } live' := by
  obtain ⟨live', hbooted, hkept⟩ := h.booted.tick_kept hk'
  have hhead {u : Fin 3} (hu : live u ≠ []) : (live' u).head? = (live u).head? ∧ live' u ≠ [] := by
    obtain ⟨p, rest, hlive⟩ := List.exists_cons_of_ne_nil hu
    have hp : (live u).head? = some p := congrArg List.head? hlive
    have hp' := (hkept u p hp).1
    refine ⟨hp'.trans hp.symm, fun hnil => ?_⟩
    rw [hnil] at hp'
    cases hp'
  refine ⟨live', hbooted, fun u hu => (hhead (h.inCall u hu)).2, fun u hu => ?_, fun u p i c hp hc => ?_⟩
  · obtain ⟨hne, hptr⟩ := h.assigned u hu
    exact ⟨(hhead hne).2, (sameGlobals_pitHandler hk').pcbValRead.trans (hptr.trans (hhead hne).1.symm)⟩
  · have hcall : m.code u ≠ .user := by
      intro huser
      rw [show m.code u = .user from huser] at hc
      cases hc
    have hlive : (live u).head? = some p := (hhead (h.inCall u hcall)).1.symm.trans hp
    rw [(hkept u p hlive).2]
    exact h.counter u p i c hlive hc

/-- Where a thread's next statement uses the pointer, the pointer is its process's. -/
theorem ReadInv.own (h : ReadInv m live) {p : Slot} (hp : m.k.caller = some p) (hlast : LastAssigned m .stmt)
    (huses : (m.code m.active).usesDesc = true) : m.k.pcbValRead = some p := by
  rw [(h.assigned m.active (hlast huses)).2, ← hp, h.booted.caller_eq]
  rfl

/-- A statement keeps the invariant and does what it should do for its process. -/
theorem ReadInv.next (h : ReadInv m live) (hnamed : NamesRead disk.fs m) (hlast : LastAssigned m .stmt)
    {code' : ReadCode} {k' : Kernel} (hnext : (m.code m.active).next disk.fs m.k = some (code', k')) :
    ReadInv { m.goto code' with
      k := k', assigned := if (m.code m.active).assigns then some m.active else m.assigned } live ∧
    NamesRead disk.fs { m.goto code' with
      k := k', assigned := if (m.code m.active).assigns then some m.active else m.assigned } ∧
    ∃ p, m.k.caller = some p ∧ OwnStmt disk.fs p m.k (m.code m.active) code' k' := by
  have hcode : m.code m.active ≠ .user := by
    intro huser
    rw [huser] at hnext
    cases hnext
  obtain ⟨p, hp⟩ := h.caller hcode
  have hown := h.own hp hlast
  have heffect := ReadCode.next_effect hnext
  have hhead : (live m.active).head? = some p := h.booted.caller_eq.symm.trans hp
  have hcounter := h.counter m.active p
  refine ⟨⟨h.booted.descCall (heffect.descCall fun huses => (hown huses).trans hp.symm), fun u hu => ?_, fun u hu => ?_,
    fun u q i c hq hc => ?_⟩, fun u hu => ?_, p, hp,
    ReadCode.next_own hnext hown (hcounter · · hhead) fun huses => hnamed _ (hlast huses)⟩
  · by_cases hactive : u = m.active
    · rw [hactive]
      exact h.inCall m.active hcode
    · exact h.inCall u (m.goto_of_ne code' hactive ▸ hu)
  · dsimp only at hu ⊢
    rw [heffect.pcbValRead]
    by_cases hassigns : (m.code m.active).assigns
    · rw [if_pos hassigns] at hu ⊢
      obtain rfl := Option.some.inj hu
      exact ⟨h.inCall _ hcode, h.booted.caller_eq⟩
    · rw [if_neg hassigns] at hu ⊢
      exact h.assigned u hu
  · by_cases hactive : u = m.active
    · subst u
      obtain rfl := Option.some.inj (hq.symm.trans hhead)
      obtain ⟨hpcb, hsame | ⟨hcount, hposition⟩⟩ := ReadCode.next_counter hnext (m.goto_active code' ▸ hc)
      · dsimp only
        rw [hpcb]
        exact hcounter i c hhead hsame
      · dsimp only
        rw [hpcb]
        exact hposition q (hown (by rw [hcount]; rfl))
    · have hne : q ≠ p := by
        rintro rfl
        exact hactive (h.booted.separate.unique u m.active q (List.mem_of_mem_head? hq) (List.mem_of_mem_head? hhead))
      dsimp only
      rw [heffect.pcb_of_ne hown hne]
      exact h.counter u q i c hq (m.goto_of_ne code' hactive ▸ hc)
  · dsimp only at hu ⊢
    by_cases hassigns : (m.code m.active).assigns
    · rw [if_pos hassigns] at hu
      obtain rfl := Option.some.inj hu
      rw [m.goto_active]
      exact ReadCode.named_of_assigns hassigns hnext
    · rw [if_neg hassigns] at hu
      by_cases hactive : u = m.active
      · subst u
        rw [m.goto_active]
        exact (hnamed _ hu).next hnext hown (hcounter · · hhead)
      · -- a statement of another thread that looks up an entry would be one of the last to assign
        rw [m.goto_of_ne code' hactive]
        refine (hnamed u hu).congr (heffect.dentryTemp ((Bool.not_eq_true _).mp fun huses => hactive ?_))
        exact Option.some.inj (hu.symm.trans (hlast huses))

/-- A statement of a call that does not return. -/
theorem ReadMachine.step_stmt {fs : FileSystem} (hret : ∀ ret bytes, m.code m.active ≠ .leave ret bytes)
    (hm' : m.step fs .stmt = some m') : ∃ code' k', (m.code m.active).next fs m.k = some (code', k') ∧
      m' = { m.goto code' with
        k := k', assigned := if (m.code m.active).assigns then some m.active else m.assigned } := by
  rw [ReadMachine.step] at hm'
  split at hm'
  · next ret bytes hleave => exact absurd hleave (hret ret bytes)
  · obtain ⟨⟨code', k'⟩, hnext, rfl⟩ := Option.map_eq_some_iff.mp hm'
    exact ⟨code', k', hnext, rfl⟩

/-- The return of a call. -/
theorem ReadMachine.step_leave {fs : FileSystem} {ret : UInt32} {bytes : List UInt8}
    (hret : m.code m.active = .leave ret bytes) (hm' : m.step fs .stmt = some m') :
    m' = { m.goto .user with returned := Function.update m.returned m.active (some (ret, bytes)) } := by
  rw [ReadMachine.step, hret] at hm'
  exact (Option.some.inj hm').symm

/-- A call of the scheduled process keeps the invariant. -/
theorem ReadInv.call (h : ReadInv m live) {code : ReadCode} (hcounter : code.counter = none)
    (hm' : m.call code = some m') : m' = m.goto code ∧ ReadInv m' live := by
  unfold ReadMachine.call at hm'
  split at hm'
  · next p huser hcaller =>
    cases hm'
    obtain ⟨rest, hlive⟩ := h.booted.live_of_caller hcaller
    exact ⟨rfl, h.goto hcounter fun _ hnil => by cases hlive.symm.trans hnil⟩
  · cases hm'

/-- Every step keeps the invariants as long as the uses of the pointer follow their own assignments. -/
theorem ReadInv.step (h : ReadInv m live) (hnamed : NamesRead disk.fs m) {a : ReadAction} (hlast : LastAssigned m a)
    (hm' : m.step disk.fs a = some m') : (∃ live', ReadInv m' live') ∧ NamesRead disk.fs m' := by
  cases a with
  | read | getargs =>
    obtain ⟨rfl, hinv⟩ := h.call rfl hm'
    exact ⟨⟨live, hinv⟩, hnamed.goto trivial⟩
  | wake ret bytes =>
    rw [ReadMachine.step] at hm'
    split at hm'
    · next hwait =>
      cases hm'
      exact ⟨⟨live, h.goto rfl fun _ => h.inCall m.active (by rw [hwait]; exact ReadCode.noConfusion)⟩,
        hnamed.goto trivial⟩
    · cases hm'
  | tick regs frame =>
    obtain ⟨k', hk', rfl⟩ := Option.map_eq_some_iff.mp hm'
    exact ⟨h.tick hk', fun u hu => (hnamed u hu).congr (sameGlobals_pitHandler hk').dentryTemp⟩
  | stmt =>
    by_cases hret : ∃ ret bytes, m.code m.active = .leave ret bytes
    · obtain ⟨ret, bytes, hret⟩ := hret
      have huser : ReadCode.user.counter = none := rfl
      have hgoto := h.goto huser fun hne => absurd rfl hne
      have hnone : NamesRead disk.fs (m.goto .user) := hnamed.goto trivial
      rw [ReadMachine.step_leave hret hm']
      exact ⟨⟨live, hgoto.booted, hgoto.inCall, hgoto.assigned, hgoto.counter⟩, hnone⟩
    · obtain ⟨code', k', hnext, rfl⟩ :=
        ReadMachine.step_stmt (fun ret bytes heq => hret ⟨ret, bytes, heq⟩) hm'
      obtain ⟨hinv, hnamed', -⟩ := h.next hnamed hlast hnext
      exact ⟨⟨live, hinv⟩, hnamed'⟩

/-- With the invariants, every statement does what it should do for its process. -/
theorem ReadInv.ownReads (h : ReadInv m live) (hnamed : NamesRead disk.fs m) {a : ReadAction}
    (hlast : LastAssigned m a) : OwnReads disk.fs m a := by
  cases a with
  | stmt =>
    intro m' hm'
    by_cases hret : ∃ ret bytes, m.code m.active = .leave ret bytes
    · obtain ⟨ret, bytes, hret⟩ := hret
      obtain ⟨p, hp⟩ := h.caller (by rw [hret]; exact ReadCode.noConfusion)
      refine ⟨p, hp, ?_⟩
      rw [ReadMachine.step_leave hret hm', hret]
      rfl
    · obtain ⟨code', k', hnext, rfl⟩ :=
        ReadMachine.step_stmt (fun ret bytes heq => hret ⟨ret, bytes, heq⟩) hm'
      obtain ⟨-, -, p, hp, hown⟩ := h.next hnamed hlast hnext
      refine ⟨p, hp, ?_⟩
      dsimp only
      rw [m.goto_active]
      exact hown
  | _ => trivial

end Invariant

/-- When no process is in a call the invariant holds. -/
theorem readInv_start {k : Kernel} {live : Fin 3 → List Slot} (h : Booted k live) : ReadInv (.start k) live :=
  ⟨h, fun _ hu => absurd rfl hu, fun _ hu => (by cases hu), fun _ _ _ _ _ hu => (by cases hu)⟩

/-- Along every run from boot in which the statements of `file_read` and `dir_read` that go through the pointer
follow their own assignments, every read uses the inode and the position of its caller's descriptor and moves
that position alone, by what it returned, and a directory read that moves it has the name of the entry there. -/
theorem reads_own (disk : Disk) (pcb : Slot → Pcb) (page : UInt32 → ℕ → UInt8) (frame : ExecFrame)
    {events : List Event} {k : Kernel} (hk : run (step disk.fs) (boot disk pcb page frame) events = some k)
    (actions : List ReadAction) (h : Along (ReadMachine.step disk.fs) LastAssigned (.start k) actions) :
    Along (ReadMachine.step disk.fs) (OwnReads disk.fs) (.start k) actions := by
  obtain ⟨live, hbooted⟩ := booted_run hk
  have hstep (m : ReadMachine) (a : ReadAction) (m' : ReadMachine)
      (hinv : (∃ live, ReadInv m live) ∧ NamesRead disk.fs m) (hlast : LastAssigned m a)
      (hm' : m.step disk.fs a = some m') : (∃ live', ReadInv m' live') ∧ NamesRead disk.fs m' := by
    obtain ⟨⟨live, hinv⟩, hnamed⟩ := hinv
    exact hinv.step hnamed hlast hm'
  have howns (m : ReadMachine) (a : ReadAction) (hinv : (∃ live, ReadInv m live) ∧ NamesRead disk.fs m)
      (hlast : LastAssigned m a) : OwnReads disk.fs m a := by
    obtain ⟨⟨live, hinv⟩, hnamed⟩ := hinv
    exact hinv.ownReads hnamed hlast
  have hnone : NamesRead disk.fs (.start k) := fun u hu => by cases hu
  exact Along.imp hstep howns ⟨⟨live, readInv_start hbooted⟩, hnone⟩ h

/-- The shells of the three terminals are started, and the first two open the file. -/
def openedEvents : List Event :=
  List.replicate 3 (.tick zeroFrame.regs zeroFrame) ++ [.openFile (toBytes shellName), .tick zeroFrame.regs zeroFrame,
    .openFile (toBytes shellName)] ++ List.replicate 2 (.tick zeroFrame.regs zeroFrame)

/-- A tick with a frame of zeros. -/
def readTick : ReadAction := .tick zeroFrame.regs zeroFrame

/-- Two reads and a `getargs` begin before the first of them runs, and each runs without a tick. -/
theorem reads_own_shell :
    ∃ k, run (step shellDisk.fs) shellMachine openedEvents = some k ∧
      Along (ReadMachine.step shellDisk.fs) (OwnReads shellDisk.fs) (.start k)
        ([.read 2 4, readTick, .read 2 4, readTick, .getargs 0x8048000 4, readTick] ++ List.replicate 7 .stmt ++
          [readTick] ++ List.replicate 7 .stmt ++ [readTick] ++ List.replicate 3 .stmt) := by
  have hready : (run (step shellDisk.fs) shellMachine openedEvents).map (fun k =>
      decide (Along (ReadMachine.step shellDisk.fs) LastAssigned (.start k)
        ([.read 2 4, readTick, .read 2 4, readTick, .getargs 0x8048000 4, readTick] ++ List.replicate 7 .stmt ++
          [readTick] ++ List.replicate 7 .stmt ++ [readTick] ++ List.replicate 3 .stmt))) = some true := by
    decide +kernel
  obtain ⟨k, hk, hlast⟩ := Option.map_eq_some_iff.mp hready
  exact ⟨k, hk, reads_own shellDisk _ _ _ hk _ (of_decide_eq_true hlast)⟩

/-- The first shell has read and is about to move its position. The second one begins a `read`. -/
def overtakenActions : List ReadAction :=
  [.read 2 4] ++ List.replicate 5 .stmt ++ [readTick, .read 2 4, .stmt, readTick, readTick]

/-- The first shell's `read` returns four bytes and moves the position of the second shell's descriptor. -/
theorem reads_other :
    ∃ k m m', run (step shellDisk.fs) shellMachine openedEvents = some k ∧
      run (ReadMachine.step shellDisk.fs) (.start k) overtakenActions = some m ∧
      m.step shellDisk.fs .stmt = some m' ∧ m.k.caller = some 0 ∧
      m'.code m.active = .leave 4 [0x7F, 0x45, 0x4C, 0x46] ∧
      ((m'.k.pcb 0).fileDescArr 2).position = 0 ∧ ((m'.k.pcb 1).fileDescArr 2).position = 4 ∧
      ¬Along (ReadMachine.step shellDisk.fs) (OwnReads shellDisk.fs) (.start k) (overtakenActions ++ [.stmt]) := by
  have hrun : ((run (step shellDisk.fs) shellMachine openedEvents).bind fun k =>
      (run (ReadMachine.step shellDisk.fs) (.start k) overtakenActions).bind fun m =>
        (m.step shellDisk.fs .stmt).map fun m' =>
          (m.k.caller, m.code m.active, m'.code m.active, ((m.k.pcb 1).fileDescArr 2).position,
            ((m'.k.pcb 0).fileDescArr 2).position, ((m'.k.pcb 1).fileDescArr 2).position)) =
      some (some 0, .fileMove 2 (4, [0x7F, 0x45, 0x4C, 0x46]), .leave 4 [0x7F, 0x45, 0x4C, 0x46], 0, 0, 4) := by
    decide +kernel
  obtain ⟨k, hk, hrest⟩ := Option.bind_eq_some_iff.mp hrun
  obtain ⟨m, hm, hrest⟩ := Option.bind_eq_some_iff.mp hrest
  obtain ⟨m', hm', hvalues⟩ := Option.map_eq_some_iff.mp hrest
  simp only [Prod.mk.injEq] at hvalues
  obtain ⟨hcaller, hcode, hcode', hbefore, hfirst, hsecond⟩ := hvalues
  refine ⟨k, m, m', hk, hm, hm', hcaller, hcode', hfirst, hsecond, fun howns => ?_⟩
  obtain ⟨p, hp, hown⟩ := howns.last hm m' hm'
  obtain rfl := Option.some.inj (hcaller.symm.trans hp)
  rw [hcode] at hown
  have hne : (1 : Slot) ≠ 0 := by decide
  have hkept : m'.k.pcb 1 = m.k.pcb 1 := by
    rw [hown.2, Kernel.modifyPcb_of_ne _ hne]
  rw [hkept, hbefore] at hsecond
  exact absurd hsecond (by decide)

end OsKernel
