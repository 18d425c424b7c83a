import OsKernel.Library.Run
import OsKernel.Paging
import Mathlib.Data.Fintype.Basic
import Mathlib.Tactic.FinCases

/-!
# Terminal switching refines three independent screens

The displayed terminal lives in physical page `0xB8`, the other terminals in their backing
pages. The abstract layer is a screen for each terminal and the number of the displayed one;
the refinement relation says which physical page holds which screen and that both mappings of
every terminal lead there.
-/

namespace OsKernel

open Library

/-- A terminal's screen: the bytes of its video page. -/
abbrev Screen := Fin 4096 → UInt8

/-- The abstract state: three screens and the displayed terminal. -/
structure Screens where
  page : Fin 3 → Screen
  shown : Fin 3

/-- What programs and the kernel do to the screens. -/
inductive ScreenOp where
  | kernelWrite (t : Fin 3) (off : Fin 4096) (b : UInt8)
  | userWrite (t : Fin 3) (off : Fin 4096) (b : UInt8)
  | switch (id : Fin 3)

/-- Writing one byte of one screen. -/
def Screens.write (s : Screens) (t : Fin 3) (off : Fin 4096) (b : UInt8) : Screens :=
  { s with page := Function.update s.page t (Function.update (s.page t) off b) }

@[simp] theorem Screens.write_shown (s : Screens) (t : Fin 3) (off : Fin 4096) (b : UInt8) :
    (s.write t off b).shown = s.shown := rfl

/-- A written byte is read back, and every other byte of every screen is kept. -/
theorem Screens.write_page (s : Screens) (t u : Fin 3) (off i : Fin 4096) (b : UInt8) :
    (s.write t off b).page u i = if u = t ∧ i = off then b else s.page u i := by
  by_cases hu : u = t
  · subst u
    by_cases hi : i = off <;> simp [Screens.write, hi]
  · simp [Screens.write, hu]

/-- The abstract meaning: a write changes its own terminal, a switch only what is shown. -/
def Screens.apply (s : Screens) : ScreenOp → Screens
  | .kernelWrite t off b => s.write t off b
  | .userWrite t off b => s.write t off b
  | .switch id => { s with shown := id }

/-- A byte of terminal `t` through its kernel page. -/
def kernelPage (t : Fin 3) (off : Fin 4096) : ℕ := START_VM_T + t * VM_SIZE + off

/-- A byte of terminal `t` through its vidmap page. -/
def vidmapPage (t : Fin 3) (off : Fin 4096) : ℕ := VIDMAP_ADDR + t * VM_SIZE + off

/-- The operations on the paged memory; `none` is a page fault. -/
def Video.apply (v : Video) : ScreenOp → Option Video
  | .kernelWrite t off b => v.store false (kernelPage t off) b
  | .userWrite t off b => v.store true (vidmapPage t off) b
  | .switch id => terminalSwitch v id

/-- The memory when paging has just been enabled, over arbitrary physical contents. -/
def Video.init (phys : ℕ → UInt8) : Video :=
  { phys, tables := pageInit, tlb := pageInit, currTerm := 0 }

/-- The physical page that holds terminal `t` while terminal `shown` is displayed. -/
def frameOf (shown t : Fin 3) : ℕ := if t = shown then VM_INDEX else VM_T0 + t

/-- A supervisor entry for a 4KB page. -/
def kernelPte (addr : ℕ) : Pte :=
  { present := true, readWrite := true, userSupervisor := false, addr }

/-- A user entry for a 4KB page. -/
def userPte (addr : ℕ) : Pte :=
  { present := true, readWrite := true, userSupervisor := true, addr }

/-- The entries through which the screens are reached while `shown` is displayed. -/
structure ScreenTables (t : Tables) (shown : Fin 3) : Prop where
  low : t.pageDirectory 0 = setInitPDE 0
  vidmap : t.pageDirectory USER_VM_INDEX =
    { present := true, readWrite := true, userSupervisor := true, target := .table .pageVmTable }
  video : t.pageTable VM_INDEX = kernelPte (VM_T0 + shown)
  kernel : ∀ i : Fin 3, t.pageTable (VM_T0 + i) = kernelPte (frameOf shown i)
  user : ∀ i : Fin 3, t.pageVmTable i = userPte (frameOf shown i)

/-- The refinement relation between paged memory and the abstract screens. -/
structure Shows (v : Video) (s : Screens) : Prop where
  flushed : v.tlb = v.tables
  shown : v.currTerm = s.shown
  tables : ScreenTables v.tables s.shown
  content : ∀ (t : Fin 3) (off : Fin 4096), v.phys (frameOf s.shown t * KB_4 + off) = s.page t off

section Translation

variable {t : Tables} {shown : Fin 3}

/-- An address whose entries permit the access translates through its page table. -/
theorem Tables.translate_of_table {a : Access} {va dir page off : ℕ} {ref : TableRef} (hdir : va / 2 ^ 22 = dir)
    (hpage : va / KB_4 % NUM_PTE = page) (hoff : va % KB_4 = off)
    (htarget : (t.pageDirectory dir).target = .table ref)
    (hpde : ((t.pageDirectory dir).present &&
      a.permits (t.pageDirectory dir).readWrite (t.pageDirectory dir).userSupervisor) = true)
    (hpte : ((t.table ref page).present &&
      a.permits (t.table ref page).readWrite (t.table ref page).userSupervisor) = true) :
    t.translate a va = some ((t.table ref page).addr * KB_4 + off) := by
  subst hdir hpage hoff
  rw [Tables.translate]
  dsimp only
  rw [if_pos hpde, htarget]
  dsimp only
  rw [if_pos hpte]

/-- A page of the first 4MB translates through its `page_table` entry. -/
theorem ScreenTables.translate_low (h : ScreenTables t shown) (page frame : ℕ) (hpage : page < 1024)
    (hentry : t.pageTable page = kernelPte frame) (write : Bool) (off : ℕ) (hoff : off < 4096) :
    t.translate ⟨false, write⟩ (page * 4096 + off) = some (frame * 4096 + off) := by
  have hdir : (page * 4096 + off) / 2 ^ 22 = 0 := by omega
  have hindex : (page * 4096 + off) / KB_4 % NUM_PTE = page := by
    rw [KB_4, NUM_PTE]
    omega
  have hlow : (page * 4096 + off) % KB_4 = off := by
    rw [KB_4]
    omega
  have htarget : (t.pageDirectory 0).target = .table .pageTable := by
    rw [h.low]
    rfl
  rw [t.translate_of_table hdir hindex hlow htarget (by rw [h.low]; rfl) (by rw [Tables.table, hentry]; rfl),
    Tables.table, hentry]
  rfl

/-- Terminal `i`'s kernel page leads to its frame. -/
theorem ScreenTables.translate_kernel (h : ScreenTables t shown) (write : Bool) (i : Fin 3)
    (off : Fin 4096) :
    t.translate ⟨false, write⟩ (kernelPage i off) = some (frameOf shown i * KB_4 + off) := by
  have haddr : kernelPage i off = (VM_T0 + i) * 4096 + off := by
    simp only [kernelPage, START_VM_T, VM_SIZE, VM_T0]
    omega
  rw [haddr]
  exact h.translate_low (VM_T0 + i) _ (by simp only [VM_T0]; omega) (h.kernel i) write off off.isLt

/-- Virtual page `0xB8` leads to the backing page of the displayed terminal. -/
theorem ScreenTables.translate_video (h : ScreenTables t shown) (write : Bool) (off : Fin 4096) :
    t.translate ⟨false, write⟩ (VIDEO + off) = some ((VM_T0 + shown) * KB_4 + off) :=
  h.translate_low VM_INDEX _ (by decide) h.video write off off.isLt

/-- Terminal `i`'s vidmap page leads to the same frame for a user access. -/
theorem ScreenTables.translate_vidmap (h : ScreenTables t shown) (write : Bool) (i : Fin 3)
    (off : Fin 4096) :
    t.translate ⟨true, write⟩ (vidmapPage i off) = some (frameOf shown i * KB_4 + off) := by
  have hdir : vidmapPage i off / 2 ^ 22 = USER_VM_INDEX := by
    rw [vidmapPage, VIDMAP_ADDR, VM_SIZE, USER_VM_INDEX]
    omega
  have hindex : vidmapPage i off / KB_4 % NUM_PTE = i := by
    rw [vidmapPage, VIDMAP_ADDR, VM_SIZE, KB_4, NUM_PTE]
    omega
  have hlow : vidmapPage i off % KB_4 = off := by
    rw [vidmapPage, VIDMAP_ADDR, VM_SIZE, KB_4]
    omega
  have hpermits : Access.permits ⟨true, write⟩ true true = true := by
    cases write <;> rfl
  rw [t.translate_of_table hdir hindex hlow (by rw [h.vidmap]) (by rw [h.vidmap]; exact hpermits)
    (by rw [Tables.table, h.user]; exact hpermits), Tables.table, h.user]
  rfl

end Translation

/-- Different terminals live in different frames, none of them the shown one's backing page. -/
theorem frameOf_injective (shown : Fin 3) : Function.Injective (frameOf shown) := by
  revert shown
  unfold Function.Injective
  decide

/-- A byte address determines its frame and its offset. -/
theorem frame_offset_inj {f g i j : ℕ} (hi : i < 4096) (hj : j < 4096)
    (h : f * KB_4 + i = g * KB_4 + j) : f = g ∧ i = j := by
  rw [KB_4] at h
  omega

/-- `page_init` displays terminal 0. -/
theorem screenTables_pageInit : ScreenTables pageInit 0 := by
  refine ⟨rfl, rfl, rfl, fun i => ?_, fun i => ?_⟩ <;> fin_cases i <;> rfl

/-- The screens that the initial physical contents amount to. -/
def initialScreens (phys : ℕ → UInt8) : Screens where
  page t off := phys (frameOf 0 t * KB_4 + off)
  shown := 0

/-- The refinement holds when paging is enabled. -/
theorem shows_init (phys : ℕ → UInt8) : Shows (Video.init phys) (initialScreens phys) :=
  ⟨rfl, rfl, screenTables_pageInit, fun _ _ => rfl⟩

/-- A store that reaches terminal `t`'s frame is a write to its screen. -/
theorem Shows.write {v : Video} {s : Screens} (h : Shows v s) (t : Fin 3) (off : Fin 4096) (b : UInt8) :
    Shows { v with phys := Function.update v.phys (frameOf s.shown t * KB_4 + off) b }
      (s.write t off b) := by
  refine ⟨h.flushed, h.shown, h.tables, fun u i => ?_⟩
  rw [Screens.write_page, Screens.write_shown]
  dsimp only
  split
  · rename_i heq
    rw [heq.1, heq.2, Function.update_self]
  · rename_i hne
    rw [Function.update_of_ne, h.content]
    intro heq
    have haddr := frame_offset_inj i.isLt off.isLt heq
    exact hne ⟨frameOf_injective _ haddr.1, Fin.ext haddr.2⟩

/-- Copying one whole page onto another moves its bytes and keeps every other frame. -/
theorem Video.copy_page (v : Video) (dest src f g : ℕ)
    (hdest : ∀ (w : Bool) (off : Fin 4096), v.tlb.translate ⟨false, w⟩ (dest + off) = some (f * KB_4 + off))
    (hsrc : ∀ (w : Bool) (off : Fin 4096), v.tlb.translate ⟨false, w⟩ (src + off) = some (g * KB_4 + off))
    (hne : f ≠ g) :
    ∃ phys, v.copy dest src NUM_BYTE_COPY = some { v with phys } ∧
      (∀ off : Fin 4096, phys (f * KB_4 + off) = v.phys (g * KB_4 + off)) ∧
      ∀ (e : ℕ) (off : Fin 4096), e ≠ f → phys (e * KB_4 + off) = v.phys (e * KB_4 + off) := by
  have hplaceDest (k : ℕ) (hk : k < NUM_BYTE_COPY) : v.place (dest + k) = f * KB_4 + k := by
    rw [Video.place, hdest true ⟨k, hk⟩]
    rfl
  have hplaceSrc (k : ℕ) (hk : k < NUM_BYTE_COPY) : v.place (src + k) = g * KB_4 + k := by
    rw [Video.place, hsrc true ⟨k, hk⟩]
    rfl
  have hmappedDest : v.Mapped dest NUM_BYTE_COPY := fun k hk => by rw [hdest true ⟨k, hk⟩]; rfl
  have hmappedSrc : v.Mapped src NUM_BYTE_COPY := fun k hk => by rw [hsrc true ⟨k, hk⟩]; rfl
  have hsep : Separate v.place dest src NUM_BYTE_COPY := by
    refine ⟨fun i hi j hj heq => ?_, fun i hi j hj heq => ?_⟩
    · rw [hplaceDest i hi, hplaceDest j hj] at heq
      omega
    · rw [hplaceDest i hi, hplaceSrc j hj] at heq
      exact hne (frame_offset_inj hi hj heq).1
  have hcopied := copied_memcpy v.phys hsep
  refine ⟨_, if_pos ⟨hmappedDest, hmappedSrc⟩, fun off => ?_, fun e off he => ?_⟩
  · rw [← hplaceDest off off.isLt, ← hplaceSrc off off.isLt]
    exact hcopied.copy off off.isLt
  · apply hcopied.frame
    intro k hk heq
    rw [hplaceDest k hk] at heq
    exact he (frame_offset_inj off.isLt hk heq).1

/-- The entries after a switch are those of a display of the new terminal. -/
theorem ScreenTables.switch {t : Tables} {shown id : Fin 3} (h : ScreenTables t shown) (hne : id ≠ shown) :
    ScreenTables (t.switch shown id) id := by
  have hvideo (i : Fin 3) : VM_T0 + (i : ℕ) ≠ VM_INDEX := by
    rw [show VM_INDEX = 0xB8 from rfl, VM_T0]
    omega
  have hval (i j : Fin 3) : (i : ℕ) = j ↔ i = j := Fin.ext_iff.symm
  refine ⟨h.low, h.vidmap, ?_, fun i => ?_, fun i => ?_⟩
  · simp [Tables.switch, (hvideo _).symm, h.video, kernelPte]
  · by_cases hi : i = id
    · subst i
      simp [Tables.switch, hvideo, hval, hne, h.kernel, kernelPte, frameOf]
    · by_cases hs : i = shown
      · subst i
        simp [Tables.switch, hvideo, hval, hi, h.kernel, kernelPte, frameOf]
      · simp [Tables.switch, hvideo, hval, hi, hs, h.kernel, kernelPte, frameOf]
  · by_cases hi : i = id
    · subst i
      simp [Tables.switch, hval, hne, h.user, userPte, frameOf]
    · by_cases hs : i = shown
      · subst i
        simp [Tables.switch, hval, hi, h.user, userPte, frameOf]
      · simp [Tables.switch, hval, hi, hs, h.user, userPte, frameOf]

/-- The displayed terminal's frame is no backing page. -/
theorem backing_ne_shown (shown t : Fin 3) : VM_T0 + t ≠ frameOf shown shown := by
  revert shown t
  decide

/-- A terminal that is not displayed lives in its backing page. -/
theorem frameOf_of_ne {shown t : Fin 3} (h : t ≠ shown) : frameOf shown t = VM_T0 + t := if_neg h

/-- Both copies of a real switch happen, with the table updates between them. -/
theorem Shows.switch {v : Video} {s : Screens} (h : Shows v s) (id : Fin 3) :
    ∃ v', terminalSwitch v id = some v' ∧ Shows v' { s with shown := id } := by
  obtain ⟨hflushed, hshown, htables, hcontent⟩ := h
  by_cases hsame : id = v.currTerm
  · obtain rfl : id = s.shown := hsame.trans hshown
    exact ⟨v, by simp [terminalSwitch, hsame], hflushed, hshown, htables, hcontent⟩
  have hne : id ≠ s.shown := hshown ▸ hsame
  -- first copy: the displayed page goes to the backing page of the old terminal
  obtain ⟨saved, hsave, hsaved, hsavedKeep⟩ := v.copy_page VIDEO (START_VM_T + v.currTerm * VM_SIZE)
    (VM_T0 + s.shown) (frameOf s.shown s.shown)
    (fun w off => hflushed ▸ htables.translate_video w off)
    (fun w off => by rw [hflushed, hshown]; exact htables.translate_kernel w s.shown off)
    (backing_ne_shown s.shown s.shown)
  have hnext := htables.switch hne
  rw [← hshown] at hnext
  let tables := v.tables.switch v.currTerm id
  -- second copy: through the new entries, the backing page of the new terminal comes in
  obtain ⟨loaded, hload, hloaded, hloadedKeep⟩ := Video.copy_page
    { v with phys := saved, tables := tables, tlb := tables }
    (START_VM_T + id * VM_SIZE) VIDEO
    (frameOf id id) (VM_T0 + id) (fun w off => hnext.translate_kernel w id off)
    (fun w off => hnext.translate_video w off) (backing_ne_shown id id).symm
  refine ⟨{ phys := loaded, tables := tables, tlb := tables, currTerm := id }, ?_, rfl, rfl, hnext,
    fun t off => ?_⟩
  · rw [terminalSwitch, if_neg hsame, hsave, Option.bind_eq_bind, Option.bind_some]
    simp only [Video.flushTlb]
    rw [hload, Option.bind_some]
  · dsimp only at hloaded hloadedKeep ⊢
    by_cases hid : t = id
    · subst t
      rw [hloaded, hsavedKeep _ _ (by rw [VM_T0]; omega), ← hcontent, frameOf_of_ne hne]
    · rw [hloadedKeep _ _ fun heq => hid (frameOf_injective id heq)]
      rw [frameOf_of_ne hid]
      by_cases hold : t = s.shown
      · subst t
        rw [hsaved, hcontent]
      · rw [hsavedKeep _ _ (by rw [VM_T0]; omega), ← hcontent, frameOf_of_ne hold]

/-- Every operation preserves the refinement and never faults. -/
theorem Shows.apply {v : Video} {s : Screens} (h : Shows v s) (op : ScreenOp) :
    ∃ v', v.apply op = some v' ∧ Shows v' (s.apply op) := by
  cases op with
  | kernelWrite t off b =>
    refine ⟨_, ?_, h.write t off b⟩
    rw [Video.apply, Video.store, h.flushed, h.tables.translate_kernel]
    rfl
  | userWrite t off b =>
    refine ⟨_, ?_, h.write t off b⟩
    rw [Video.apply, Video.store, h.flushed, h.tables.translate_vidmap]
    rfl
  | switch id => exact h.switch id

/-- The refinement holds after every sequence of operations. -/
theorem Shows.run {v : Video} {s : Screens} (h : Shows v s) (ops : List ScreenOp) :
    ∃ v', Library.run Video.apply v ops = some v' ∧ Shows v' (ops.foldl Screens.apply s) := by
  induction ops generalizing v s with
  | nil => exact ⟨v, rfl, h⟩
  | cons op rest ih =>
    obtain ⟨m, hm, hshows⟩ := h.apply op
    obtain ⟨v', hrun, hlast⟩ := ih hshows
    exact ⟨v', run_cons.mpr ⟨m, hm, hrun⟩, hlast⟩

/-- After any writes and switches, both mappings of every terminal read its abstract screen, and
physical page `0xB8` holds the displayed one. -/
theorem terminalSwitch_refines_screens (phys : ℕ → UInt8) (ops : List ScreenOp) :
    ∃ v, Library.run Video.apply (Video.init phys) ops = some v ∧
      v.currTerm = (ops.foldl Screens.apply (initialScreens phys)).shown ∧
      (∀ t off, v.load false (kernelPage t off) =
        some ((ops.foldl Screens.apply (initialScreens phys)).page t off)) ∧
      (∀ t off, v.load true (vidmapPage t off) =
        some ((ops.foldl Screens.apply (initialScreens phys)).page t off)) ∧
      ∀ off : Fin 4096, v.phys (VIDEO + off) =
        (ops.foldl Screens.apply (initialScreens phys)).page v.currTerm off := by
  obtain ⟨v, hrun, h⟩ := (shows_init phys).run ops
  refine ⟨v, hrun, h.shown, fun t off => ?_, fun t off => ?_, fun off => ?_⟩
  · rw [Video.load, h.flushed, h.tables.translate_kernel, Option.map_some, h.content]
  · rw [Video.load, h.flushed, h.tables.translate_vidmap, Option.map_some, h.content]
  · rw [h.shown, ← h.content, frameOf, if_pos rfl]
    rfl

end OsKernel
