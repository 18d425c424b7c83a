import Mathlib.Algebra.Ring.Nat
import Mathlib.Logic.Function.Basic
import Mathlib.Data.Fin.Basic
import Mathlib.Tactic.Common
import OsKernel.Memcpy

/-!
# Page tables, address translation and the TLB

`page_init` fills one page directory, one page table for the first 4MB and one page table for
the user view of the video pages. Translation goes through the entries that were in memory at
the last `flush_tlb`; entries written since then are not in effect yet.
-/

namespace OsKernel

/-- There is a first terminal. -/
instance neZero_terminals : NeZero 3 := ⟨by decide⟩

def KB_4 : ℕ := 0x1000
def VIDEO : ℕ := 0xB8000
def VM_INDEX : ℕ := VIDEO / KB_4
def VM_T0 : ℕ := 0xB9
def VM_T1 : ℕ := 0xBA
def VM_T2 : ℕ := 0xBB
def KERNEL_ADDR : ℕ := 0x400000
def ADDR_SHIFT_4MB : ℕ := 22
def USER_LEVEL_INDEX : ℕ := 32
def USER_VM_INDEX : ℕ := 33
def NUM_PTE : ℕ := 1024
def START_VM_T : ℕ := 0xb9000
def VM_SIZE : ℕ := 0x1000
def NUM_BYTE_COPY : ℕ := 0x1000
def VIDMAP_ADDR : ℕ := 0x8400000

/-- The fields of a page-table entry that translation reads. -/
structure Pte where
  present : Bool
  readWrite : Bool
  userSupervisor : Bool
  addr : ℕ
  deriving DecidableEq

/-- The two page tables a directory entry can name. -/
inductive TableRef where
  | pageTable
  | pageVmTable
  deriving DecidableEq

/-- A directory entry names a page table or maps 4MB itself (`p_s`). -/
inductive PdeTarget where
  | table (ref : TableRef)
  | page4mb (addr : ℕ)
  deriving DecidableEq

/-- The fields of a page-directory entry that translation reads. -/
structure Pde where
  present : Bool
  readWrite : Bool
  userSupervisor : Bool
  target : PdeTarget
  deriving DecidableEq

/-- The paging structures in memory. -/
structure Tables where
  pageDirectory : ℕ → Pde
  pageTable : ℕ → Pte
  pageVmTable : ℕ → Pte

/-- `set_init_PDE`: command 0 for the entry with a page table, 1 for the 4MB entries. -/
def setInitPDE (cmd : ℕ) : Pde :=
  if cmd = 0 then
    { present := true, readWrite := true, userSupervisor := false, target := .table .pageTable }
  else
    { present := false, readWrite := true, userSupervisor := false, target := .page4mb 0 }

/-- `set_init_PTE` and its copy `set_init_vm_PTE`. -/
def setInitPTE (index : ℕ) : Pte :=
  { present := false, readWrite := true, userSupervisor := false, addr := index }

/-- The table a reference names. -/
def Tables.table (t : Tables) : TableRef → ℕ → Pte
  | .pageTable => t.pageTable
  | .pageVmTable => t.pageVmTable

/-- Rewrite one entry of `page_directory`. -/
def Tables.setPde (t : Tables) (index : ℕ) (f : Pde → Pde) : Tables :=
  { t with pageDirectory := Function.update t.pageDirectory index (f (t.pageDirectory index)) }

/-- Rewrite one entry of `page_table`. -/
def Tables.setPte (t : Tables) (index : ℕ) (f : Pte → Pte) : Tables :=
  { t with pageTable := Function.update t.pageTable index (f (t.pageTable index)) }

/-- Rewrite one entry of `page_vm_table`. -/
def Tables.setVmPte (t : Tables) (index : ℕ) (f : Pte → Pte) : Tables :=
  { t with pageVmTable := Function.update t.pageVmTable index (f (t.pageVmTable index)) }

@[simp] theorem Tables.setPte_pageTable (t : Tables) (index j : ℕ) (f : Pte → Pte) :
    (t.setPte index f).pageTable j = if j = index then f (t.pageTable index) else t.pageTable j :=
  Function.update_apply ..

@[simp] theorem Tables.setVmPte_pageTable (t : Tables) (index : ℕ) (f : Pte → Pte) :
    (t.setVmPte index f).pageTable = t.pageTable := rfl

@[simp] theorem Tables.setVmPte_pageVmTable (t : Tables) (index j : ℕ) (f : Pte → Pte) :
    (t.setVmPte index f).pageVmTable j =
      if j = index then f (t.pageVmTable index) else t.pageVmTable j :=
  Function.update_apply ..

@[simp] theorem Tables.setPte_pageVmTable (t : Tables) (index : ℕ) (f : Pte → Pte) :
    (t.setPte index f).pageVmTable = t.pageVmTable := rfl

/-- The entries after the first loop of `page_init`. -/
def initialTables : Tables where
  pageDirectory i := setInitPDE (if i = 0 then 0 else 1)
  pageTable := setInitPTE
  pageVmTable := setInitPTE

/-- `page_init`, in the order of its assignments. -/
def pageInit : Tables :=
  initialTables
    |>.setPte VM_INDEX (fun e => { e with present := true })
    |>.setPte VM_INDEX (fun e => { e with addr := VM_T0 })
    |>.setPte VM_T0 (fun e => { e with present := true })
    |>.setPte VM_T0 (fun e => { e with addr := VM_INDEX })
    |>.setPte VM_T1 (fun e => { e with present := true })
    |>.setPte VM_T2 (fun e => { e with present := true })
    |>.setPde 1 (fun e => { e with present := true, target := .page4mb (KERNEL_ADDR >>> ADDR_SHIFT_4MB) })
    |>.setPde USER_LEVEL_INDEX (fun e => { e with present := true, userSupervisor := true })
    |>.setPde USER_VM_INDEX
        (fun e => { e with present := true, userSupervisor := true, target := .table .pageVmTable })
    |>.setVmPte 0 (fun e => { e with present := true, userSupervisor := true, addr := VM_INDEX })
    |>.setVmPte 1 (fun e => { e with present := true, userSupervisor := true, addr := VM_T1 })
    |>.setVmPte 2 (fun e => { e with present := true, userSupervisor := true, addr := VM_T2 })

/-- The privilege and direction of a memory access. -/
structure Access where
  user : Bool
  write : Bool

/-- Kernel accesses ignore the permission bits (`CR0.WP` is clear); user accesses obey them. -/
def Access.permits (a : Access) (readWrite userSupervisor : Bool) : Bool :=
  !a.user || (userSupervisor && (!a.write || readWrite))

/-- The physical address of a virtual one; `none` is a page fault. -/
def Tables.translate (t : Tables) (a : Access) (va : ℕ) : Option ℕ :=
  let pde := t.pageDirectory (va / 2 ^ 22)
  if pde.present && a.permits pde.readWrite pde.userSupervisor then
    match pde.target with
    | .page4mb addr => some (addr * 2 ^ 22 + va % 2 ^ 22)
    | .table ref =>
      let pte := t.table ref (va / KB_4 % NUM_PTE)
      if pte.present && a.permits pte.readWrite pte.userSupervisor then
        some (pte.addr * KB_4 + va % KB_4)
      else none
  else none

/-- Physical memory, the tables in memory, and the entries in effect since the last flush. -/
structure Video where
  phys : ℕ → UInt8
  tables : Tables
  tlb : Tables
  currTerm : Fin 3

/-- `flush_tlb` reloads `cr3`. -/
def Video.flushTlb (v : Video) : Video := { v with tlb := v.tables }

/-- A byte load. -/
def Video.load (v : Video) (user : Bool) (va : ℕ) : Option UInt8 :=
  (v.tlb.translate ⟨user, false⟩ va).map v.phys

/-- A byte store. -/
def Video.store (v : Video) (user : Bool) (va : ℕ) (b : UInt8) : Option Video :=
  (v.tlb.translate ⟨user, true⟩ va).map fun p => { v with phys := Function.update v.phys p b }

/-- Where a kernel address points while no entry changes; faults are excluded beforehand. -/
def Video.place (v : Video) (va : ℕ) : ℕ := (v.tlb.translate ⟨false, true⟩ va).getD 0

/-- Every address of the range is mapped for the kernel. -/
def Video.Mapped (v : Video) (va n : ℕ) : Prop :=
  ∀ k < n, (v.tlb.translate ⟨false, true⟩ (va + k)).isSome

instance (v : Video) (va n : ℕ) : Decidable (v.Mapped va n) :=
  inferInstanceAs (Decidable (∀ k < n, (v.tlb.translate ⟨false, true⟩ (va + k)).isSome))

/-- `memcpy` on virtual addresses; `none` is a page fault on either range. -/
def Video.copy (v : Video) (dest src n : ℕ) : Option Video :=
  if v.Mapped dest n ∧ v.Mapped src n then
    some { v with phys := memcpy v.place dest src n v.phys }
  else none

/-- The five entries that `terminal_switch` rewrites between its two copies. -/
def Tables.switch (t : Tables) (currTerm termId : Fin 3) : Tables :=
  t |>.setPte (VM_T0 + termId) (fun e => { e with addr := VM_INDEX })
    |>.setPte (VM_T0 + currTerm) (fun e => { e with addr := VM_T0 + currTerm })
    |>.setPte VM_INDEX (fun e => { e with addr := VM_T0 + termId })
    |>.setVmPte termId (fun e => { e with addr := VM_INDEX })
    |>.setVmPte currTerm (fun e => { e with addr := VM_T0 + currTerm })

/-- `terminal_switch`: save the displayed page, redirect the entries, bring in the new page. -/
def terminalSwitch (v : Video) (termId : Fin 3) : Option Video :=
  if termId = v.currTerm then some v
  else do
    let saved ← v.copy VIDEO (START_VM_T + v.currTerm * VM_SIZE) NUM_BYTE_COPY
    let mapped := { saved with tables := saved.tables.switch v.currTerm termId }.flushTlb
    let loaded ← mapped.copy (START_VM_T + termId * VM_SIZE) VIDEO NUM_BYTE_COPY
    some { loaded with currTerm := termId }

end OsKernel
