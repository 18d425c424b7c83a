import OsKernel.Memcpy
import Mathlib.Computability.StateTransition
import Mathlib.Tactic.Common

/-!
# The loops of `memcpy` on machine registers

The inline assembly, one block a step: the pointers and both counters are 32-bit registers, and
`rep movsl` is a step for each word it moves. The kernel runs with flat segments, so an address is
the register itself. The machine stops with the memory that `memcpy` computes by recursion.
-/

namespace OsKernel

open Library StateTransition

/-- The labels of the assembly, with `rep movsl` as a point of its own. -/
inductive MemcpyLabel where
  | top
  | aligned
  | rep
  | bottom
  | done
  deriving DecidableEq, Repr

/-- The registers that the blocks use, and the memory. -/
structure MemcpyMachine where
  label : MemcpyLabel
  ecx : UInt32
  edx : UInt32
  edi : UInt32
  esi : UInt32
  memory : UInt32 → UInt8

namespace MemcpyMachine

/-- `movb (%esi), %al; movb %al, (%edi); addl $1, %edi; addl $1, %esi` -/
def moveByte (s : MemcpyMachine) : MemcpyMachine :=
  { s with edi := s.edi + 1, esi := s.esi + 1, memory := Function.update s.memory s.edi (s.memory s.esi) }

/-- The bytes of a word stored at consecutive addresses. -/
def storeWord (memory : UInt32 → UInt8) (a : UInt32) (b₀ b₁ b₂ b₃ : UInt8) : UInt32 → UInt8 :=
  Function.update (Function.update (Function.update (Function.update memory a b₀) (a + 1) b₁) (a + 2) b₂) (a + 3) b₃

/-- One turn of `rep movsl`, with the direction flag cleared. -/
def moveWord (s : MemcpyMachine) : MemcpyMachine :=
  { s with
    edi := s.edi + 4
    esi := s.esi + 4
    memory := storeWord s.memory s.edi
      (s.memory s.esi) (s.memory (s.esi + 1)) (s.memory (s.esi + 2)) (s.memory (s.esi + 3)) }

/-- The assembly of `memcpy`; there is no step from `.memcpy_done`. -/
def step (s : MemcpyMachine) : Option MemcpyMachine :=
  match s.label with
  | .top =>
    if s.ecx = 0 then some { s with label := .done }
    else if s.edi &&& 3 = 0 then some { s with label := .aligned }
    else some { s.moveByte with ecx := s.ecx - 1 }
  | .aligned => some { s with label := .rep, edx := s.ecx &&& 3, ecx := s.ecx >>> 2 }
  | .rep =>
    if s.ecx = 0 then some { s with label := .bottom }
    else some { s.moveWord with ecx := s.ecx - 1 }
  | .bottom =>
    if s.edx = 0 then some { s with label := .done }
    else some { s.moveByte with edx := s.edx - 1 }
  | .done => none

/-- The operands of the assembly: `"S"(src), "D"(dest), "c"(n)`. -/
def start (dest src n edx : UInt32) (memory : UInt32 → UInt8) : MemcpyMachine :=
  ⟨.top, n, edx, dest, src, memory⟩

end MemcpyMachine

/-- The machine at a label, with the counters and the pointers of the recursive copy. -/
def CopyState.machine (c : CopyState UInt32 UInt8) (label : MemcpyLabel) (ecx edx : ℕ) : MemcpyMachine :=
  ⟨label, .ofNat ecx, .ofNat edx, .ofNat c.edi, .ofNat c.esi, c.memory⟩

/-- A counter below `2^32` is 0 in its register only at 0. -/
theorem ofNat_succ_ne_zero {n : ℕ} (hn : n + 1 < 2 ^ 32) : UInt32.ofNat (n + 1) ≠ 0 := by
  intro hzero
  have h := congrArg UInt32.toNat hzero
  rw [UInt32.toNat_ofNat_of_lt' hn] at h
  simp at h

/-- Decrementing a counter register. -/
theorem ofNat_succ_sub_one (n : ℕ) : UInt32.ofNat (n + 1) - 1 = UInt32.ofNat n := by
  rw [UInt32.ofNat_add]
  exact UInt32.add_sub_cancel _ _

/-- Masking with 3 is the remainder by 4. -/
theorem ofNat_and_three (n : ℕ) : UInt32.ofNat n &&& 3 = UInt32.ofNat (n % 4) := by
  apply UInt32.toNat_inj.mp
  rw [UInt32.toNat_and, UInt32.toNat_ofNat', UInt32.toNat_ofNat']
  change n % 2 ^ 32 &&& 2 ^ 2 - 1 = n % 4 % 2 ^ 32
  rw [Nat.and_two_pow_sub_one_eq_mod]
  omega

/-- Shifting by 2 is the quotient by 4. -/
theorem ofNat_shiftRight_two {n : ℕ} (hn : n < 2 ^ 32) : UInt32.ofNat n >>> 2 = UInt32.ofNat (n / 4) := by
  apply UInt32.toNat_inj.mp
  rw [UInt32.toNat_shiftRight, UInt32.toNat_ofNat_of_lt' hn,
    UInt32.toNat_ofNat_of_lt' (Nat.lt_of_le_of_lt (Nat.div_le_self n 4) hn)]
  change n >>> 2 = n / 4
  rw [Nat.shiftRight_eq_div_pow]

/-- A step before a run. -/
theorem reaches_of_step {s m s' : MemcpyMachine} (hstep : MemcpyMachine.step s = some m)
    (hrest : Reaches MemcpyMachine.step m s') : Reaches MemcpyMachine.step s s' :=
  Relation.ReflTransGen.head (Option.mem_def.mpr hstep) hrest

section Steps

variable (c : CopyState UInt32 UInt8)

/-- The byte move of the machine is that of the recursive copy. -/
theorem moveByte_machine (label : MemcpyLabel) (ecx edx : ℕ) :
    (c.machine label ecx edx).moveByte = (c.movb UInt32.ofNat).machine label ecx edx := by
  simp only [MemcpyMachine.moveByte, CopyState.machine, CopyState.movb, UInt32.ofNat_add]
  rfl

/-- The word move of the machine is that of the recursive copy. -/
theorem moveWord_machine (label : MemcpyLabel) (ecx edx : ℕ) :
    (c.machine label ecx edx).moveWord = (c.movsl UInt32.ofNat).machine label ecx edx := by
  simp only [MemcpyMachine.moveWord, MemcpyMachine.storeWord, CopyState.machine, CopyState.movsl, storeBytes,
    UInt32.ofNat_add, Nat.add_zero]
  rfl

/-- `.memcpy_bottom` runs to `.memcpy_done` with the tail moved. -/
theorem reaches_memcpyBottom (n ecx : ℕ) (hn : n < 2 ^ 32) :
    Reaches MemcpyMachine.step (c.machine .bottom ecx n) ((memcpyBottom .ofNat n c).machine .done ecx 0) := by
  induction n generalizing c with
  | zero => exact Relation.ReflTransGen.single (Option.mem_def.mpr rfl)
  | succ n ih =>
    have hstep : MemcpyMachine.step (c.machine .bottom ecx (n + 1)) = some ((c.movb .ofNat).machine .bottom ecx n) := by
      rw [← moveByte_machine]
      simp only [MemcpyMachine.step, CopyState.machine, if_neg (ofNat_succ_ne_zero hn), ofNat_succ_sub_one]
      rfl
    exact reaches_of_step hstep (ih _ (by omega))

/-- `rep movsl` runs to `.memcpy_bottom` with the words moved. -/
theorem reaches_repMovsl (n edx : ℕ) (hn : n < 2 ^ 32) :
    Reaches MemcpyMachine.step (c.machine .rep n edx) ((repMovsl .ofNat n c).machine .bottom 0 edx) := by
  induction n generalizing c with
  | zero => exact Relation.ReflTransGen.single (Option.mem_def.mpr rfl)
  | succ n ih =>
    have hstep : MemcpyMachine.step (c.machine .rep (n + 1) edx) = some ((c.movsl .ofNat).machine .rep n edx) := by
      rw [← moveWord_machine]
      simp only [MemcpyMachine.step, CopyState.machine, if_neg (ofNat_succ_ne_zero hn), ofNat_succ_sub_one]
      rfl
    exact reaches_of_step hstep (ih _ (by omega))

/-- `.memcpy_aligned` splits the counter and runs both of the later loops. -/
theorem reaches_memcpyAligned (n edx : ℕ) (hn : n < 2 ^ 32) :
    Reaches MemcpyMachine.step (c.machine .aligned n edx) ((memcpyAligned .ofNat n c).machine .done 0 0) := by
  have hsplit : MemcpyMachine.step (c.machine .aligned n edx) = some (c.machine .rep (n / 4) (n % 4)) := by
    simp only [MemcpyMachine.step, CopyState.machine, ofNat_and_three, ofNat_shiftRight_two hn]
  have hwords := reaches_repMovsl c (n / 4) (n % 4) (by omega)
  have htail := reaches_memcpyBottom (repMovsl .ofNat (n / 4) c) (n % 4) 0 (by omega)
  exact reaches_of_step hsplit (hwords.trans htail)

/-- The alignment test reads the low two bits of the destination register. -/
theorem edi_aligned_iff : (UInt32.ofNat c.edi &&& 3 = 0) ↔ c.edi % 4 = 0 := by
  rw [ofNat_and_three, ← UInt32.toNat_inj, UInt32.toNat_ofNat']
  change c.edi % 4 % 2 ^ 32 = 0 ↔ _
  omega

/-- The whole assembly runs to `.memcpy_done` with the memory of the recursive copy. -/
theorem reaches_memcpyTop (n edx : ℕ) (hn : n < 2 ^ 32) :
    ∃ edx', Reaches MemcpyMachine.step (c.machine .top n edx) ((memcpyTop .ofNat n c).machine .done 0 edx') := by
  induction n generalizing c with
  | zero => exact ⟨edx, Relation.ReflTransGen.single (Option.mem_def.mpr rfl)⟩
  | succ n ih =>
    rw [memcpyTop]
    split
    case isTrue haligned =>
      have hstep : MemcpyMachine.step (c.machine .top (n + 1) edx) = some (c.machine .aligned (n + 1) edx) := by
        rw [CopyState.machine, MemcpyMachine.step]
        dsimp only
        rw [if_neg (ofNat_succ_ne_zero hn), if_pos ((edi_aligned_iff c).mpr haligned)]
        rfl
      exact ⟨0, reaches_of_step hstep (reaches_memcpyAligned c (n + 1) edx hn)⟩
    case isFalse haligned =>
      have hstep : MemcpyMachine.step (c.machine .top (n + 1) edx) =
          some ((c.movb .ofNat).machine .top n edx) := by
        rw [← moveByte_machine, CopyState.machine, MemcpyMachine.step]
        dsimp only
        rw [if_neg (ofNat_succ_ne_zero hn), if_neg (mt (edi_aligned_iff c).mp haligned), ofNat_succ_sub_one]
        rfl
      obtain ⟨edx', hrest⟩ := ih (c.movb .ofNat) (by omega)
      exact ⟨edx', reaches_of_step hstep hrest⟩

end Steps

/-- Regions that do not wrap and do not overlap are separate. -/
theorem separate_regions {dest src n : UInt32} (hdest : dest.toNat + n.toNat ≤ 2 ^ 32)
    (hsrc : src.toNat + n.toNat ≤ 2 ^ 32)
    (hdisjoint : dest.toNat + n.toNat ≤ src.toNat ∨ src.toNat + n.toNat ≤ dest.toNat) :
    Separate UInt32.ofNat dest.toNat src.toNat n.toNat := by
  refine ⟨fun i hi j hj heq => ?_, fun i hi j hj heq => ?_⟩
  · have h := congrArg UInt32.toNat heq
    rw [UInt32.toNat_ofNat_of_lt' (by change _ < 2 ^ 32; omega),
      UInt32.toNat_ofNat_of_lt' (by change _ < 2 ^ 32; omega)] at h
    omega
  · have h := congrArg UInt32.toNat heq
    rw [UInt32.toNat_ofNat_of_lt' (by change _ < 2 ^ 32; omega),
      UInt32.toNat_ofNat_of_lt' (by change _ < 2 ^ 32; omega)] at h
    omega

/-- The assembly stops from every start, with the memory of the recursive copy. -/
theorem eval_memcpy (dest src n edx : UInt32) (memory : UInt32 → UInt8) :
    ∃ s ∈ eval MemcpyMachine.step (.start dest src n edx memory),
      s.label = .done ∧ s.memory = memcpy .ofNat dest.toNat src.toNat n.toNat memory := by
  obtain ⟨edx', hreach⟩ := reaches_memcpyTop ⟨dest.toNat, src.toNat, memory⟩ n.toNat edx.toNat n.toNat_lt
  have hstart : (CopyState.mk dest.toNat src.toNat memory).machine .top n.toNat edx.toNat =
      .start dest src n edx memory := by
    simp only [CopyState.machine, MemcpyMachine.start, UInt32.ofNat_toNat]
  rw [hstart] at hreach
  exact ⟨_, mem_eval.mpr ⟨hreach, rfl⟩, rfl, rfl⟩

/-- `memcpy` stops with the source region copied byte for byte and every other byte kept, whatever
the alignment and the length. -/
theorem memcpy_eq_byteCopy (dest src n edx : UInt32) (memory : UInt32 → UInt8)
    (hdest : dest.toNat + n.toNat ≤ 2 ^ 32) (hsrc : src.toNat + n.toNat ≤ 2 ^ 32)
    (hdisjoint : dest.toNat + n.toNat ≤ src.toNat ∨ src.toNat + n.toNat ≤ dest.toNat) :
    ∃ s ∈ eval MemcpyMachine.step (.start dest src n edx memory),
      s.label = .done ∧
      (∀ k < n, s.memory (dest + k) = memory (src + k)) ∧
      ∀ a, ¬(dest.toNat ≤ a.toNat ∧ a.toNat < dest.toNat + n.toNat) → s.memory a = memory a := by
  obtain ⟨s, hs, hdone, hmemory⟩ := eval_memcpy dest src n edx memory
  have hcopied := copied_memcpy memory (separate_regions hdest hsrc hdisjoint)
  rw [← hmemory] at hcopied
  refine ⟨s, hs, hdone, fun k hk => ?_, fun a ha => hcopied.frame a fun k hk heq => ha ?_⟩
  · have h := hcopied.copy k.toNat (UInt32.lt_iff_toNat_lt.mp hk)
    rw [UInt32.ofNat_add, UInt32.ofNat_add, UInt32.ofNat_toNat, UInt32.ofNat_toNat, UInt32.ofNat_toNat] at h
    exact h
  · rw [heq, UInt32.toNat_ofNat_of_lt' (by change _ < 2 ^ 32; omega)]
    omega

/-- An unaligned destination at the end of the address space, with a source of another alignment. -/
theorem memcpy_eq_byteCopy_unaligned :
    ((0xFFFFFFF5 : UInt32).toNat + (11 : UInt32).toNat ≤ 2 ^ 32 ∧
      (0x1002 : UInt32).toNat + (11 : UInt32).toNat ≤ 2 ^ 32) ∧
    ∃ s ∈ eval MemcpyMachine.step (.start 0xFFFFFFF5 0x1002 11 0 UInt32.toUInt8),
      s.label = .done ∧
      (∀ k < (11 : UInt32), s.memory (0xFFFFFFF5 + k) = ((0x1002 : UInt32) + k).toUInt8) ∧
      ∀ a, ¬((0xFFFFFFF5 : UInt32).toNat ≤ a.toNat ∧
        a.toNat < (0xFFFFFFF5 : UInt32).toNat + (11 : UInt32).toNat) → s.memory a = a.toUInt8 :=
  ⟨by decide, memcpy_eq_byteCopy 0xFFFFFFF5 0x1002 11 0 UInt32.toUInt8 (by decide) (by decide) (by decide)⟩

end OsKernel
