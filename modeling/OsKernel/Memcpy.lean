import OsKernel.Library.BlockCopy

/-!
# The word-optimised `memcpy`

The inline assembly copies bytes until the destination is 4-aligned, then whole words with
`rep movsl`, then the remaining bytes. The address map stands for whatever the addresses go
through: plain memory, or the page tables in effect during the copy.
-/

namespace OsKernel

open Library

variable {P B : Type*}

/-- The registers that the three loops hand over, with the memory they write. -/
structure CopyState (P B : Type*) where
  edi : ℕ
  esi : ℕ
  memory : P → B

/-- Both pointers advanced by the count, and that many bytes were copied between them. -/
structure Advanced (place : ℕ → P) (count : ℕ) (s s' : CopyState P B) : Prop where
  edi : s'.edi = s.edi + count
  esi : s'.esi = s.esi + count
  copied : Copied place s.edi s.esi count s.memory s'.memory

/-- Phases of a copy compose on a separate range. -/
theorem Advanced.trans {place : ℕ → P} {first second : ℕ} {s m s' : CopyState P B}
    (hsep : Separate place s.edi s.esi (first + second))
    (hfirst : Advanced place first s m) (hsecond : Advanced place second m s') :
    Advanced place (first + second) s s' := by
  have hcopied := hsecond.copied
  rw [hfirst.edi, hfirst.esi] at hcopied
  refine ⟨?_, ?_, Copied.trans hsep hfirst.copied hcopied⟩
  · rw [hsecond.edi, hfirst.edi, Nat.add_assoc]
  · rw [hsecond.esi, hfirst.esi, Nat.add_assoc]

variable [DecidableEq P]

/-- `movb (%esi), %al; movb %al, (%edi)` and the two increments. -/
def CopyState.movb (place : ℕ → P) (s : CopyState P B) : CopyState P B where
  edi := s.edi + 1
  esi := s.esi + 1
  memory := Function.update s.memory (place s.edi) (s.memory (place s.esi))

/-- One `movsl`: a 32-bit load, a 32-bit store and both pointers moved by a word. -/
def CopyState.movsl (place : ℕ → P) (s : CopyState P B) : CopyState P B where
  edi := s.edi + 4
  esi := s.esi + 4
  memory := storeBytes place s.edi (fun k => s.memory (place (s.esi + k))) 4 s.memory

/-- `.memcpy_bottom`: the loop on `%edx`. -/
def memcpyBottom (place : ℕ → P) : ℕ → CopyState P B → CopyState P B
  | 0, s => s
  | edx + 1, s => memcpyBottom place edx (s.movb place)

/-- `rep movsl`: the loop on `%ecx` counted in words. -/
def repMovsl (place : ℕ → P) : ℕ → CopyState P B → CopyState P B
  | 0, s => s
  | ecx + 1, s => repMovsl place ecx (s.movsl place)

/-- `.memcpy_aligned`: words first, then the tail. -/
def memcpyAligned (place : ℕ → P) (ecx : ℕ) (s : CopyState P B) : CopyState P B :=
  memcpyBottom place (ecx % 4) (repMovsl place (ecx / 4) s)

/-- `.memcpy_top`: single bytes until the destination is aligned. -/
def memcpyTop (place : ℕ → P) : ℕ → CopyState P B → CopyState P B
  | 0, s => s
  | ecx + 1, s =>
    if s.edi % 4 = 0 then memcpyAligned place (ecx + 1) s
    else memcpyTop place ecx (s.movb place)

/-- `void* memcpy(void* dest, const void* src, uint32_t n)` -/
def memcpy (place : ℕ → P) (dest src n : ℕ) (memory : P → B) : P → B :=
  (memcpyTop place n ⟨dest, src, memory⟩).memory

/-- A single byte move advances by one. -/
theorem advanced_movb (place : ℕ → P) (s : CopyState P B) : Advanced place 1 s (s.movb place) :=
  ⟨rfl, rfl, Copied.byte⟩

/-- A word move advances by four. -/
theorem advanced_movsl {place : ℕ → P} {s : CopyState P B} (hsep : Separate place s.edi s.esi 4) :
    Advanced place 4 s (s.movsl place) :=
  ⟨rfl, rfl, Copied.word hsep⟩

/-- The tail loop advances by its counter. -/
theorem advanced_memcpyBottom {place : ℕ → P} (edx : ℕ) {s : CopyState P B}
    (hsep : Separate place s.edi s.esi edx) : Advanced place edx s (memcpyBottom place edx s) := by
  induction edx generalizing s with
  | zero => exact ⟨rfl, rfl, Copied.zero⟩
  | succ edx ih =>
    rw [Nat.add_comm] at hsep ⊢
    exact Advanced.trans hsep (advanced_movb place s) (by rw [Nat.add_comm]; exact ih hsep.drop)

/-- The word loop advances by four times its counter. -/
theorem advanced_repMovsl {place : ℕ → P} (ecx : ℕ) {s : CopyState P B}
    (hsep : Separate place s.edi s.esi (4 * ecx)) :
    Advanced place (4 * ecx) s (repMovsl place ecx s) := by
  induction ecx generalizing s with
  | zero => exact ⟨rfl, rfl, Copied.zero⟩
  | succ ecx ih =>
    rw [Nat.mul_succ, Nat.add_comm] at hsep ⊢
    exact Advanced.trans hsep (advanced_movsl hsep.take) (ih hsep.drop)

/-- The aligned part splits its count into words and a tail of less than a word. -/
theorem advanced_memcpyAligned {place : ℕ → P} (ecx : ℕ) {s : CopyState P B}
    (hsep : Separate place s.edi s.esi ecx) :
    Advanced place ecx s (memcpyAligned place ecx s) := by
  have hsplit : 4 * (ecx / 4) + ecx % 4 = ecx := Nat.div_add_mod ecx 4
  rw [← hsplit] at hsep
  have hwords := advanced_repMovsl (ecx / 4) hsep.take
  have htail := hsep.drop
  rw [← hwords.edi, ← hwords.esi] at htail
  have h := Advanced.trans hsep hwords (advanced_memcpyBottom (ecx % 4) htail)
  rw [hsplit] at h
  exact h

/-- The alignment loop hands over the rest of the count wherever alignment is reached. -/
theorem advanced_memcpyTop {place : ℕ → P} (ecx : ℕ) {s : CopyState P B}
    (hsep : Separate place s.edi s.esi ecx) : Advanced place ecx s (memcpyTop place ecx s) := by
  induction ecx generalizing s with
  | zero => exact ⟨rfl, rfl, Copied.zero⟩
  | succ ecx ih =>
    rw [memcpyTop]
    split
    · exact advanced_memcpyAligned (ecx + 1) hsep
    · rw [Nat.add_comm] at hsep ⊢
      exact Advanced.trans hsep (advanced_movb place s) (ih hsep.drop)

/-- On a separate range `memcpy` copies every byte and writes no other place. -/
theorem copied_memcpy {place : ℕ → P} {dest src n : ℕ} (memory : P → B)
    (hsep : Separate place dest src n) :
    Copied place dest src n memory (memcpy place dest src n memory) :=
  (advanced_memcpyTop (s := ⟨dest, src, memory⟩) n hsep).copied

end OsKernel
