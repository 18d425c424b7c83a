import OsKernel.Library.WordStack
import Mathlib.Logic.Function.Basic
import Mathlib.Logic.Relation

/-!
# A 32-bit processor

The registers, the stack instructions and the delivery of interrupts of a processor with a kernel and a user mode. An
interrupt pushes the frame that `iret` pops; from user mode it goes to the stack that the task state names. Code is a
list of instructions for each label, loaded at addresses the linker chose; a call of a compiled function is one step,
which runs it until it returns.
-/

namespace OsKernel.Library

/-- The general registers. -/
inductive Reg where
  | eax
  | ecx
  | edx
  | ebx
  | esp
  | ebp
  | esi
  | edi
  deriving DecidableEq

/-- The processor, the stack of the kernel that the task state names, and the memory. -/
structure Cpu where
  reg : Reg → UInt32
  eip : UInt32
  eflags : UInt32
  cs : UInt32
  ss : UInt32
  esp0 : UInt32
  ss0 : UInt32
  mem : Memory

/-- A gate: where its handler is, whether it keeps other interrupts out, and from which level on programs may use it. -/
structure Gate where
  selector : UInt32
  offset : UInt32
  interrupt : Bool
  dpl : UInt32

/-- The instructions that go on to the next one. -/
inductive Op where
  | pushl (src : Reg)
  | pushlImm (value : UInt32)
  | pushfl
  | pushal
  | popl (dst : Reg)
  | popfl
  | popal
  | movl (src dst : Reg)
  | movlImm (value : UInt32) (dst : Reg)
  | movlStack (disp : UInt32) (dst : Reg)
  | addlImm (value : UInt32) (dst : Reg)
  | cmplImm (value : UInt32) (src : Reg)
  | cli

/-- The instructions, with labels of type `L` and compiled functions of type `F`; `callTable` calls the entry of a
table at `%eax`. -/
inductive Instr (L F : Type) where
  | op (o : Op)
  | jg (target : L)
  | jl (target : L)
  | jmp (target : L)
  | call (f : F)
  | callTable
  | int (vector : UInt8)
  | leave
  | ret
  | iret

/-- A word as a signed number. -/
def signed (w : UInt32) : ℤ := if w.toNat < 2147483648 then w.toNat else w.toNat - 4294967296

/-- The bits of the carry, zero, sign and overflow flags. -/
def flagBits (carry zero sign overflow : Bool) : UInt32 :=
  (if carry then 0x1 else 0) ||| (if zero then 0x40 else 0) ||| (if sign then 0x80 else 0) |||
    (if overflow then 0x800 else 0)

/-- The flags set to them. -/
def setFlags (eflags bits : UInt32) : UInt32 := (eflags &&& ~~~0x8C1) ||| bits

/-- The flags behind a comparison of two words. -/
def compareFlags (eflags x y : UInt32) : UInt32 :=
  setFlags eflags (flagBits (x < y) (x - y = 0) (signed (x - y) < 0) (signed (x - y) ≠ signed x - signed y))

/-- The flags behind a sum. -/
def sumFlags (eflags x y : UInt32) : UInt32 :=
  setFlags eflags (flagBits (x + y < x) (x + y = 0) (signed (x + y) < 0) (signed (x + y) ≠ signed x + signed y))

/-- The condition of `jl`: sign and overflow differ. -/
def lessFlags (eflags : UInt32) : Bool := decide (eflags &&& 0x80 = 0) != decide (eflags &&& 0x800 = 0)

/-- The condition of `jg`: not zero, and sign and overflow are the same. -/
def greaterFlags (eflags : UInt32) : Bool := decide (eflags &&& 0x40 = 0) && !lessFlags eflags

namespace Cpu

variable (s : Cpu)

/-- The stack pointer. -/
def esp : UInt32 := s.reg .esp

/-- Words pushed, the first one first. -/
def pushes (ws : List UInt32) : Cpu :=
  { s with
    mem := pushed s.mem s.esp ws
    reg := Function.update s.reg .esp (s.esp - UInt32.ofNat (4 * ws.length)) }

/-- The effect of an instruction that goes on to the next one. -/
def effect : Op → Cpu
  | .pushl src => s.pushes [s.reg src]
  | .pushlImm value => s.pushes [value]
  | .pushfl => s.pushes [s.eflags]
  | .pushal =>
    s.pushes [s.reg .eax, s.reg .ecx, s.reg .edx, s.reg .ebx, s.esp, s.reg .ebp, s.reg .esi, s.reg .edi]
  | .popl dst =>
    { s with reg := Function.update (Function.update s.reg .esp (s.esp + 4)) dst (load32 s.mem s.esp) }
  | .popfl => { s with eflags := load32 s.mem s.esp, reg := Function.update s.reg .esp (s.esp + 4) }
  | .popal =>
    { s with reg := fun
      | .edi => load32 s.mem s.esp
      | .esi => load32 s.mem (s.esp + 4)
      | .ebp => load32 s.mem (s.esp + 8)
      | .esp => s.esp + 32
      | .ebx => load32 s.mem (s.esp + 16)
      | .edx => load32 s.mem (s.esp + 20)
      | .ecx => load32 s.mem (s.esp + 24)
      | .eax => load32 s.mem (s.esp + 28) }
  | .movl src dst => { s with reg := Function.update s.reg dst (s.reg src) }
  | .movlImm value dst => { s with reg := Function.update s.reg dst value }
  | .movlStack disp dst => { s with reg := Function.update s.reg dst (load32 s.mem (s.esp + disp)) }
  | .addlImm value dst =>
    { s with
      reg := Function.update s.reg dst (s.reg dst + value)
      eflags := sumFlags s.eflags (s.reg dst) value }
  | .cmplImm value src => { s with eflags := compareFlags s.eflags (s.reg src) value }
  | .cli => { s with eflags := s.eflags &&& ~~~0x200 }

/-- The processor runs a program of the user. -/
def userMode : Bool := s.cs &&& 3 ≠ 0

/-- The frame of an interrupt, from the stack pointer up. -/
def frame : List UInt32 := [s.eip, s.cs, s.eflags] ++ if s.userMode then [s.reg .esp, s.ss] else []

theorem length_frame : s.frame.length ≤ 5 := by
  cases hmode : s.userMode <;> simp [frame, hmode]

/-- An interrupt goes through its gate. -/
def interrupt (g : Gate) : Cpu :=
  let kernel := if s.userMode then { s with reg := Function.update s.reg .esp s.esp0, ss := s.ss0 } else s
  { kernel.pushes s.frame.reverse with
    cs := g.selector
    eip := g.offset
    eflags := if g.interrupt then s.eflags &&& ~~~0x34300 else s.eflags &&& ~~~0x34100 }

/-- `iret` -/
def iret : Cpu :=
  let back : Cpu := { s with
    eip := load32 s.mem s.esp
    cs := load32 s.mem (s.esp + 4)
    eflags := load32 s.mem (s.esp + 8)
    reg := Function.update s.reg .esp (s.esp + 12) }
  if back.userMode then
    { back with
      reg := Function.update s.reg .esp (load32 s.mem (s.esp + 12))
      ss := load32 s.mem (s.esp + 16) }
  else back

end Cpu

/-- Loaded code: the instructions of each label, the address of each of them, and what is fetched from an address with
the address behind it. -/
structure Text (L F : Type) where
  code : L → List (Instr L F)
  addr : L → ℕ → UInt32
  fetch : UInt32 → Option (Instr L F × UInt32)
  loaded : ∀ l n i, (code l)[n]? = some i → fetch (addr l n) = some (i, addr l (n + 1))

/-- The address of an instruction when every label has 32 places, in the order of its index. -/
def placedAddr (base : UInt32) (index n : ℕ) : UInt32 := base + UInt32.ofNat (32 * index + n)

/-- What is fetched then. -/
def placedFetch {L F : Type} (base : UInt32) (label : ℕ → Option L) (code : L → List (Instr L F)) (a : UInt32) :
    Option (Instr L F × UInt32) :=
  (label ((a - base).toNat / 32)).bind fun l => (code l)[(a - base).toNat % 32]?.map fun i => (i, a + 1)

/-- Code with few labels of few instructions can be placed so. -/
theorem placed_loaded {L F : Type} (base : UInt32) {index : L → ℕ} {label : ℕ → Option L} {code : L → List (Instr L F)}
    (hlabel : ∀ l, label (index l) = some l) (hindex : ∀ l, index l < 1024) (hlength : ∀ l, (code l).length ≤ 32)
    (l : L) (n : ℕ) (i : Instr L F) (hi : (code l)[n]? = some i) :
    placedFetch base label code (placedAddr base (index l) n) = some (i, placedAddr base (index l) (n + 1)) := by
  obtain ⟨hn, -⟩ := List.getElem?_eq_some_iff.mp hi
  have hshort := hlength l
  have hfew := hindex l
  have hoffset : (placedAddr base (index l) n - base).toNat = 32 * index l + n := by
    rw [placedAddr, add_sub_cancel_left]
    exact UInt32.toNat_ofNat_of_lt' (show _ < 4294967296 by omega)
  have hdiv : (32 * index l + n) / 32 = index l := by omega
  have hmod : (32 * index l + n) % 32 = n := by omega
  have hnext : placedAddr base (index l) n + 1 = placedAddr base (index l) (n + 1) := by
    rw [placedAddr, placedAddr, add_assoc, ← Nat.add_assoc, UInt32.ofNat_add (32 * index l + n) 1]
    rfl
  rw [placedFetch, hoffset, hdiv, hmod, hlabel, Option.bind_some, hi, Option.map_some, hnext]

/-- What the code refers to: the compiled functions, run from their entry to their return, the entries of its table, and
the gates. -/
structure Links (F : Type) where
  run : F → Cpu → Option Cpu
  table : UInt32 → Option F
  gate : UInt8 → Option Gate

namespace Text

variable {L F : Type} (t : Text L F) (k : Links F)

/-- An instruction of the address before `s.eip`. -/
def execute (s : Cpu) : Instr L F → Option Cpu
  | .op o => some (s.effect o)
  | .jg target => some (if greaterFlags s.eflags then { s with eip := t.addr target 0 } else s)
  | .jl target => some (if lessFlags s.eflags then { s with eip := t.addr target 0 } else s)
  | .jmp target => some { s with eip := t.addr target 0 }
  | .call f => k.run f (s.pushes [s.eip])
  | .callTable => (k.table (s.reg .eax)).bind fun f => k.run f (s.pushes [s.eip])
  | .int vector => (k.gate vector).bind fun g => if s.cs &&& 3 ≤ g.dpl then some (s.interrupt g) else none
  | .leave =>
    some { s with
      reg := Function.update (Function.update s.reg .esp (s.reg .ebp + 4)) .ebp (load32 s.mem (s.reg .ebp)) }
  | .ret => some { s with eip := load32 s.mem s.esp, reg := Function.update s.reg .esp (s.esp + 4) }
  | .iret => some s.iret

/-- The instruction at `s.eip` is fetched and executed. -/
def step (s : Cpu) : Option Cpu := (t.fetch s.eip).bind fun i => t.execute k { s with eip := i.2 } i.1

/-- A state that the processor reaches. -/
def Reaches : Cpu → Cpu → Prop := Relation.ReflTransGen fun s s' => t.step k s = some s'

/-- The processor comes to a call of a function, which is entered in this state, whether it returns or not. -/
def Enters (s : Cpu) (f : F) (entry : Cpu) : Prop :=
  ∃ m i, t.Reaches k s m ∧ t.fetch m.eip = some i ∧
    (i.1 = .call f ∨ i.1 = .callTable ∧ k.table (m.reg .eax) = some f) ∧
    entry = ({ m with eip := i.2 } : Cpu).pushes [i.2]

end Text

section Flags

variable (f x y : UInt32)

/-- A signed number and its word. -/
theorem signed_eq (w : UInt32) : signed w = w.toNat ∧ w.toNat < 2147483648 ∨
    signed w = w.toNat - 4294967296 ∧ 2147483648 ≤ w.toNat := by
  unfold signed
  split
  next h => exact .inl ⟨rfl, h⟩
  next h => exact .inr ⟨rfl, Nat.le_of_not_lt h⟩

/-- A flag that an operation sets does not depend on the flags before. -/
theorem setFlags_and (bits : UInt32) {m : UInt32} (hm : ~~~(0x8C1 : UInt32) &&& m = 0) :
    setFlags f bits &&& m = bits &&& m := by
  have hor : ((f &&& ~~~0x8C1) ||| bits) &&& m = ((f &&& ~~~0x8C1) &&& m) ||| (bits &&& m) := by
    apply UInt32.toBitVec_inj.mp
    apply BitVec.eq_of_getLsbD_eq
    intro i _
    simp [Bool.and_or_distrib_right]
  rw [setFlags, hor, UInt32.and_assoc, hm, UInt32.and_zero, UInt32.zero_or]

/-- `jl` behind a comparison. -/
theorem lessFlags_compare : lessFlags (compareFlags f x y) = decide (signed x < signed y) := by
  have hflags : ∀ carry zero sign overflow,
      lessFlags (flagBits carry zero sign overflow) = (sign != overflow) := by decide
  have hsame (bits : UInt32) : lessFlags (setFlags f bits) = lessFlags bits := by
    rw [lessFlags, setFlags_and f bits (by decide), setFlags_and f bits (by decide), lessFlags]
  rw [compareFlags, hsame, hflags]
  have hx := signed_eq x
  have hy := signed_eq y
  have hd := signed_eq (x - y)
  have hsub : (x - y).toNat = (4294967296 - y.toNat + x.toNat) % 4294967296 := UInt32.toNat_sub x y
  have hlx := x.toNat_lt
  have hly := y.toNat_lt
  rw [Bool.eq_iff_iff, bne_iff_ne, ne_eq, decide_eq_decide, decide_eq_true_iff]
  omega

/-- `jg` behind a comparison. -/
theorem greaterFlags_compare : greaterFlags (compareFlags f x y) = decide (signed y < signed x) := by
  have hflags : ∀ carry zero sign overflow, decide (flagBits carry zero sign overflow &&& 0x40 = 0) = !zero := by decide
  rw [greaterFlags, lessFlags_compare, compareFlags, setFlags_and f _ (by decide), hflags]
  have hx := signed_eq x
  have hy := signed_eq y
  have hzero : x - y = 0 ↔ signed x = signed y := by
    rw [sub_eq_zero]
    constructor
    · rintro rfl
      rfl
    · intro heq
      have hlx := x.toNat_lt
      have hly := y.toNat_lt
      exact UInt32.toNat.inj (by omega)
  rw [Bool.eq_iff_iff]
  simp only [hzero, Bool.and_eq_true, Bool.not_eq_true', decide_eq_false_iff_not, decide_eq_true_iff]
  omega

end Flags

namespace Cpu

variable {s s' : Cpu} {ws rest : List UInt32}

theorem pushes_esp (s : Cpu) (ws : List UInt32) : (s.pushes ws).esp = s.esp - UInt32.ofNat (4 * ws.length) := by
  change Function.update s.reg .esp (s.esp - UInt32.ofNat (4 * ws.length)) .esp = _
  exact Function.update_self ..

theorem pushes_mem (s : Cpu) (ws : List UInt32) : (s.pushes ws).mem = pushed s.mem s.esp ws := rfl

theorem pushes_reg (s : Cpu) (ws : List UInt32) {r : Reg} (hr : r ≠ .esp) : (s.pushes ws).reg r = s.reg r :=
  Function.update_of_ne hr ..

/-- Pushes after pushes. -/
theorem pushes_pushes (s : Cpu) (first second : List UInt32) :
    (s.pushes first).pushes second = s.pushes (first ++ second) := by
  have hesp : s.esp - UInt32.ofNat (4 * first.length) - UInt32.ofNat (4 * second.length) =
      s.esp - UInt32.ofNat (4 * (first ++ second).length) := by
    rw [List.length_append, Nat.mul_add, UInt32.ofNat_add, sub_sub]
  rw [pushes, pushes_esp, hesp, pushes, pushes, pushed_append]
  simp only [Function.update_idem]

/-- An instruction that goes on neither looks at its own address nor changes it. -/
theorem effect_eip (s : Cpu) (o : Op) (a : UInt32) :
    ({ s with eip := a } : Cpu).effect o = { s.effect o with eip := a } := by
  cases o <;> rfl

/-- The words on the stack. -/
def Stack (s : Cpu) (ws : List UInt32) : Prop := Stacked s.mem s.esp ws

/-- The stack behind pushes. -/
theorem Stack.pushes (h : s.Stack rest) (hroom : 4 * (ws.length + rest.length) ≤ 4294967296) :
    (s.pushes ws).Stack (ws.reverse ++ rest) := by
  rw [Stack, pushes_esp]
  exact Stacked.pushed h hroom

/-- Registers popped off the stack. -/
theorem foldl_popl (rs : List Reg) (h : s.Stack ws) (hlength : ws.length = rs.length) (hesp : .esp ∉ rs) :
    (rs.map Op.popl).foldl effect s =
      { s with
        reg := (rs.zip ws).foldl (fun reg p => Function.update reg p.1 p.2)
          (Function.update s.reg .esp (s.esp + UInt32.ofNat (4 * rs.length))) } := by
  induction rs generalizing s ws with
  | nil =>
    have hsame : Function.update s.reg .esp (s.esp + UInt32.ofNat (4 * ([] : List Reg).length)) = s.reg := by
      simp [esp]
    rw [List.zip_nil_left, List.foldl_nil, hsame]
    rfl
  | cons r rs ih =>
    obtain ⟨w, ws, rfl⟩ := List.exists_cons_of_length_eq_add_one hlength
    rw [List.mem_cons, not_or] at hesp
    obtain ⟨hr, hrs⟩ := hesp
    let m : Cpu := { s with reg := Function.update (Function.update s.reg .esp (s.esp + 4)) r w }
    have heffect : s.effect (.popl r) = m := by rw [effect, h.1]
    have hm : m.esp = s.esp + 4 := by
      change Function.update (Function.update s.reg .esp (s.esp + 4)) r w .esp = _
      rw [Function.update_of_ne hr, Function.update_self]
    have hstack : m.Stack ws := by
      rw [Stack, hm]
      exact h.2
    have hregs : Function.update m.reg .esp (m.esp + UInt32.ofNat (4 * rs.length)) =
        Function.update (Function.update s.reg .esp (s.esp + UInt32.ofNat (4 * (r :: rs).length))) r w := by
      rw [hm, add_assoc, List.length_cons, Nat.mul_succ, Nat.add_comm, UInt32.ofNat_add]
      funext q
      by_cases hq : q = .esp
      · subst hq
        simp [m, hr]
      · by_cases hq' : q = r
        · simp [m, hq', ne_comm.mp hr]
        · simp [m, hq, hq']
    rw [List.map_cons, List.foldl_cons, heffect, ih hstack (Nat.succ.inj hlength) hrs, hregs]
    rfl

/-- `popal` undoes `pushal`. -/
theorem effect_popal {old : Reg → UInt32} {sp : UInt32}
    (h : s.Stack [old .edi, old .esi, old .ebp, sp, old .ebx, old .edx, old .ecx, old .eax]) :
    s.effect .popal = { s with reg := Function.update old .esp (s.esp + 32) } := by
  obtain ⟨hedi, hesi, hebp, -, hebx, hedx, hecx, heax, -⟩ := h
  simp only [add_assoc] at hesi hebp hebx hedx hecx heax
  rw [effect]
  congr 1
  funext r
  cases r with
  | edi => exact hedi
  | esi => exact hesi
  | ebp => exact hebp
  | esp => rfl
  | ebx => exact hebx
  | edx => exact hedx
  | ecx => exact hecx
  | eax => exact heax

/-- Where the frame of an interrupt lies: below the stack pointer, or on the stack of the kernel. -/
def frameBase (s : Cpu) : UInt32 := if s.userMode then s.esp0 - 20 else s.esp - 12

/-- An interrupt in its handler. -/
structure Interrupted (s s' : Cpu) (g : Gate) : Prop where
  esp : s'.esp = s.frameBase
  stack : s'.Stack s.frame
  reg : ∀ r ≠ .esp, s'.reg r = s.reg r
  eip : s'.eip = g.offset
  cs : s'.cs = g.selector
  ss : s.userMode = false → s'.ss = s.ss
  away : SameAway s.frameBase (4 * s.frame.length) s.mem s'.mem

/-- The stack that an interrupt goes to. -/
def kernelStack (s : Cpu) : Cpu :=
  if s.userMode then { s with reg := Function.update s.reg .esp s.esp0, ss := s.ss0 } else s

theorem kernelStack_frameBase (s : Cpu) : s.kernelStack.esp - UInt32.ofNat (4 * s.frame.length) = s.frameBase := by
  cases hmode : s.userMode with
  | true => simp [kernelStack, frameBase, frame, hmode, esp]
  | false => simp [kernelStack, frameBase, frame, hmode, esp]

/-- The delivery of an interrupt. -/
theorem interrupted (s : Cpu) (g : Gate) : Interrupted s (s.interrupt g) g := by
  have hlength := s.length_frame
  have hmem : (s.interrupt g).mem = pushed s.mem s.kernelStack.esp s.frame.reverse := by
    cases hmode : s.userMode <;> simp [interrupt, kernelStack, hmode, pushes, esp]
  have hesp : (s.interrupt g).esp = s.frameBase := by
    rw [← kernelStack_frameBase]
    cases hmode : s.userMode <;> simp [interrupt, kernelStack, hmode, pushes, esp]
  refine ⟨hesp, ?_, fun r hr => ?_, rfl, rfl, fun hmode => ?_, ?_⟩
  · have hstack : Stacked (pushed s.mem s.kernelStack.esp s.frame.reverse) (s.kernelStack.esp - UInt32.ofNat
        (4 * s.frame.reverse.length)) (s.frame.reverse.reverse ++ []) :=
      Stacked.pushed trivial (by rw [List.length_reverse, List.length_nil]; omega)
    rw [List.reverse_reverse, List.append_nil, List.length_reverse, kernelStack_frameBase] at hstack
    rw [Stack, hesp, hmem]
    exact hstack
  · cases hmode : s.userMode <;> simp [interrupt, hmode, pushes, hr]
  · simp [interrupt, hmode, pushes]
  · have hroom : 4 * s.frame.reverse.length ≤ 4294967296 := by
      rw [List.length_reverse]
      omega
    have haway := pushed_away (m := s.mem) (a := s.kernelStack.esp) hroom
    rw [List.length_reverse, kernelStack_frameBase] at haway
    rw [hmem]
    exact haway

/-- The task state is left as it is. -/
theorem interrupt_task (s : Cpu) (g : Gate) : (s.interrupt g).esp0 = s.esp0 ∧ (s.interrupt g).ss0 = s.ss0 := by
  cases hmode : s.userMode <;> simp [interrupt, hmode, Cpu.pushes]

/-- `iret` goes on where the interrupt came. -/
theorem iret_frame (hesp : s'.esp = s.frameBase) (hstack : s'.Stack s.frame) (hss : s.userMode = false → s'.ss = s.ss) :
    s'.iret = { s' with
      eip := s.eip
      cs := s.cs
      eflags := s.eflags
      ss := s.ss
      reg := Function.update s'.reg .esp (s.reg .esp) } := by
  have hwords : load32 s'.mem s'.esp = s.eip ∧ load32 s'.mem (s'.esp + 4) = s.cs ∧
      load32 s'.mem (s'.esp + 8) = s.eflags ∧
      (s.userMode = true → load32 s'.mem (s'.esp + 12) = s.reg .esp ∧ load32 s'.mem (s'.esp + 16) = s.ss) := by
    obtain ⟨heip, hcs, hflags, hrest⟩ := hstack
    simp only [add_assoc, UInt32.reduceAdd] at hcs hflags hrest
    refine ⟨heip, hcs, hflags, fun hmode => ?_⟩
    rw [if_pos hmode] at hrest
    obtain ⟨hsp, hss, -⟩ := hrest
    simp only [add_assoc, UInt32.reduceAdd] at hss
    exact ⟨hsp, hss⟩
  obtain ⟨heip, hcs, hflags, huser⟩ := hwords
  let back : Cpu := { s' with
    eip := s.eip
    cs := s.cs
    eflags := s.eflags
    reg := Function.update s'.reg .esp (s'.esp + 12) }
  have hback : back.userMode = s.userMode := rfl
  rw [iret, heip, hcs, hflags]
  change (if back.userMode then _ else back) = _
  rw [hback]
  cases hmode : s.userMode with
  | true =>
    obtain ⟨hsp, hss⟩ := huser hmode
    rw [if_pos rfl, hsp, hss]
  | false =>
    have hsp : s'.esp + 12 = s.reg .esp := by
      rw [hesp, frameBase, hmode, if_neg Bool.false_ne_true]
      exact sub_add_cancel ..
    rw [if_neg Bool.false_ne_true, ← hsp, ← hss hmode]

/-- A function that was entered in the first state has returned in the second: the caller's words above its arguments
are as they were. -/
structure Returned (args caller : ℕ) (s s' : Cpu) : Prop where
  eip : s'.eip = load32 s.mem s.esp
  esp : s'.esp = s.esp + 4
  cs : s'.cs = s.cs
  ss : s'.ss = s.ss
  kept : SameFrom (s.esp + UInt32.ofNat (4 * (args + 1))) (4 * caller) s.mem s'.mem

/-- What a caller finds behind its arguments when a function has returned. -/
theorem Returned.stack (args : List UInt32) {ret : List UInt32} {n : ℕ} (h : Returned args.length n s s')
    (hret : ret.length = 1) (hstack : s.Stack (ret ++ args ++ ws)) (hn : ws.length = n)
    (hroom : 4 * n ≤ 4294967296) :
    Stacked s'.mem (s'.esp + UInt32.ofNat (4 * args.length)) ws := by
  have habove := Stacked.above hstack
  rw [List.length_append, hret, Nat.add_comm 1] at habove
  have heq : s'.esp + UInt32.ofNat (4 * args.length) = s.esp + UInt32.ofNat (4 * (args.length + 1)) := by
    rw [h.esp, Nat.mul_succ, Nat.add_comm, UInt32.ofNat_add, add_assoc]
    rfl
  rw [heq]
  exact habove.congr (by rw [hn]; exact hroom) (by rw [hn]; exact h.kept)

/-- So do several of them. -/
theorem foldl_effect_eip (s : Cpu) (ops : List Op) (a : UInt32) :
    ops.foldl effect { s with eip := a } = { ops.foldl effect s with eip := a } := by
  induction ops generalizing s with
  | nil => rfl
  | cons o ops ih => rw [List.foldl_cons, List.foldl_cons, effect_eip, ih]

end Cpu

namespace Text

variable {L F : Type} {t : Text L F} {k : Links F} {s s' : Cpu} {l : L} {n : ℕ} {i : Instr L F} {f : F}

/-- The instruction that comes next. -/
theorem step_eq (heip : s.eip = t.addr l n) (hcode : (t.code l)[n]? = some i) :
    t.step k s = t.execute k { s with eip := t.addr l (n + 1) } i := by
  rw [step, heip, t.loaded l n i hcode]
  rfl

/-- Instructions that go on are executed one behind the other. -/
theorem reaches_ops {ops : List Op} {rest : List (Instr L F)} (heip : s.eip = t.addr l n)
    (hcode : (t.code l).drop n = ops.map .op ++ rest) :
    t.Reaches k s { ops.foldl Cpu.effect s with eip := t.addr l (n + ops.length) } := by
  induction ops generalizing s n with
  | nil =>
    have hsame : ({ s with eip := t.addr l n } : Cpu) = s := by rw [← heip]
    exact hsame ▸ Relation.ReflTransGen.refl
  | cons o ops ih =>
    have hfirst : (t.code l)[n]? = some (.op o) := by
      rw [← List.head?_drop, hcode]
      rfl
    have hrest : (t.code l).drop (n + 1) = ops.map .op ++ rest := by
      rw [← List.drop_drop, hcode]
      rfl
    have hstep : t.step k s = some { s.effect o with eip := t.addr l (n + 1) } := by
      rw [step_eq heip hfirst, execute, Cpu.effect_eip]
    have htail := ih (s := { s.effect o with eip := t.addr l (n + 1) }) rfl hrest
    rw [Cpu.foldl_effect_eip, Nat.add_assoc, Nat.add_comm 1] at htail
    exact Relation.ReflTransGen.head hstep htail

/-- A call of a function. -/
theorem enters_call (h : t.Reaches k s s') (heip : s'.eip = t.addr l n) (hcode : (t.code l)[n]? = some (.call f)) :
    t.Enters k s f (({ s' with eip := t.addr l (n + 1) } : Cpu).pushes [t.addr l (n + 1)]) := by
  have hfetch : t.fetch s'.eip = some (.call f, t.addr l (n + 1)) := by rw [heip, t.loaded l n _ hcode]
  exact ⟨s', _, h, hfetch, .inl rfl, rfl⟩

/-- A call through the table. -/
theorem enters_callTable (h : t.Reaches k s s') (heip : s'.eip = t.addr l n)
    (hcode : (t.code l)[n]? = some .callTable) (htable : k.table (s'.reg .eax) = some f) :
    t.Enters k s f (({ s' with eip := t.addr l (n + 1) } : Cpu).pushes [t.addr l (n + 1)]) := by
  have hfetch : t.fetch s'.eip = some (.callTable, t.addr l (n + 1)) := by rw [heip, t.loaded l n _ hcode]
  exact ⟨s', _, h, hfetch, .inr ⟨rfl, htable⟩, rfl⟩

/-- A function is entered from any state before. -/
theorem Enters.of_reaches {entry : Cpu} (h : t.Enters k s' f entry) (hs : t.Reaches k s s') : t.Enters k s f entry := by
  obtain ⟨m, i, hm, hfetch, hcall, hentry⟩ := h
  exact ⟨m, i, hs.trans hm, hfetch, hcall, hentry⟩

/-- A function that was entered and returns. -/
theorem Enters.returns {entry r : Cpu} (h : t.Enters k s f entry) (hrun : k.run f entry = some r) :
    t.Reaches k s r := by
  obtain ⟨m, i, hm, hfetch, hcall, rfl⟩ := h
  refine hm.tail ?_
  rw [step, hfetch, Option.bind_some]
  rcases hcall with hcall | ⟨hcall, htable⟩
  · rw [hcall, execute, hrun]
  · rw [hcall, execute, htable, Option.bind_some, hrun]

end Text

end OsKernel.Library
