import OsKernel.InterruptController
import OsKernel.InterruptTable
import Mathlib.Tactic.IntervalCases

/-!
# The assembly linkage

The handlers that the gates lead to are written in assembly: they save the registers, call a compiled function and
restore what they saved. System calls come from the library of the user programs, whose functions move their
arguments to the registers; the handler pushes these as the arguments of the function that the number in `%eax`
selects, and the result goes back in `%eax`.
-/

namespace OsKernel

open Library

/-- The compiled functions that the linkage calls. -/
inductive CFunction where
  | halt
  | execute
  | read
  | write
  | openFile
  | close
  | getargs
  | vidmap
  | setHandler
  | sigreturn
  | keyboardHandler
  | rtcHandler
  | pitHandler
  | excpHandler
  deriving DecidableEq

/-- The system calls, with the numbers of `ece391sysnum.h` and `system_call_jump_table`. -/
inductive SysCall where
  | halt
  | execute
  | read
  | write
  | openFile
  | close
  | getargs
  | vidmap
  | setHandler
  | sigreturn
  deriving DecidableEq

/-- `SYS_HALT` to `SYS_SIGRETURN` -/
def SysCall.number : SysCall → UInt32
  | halt => 1
  | execute => 2
  | read => 3
  | write => 4
  | openFile => 5
  | close => 6
  | getargs => 7
  | vidmap => 8
  | setHandler => 9
  | sigreturn => 10

/-- The kernel's function for a system call. -/
def SysCall.function : SysCall → CFunction
  | halt => .halt
  | execute => .execute
  | read => .read
  | write => .write
  | openFile => .openFile
  | close => .close
  | getargs => .getargs
  | vidmap => .vidmap
  | setHandler => .setHandler
  | sigreturn => .sigreturn

/-- `system_call_jump_table` -/
def systemCallJumpTable : List (Option CFunction) :=
  [none, some .halt, some .execute, some .read, some .write, some .openFile, some .close, some .getargs, some .vidmap,
    some .setHandler, some .sigreturn]

/-- The labels of the kernel's assembly and of the library of the user programs. -/
inductive LinkLabel where
  | handler (h : Handler)
  | sysCallFail
  | sysCallSuccess
  | library (c : SysCall)
  deriving DecidableEq

/-- The code behind the labels `sys_call_fail` and `sys_call_success`. -/
def sysCallReturn : List (Instr LinkLabel CFunction) :=
  [.op (.addlImm 12 .esp), .op .popfl, .op (.popl .esp), .op (.popl .ebp), .op (.popl .edi), .op (.popl .esi),
    .op (.popl .edx), .op (.popl .ebx), .op (.popl .ecx), .iret]

/-- `KEYBOARD_INTR`, `RTC_INTR` and `PIT_INTR` -/
def deviceIntr (f : CFunction) : List (Instr LinkLabel CFunction) :=
  [.op .pushal, .op .pushfl, .call f, .op .popfl, .op .popal, .iret]

/-- The instructions behind each label. -/
def linkage : LinkLabel → List (Instr LinkLabel CFunction)
  | .handler (.exception index) =>
    [.op .pushal, .op .pushfl, .op .cli, .op (.pushlImm index.toUInt32), .call .excpHandler, .op (.addlImm 4 .esp),
      .op .popfl, .op .popal, .iret]
  | .handler .keyboardIntr => deviceIntr .keyboardHandler
  | .handler .rtcIntr => deviceIntr .rtcHandler
  | .handler .pitIntr => deviceIntr .pitHandler
  | .handler .sysCallHandler =>
    [.op (.pushl .ecx), .op (.pushl .ebx), .op (.pushl .edx), .op (.pushl .esi), .op (.pushl .edi), .op (.pushl .ebp),
      .op (.pushl .esp), .op .pushfl, .op (.pushl .edx), .op (.pushl .ecx), .op (.pushl .ebx),
      .op (.cmplImm 10 .eax), .jg .sysCallFail, .op (.cmplImm 1 .eax), .jl .sysCallFail, .callTable,
      .jmp .sysCallSuccess]
  | .sysCallFail => .op (.movlImm 0xFFFFFFFF .eax) :: sysCallReturn
  | .sysCallSuccess => sysCallReturn
  | .library c =>
    [.op (.pushl .ebx), .op (.movlImm c.number .eax), .op (.movlStack 8 .ebx), .op (.movlStack 12 .ecx),
      .op (.movlStack 16 .edx), .int SYSTEM_CALL_VEC_NUM, .op (.popl .ebx), .ret]

/-- The linkage loaded in memory, with the gates that `idt_init` has set up for it. -/
structure LinkedCode where
  text : Text LinkLabel CFunction
  code : text.code = linkage
  run : CFunction → Cpu → Option Cpu

/-- The places of the labels. -/
def LinkLabel.index : LinkLabel → ℕ
  | .handler (.exception index) => index.toNat
  | .handler .sysCallHandler => 256
  | .handler .keyboardIntr => 257
  | .handler .rtcIntr => 258
  | .handler .pitIntr => 259
  | .sysCallFail => 260
  | .sysCallSuccess => 261
  | .library c => 261 + c.number.toNat

/-- The label at a place. -/
def labelAt (place : ℕ) : Option LinkLabel :=
  if place < 256 then some (.handler (.exception (UInt8.ofNat place)))
  else [LinkLabel.handler .sysCallHandler, .handler .keyboardIntr, .handler .rtcIntr, .handler .pitIntr, .sysCallFail,
    .sysCallSuccess, .library .halt, .library .execute, .library .read, .library .write, .library .openFile,
    .library .close, .library .getargs, .library .vidmap, .library .setHandler, .library .sigreturn][place - 256]?

theorem labelAt_index (l : LinkLabel) : labelAt l.index = some l := by
  cases l with
  | handler h =>
    cases h with
    | exception index =>
      have hlt : (LinkLabel.handler (.exception index)).index < 256 := index.toNat_lt
      rw [labelAt, if_pos hlt]
      exact congrArg (fun i => some (LinkLabel.handler (.exception i))) UInt8.ofNat_toNat
    | sysCallHandler => rfl
    | keyboardIntr => rfl
    | rtcIntr => rfl
    | pitIntr => rfl
  | sysCallFail => rfl
  | sysCallSuccess => rfl
  | library c => cases c <;> rfl

theorem index_lt (l : LinkLabel) : l.index < 1024 := by
  cases l with
  | handler h =>
    cases h with
    | exception index => exact lt_trans index.toNat_lt (by decide)
    | sysCallHandler => decide
    | keyboardIntr => decide
    | rtcIntr => decide
    | pitIntr => decide
  | sysCallFail => decide
  | sysCallSuccess => decide
  | library c => cases c <;> decide

theorem length_linkage (l : LinkLabel) : (linkage l).length ≤ 32 := by
  cases l with
  | handler h => cases h <;> exact Nat.le_of_ble_eq_true rfl
  | sysCallFail => decide
  | sysCallSuccess => decide
  | library c => exact Nat.le_of_ble_eq_true rfl

/-- A compiled function that returns an answer at once. -/
def answered (answer : UInt32) (s : Cpu) : Cpu :=
  { s with
    eip := load32 s.mem s.esp
    reg := Function.update (Function.update s.reg .eax answer) .esp (s.esp + 4) }

theorem answered_returned (answer : UInt32) (args caller : ℕ) (s : Cpu) :
    Cpu.Returned args caller s (answered answer s) := by
  refine ⟨rfl, ?_, rfl, rfl, fun _ _ => rfl⟩
  change Function.update (Function.update s.reg .eax answer) .esp (s.esp + 4) .esp = _
  exact Function.update_self ..

/-- The linkage in memory, one label behind the other, with functions that return an answer. -/
def LinkedCode.answering (base answer : UInt32) : LinkedCode where
  text := {
    code := linkage
    addr := fun l => placedAddr base l.index
    fetch := placedFetch base labelAt linkage
    loaded := placed_loaded base labelAt_index index_lt length_linkage }
  code := rfl
  run _ s := some (answered answer s)

namespace LinkedCode

variable (k : LinkedCode)

/-- What the linkage refers to. -/
def links : Links CFunction where
  run := k.run
  table n := (systemCallJumpTable[n.toNat]?).join
  gate := Idt.gate (Idt.idtInit (fun _ => .zeroed) fun h => k.text.addr (.handler h) 0)

/-- A state that the processor reaches through the linkage. -/
def Reaches (s s' : Cpu) : Prop := k.text.Reaches k.links s s'

/-- A compiled function is entered through the linkage. -/
def Enters (s : Cpu) (f : CFunction) (entry : Cpu) : Prop := k.text.Enters k.links s f entry

variable {k} {s r : Cpu}

/-- The instructions of a label from one of them on. -/
theorem drop_code (l : LinkLabel) (n : ℕ) : (k.text.code l).drop n = (linkage l).drop n := by rw [k.code]

/-- An instruction of a label. -/
theorem code_getElem (l : LinkLabel) (n : ℕ) : (k.text.code l)[n]? = (linkage l)[n]? := by rw [k.code]

/-- What the end of the system call handler pops. -/
theorem foldl_sysCallReturn {old : Reg → UInt32} {flags : UInt32} {rest : List UInt32}
    (hstack : Stacked r.mem (r.esp + 12)
      ([flags, r.esp + 20, old .ebp, old .edi, old .esi, old .edx, old .ebx, old .ecx] ++ rest)) :
    [Op.addlImm 12 .esp, .popfl, .popl .esp, .popl .ebp, .popl .edi, .popl .esi, .popl .edx, .popl .ebx,
        .popl .ecx].foldl Cpu.effect r =
      { r with
        eflags := flags
        reg := Function.update (Function.update old .eax (r.reg .eax)) .esp (r.esp + 44) } := by
  obtain ⟨hflags, hsp, hrest⟩ := hstack
  simp only [add_assoc, UInt32.reduceAdd] at hflags hsp hrest
  let m : Cpu := { r with eflags := flags, reg := Function.update r.reg .esp (r.esp + 20) }
  have hfirst : [Op.addlImm 12 .esp, .popfl, .popl .esp].foldl Cpu.effect r = m := by
    have hword : r.esp + 12 + 4 = r.esp + 16 := by rw [add_assoc]; rfl
    simp only [Cpu.esp] at hflags hsp hword
    simp only [List.foldl, Cpu.effect, Cpu.esp, Function.update_self, Function.update_idem, hword, hflags, hsp]
    rfl
  have hm : m.esp = r.esp + 20 := by
    change Function.update r.reg .esp (r.esp + 20) .esp = _
    exact Function.update_self ..
  have hstack : m.Stack [old .ebp, old .edi, old .esi, old .edx, old .ebx, old .ecx] := by
    rw [Cpu.Stack, hm]
    exact Stacked.first hrest
  have hlast := Cpu.foldl_popl [.ebp, .edi, .esi, .edx, .ebx, .ecx] hstack rfl (by decide)
  have hsplit : [Op.addlImm 12 .esp, .popfl, .popl .esp, .popl .ebp, .popl .edi, .popl .esi, .popl .edx, .popl .ebx,
      .popl .ecx] = [Op.addlImm 12 .esp, .popfl, .popl .esp] ++
        [Reg.ebp, .edi, .esi, .edx, .ebx, .ecx].map Op.popl := rfl
  rw [hsplit, List.foldl_append, hfirst, hlast]
  congr 1
  funext q
  cases q <;> simp [m, Cpu.esp, add_assoc]

/-- The end of the system call handler goes back to the caller with the result. -/
theorem reaches_sysCallReturn {l : LinkLabel} {n : ℕ} {flags : UInt32}
    (hcode : (linkage l).drop n = sysCallReturn) (heip : r.eip = k.text.addr l n) (hesp : r.esp + 44 = s.frameBase)
    (hss : s.userMode = false → r.ss = s.ss)
    (hstack : Stacked r.mem (r.esp + 12) ([flags, r.esp + 20, s.reg .ebp, s.reg .edi, s.reg .esi, s.reg .edx,
      s.reg .ebx, s.reg .ecx] ++ s.frame)) :
    k.Reaches r { r with
      eip := s.eip
      cs := s.cs
      eflags := s.eflags
      ss := s.ss
      reg := Function.update s.reg .eax (r.reg .eax) } := by
  let m : Cpu := { r with
    eflags := flags
    reg := Function.update (Function.update s.reg .eax (r.reg .eax)) .esp (r.esp + 44)
    eip := k.text.addr l (n + 9) }
  let ops : List Op := [.addlImm 12 .esp, .popfl, .popl .esp, .popl .ebp, .popl .edi, .popl .esi, .popl .edx,
    .popl .ebx, .popl .ecx]
  have hdrop : (k.text.code l).drop n = ops.map .op ++ [.iret] := by
    rw [drop_code, hcode]
    rfl
  have hops := Text.reaches_ops (k := k.links) heip hdrop
  rw [foldl_sysCallReturn hstack] at hops
  have hm : m.esp = s.frameBase := by
    rw [← hesp]
    change Function.update (Function.update s.reg .eax (r.reg .eax)) .esp (r.esp + 44) .esp = _
    exact Function.update_self ..
  have hframe : m.Stack s.frame := by
    have habove := Stacked.above hstack
    rw [add_assoc] at habove
    rw [Cpu.Stack, hm, ← hesp]
    exact habove
  have hiret : k.text.step k.links m = some m.iret := by
    refine Text.step_eq (l := l) (n := n + 9) (i := .iret) rfl ?_
    rw [code_getElem, ← List.head?_drop, ← List.drop_drop, hcode]
    rfl
  rw [Cpu.iret_frame hm hframe hss] at hiret
  refine Relation.ReflTransGen.tail hops (hiret.trans ?_)
  congr 2
  funext q
  cases q <;> simp [m]

/-- What the system call handler pushes. -/
def saved (s : Cpu) : List UInt32 :=
  [s.reg .ecx, s.reg .ebx, s.reg .edx, s.reg .esi, s.reg .edi, s.reg .ebp, s.esp - 24, s.eflags, s.reg .edx, s.reg .ecx,
    s.reg .ebx]

theorem length_saved (s : Cpu) : (saved s).length = 11 := rfl

/-- The beginning of the system call handler. -/
theorem foldl_sysCallEntry (s : Cpu) :
    [Op.pushl .ecx, .pushl .ebx, .pushl .edx, .pushl .esi, .pushl .edi, .pushl .ebp, .pushl .esp, .pushfl, .pushl .edx,
        .pushl .ecx, .pushl .ebx, .cmplImm 10 .eax].foldl Cpu.effect s =
      { s.pushes (saved s) with eflags := compareFlags s.eflags (s.reg .eax) 10 } := by
  have hpush (ws : List UInt32) {q : Reg} (hq : q ≠ .esp) :
      (s.pushes ws).effect (.pushl q) = s.pushes (ws ++ [s.reg q]) := by
    rw [Cpu.effect, Cpu.pushes_reg _ _ hq, Cpu.pushes_pushes]
  have hesp : (s.pushes [s.reg .ecx, s.reg .ebx, s.reg .edx, s.reg .esi, s.reg .edi, s.reg .ebp]).effect (.pushl .esp) =
      s.pushes [s.reg .ecx, s.reg .ebx, s.reg .edx, s.reg .esi, s.reg .edi, s.reg .ebp, s.esp - 24] := by
    have hreg : (s.pushes [s.reg .ecx, s.reg .ebx, s.reg .edx, s.reg .esi, s.reg .edi, s.reg .ebp]).reg .esp =
        s.esp - 24 := Cpu.pushes_esp ..
    rw [Cpu.effect, hreg, Cpu.pushes_pushes]
    rfl
  have hfirst : s.effect (.pushl .ecx) = s.pushes [s.reg .ecx] := rfl
  have hflags (ws : List UInt32) : (s.pushes ws).effect .pushfl = s.pushes (ws ++ [s.eflags]) := Cpu.pushes_pushes ..
  have hne : Reg.ebx ≠ .esp ∧ Reg.edx ≠ .esp ∧ Reg.esi ≠ .esp ∧ Reg.edi ≠ .esp ∧ Reg.ebp ≠ .esp ∧ Reg.ecx ≠ .esp := by
    decide
  simp only [List.foldl, hfirst, hpush _ hne.1, hpush _ hne.2.1, hpush _ hne.2.2.1, hpush _ hne.2.2.2.1,
    hpush _ hne.2.2.2.2.1, hpush _ hne.2.2.2.2.2, hflags, List.cons_append, List.nil_append, hesp]
  rfl

/-- The state in which the function of a system call is entered. -/
def sysCallEntry (k : LinkedCode) (s : Cpu) : Cpu :=
  let ret := k.text.addr (.handler .sysCallHandler) 16
  { s.pushes (saved s ++ [ret]) with
    eflags := compareFlags (compareFlags s.eflags (s.reg .eax) 10) (s.reg .eax) 1
    eip := ret }

/-- The handler behind its pushes, at one of the instructions that look at the number. -/
def dispatching (k : LinkedCode) (s : Cpu) (eflags : UInt32) (n : ℕ) : Cpu :=
  { s.pushes (saved s) with eflags, eip := k.text.addr (.handler .sysCallHandler) n }

/-- The pushes and the first comparison. -/
theorem reaches_dispatch (heip : s.eip = k.text.addr (.handler .sysCallHandler) 0) :
    k.Reaches s (k.dispatching s (compareFlags s.eflags (s.reg .eax) 10) 12) := by
  let ops : List Op := [.pushl .ecx, .pushl .ebx, .pushl .edx, .pushl .esi, .pushl .edi, .pushl .ebp, .pushl .esp,
    .pushfl, .pushl .edx, .pushl .ecx, .pushl .ebx, .cmplImm 10 .eax]
  have hdrop : (k.text.code (.handler .sysCallHandler)).drop 0 = ops.map .op ++
      [.jg .sysCallFail, .op (.cmplImm 1 .eax), .jl .sysCallFail, .callTable, .jmp .sysCallSuccess] := by
    rw [drop_code]
    rfl
  have hops := Text.reaches_ops (k := k.links) heip hdrop
  rw [foldl_sysCallEntry] at hops
  exact hops

/-- `jg` goes to the failure for a number above 10. -/
theorem step_jg (s : Cpu) (f : UInt32) :
    k.text.step k.links (k.dispatching s (compareFlags f (s.reg .eax) 10) 12) =
      some (if signed 10 < signed (s.reg .eax) then
          { k.dispatching s (compareFlags f (s.reg .eax) 10) 12 with eip := k.text.addr .sysCallFail 0 }
        else k.dispatching s (compareFlags f (s.reg .eax) 10) 13) := by
  rw [Text.step_eq (l := .handler .sysCallHandler) (n := 12) (i := .jg .sysCallFail) rfl (code_getElem ..),
    Text.execute]
  simp only [dispatching, greaterFlags_compare, decide_eq_true_eq]

/-- `jl` goes to the failure for a number below 1. -/
theorem step_jl (s : Cpu) (f : UInt32) :
    k.text.step k.links (k.dispatching s (compareFlags f (s.reg .eax) 1) 14) =
      some (if signed (s.reg .eax) < signed 1 then
          { k.dispatching s (compareFlags f (s.reg .eax) 1) 14 with eip := k.text.addr .sysCallFail 0 }
        else k.dispatching s (compareFlags f (s.reg .eax) 1) 15) := by
  rw [Text.step_eq (l := .handler .sysCallHandler) (n := 14) (i := .jl .sysCallFail) rfl (code_getElem ..),
    Text.execute]
  simp only [dispatching, lessFlags_compare, decide_eq_true_eq]

/-- The second comparison. -/
theorem step_cmpl (s : Cpu) (f : UInt32) :
    k.text.step k.links (k.dispatching s f 13) = some (k.dispatching s (compareFlags f (s.reg .eax) 1) 14) := by
  rw [Text.step_eq (l := .handler .sysCallHandler) (n := 13) (i := .op (.cmplImm 1 .eax)) rfl (code_getElem ..)]
  rfl

/-- The numbers of the system calls. -/
theorem number_iff (n : UInt32) : (¬signed 10 < signed n ∧ ¬signed n < signed 1) ↔ ∃ c : SysCall, n = c.number := by
  constructor
  · rintro ⟨hle, hge⟩
    have hten : signed 10 = 10 := rfl
    have hone : signed 1 = 1 := rfl
    have hn := signed_eq n
    have hlt := n.toNat_lt
    have hrange : 1 ≤ n.toNat ∧ n.toNat ≤ 10 := by omega
    have hword : n = UInt32.ofNat n.toNat := (UInt32.ofNat_toNat ..).symm
    obtain ⟨hlow, hhigh⟩ := hrange
    rw [hword]
    interval_cases n.toNat
    · exact ⟨.halt, rfl⟩
    · exact ⟨.execute, rfl⟩
    · exact ⟨.read, rfl⟩
    · exact ⟨.write, rfl⟩
    · exact ⟨.openFile, rfl⟩
    · exact ⟨.close, rfl⟩
    · exact ⟨.getargs, rfl⟩
    · exact ⟨.vidmap, rfl⟩
    · exact ⟨.setHandler, rfl⟩
    · exact ⟨.sigreturn, rfl⟩
  · rintro ⟨c, rfl⟩
    cases c <;> decide

/-- The handler calls the function that a valid number selects. -/
theorem enters_sysCallEntry {c : SysCall} (heip : s.eip = k.text.addr (.handler .sysCallHandler) 0)
    (hnumber : s.reg .eax = c.number) : k.Enters s c.function (k.sysCallEntry s) := by
  obtain ⟨hle, hge⟩ := (number_iff _).mpr ⟨c, hnumber⟩
  have hjg := step_jg (k := k) s s.eflags
  rw [if_neg hle] at hjg
  have hjl := step_jl (k := k) s (compareFlags s.eflags (s.reg .eax) 10)
  rw [if_neg hge] at hjl
  have htable : k.links.table (s.reg .eax) = some c.function := by
    rw [hnumber]
    cases c <;> rfl
  have hentry : (({ k.dispatching s (compareFlags (compareFlags s.eflags (s.reg .eax) 10) (s.reg .eax) 1) 15 with
      eip := k.text.addr (.handler .sysCallHandler) 16 } : Cpu)).pushes [k.text.addr (.handler .sysCallHandler) 16] =
      k.sysCallEntry s := by
    rw [sysCallEntry, ← Cpu.pushes_pushes]
    rfl
  rw [Enters, ← hentry]
  exact Text.enters_callTable ((((reaches_dispatch heip).tail hjg).tail (step_cmpl s _)).tail hjl) rfl
    (code_getElem ..) htable

/-- The handler refuses any other number. -/
theorem reaches_sysCallFail (heip : s.eip = k.text.addr (.handler .sysCallHandler) 0)
    (hnumber : ∀ c : SysCall, s.reg .eax ≠ c.number) :
    ∃ eflags, k.Reaches s { s.pushes (saved s) with eflags, eip := k.text.addr .sysCallFail 0 } := by
  have hjg := step_jg (k := k) s s.eflags
  have hjl := step_jl (k := k) s (compareFlags s.eflags (s.reg .eax) 10)
  by_cases habove : signed 10 < signed (s.reg .eax)
  · rw [if_pos habove] at hjg
    exact ⟨_, (reaches_dispatch heip).tail hjg⟩
  · have hbelow : signed (s.reg .eax) < signed 1 := by
      by_contra hge
      obtain ⟨c, hc⟩ := (number_iff _).mp ⟨habove, hge⟩
      exact hnumber c hc
    rw [if_neg habove] at hjg
    rw [if_pos hbelow] at hjl
    exact ⟨_, (((reaches_dispatch heip).tail hjg).tail (step_cmpl s _)).tail hjl⟩

/-- The gate that system calls go through. -/
def sysCallGate (k : LinkedCode) : Gate where
  selector := KERNEL_CS.toUInt32
  offset := k.text.addr (.handler .sysCallHandler) 0
  interrupt := false
  dpl := 3

theorem gate_sysCall : k.links.gate SYSTEM_CALL_VEC_NUM = some k.sysCallGate := Idt.idtInit_gate _ _

/-- A program enters the kernel through the gate of the system calls only: its other software interrupts are refused,
those with the vectors of the devices and of the exceptions as well. -/
theorem int_protected (huser : s.cs &&& 3 = 3) (vector : UInt8) : k.text.execute k.links s (.int vector) =
    if vector = SYSTEM_CALL_VEC_NUM then some (s.interrupt k.sysCallGate) else none := by
  have hgate : k.links.gate vector = _ := Idt.idtInit_gate _ vector
  rw [Text.execute, huser]
  by_cases hcall : vector = SYSTEM_CALL_VEC_NUM
  · rw [if_pos hcall, hcall, gate_sysCall, Option.bind_some]
    exact if_pos (UInt32.le_refl 3)
  · have hlevel : ¬(3 : UInt32) ≤ 0 := by decide
    rw [if_neg hcall, hgate, if_neg hcall]
    by_cases hreserved : vector = 15
    · rw [if_pos hreserved]
      rfl
    · rw [if_neg hreserved, Option.bind_some]
      exact if_neg hlevel

/-- A program that runs, with its stack and that of the kernel apart. -/
def program (eax eip : UInt32) : Cpu where
  reg := fun
    | .eax => eax
    | .esp => 0x8400000
    | _ => 0
  eip := eip
  eflags := 0x202
  cs := 0x23
  ss := 0x2B
  esp0 := 0x7FFFFC
  ss0 := 0x18
  mem _ := 0

/-- The vector of the timer is refused. -/
theorem int_protected_timer :
    (answering 0x8048000 0).text.execute (answering 0x8048000 0).links (program 0 0x8048100)
      (.int PIT_VEC_NUM) = none := by
  rw [int_protected (k := answering 0x8048000 0) (s := program 0 0x8048100) rfl]
  exact if_neg (by decide)

/-- The words that the handler pushes for the interrupted program, over the frame of the interrupt. -/
theorem stack_saved (g : Gate) : (s.interrupt g).Stack s.frame ∧ saved (s.interrupt g) =
    [s.reg .ecx, s.reg .ebx, s.reg .edx, s.reg .esi, s.reg .edi, s.reg .ebp, s.frameBase - 24, (s.interrupt g).eflags,
      s.reg .edx, s.reg .ecx, s.reg .ebx] := by
  have h := Cpu.interrupted s g
  refine ⟨h.stack, ?_⟩
  rw [saved, h.esp, h.reg _ (by decide), h.reg _ (by decide), h.reg _ (by decide), h.reg _ (by decide),
    h.reg _ (by decide), h.reg _ (by decide)]

/-- The function of a system call finds the registers as its arguments, over what the handler saved. -/
theorem sysCallEntry_stack (g : Gate) : (k.sysCallEntry (s.interrupt g)).Stack
    ([k.text.addr (.handler .sysCallHandler) 16] ++ [s.reg .ebx, s.reg .ecx, s.reg .edx] ++
      ([(s.interrupt g).eflags, s.frameBase - 24, s.reg .ebp, s.reg .edi, s.reg .esi, s.reg .edx, s.reg .ebx,
        s.reg .ecx] ++ s.frame)) := by
  obtain ⟨hstack, hsaved⟩ := stack_saved g
  have hroom : 4 * ((saved (s.interrupt g) ++ [k.text.addr (.handler .sysCallHandler) 16]).length + s.frame.length) ≤
      4294967296 := by
    have hframe := s.length_frame
    rw [hsaved, List.length_append, List.length_singleton]
    simp only [List.length_cons, List.length_nil]
    omega
  have hpushes := hstack.pushes hroom
  have hreverse : (saved (s.interrupt g) ++ [k.text.addr (.handler .sysCallHandler) 16]).reverse =
      [k.text.addr (.handler .sysCallHandler) 16] ++ [s.reg .ebx, s.reg .ecx, s.reg .edx] ++
        [(s.interrupt g).eflags, s.frameBase - 24, s.reg .ebp, s.reg .edi, s.reg .esi, s.reg .edx, s.reg .ebx,
          s.reg .ecx] := by
    rw [hsaved]
    rfl
  rw [hreverse, List.append_assoc] at hpushes
  exact hpushes

/-- A system call that returns goes back to the program with the result of its function, and with all other registers
as they were. -/
theorem sysCall_returns {c : SysCall} (hnumber : s.reg .eax = c.number)
    (hrun : k.run c.function (k.sysCallEntry (s.interrupt k.sysCallGate)) = some r)
    (hret : Cpu.Returned 3 (8 + s.frame.length) (k.sysCallEntry (s.interrupt k.sysCallGate)) r) :
    k.Reaches (s.interrupt k.sysCallGate) { r with
      eip := s.eip
      cs := s.cs
      eflags := s.eflags
      ss := s.ss
      reg := Function.update s.reg .eax (r.reg .eax) } := by
  have h := Cpu.interrupted s k.sysCallGate
  have hstack := sysCallEntry_stack (k := k) (s := s) k.sysCallGate
  have hentry : k.Reaches _ r := (enters_sysCallEntry h.eip ((h.reg _ (by decide)).trans hnumber)).returns hrun
  have hesp : r.esp = s.frameBase - 44 := by
    have hpushed : (k.sysCallEntry (s.interrupt k.sysCallGate)).esp = s.frameBase - 48 := by
      rw [← h.esp]
      exact Cpu.pushes_esp ..
    rw [hret.esp, hpushed]
    grind
  have heip : r.eip = k.text.addr (.handler .sysCallHandler) 16 := hret.eip.trans hstack.1
  have hjmp : k.text.step k.links r = some { r with eip := k.text.addr .sysCallSuccess 0 } := by
    rw [Text.step_eq (i := .jmp .sysCallSuccess) heip (code_getElem ..)]
    rfl
  have hcaller := hret.stack [s.reg .ebx, s.reg .ecx, s.reg .edx] rfl hstack
    (by rw [List.length_append]; rfl) (by have := s.length_frame; omega)
  have hsp : s.frameBase - 24 = r.esp + 20 := by
    rw [hesp]
    grind
  rw [hsp] at hcaller
  have hback := reaches_sysCallReturn (k := k) (r := { r with eip := k.text.addr .sysCallSuccess 0 })
    (l := .sysCallSuccess) (n := 0) rfl rfl (by change r.esp + 44 = _; rw [hesp]; grind)
    (fun hmode => hret.ss.trans (h.ss hmode)) hcaller
  exact (hentry.tail hjmp).trans hback

/-- What the handler pushes lies below the frame of the interrupt. -/
theorem saved_away (g : Gate) (ws : List UInt32) (hws : ws.length ≤ 1) :
    SameAway (s.frameBase - UInt32.ofNat (44 + 4 * ws.length)) (44 + 4 * ws.length + 4 * s.frame.length) s.mem
      ((s.interrupt g).pushes (saved (s.interrupt g) ++ ws)).mem := by
  have hroom : 44 + 4 * ws.length < 4294967296 := by omega
  have hlength : 4 * (saved (s.interrupt g) ++ ws).length = 44 + 4 * ws.length := by
    rw [List.length_append, length_saved, Nat.mul_add]
  have h := Cpu.interrupted s g
  have hle : 4 * (saved (s.interrupt g) ++ ws).length ≤ 4294967296 := hlength.trans_le hroom.le
  have hbelow := pushed_away (m := (s.interrupt g).mem) (a := (s.interrupt g).esp) hle
  rw [hlength, h.esp] at hbelow
  rw [Cpu.pushes_mem, h.esp]
  exact h.away.below hbelow hroom

/-- A system call with a number that is none goes back with -1, and with all other registers as they were. -/
theorem sysCall_refused (hnumber : ∀ c : SysCall, s.reg .eax ≠ c.number) :
    ∃ mem, SameAway (s.frameBase - 44) (44 + 4 * s.frame.length) s.mem mem ∧
      k.Reaches (s.interrupt k.sysCallGate) { s with reg := Function.update s.reg .eax 0xFFFFFFFF, mem } := by
  have h := Cpu.interrupted s k.sysCallGate
  obtain ⟨hstack, hsaved⟩ := stack_saved (s := s) k.sysCallGate
  have hnumber' : ∀ c : SysCall, (s.interrupt k.sysCallGate).reg .eax ≠ c.number := by
    rw [h.reg _ (by decide)]
    exact hnumber
  obtain ⟨eflags, hfail⟩ := reaches_sysCallFail (k := k) h.eip hnumber'
  let pushed := (s.interrupt k.sysCallGate).pushes (saved (s.interrupt k.sysCallGate))
  let m : Cpu := { pushed with
    eflags
    eip := k.text.addr .sysCallFail 1
    reg := Function.update pushed.reg .eax 0xFFFFFFFF }
  have hmove : k.text.step k.links { pushed with eflags, eip := k.text.addr .sysCallFail 0 } = some m := by
    rw [Text.step_eq (l := .sysCallFail) (n := 0) (i := .op (.movlImm 0xFFFFFFFF .eax)) rfl (code_getElem ..)]
    rfl
  have hsame : pushed.esp = m.esp := by
    change _ = Function.update pushed.reg .eax 0xFFFFFFFF .esp
    rw [Function.update_of_ne (by decide)]
    rfl
  have hesp : m.esp = s.frameBase - 44 := by
    rw [← h.esp, ← hsame]
    exact Cpu.pushes_esp ..
  have hsp : m.esp + 20 = s.frameBase - 24 ∧ m.esp + 44 = s.frameBase := by
    rw [hesp]
    exact ⟨by grind, by grind⟩
  have hwords : Stacked m.mem (m.esp + 12) ([(s.interrupt k.sysCallGate).eflags, m.esp + 20, s.reg .ebp, s.reg .edi,
      s.reg .esi, s.reg .edx, s.reg .ebx, s.reg .ecx] ++ s.frame) := by
    have hroom : 4 * ((saved (s.interrupt k.sysCallGate)).length + s.frame.length) ≤ 4294967296 := by
      have hframe := s.length_frame
      rw [length_saved]
      omega
    have hreverse : (saved (s.interrupt k.sysCallGate)).reverse = [s.reg .ebx, s.reg .ecx, s.reg .edx] ++
        [(s.interrupt k.sysCallGate).eflags, s.frameBase - 24, s.reg .ebp, s.reg .edi, s.reg .esi, s.reg .edx,
          s.reg .ebx, s.reg .ecx] := by
      rw [hsaved]
      rfl
    have hpushes := hstack.pushes hroom
    rw [hreverse, List.append_assoc] at hpushes
    have habove : Stacked m.mem (pushed.esp + 12) _ := Stacked.above hpushes
    rw [hsame] at habove
    rw [hsp.1]
    exact habove
  have hback := reaches_sysCallReturn (k := k) (r := m) (l := .sysCallFail) (n := 1) rfl rfl hsp.2 h.ss hwords
  have hend : ({ m with
      eip := s.eip
      cs := s.cs
      eflags := s.eflags
      ss := s.ss
      reg := Function.update s.reg .eax (m.reg .eax) } : Cpu) =
      { s with reg := Function.update s.reg .eax 0xFFFFFFFF, mem := m.mem } := by
    obtain ⟨hesp0, hss0⟩ := s.interrupt_task k.sysCallGate
    have heax : m.reg .eax = 0xFFFFFFFF := by
      change Function.update pushed.reg .eax 0xFFFFFFFF .eax = _
      exact Function.update_self ..
    have htask : m.esp0 = s.esp0 ∧ m.ss0 = s.ss0 := ⟨hesp0, hss0⟩
    rw [heax, htask.1, htask.2]
  rw [hend] at hback
  refine ⟨m.mem, ?_, (hfail.tail hmove).trans hback⟩
  have haway := saved_away (s := s) k.sysCallGate [] (Nat.zero_le 1)
  rw [List.append_nil] at haway
  exact haway

/-- There is no call with the number 11. -/
theorem sysCall_refused_eleven : ∃ mem, (answering 0x8048000 0).Reaches
    ((program 11 0x8048100).interrupt (answering 0x8048000 0).sysCallGate)
    { program 11 0x8048100 with reg := (program 0xFFFFFFFF 0x8048100).reg, mem } := by
  have hnumber (c : SysCall) : (program 11 0x8048100).reg .eax ≠ c.number := by cases c <;> decide
  obtain ⟨mem, -, hback⟩ := sysCall_refused (k := answering 0x8048000 0) (s := program 11 0x8048100) hnumber
  have hregs : Function.update (program 11 0x8048100).reg .eax 0xFFFFFFFF = (program 0xFFFFFFFF 0x8048100).reg := by
    funext q
    cases q <;> rfl
  rw [hregs] at hback
  exact ⟨mem, hback⟩

/-- A program in a function of its library, right behind the instruction that makes the system call. -/
def trapped (k : LinkedCode) (s : Cpu) (c : SysCall) (a b d : UInt32) : Cpu :=
  { s.pushes [s.reg .ebx] with
    eip := k.text.addr (.library c) 6
    reg := Function.update (Function.update (Function.update (Function.update (Function.update s.reg .esp (s.esp - 4))
      .eax c.number) .ebx a) .ecx b) .edx d }

/-- A function of the library moves its arguments to the registers and makes the system call. -/
theorem reaches_trapped {c : SysCall} {ret a b d : UInt32} (heip : s.eip = k.text.addr (.library c) 0)
    (hstack : s.Stack [ret, a, b, d]) : k.Reaches s ((k.trapped s c a b d).interrupt k.sysCallGate) := by
  let ops : List Op := [.pushl .ebx, .movlImm c.number .eax, .movlStack 8 .ebx, .movlStack 12 .ecx, .movlStack 16 .edx]
  have hdrop : (k.text.code (.library c)).drop 0 =
      ops.map .op ++ [.int SYSTEM_CALL_VEC_NUM, .op (.popl .ebx), .ret] := by
    rw [drop_code]
    rfl
  have hops := Text.reaches_ops (k := k.links) heip hdrop
  have hwords : (s.pushes [s.reg .ebx]).Stack [s.reg .ebx, ret, a, b, d] :=
    hstack.pushes (show 4 * (1 + 4) ≤ 4294967296 by decide)
  obtain ⟨-, -, ha, hb, hd, -⟩ := hwords
  have hesp : (s.pushes [s.reg .ebx]).reg .esp = s.esp - 4 := Cpu.pushes_esp ..
  simp only [Cpu.esp, hesp, add_assoc, UInt32.reduceAdd] at ha hb hd
  have hmoved : ops.foldl Cpu.effect s = { s.pushes [s.reg .ebx] with
      reg := Function.update (Function.update (Function.update (Function.update (Function.update s.reg .esp (s.esp - 4))
        .eax c.number) .ebx a) .ecx b) .edx d } := by
    have hesp' : (s.pushes [s.reg .ebx]).reg .esp = s.reg .esp - 4 := hesp
    simp only [ops, List.foldl, Cpu.effect, Cpu.esp, ne_eq, reduceCtorEq, not_false_eq_true, Function.update_of_ne,
      hesp', ha, hb, hd]
    rfl
  rw [hmoved] at hops
  refine hops.tail ?_
  rw [Text.step_eq (l := .library c) (n := 5) (i := .int SYSTEM_CALL_VEC_NUM) rfl (code_getElem ..), Text.execute,
    gate_sysCall, Option.bind_some]
  exact if_pos (UInt32.le_iff_toNat_le.mpr Nat.and_le_right)

/-- What comes behind the system call in a function of the library. -/
theorem reaches_libraryReturn {c : SysCall} {ebx ret : UInt32} (heip : r.eip = k.text.addr (.library c) 6)
    (hstack : r.Stack [ebx, ret]) :
    k.Reaches r { r with
      eip := ret
      reg := Function.update (Function.update r.reg .ebx ebx) .esp (r.esp + 8) } := by
  obtain ⟨hebx, hret, -⟩ := hstack
  let m : Cpu := { r with
    eip := k.text.addr (.library c) 7
    reg := Function.update (Function.update r.reg .esp (r.esp + 4)) .ebx ebx }
  have hpop : k.text.step k.links r = some m := by
    rw [Text.step_eq (i := .op (.popl .ebx)) heip (code_getElem ..), Text.execute]
    change some ({ r with
      eip := k.text.addr (.library c) 7
      reg := Function.update (Function.update r.reg .esp (r.esp + 4)) .ebx (load32 r.mem r.esp) } : Cpu) = _
    rw [hebx]
  have hm : m.esp = r.esp + 4 := by
    change Function.update (Function.update r.reg .esp (r.esp + 4)) .ebx ebx .esp = _
    rw [Function.update_of_ne (by decide), Function.update_self]
  have hlast : k.text.step k.links m = some { r with
      eip := ret
      reg := Function.update (Function.update r.reg .ebx ebx) .esp (r.esp + 8) } := by
    rw [Text.step_eq (l := .library c) (n := 7) (i := .ret) rfl (code_getElem ..), Text.execute]
    have hword : load32 m.mem m.esp = ret := by
      rw [hm]
      exact hret
    have hregs : Function.update m.reg .esp (m.esp + 4) =
        Function.update (Function.update r.reg .ebx ebx) .esp (r.esp + 8) := by
      rw [hm, add_assoc]
      funext q
      cases q <;> simp [m]
    change some ({ m with eip := load32 m.mem m.esp, reg := Function.update m.reg .esp (m.esp + 4) } : Cpu) = _
    rw [hword, hregs]
  exact Relation.ReflTransGen.head hpop (Relation.ReflTransGen.single hlast)

/-- A call of a library function by a program is a call of the function of the kernel with the same arguments: it is
entered in kernel mode, also when it never returns, and when it returns and has left the top of the program's stack
alone, the library function returns its result with the registers of the caller as they were, but for those that a
callee may use. -/
theorem library_call {c : SysCall} {ret a b d : UInt32} (heip : s.eip = k.text.addr (.library c) 0)
    (huser : s.userMode = true) (hstack : s.Stack [ret, a, b, d])
    (hapart : ∀ x, (x - (s.esp - 4)).toNat < 8 → 68 ≤ (x - (s.esp0 - 68)).toNat) :
    ∃ entry : Cpu, k.Enters s c.function entry ∧ entry.cs = KERNEL_CS.toUInt32 ∧
      (∃ back, entry.Stack [back, a, b, d]) ∧
      (∀ x, 4 ≤ (x - (s.esp - 4)).toNat → 68 ≤ (x - (s.esp0 - 68)).toNat → entry.mem x = s.mem x) ∧
      ∀ r, k.run c.function entry = some r → Cpu.Returned 3 13 entry r → SameFrom (s.esp - 4) 8 entry.mem r.mem →
        k.Reaches s { r with
          eip := ret
          cs := s.cs
          eflags := s.eflags
          ss := s.ss
          reg := Function.update (Function.update (Function.update (Function.update s.reg .eax (r.reg .eax)) .ecx b)
            .edx d) .esp (s.esp + 4) } := by
  let u := k.trapped s c a b d
  let entry := k.sysCallEntry (u.interrupt k.sysCallGate)
  have huser' : u.userMode = true := huser
  have hbase : u.frameBase = s.esp0 - 20 := by
    rw [Cpu.frameBase, huser', if_pos rfl]
    rfl
  have hlength : u.frame.length = 5 := by
    rw [Cpu.frame, huser']
    rfl
  have hstack' := sysCallEntry_stack (k := k) (s := u) k.sysCallGate
  have haway := saved_away (s := u) k.sysCallGate [k.text.addr (.handler .sysCallHandler) 16] (le_refl 1)
  have hbottom : s.esp0 - 20 - UInt32.ofNat (44 + 4 * [k.text.addr (.handler .sysCallHandler) 16].length) =
      s.esp0 - 68 := by
    rw [sub_sub]
    rfl
  rw [hbase, hlength, hbottom] at haway
  have hsame (x : UInt32) (hx : 68 ≤ (x - (s.esp0 - 68)).toNat) : entry.mem x = u.mem x := haway x hx
  have hnumber : u.reg .eax = c.number := by
    change Function.update (Function.update (Function.update (Function.update (Function.update s.reg .esp (s.esp - 4))
      .eax c.number) .ebx a) .ecx b) .edx d .eax = _
    simp
  have hinterrupted := Cpu.interrupted u k.sysCallGate
  have henters : k.Enters s c.function entry := (enters_sysCallEntry hinterrupted.eip
    ((hinterrupted.reg _ (by decide)).trans hnumber)).of_reaches (reaches_trapped heip hstack)
  refine ⟨entry, henters, rfl, ⟨_, Stacked.first hstack'⟩, fun x hx hx' => ?_, fun r hrun hret hkept => ?_⟩
  · rw [hsame x hx']
    exact store32_of_far hx s.mem (s.reg .ebx)
  · have hreturned : Cpu.Returned 3 (8 + u.frame.length) entry r := by
      rw [hlength]
      exact hret
    have hreturn := sysCall_returns (k := k) hnumber hrun hreturned
    let back : Cpu := { r with
      eip := k.text.addr (.library c) 6
      cs := s.cs
      eflags := s.eflags
      ss := s.ss
      reg := Function.update u.reg .eax (r.reg .eax) }
    have hesp : back.esp = s.esp - 4 := by
      change Function.update u.reg .eax (r.reg .eax) .esp = _
      simp [u, trapped]
    -- The saved `%ebx` and the return address lie apart from what the kernel pushed, and the function kept them.
    have hpushed : Stacked u.mem (s.esp - 4) ([s.reg .ebx, ret] ++ [a, b, d]) :=
      Stacked.push hstack (show 4 * (4 + 1) ≤ 4294967296 by decide) (s.reg .ebx)
    have hwords := Stacked.first hpushed
    have hback : back.Stack [s.reg .ebx, ret] := by
      rw [Cpu.Stack, hesp]
      refine hwords.congr (show 4 * 2 ≤ 4294967296 by decide) fun x hx => ?_
      exact (hkept x hx).trans (hsame x (hapart x hx))
    have hlibrary := reaches_libraryReturn (k := k) (c := c) rfl hback
    have hregs : Function.update (Function.update back.reg .ebx (s.reg .ebx)) .esp (back.esp + 8) =
        Function.update (Function.update (Function.update (Function.update s.reg .eax (r.reg .eax)) .ecx b)
            .edx d) .esp (s.esp + 4) := by
      have hsp : back.esp + 8 = s.esp + 4 := by
        rw [hesp]
        grind
      rw [hsp]
      funext q
      cases q <;> simp [back, u, trapped]
    rw [hregs] at hlibrary
    exact ((reaches_trapped heip hstack).trans hreturn).trans hlibrary

/-- A program at the entry of `ece391_read`, with its arguments on the stack. -/
def readingProgram : Cpu := (program 0 (placedAddr 0x8048000 (LinkLabel.library .read).index 0)).pushes
  [4, 0x8048F00, 0, 0x8048100]

/-- The answer of the kernel is that of the function. -/
theorem library_call_reading : ∃ s', (answering 0x8048000 7).Reaches readingProgram s' ∧ s'.eip = 0x8048100 ∧
    s'.reg .eax = 7 ∧ s'.reg .esp = readingProgram.esp + 4 := by
  have hstack : readingProgram.Stack [0x8048100, 0, 0x8048F00, 4] :=
    Cpu.Stack.pushes (show (program 0 _).Stack [] from trivial) (by decide)
  have hapart (x : UInt32) (hx : (x - (readingProgram.esp - 4)).toNat < 8) :
      68 ≤ (x - (readingProgram.esp0 - 68)).toNat := by
    rw [UInt32.toNat_sub] at hx ⊢
    change (4294967296 - 138412012 + x.toNat) % 4294967296 < 8 at hx
    change 68 ≤ (4294967296 - 8388536 + x.toNat) % 4294967296
    omega
  obtain ⟨entry, -, -, -, -, hcall⟩ :=
    library_call (k := answering 0x8048000 7) (s := readingProgram) (c := .read) rfl rfl hstack hapart
  refine ⟨_, hcall _ rfl (answered_returned 7 _ _ entry) fun _ _ => rfl, rfl, ?_, ?_⟩
  · simp [answered]
  · simp

/-- What the handler of a device pushes. -/
def savedAll (s : Cpu) : List UInt32 :=
  [s.reg .eax, s.reg .ecx, s.reg .edx, s.reg .ebx, s.esp, s.reg .ebp, s.reg .esi, s.reg .edi, s.eflags]

/-- The state in which the function of a device's handler is entered. -/
def deviceEntry (k : LinkedCode) (h : Handler) (s : Cpu) : Cpu :=
  let ret := k.text.addr (.handler h) 3
  { s.pushes (savedAll s ++ [ret]) with eip := ret }

/-- The beginning of the handler of a device. -/
theorem enters_deviceEntry {h : Handler} {f : CFunction} (hcode : linkage (.handler h) = deviceIntr f)
    (heip : s.eip = k.text.addr (.handler h) 0) : k.Enters s f (k.deviceEntry h s) := by
  let ops : List Op := [.pushal, .pushfl]
  have hdrop : (k.text.code (.handler h)).drop 0 = ops.map .op ++ [.call f, .op .popfl, .op .popal, .iret] := by
    rw [drop_code, hcode]
    rfl
  have hops := Text.reaches_ops (k := k.links) heip hdrop
  have hpushed : ops.foldl Cpu.effect s = s.pushes (savedAll s) := Cpu.pushes_pushes ..
  rw [hpushed] at hops
  have hentry : ({ s.pushes (savedAll s) with eip := k.text.addr (.handler h) 3 } : Cpu).pushes
      [k.text.addr (.handler h) 3] = k.deviceEntry h s := by
    rw [deviceEntry, ← Cpu.pushes_pushes]
    rfl
  have hcall : (k.text.code (.handler h))[2]? = some (.call f) := by
    rw [code_getElem, hcode]
    rfl
  have henters := Text.enters_call hops rfl hcall
  rw [Enters, ← hentry]
  exact henters

/-- What the end of the handler of a device pops. -/
theorem foldl_deviceReturn {old : Reg → UInt32} {sp flags : UInt32}
    (hstack : r.Stack [flags, old .edi, old .esi, old .ebp, sp, old .ebx, old .edx, old .ecx, old .eax]) :
    [Op.popfl, .popal].foldl Cpu.effect r =
      { r with eflags := flags, reg := Function.update old .esp (r.esp + 36) } := by
  obtain ⟨hflags, hrest⟩ := hstack
  let m : Cpu := { r with eflags := flags, reg := Function.update r.reg .esp (r.esp + 4) }
  have hfirst : r.effect .popfl = m := by rw [Cpu.effect, hflags]
  have hm : m.esp = r.esp + 4 := by
    change Function.update r.reg .esp (r.esp + 4) .esp = _
    exact Function.update_self ..
  have hstack : m.Stack [old .edi, old .esi, old .ebp, sp, old .ebx, old .edx, old .ecx, old .eax] := by
    rw [Cpu.Stack, hm]
    exact hrest
  rw [List.foldl_cons, List.foldl_cons, List.foldl_nil, hfirst, Cpu.effect_popal hstack, hm, add_assoc]
  rfl

/-- The function of a device's handler is entered over what the handler saved. -/
theorem deviceEntry_stack (h : Handler) (g : Gate) : (k.deviceEntry h (s.interrupt g)).Stack
    ([k.text.addr (.handler h) 3] ++ [] ++ ([(s.interrupt g).eflags, s.reg .edi, s.reg .esi, s.reg .ebp, s.frameBase,
      s.reg .ebx, s.reg .edx, s.reg .ecx, s.reg .eax] ++ s.frame)) := by
  have hinterrupted := Cpu.interrupted s g
  have hroom : 4 * ((savedAll (s.interrupt g) ++ [k.text.addr (.handler h) 3]).length + s.frame.length) ≤
      4294967296 := by
    have hframe := s.length_frame
    have hlength : (savedAll (s.interrupt g) ++ [k.text.addr (.handler h) 3]).length = 10 := rfl
    rw [hlength]
    omega
  have hreverse : (savedAll (s.interrupt g) ++ [k.text.addr (.handler h) 3]).reverse =
      [k.text.addr (.handler h) 3] ++ [] ++ [(s.interrupt g).eflags, s.reg .edi, s.reg .esi, s.reg .ebp, s.frameBase,
        s.reg .ebx, s.reg .edx, s.reg .ecx, s.reg .eax] := by
    have hreg (q : Reg) (hq : q ≠ .esp) : (s.interrupt g).reg q = s.reg q := hinterrupted.reg q hq
    rw [savedAll, hinterrupted.esp, hreg _ (by decide), hreg _ (by decide), hreg _ (by decide), hreg _ (by decide),
      hreg _ (by decide), hreg _ (by decide), hreg _ (by decide)]
    rfl
  have hpushes := hinterrupted.stack.pushes hroom
  rw [hreverse, List.append_assoc] at hpushes
  exact hpushes

/-- What the handler pushes lies below the frame of the interrupt. -/
theorem deviceEntry_away (h : Handler) (g : Gate) :
    SameAway (s.frameBase - 40) (40 + 4 * s.frame.length) s.mem (k.deviceEntry h (s.interrupt g)).mem := by
  have hlength : (savedAll (s.interrupt g) ++ [k.text.addr (.handler h) 3]).length = 10 := rfl
  have hbytes : 4 * (savedAll (s.interrupt g) ++ [k.text.addr (.handler h) 3]).length = 40 := by rw [hlength]
  have hroom : 4 * (savedAll (s.interrupt g) ++ [k.text.addr (.handler h) 3]).length ≤ 4294967296 :=
    hbytes.trans_le (by decide)
  have hinterrupted := Cpu.interrupted s g
  have hbelow := pushed_away (m := (s.interrupt g).mem) (a := (s.interrupt g).esp) hroom
  rw [hbytes, hinterrupted.esp] at hbelow
  have haway := hinterrupted.away.below hbelow (by decide)
  rw [deviceEntry, Cpu.pushes_mem, hinterrupted.esp]
  exact haway

/-- The interrupt of a device leaves the program as it was: when the function of the handler returns, every register and
the flags have the values they had, and nothing but memory and the task state can have changed. -/
theorem interrupt_returns {h : Handler} {f : CFunction} (hcode : linkage (.handler h) = deviceIntr f) {g : Gate}
    (hgate : g.offset = k.text.addr (.handler h) 0) (hrun : k.run f (k.deviceEntry h (s.interrupt g)) = some r)
    (hret : Cpu.Returned 0 (9 + s.frame.length) (k.deviceEntry h (s.interrupt g)) r) :
    k.Reaches (s.interrupt g) { r with
      eip := s.eip
      cs := s.cs
      eflags := s.eflags
      ss := s.ss
      reg := s.reg } := by
  have hinterrupted := Cpu.interrupted s g
  have hentry : k.Reaches _ r := (enters_deviceEntry hcode (hinterrupted.eip.trans hgate)).returns hrun
  have hstack := deviceEntry_stack (k := k) (s := s) h g
  have hpushed : (k.deviceEntry h (s.interrupt g)).esp = s.frameBase - 40 := by
    rw [← hinterrupted.esp]
    exact Cpu.pushes_esp ..
  have hesp : r.esp + 36 = s.frameBase := by
    rw [hret.esp, hpushed]
    grind
  have heip : r.eip = k.text.addr (.handler h) 3 := hret.eip.trans hstack.1
  have hcaller := hret.stack [] rfl hstack (by rw [List.length_append]; rfl) (by have := s.length_frame; omega)
  have hstart : r.esp + UInt32.ofNat (4 * ([] : List UInt32).length) = r.esp := add_zero _
  rw [hstart] at hcaller
  let ops : List Op := [.popfl, .popal]
  have hdrop : (k.text.code (.handler h)).drop 3 = ops.map .op ++ [.iret] := by
    rw [drop_code, hcode]
    rfl
  have hops := Text.reaches_ops (k := k.links) heip hdrop
  rw [foldl_deviceReturn (Stacked.first hcaller), hesp] at hops
  let m : Cpu := { r with
    eflags := (s.interrupt g).eflags
    reg := Function.update s.reg .esp s.frameBase
    eip := k.text.addr (.handler h) 5 }
  have hm : m.esp = s.frameBase := by
    change Function.update s.reg .esp s.frameBase .esp = _
    exact Function.update_self ..
  have hframe : m.Stack s.frame := by
    rw [Cpu.Stack, hm, ← hesp]
    exact Stacked.above hcaller
  have hss (hmode : s.userMode = false) : m.ss = s.ss := hret.ss.trans (hinterrupted.ss hmode)
  have hiret : k.text.step k.links m = some m.iret :=
    Text.step_eq (l := .handler h) (n := 5) (i := .iret) rfl (by rw [code_getElem, hcode]; rfl)
  rw [Cpu.iret_frame hm hframe hss] at hiret
  have hregs : Function.update m.reg .esp (s.reg .esp) = s.reg := by
    change Function.update (Function.update s.reg .esp s.frameBase) .esp (s.reg .esp) = _
    rw [Function.update_idem, Function.update_eq_self]
  rw [hregs] at hiret
  exact (hentry.trans hops).tail hiret

/-- The devices whose interrupts have a handler. -/
inductive Device where
  | keyboard
  | rtc
  | pit

namespace Device

/-- The line of a device. -/
def line : Device → IrqLine
  | keyboard => .keyboard
  | rtc => .rtc
  | pit => .pit

/-- The vector of its gate. -/
def vector : Device → UInt8
  | keyboard => KEYBOARD_VEC_NUM
  | rtc => RTC_VEC_NUM
  | pit => PIT_VEC_NUM

/-- The handler that the gate leads to. -/
def handler : Device → Handler
  | keyboard => .keyboardIntr
  | rtc => .rtcIntr
  | pit => .pitIntr

/-- The function that the handler calls. -/
def function : Device → CFunction
  | keyboard => .keyboardHandler
  | rtc => .rtcHandler
  | pit => .pitHandler

end Device

/-- The gate of a device. -/
def deviceGate (k : LinkedCode) (d : Device) : Gate where
  selector := KERNEL_CS.toUInt32
  offset := k.text.addr (.handler d.handler) 0
  interrupt := true
  dpl := 0

theorem gate_device (d : Device) : k.links.gate d.vector = some (k.deviceGate d) := by
  cases d with
  | keyboard => exact Idt.idtInit_gate _ _
  | rtc => exact Idt.idtInit_gate _ _
  | pit => exact Idt.idtInit_gate _ _

theorem linkage_device (d : Device) : linkage (.handler d.handler) = deviceIntr d.function := by
  cases d <;> rfl

/-- What a gate for interrupts leaves of the flags. -/
theorem interrupt_disabled (g : Gate) (hg : g.interrupt = true) : (s.interrupt g).eflags &&& 0x200 = 0 := by
  have hflags : (s.interrupt g).eflags = s.eflags &&& ~~~0x34300 := if_pos hg
  rw [hflags, UInt32.and_assoc]
  exact UInt32.and_zero

/-- The interrupts of the devices are transparent: the vector that the controllers send for the line of a device leads
to its function, entered in kernel mode with further interrupts kept out whether it returns or not, and when the
function returns, what was interrupted goes on with all its registers and flags, whatever it was. -/
theorem device_transparent (d : Device) (s : Cpu) :
    k.links.gate d.line.vector = some (k.deviceGate d) ∧
      ∃ entry : Cpu, k.Enters (s.interrupt (k.deviceGate d)) d.function entry ∧
        entry.cs = KERNEL_CS.toUInt32 ∧ entry.eflags &&& 0x200 = 0 ∧
        SameAway (s.frameBase - 40) (40 + 4 * s.frame.length) s.mem entry.mem ∧
        ∀ r, k.run d.function entry = some r → Cpu.Returned 0 (9 + s.frame.length) entry r →
          k.Reaches (s.interrupt (k.deviceGate d)) { r with
            eip := s.eip
            cs := s.cs
            eflags := s.eflags
            ss := s.ss
            reg := s.reg } := by
  have hvector : d.line.vector = d.vector := by cases d <;> rfl
  have hflags : (k.deviceEntry d.handler (s.interrupt (k.deviceGate d))).eflags =
      (s.interrupt (k.deviceGate d)).eflags := rfl
  refine ⟨?_, k.deviceEntry d.handler (s.interrupt (k.deviceGate d)), enters_deviceEntry (linkage_device d) rfl, rfl,
    ?_, deviceEntry_away d.handler _, fun r hrun hret => interrupt_returns (linkage_device d) rfl hrun hret⟩
  · rw [hvector]
    exact gate_device d
  · rw [hflags]
    exact interrupt_disabled _ rfl

end LinkedCode

end OsKernel
