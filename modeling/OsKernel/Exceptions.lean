import OsKernel.Boot
import OsKernel.Linkage
import OsKernel.Printf
import OsKernel.ProgramCalls

/-!
# Exceptions

The wrappers of the exceptions push the number of their vector for `excpHandler`, which prints the name of the exception
and ends the process with a status of its own.
-/

namespace OsKernel

open Library

/-- `exception_strings` -/
def exceptionStrings : List String :=
  ["divide_error", "debug", "nmi", "breakpoint", "overflow", "BOUND_Range_Exceeded", " Invalid_opcode",
    "Device_Not_Available", "double_fault", "Coprocessor_segment_overun", "invalid_tss", "Segment_Not_Present",
    "stack_fault", "general_protection_fault", "page_fault", "RESERVED", "x87_FPU_Floating_Point Error",
    "alignment_check", "machine_check", "SMID_Floating_Point_Error"]

/-- `excpHandler`, with the pointers of `exception_strings`, the memory they point to and what the arrays of `printf`
hold before: the characters for `putc`, and how the process ends. -/
def Kernel.excpHandler (k : Kernel) (fs : FileSystem) (strings : UInt32 → UInt32) (memory : UInt32 → UInt8)
    (stale : ℕ → Bytes) (vecNum : UInt32) (frame : ExecFrame) : Option (List UInt8 × HaltResult) :=
  let args : PrintfArgs := { arg := fun _ => strings vecNum, memory, stale }
  (args.printf (asciiText "The exception that was encountered is %s\n")).bind fun printed =>
    ({ k with exceptionStatus := true }.halt fs 255 frame).map fun result => (printed.2, result)

/-- `excpHandler` prints the name of its exception and ends the process by one. -/
theorem excpHandler_eq (k : Kernel) (fs : FileSystem) {strings : UInt32 → UInt32} {memory : UInt32 → UInt8}
    (stale : ℕ → Bytes) {vecNum : UInt32} (frame : ExecFrame) {name : List UInt8}
    (hspells : Spells (fun j => memory (strings vecNum + UInt32.ofNat j)) name) (hshort : name.length < 4294967296) :
    k.excpHandler fs strings memory stale vecNum frame = (k.haltBy fs .exception frame).map fun result =>
      (asciiText "The exception that was encountered is " ++ name ++ asciiText "\n", result) := by
  let args : PrintfArgs := { arg := fun _ => strings vecNum, memory, stale }
  have hname : puts (fun j => args.memory (args.arg 0 + UInt32.ofNat j)) = name := puts_of_spells hspells hshort
  have hprinted : args.printfFrom .text (asciiText "The exception that was encountered is %s\n") 0 =
      some (asciiText "The exception that was encountered is " ++ (name ++ asciiText "\n")) := by
    rw [← hname]
    rfl
  rw [Kernel.excpHandler, PrintfArgs.printf, hprinted, Option.map_some, Option.bind_some, List.append_assoc]
  rfl

namespace LinkedCode

variable {k : LinkedCode}

/-- The state in which `excpHandler` is entered. -/
def exceptionEntry (k : LinkedCode) (index : UInt8) (s : Cpu) : Cpu :=
  let ret := k.text.addr (.handler (.exception index)) 5
  { s.pushes (savedAll s ++ [index.toUInt32, ret]) with eflags := s.eflags &&& ~~~0x200, eip := ret }

/-- The beginning of the wrapper of an exception. -/
theorem enters_exceptionEntry {s : Cpu} {index : UInt8} (heip : s.eip = k.text.addr (.handler (.exception index)) 0) :
    k.Enters s .excpHandler (k.exceptionEntry index s) := by
  let ops : List Op := [.pushal, .pushfl, .cli, .pushlImm index.toUInt32]
  have hdrop : (k.text.code (.handler (.exception index))).drop 0 =
      ops.map .op ++ [.call .excpHandler, .op (.addlImm 4 .esp), .op .popfl, .op .popal, .iret] := by
    rw [drop_code]
    rfl
  have hops := Text.reaches_ops (k := k.links) heip hdrop
  have hpushed : ops.foldl Cpu.effect s =
      { s.pushes (savedAll s ++ [index.toUInt32]) with eflags := s.eflags &&& ~~~0x200 } := by
    have hsaved : (s.effect .pushal).effect .pushfl = s.pushes (savedAll s) := Cpu.pushes_pushes ..
    rw [← Cpu.pushes_pushes, ← hsaved]
    rfl
  rw [hpushed] at hops
  have hpush := Cpu.pushes_pushes s (savedAll s ++ [index.toUInt32]) [k.text.addr (.handler (.exception index)) 5]
  have hentry : ({ s.pushes (savedAll s ++ [index.toUInt32]) with
      eflags := s.eflags &&& ~~~0x200
      eip := k.text.addr (.handler (.exception index)) 5 } : Cpu).pushes [k.text.addr (.handler (.exception index)) 5] =
      k.exceptionEntry index s := by
    have hwords : savedAll s ++ [index.toUInt32, k.text.addr (.handler (.exception index)) 5] =
        (savedAll s ++ [index.toUInt32]) ++ [k.text.addr (.handler (.exception index)) 5] := rfl
    rw [exceptionEntry, hwords, ← hpush]
    rfl
  have hcall : (k.text.code (.handler (.exception index)))[4]? = some (.call .excpHandler) := code_getElem ..
  have henters := Text.enters_call hops rfl hcall
  rw [Enters, ← hentry]
  exact henters

/-- The top of the stack in `excpHandler`: the return address and the number of the vector. -/
theorem exceptionEntry_stack (index : UInt8) (s : Cpu) :
    (k.exceptionEntry index s).Stack [k.text.addr (.handler (.exception index)) 5, index.toUInt32] := by
  have hempty : s.Stack [] := trivial
  have hroom : 4 * ((savedAll s ++ [index.toUInt32, k.text.addr (.handler (.exception index)) 5]).length +
      ([] : List UInt32).length) ≤ 4294967296 := Nat.le_of_ble_eq_true rfl
  have hpushes : (k.exceptionEntry index s).Stack
      ([k.text.addr (.handler (.exception index)) 5, index.toUInt32] ++ (savedAll s).reverse) := hempty.pushes hroom
  exact Stacked.first hpushes

/-- The wrapper changes nothing but the words it pushes. -/
theorem exceptionEntry_away (index : UInt8) (s : Cpu) :
    SameAway (s.esp - 44) 44 s.mem (k.exceptionEntry index s).mem := by
  have hbytes : 4 * (savedAll s ++ [index.toUInt32, k.text.addr (.handler (.exception index)) 5]).length = 44 := rfl
  have hroom : 4 * (savedAll s ++ [index.toUInt32, k.text.addr (.handler (.exception index)) 5]).length ≤ 4294967296 :=
    hbytes.trans_le (by decide)
  have haway := pushed_away (m := s.mem) (a := s.esp) hroom
  rw [hbytes] at haway
  rw [exceptionEntry, Cpu.pushes_mem]
  exact haway

/-- The gate of an exception leads to its wrapper. -/
theorem gate_exception {v : UInt8} (hv : v ∈ exceptionVectors) : ∃ g, k.links.gate v = some g ∧
    g.selector = KERNEL_CS.toUInt32 ∧ g.offset = k.text.addr (.handler (.exception v)) 0 := by
  have hgate : k.links.gate v = _ := Idt.idtInit_gate (fun h => k.text.addr (.handler h) 0) v
  have hne : v ≠ 15 := by
    rintro rfl
    exact absurd hv (by decide)
  have hinstalled : installed v = some (.exception v) := if_pos hv
  rw [if_neg hne, hinstalled] at hgate
  exact ⟨_, hgate, rfl, rfl⟩

/-- An exception is reported: its gate leads to a wrapper which, on whatever stack the processor has delivered it,
enters `excpHandler` with the number of its own vector and with interrupts kept out; and `excpHandler` prints the name
that the table has for this vector and ends the process by an exception. -/
theorem exception_reported {v : UInt8} (hv : v ∈ exceptionVectors) {name : String}
    (hname : exceptionStrings[v.toNat]? = some name) (strings : UInt32 → UInt32) (memory : UInt32 → UInt8)
    (hspells : Spells (fun j => memory (strings v.toUInt32 + UInt32.ofNat j)) (asciiText name)) :
    (∃ g, k.links.gate v = some g ∧ g.selector = KERNEL_CS.toUInt32 ∧
      ∀ s : Cpu, s.eip = g.offset → ∃ entry back, k.Enters s .excpHandler entry ∧ entry.Stack [back, v.toUInt32] ∧
        entry.eflags &&& 0x200 = 0 ∧ SameAway (s.esp - 44) 44 s.mem entry.mem) ∧
      ∀ (m : Kernel) (fs : FileSystem) (stale : ℕ → Bytes) (frame : ExecFrame),
        m.excpHandler fs strings memory stale v.toUInt32 frame = (m.haltBy fs .exception frame).map fun result =>
          (asciiText "The exception that was encountered is " ++ asciiText name ++ asciiText "\n", result) := by
  have hshort : ∀ name ∈ exceptionStrings, (asciiText name).length < 4294967296 := by decide
  obtain ⟨g, hgate, hselector, hoffset⟩ := gate_exception (k := k) hv
  refine ⟨⟨g, hgate, hselector, fun s heip => ?_⟩, fun m fs stale frame => ?_⟩
  -- Some exceptions come with an error code, so nothing is assumed of the stack below.
  · refine ⟨k.exceptionEntry v s, _, enters_exceptionEntry (heip.trans hoffset), exceptionEntry_stack v s, ?_,
      exceptionEntry_away v s⟩
    change (s.eflags &&& ~~~0x200) &&& 0x200 = 0
    rw [UInt32.and_assoc]
    exact UInt32.and_zero
  · exact excpHandler_eq m fs stale frame hspells (hshort name (List.mem_of_getElem? hname))

/-- The text of the page fault alone in memory. -/
def pageFaultText (a : UInt32) : UInt8 := toBytes (asciiText "page_fault") a.toNat

/-- A page fault is reported as such. -/
theorem exception_reported_pageFault : (∃ g, (answering 0x8048000 0).links.gate 14 = some g) ∧
    shellMachine.excpHandler shellDisk.fs (fun _ => 0) pageFaultText (fun _ => toBytes []) 14 zeroFrame =
      (shellMachine.haltBy shellDisk.fs .exception zeroFrame).map fun result =>
        (asciiText "The exception that was encountered is page_fault\n", result) := by
  have hspells : Spells (fun j => pageFaultText (0 + UInt32.ofNat j)) (asciiText "page_fault") :=
    ⟨by decide, by decide, by decide⟩
  have hv : (14 : UInt8) ∈ exceptionVectors := by decide
  obtain ⟨⟨g, hgate, -⟩, hreport⟩ :=
    exception_reported (k := answering 0x8048000 0) hv rfl (fun _ => 0) pageFaultText hspells
  exact ⟨⟨g, hgate⟩, hreport shellMachine shellDisk.fs _ zeroFrame⟩

end LinkedCode

end OsKernel
