import OsKernel.Library.Processor
import Mathlib.Data.List.Basic

/-!
# The interrupt descriptor table

`idt_init` fills the 256 descriptors of the table: a gate for every vector but the reserved one, with the addresses of
the handlers in two halves, interrupt gates for the devices and a gate for system calls that programs may use. The
processor reads the packed descriptors.
-/

namespace OsKernel

open Library

def KERNEL_CS : UInt16 := 0x0010
def SYSTEM_CALL_VEC_NUM : UInt8 := 0x80
def KEYBOARD_VEC_NUM : UInt8 := 0x21
def RTC_VEC_NUM : UInt8 := 0x28
def PIT_VEC_NUM : UInt8 := 0x20

/-- The fields of `idt_desc_t`, from the lowest bits on. -/
structure IdtDesc where
  offset1500 : UInt16
  segSelector : UInt16
  reserved4 : UInt8
  reserved3 : Bool
  reserved2 : Bool
  reserved1 : Bool
  size : Bool
  reserved0 : Bool
  dpl : BitVec 2
  present : Bool
  offset3116 : UInt16

/-- The handlers of `interrupts_wrapper.S` and `sys_call_handler.S`; the exceptions have the index of their vector. -/
inductive Handler where
  | exception (index : UInt8)
  | sysCallHandler
  | keyboardIntr
  | rtcIntr
  | pitIntr
  deriving DecidableEq

namespace IdtDesc

/-- A descriptor in zeroed memory. -/
def zeroed : IdtDesc where
  offset1500 := 0
  segSelector := 0
  reserved4 := 0
  reserved3 := false
  reserved2 := false
  reserved1 := false
  size := false
  reserved0 := false
  dpl := 0
  present := false
  offset3116 := 0

variable (d : IdtDesc)

/-- The body of the loop of `idt_init`. -/
def initial : IdtDesc :=
  { d with
    segSelector := KERNEL_CS
    reserved4 := 0
    reserved3 := true
    reserved2 := true
    reserved1 := true
    size := true
    reserved0 := false
    dpl := 0
    present := true }

/-- `SET_IDT_ENTRY` -/
def setIdtEntry (handler : UInt32) : IdtDesc :=
  { d with
    offset3116 := ((handler &&& 0xFFFF0000) >>> 16).toUInt16
    offset1500 := (handler &&& 0xFFFF).toUInt16 }

/-- `val[0]` -/
def val0 : UInt32 := UInt32.ofNat (d.offset1500.toNat + d.segSelector.toNat * 0x10000)

/-- `val[1]` -/
def val1 : UInt32 :=
  UInt32.ofNat (d.reserved4.toNat + d.reserved3.toNat * 0x100 + d.reserved2.toNat * 0x200 + d.reserved1.toNat * 0x400 +
    d.size.toNat * 0x800 + d.reserved0.toNat * 0x1000 + d.dpl.toNat * 0x2000 + d.present.toNat * 0x8000 +
    d.offset3116.toNat * 0x10000)

end IdtDesc

/-- What the processor finds in a packed descriptor: a gate of 32 bits that is present. -/
def gateOf (val0 val1 : UInt32) : Option Gate :=
  let type := (val1 >>> 8) &&& 0xF
  if (val1 >>> 15) &&& 1 = 1 ∧ (val1 >>> 12) &&& 1 = 0 ∧ (type = 0xE ∨ type = 0xF) then
    some {
      selector := val0 >>> 16
      offset := (val1 >>> 16) * 0x10000 + (val0 &&& 0xFFFF)
      interrupt := type = 0xE
      dpl := (val1 >>> 13) &&& 3 }
  else none

/-- The table. -/
abbrev Idt := UInt8 → IdtDesc

/-- The exceptions in the order of `idt_init`. -/
def exceptionVectors : List UInt8 := [0, 1, 2, 3, 4, 5, 6, 7, 8, 9, 10, 11, 12, 13, 14, 16, 17, 18, 19]

namespace Idt

variable (idt : Idt) (address : Handler → UInt32)

/-- `SET_IDT_ENTRY` on the entry of a vector, and the assignments behind it. -/
def install (n : UInt8) (h : Handler) (assign : IdtDesc → IdtDesc) : Idt :=
  Function.update idt n (assign ((idt n).setIdtEntry (address h)))

/-- `idt_init`, for the addresses of the handlers. -/
def idtInit : Idt :=
  let idt : Idt := fun i => if i ≠ 15 then (idt i).initial else idt i
  let idt := exceptionVectors.foldl (fun idt i => install idt address i (.exception i) id) idt
  let idt := install idt address SYSTEM_CALL_VEC_NUM .sysCallHandler ({ · with present := true, dpl := 3 })
  let idt := install idt address KEYBOARD_VEC_NUM .keyboardIntr ({ · with present := true, reserved3 := false })
  let idt := install idt address RTC_VEC_NUM .rtcIntr ({ · with present := true, reserved3 := false })
  install idt address PIT_VEC_NUM .pitIntr ({ · with present := true, reserved3 := false })

/-- The gate of a vector. -/
def gate (n : UInt8) : Option Gate := gateOf (idt n).val0 (idt n).val1

end Idt

/-- The handler of a vector. -/
def installed (n : UInt8) : Option Handler :=
  if n ∈ exceptionVectors then some (.exception n)
  else if n = SYSTEM_CALL_VEC_NUM then some .sysCallHandler
  else if n = KEYBOARD_VEC_NUM then some .keyboardIntr
  else if n = RTC_VEC_NUM then some .rtcIntr
  else if n = PIT_VEC_NUM then some .pitIntr
  else none

section Packing

variable (d : IdtDesc)

/-- A field of a word: its bits from `k` on, of which there are `i`. -/
theorem toNat_field (w k mask : UInt32) (i : ℕ) (hk : k.toNat < 32) (hmask : mask.toNat = 2 ^ i - 1) :
    ((w >>> k) &&& mask).toNat = w.toNat / 2 ^ k.toNat % 2 ^ i := by
  rw [UInt32.toNat_and, hmask, Nat.and_two_pow_sub_one_eq_mod, UInt32.toNat_shiftRight, Nat.mod_eq_of_lt hk,
    Nat.shiftRight_eq_div_pow]

/-- What the processor finds in the descriptor of a gate. -/
theorem gateOf_val (hsize : d.size = true) (h1 : d.reserved1 = true) (h2 : d.reserved2 = true)
    (h0 : d.reserved0 = false) (hpresent : d.present = true) : gateOf d.val0 d.val1 = some {
      selector := d.segSelector.toUInt32
      offset := UInt32.ofNat (d.offset3116.toNat * 0x10000 + d.offset1500.toNat)
      interrupt := !d.reserved3
      dpl := UInt32.ofNat d.dpl.toNat } := by
  have hlow := d.offset1500.toNat_lt
  have hhigh := d.offset3116.toNat_lt
  have hselector := d.segSelector.toNat_lt
  have hreserved := d.reserved4.toNat_lt
  have htrap := d.reserved3.toNat_le
  have hdpl := d.dpl.isLt
  have hval0 : d.val0.toNat = d.offset1500.toNat + d.segSelector.toNat * 0x10000 :=
    UInt32.toNat_ofNat_of_lt' (show _ < 4294967296 by omega)
  have hval1 : d.val1.toNat = d.reserved4.toNat + d.reserved3.toNat * 0x100 + 0x8E00 + d.dpl.toNat * 0x2000 +
      d.offset3116.toNat * 0x10000 := by
    have hbits : d.reserved2.toNat = 1 ∧ d.reserved1.toNat = 1 ∧ d.size.toNat = 1 ∧ d.reserved0.toNat = 0 ∧
        d.present.toNat = 1 := by
      rw [hsize, h1, h2, h0, hpresent]
      exact ⟨rfl, rfl, rfl, rfl, rfl⟩
    rw [IdtDesc.val1, UInt32.toNat_ofNat_of_lt' (show _ < 4294967296 by omega)]
    omega
  have hpresent' : (d.val1 >>> 15) &&& 1 = 1 := by
    apply UInt32.toNat.inj
    rw [toNat_field _ _ _ 1 (by decide) rfl, hval1]
    change _ / 32768 % 2 = 1
    omega
  have hsystem : (d.val1 >>> 12) &&& 1 = 0 := by
    apply UInt32.toNat.inj
    rw [toNat_field _ _ _ 1 (by decide) rfl, hval1]
    change _ / 4096 % 2 = 0
    omega
  have htype : ((d.val1 >>> 8) &&& 0xF).toNat = 0xE + d.reserved3.toNat := by
    rw [toNat_field _ _ _ 4 (by decide) rfl, hval1]
    change _ / 256 % 16 = _
    omega
  have htype' : (d.val1 >>> 8) &&& 0xF = if d.reserved3 then 0xF else 0xE := by
    apply UInt32.toNat.inj
    rw [htype]
    cases d.reserved3 <;> rfl
  have hlevel : (d.val1 >>> 13) &&& 3 = UInt32.ofNat d.dpl.toNat := by
    apply UInt32.toNat.inj
    rw [toNat_field _ _ _ 2 (by decide) rfl, hval1, UInt32.toNat_ofNat_of_lt' (show _ < 4294967296 by omega)]
    change _ / 8192 % 4 = _
    omega
  have hsegment : d.val0 >>> 16 = d.segSelector.toUInt32 := by
    apply UInt32.toNat.inj
    rw [UInt32.toNat_shiftRight, hval0, UInt16.toNat_toUInt32, Nat.shiftRight_eq_div_pow]
    change _ / 65536 = _
    omega
  have hoffset : (d.val1 >>> 16) * 0x10000 + (d.val0 &&& 0xFFFF) =
      UInt32.ofNat (d.offset3116.toNat * 0x10000 + d.offset1500.toNat) := by
    apply UInt32.toNat.inj
    have hmask : (d.val0 &&& 0xFFFF).toNat = d.val0.toNat % 2 ^ 16 := by
      rw [UInt32.toNat_and]
      exact Nat.and_two_pow_sub_one_eq_mod _ 16
    rw [UInt32.toNat_add, UInt32.toNat_mul, UInt32.toNat_shiftRight, hmask, hval0, hval1, Nat.shiftRight_eq_div_pow,
      UInt32.toNat_ofNat_of_lt' (show _ < 4294967296 by omega)]
    change (_ / 65536 * 65536 % 4294967296 + _ % 65536) % 4294967296 = _
    omega
  rw [gateOf, hpresent', hsystem, htype', hlevel, hsegment, hoffset]
  cases d.reserved3 <;> rfl

/-- The two halves of an address. -/
theorem halves (address : UInt32) : UInt32.ofNat ((((address &&& 0xFFFF0000) >>> 16).toUInt16).toNat * 0x10000 +
    ((address &&& 0xFFFF).toUInt16).toNat) = address := by
  have hlow : (address &&& 0xFFFF).toNat = address.toNat % 2 ^ 16 := by
    rw [UInt32.toNat_and]
    exact Nat.and_two_pow_sub_one_eq_mod _ 16
  have hhigh : ((address &&& 0xFFFF0000) >>> 16).toNat = address.toNat / 2 ^ 16 % 2 ^ 16 := by
    rw [UInt32.toNat_shiftRight, UInt32.toNat_and, Nat.shiftRight_and_distrib, Nat.shiftRight_eq_div_pow]
    exact Nat.and_two_pow_sub_one_eq_mod _ 16
  have hlt := address.toNat_lt
  apply UInt32.toNat.inj
  rw [UInt32.toNat_toUInt16, UInt32.toNat_toUInt16, hlow, hhigh, UInt32.toNat_ofNat']
  omega

end Packing

namespace Idt

variable (idt : Idt) (address : Handler → UInt32)

theorem install_self (n : UInt8) (h : Handler) (assign : IdtDesc → IdtDesc) :
    install idt address n h assign n = assign ((idt n).setIdtEntry (address h)) := Function.update_self ..

theorem install_of_ne {n i : UInt8} (hne : i ≠ n) (h : Handler) (assign : IdtDesc → IdtDesc) :
    install idt address n h assign i = idt i := Function.update_of_ne hne ..

/-- The entries of the exceptions. -/
theorem foldl_install {vectors : List UInt8} (hnodup : vectors.Nodup) (n : UInt8) :
    vectors.foldl (fun idt i => install idt address i (.exception i) id) idt n =
      if n ∈ vectors then (idt n).setIdtEntry (address (.exception n)) else idt n := by
  induction vectors generalizing idt with
  | nil => rfl
  | cons i vectors ih =>
    obtain ⟨hi, hnodup⟩ := List.nodup_cons.mp hnodup
    rw [List.foldl_cons, ih _ hnodup]
    by_cases hn : n = i
    · subst hn
      rw [if_neg hi, if_pos List.mem_cons_self, install_self, id]
    · have hmem : n ∈ i :: vectors ↔ n ∈ vectors := by simp [hn]
      rw [install_of_ne _ _ hn]
      simp only [hmem]

/-- The gate of a vector that `idt_init` has filled in. -/
theorem gate_of_entry {n : UInt8} (handler : UInt32) (dpl : BitVec 2) (trap : Bool)
    (h : idt n = { IdtDesc.zeroed.initial.setIdtEntry handler with dpl, reserved3 := trap }) : gate idt n = some {
      selector := KERNEL_CS.toUInt32
      offset := handler
      interrupt := !trap
      dpl := UInt32.ofNat dpl.toNat } := by
  rw [gate, h, gateOf_val _ rfl rfl rfl rfl rfl]
  congr 2
  exact halves handler

/-- The gate of a handler that is installed. -/
theorem gate_install {n : UInt8} {h : Handler} {assign : IdtDesc → IdtDesc} (dpl : BitVec 2) (trap : Bool)
    (hbefore : idt n = IdtDesc.zeroed.initial)
    (hassign : assign (IdtDesc.zeroed.initial.setIdtEntry (address h)) =
      { IdtDesc.zeroed.initial.setIdtEntry (address h) with dpl, reserved3 := trap }) :
    gate (install idt address n h assign) n = some {
      selector := KERNEL_CS.toUInt32
      offset := address h
      interrupt := !trap
      dpl := UInt32.ofNat dpl.toNat } := by
  refine gate_of_entry _ _ _ _ ?_
  rw [install_self, hbefore]
  exact hassign

/-- After `idt_init` every vector but the reserved one has a gate, with the handler that was installed for it; programs
can use the gate of the system calls only, and the devices' gates keep other interrupts out. -/
theorem idtInit_gate (n : UInt8) : gate (idtInit (fun _ => .zeroed) address) n =
    if n = 15 then none
    else some {
      selector := KERNEL_CS.toUInt32
      offset := (installed n).elim 0 address
      interrupt := n = KEYBOARD_VEC_NUM ∨ n = RTC_VEC_NUM ∨ n = PIT_VEC_NUM
      dpl := if n = SYSTEM_CALL_VEC_NUM then 3 else 0 } := by
  let start : Idt := fun i => if i ≠ 15 then IdtDesc.zeroed.initial else .zeroed
  let exceptions : Idt := exceptionVectors.foldl (fun idt i => install idt address i (.exception i) id) start
  have hexceptions : ∀ n, exceptions n = if n ∈ exceptionVectors then (start n).setIdtEntry (address (.exception n))
      else start n := foldl_install start address (by decide)
  let systemCall := install exceptions address SYSTEM_CALL_VEC_NUM .sysCallHandler
    ({ · with present := true, dpl := 3 })
  let keyboard := install systemCall address KEYBOARD_VEC_NUM .keyboardIntr
    ({ · with present := true, reserved3 := false })
  let rtc := install keyboard address RTC_VEC_NUM .rtcIntr ({ · with present := true, reserved3 := false })
  let final := install rtc address PIT_VEC_NUM .pitIntr ({ · with present := true, reserved3 := false })
  have hrtc (hne : n ≠ PIT_VEC_NUM) : final n = rtc n := install_of_ne _ _ hne ..
  have hkeyboard (hne : n ≠ RTC_VEC_NUM) : rtc n = keyboard n := install_of_ne _ _ hne ..
  have hsystem (hne : n ≠ KEYBOARD_VEC_NUM) : keyboard n = systemCall n := install_of_ne _ _ hne ..
  have hexception (hne : n ≠ SYSTEM_CALL_VEC_NUM) : systemCall n = exceptions n := install_of_ne _ _ hne ..
  have hbefore (hne : n ≠ 15) (hnot : n ∉ exceptionVectors) : exceptions n = IdtDesc.zeroed.initial := by
    rw [hexceptions, if_neg hnot]
    exact if_pos hne
  have hgate : idtInit (fun _ => .zeroed) address = final := rfl
  rw [hgate, gate]
  by_cases hn : n = PIT_VEC_NUM
  · subst hn
    rw [← gate, gate_install _ _ 0 false (((hkeyboard (by decide)).trans ((hsystem (by decide)).trans
      (hexception (by decide)))).trans (hbefore (by decide) (by decide))) rfl]
    rfl
  rw [hrtc hn]
  by_cases hclock : n = RTC_VEC_NUM
  · subst hclock
    rw [← gate, gate_install _ _ 0 false (((hsystem (by decide)).trans (hexception (by decide))).trans
      (hbefore (by decide) (by decide))) rfl]
    rfl
  rw [hkeyboard hclock]
  by_cases hkey : n = KEYBOARD_VEC_NUM
  · subst hkey
    rw [← gate, gate_install _ _ 0 false ((hexception (by decide)).trans (hbefore (by decide) (by decide))) rfl]
    rfl
  rw [hsystem hkey]
  have hdevice : ¬(n = KEYBOARD_VEC_NUM ∨ n = RTC_VEC_NUM ∨ n = PIT_VEC_NUM) :=
    not_or.mpr ⟨hkey, not_or.mpr ⟨hclock, hn⟩⟩
  by_cases hcall : n = SYSTEM_CALL_VEC_NUM
  · subst hcall
    rw [← gate, gate_install _ _ 3 true (hbefore (by decide) (by decide)) rfl]
    rfl
  rw [hexception hcall, if_neg hcall, decide_eq_false hdevice]
  by_cases hmem : n ∈ exceptionVectors
  · have hne : n ≠ 15 := ne_of_mem_of_not_mem hmem (by decide)
    have hentry : exceptions n = IdtDesc.zeroed.initial.setIdtEntry (address (.exception n)) := by
      rw [hexceptions, if_pos hmem]
      exact congrArg (IdtDesc.setIdtEntry · _) (if_pos hne)
    rw [← gate, gate_of_entry _ _ 0 true hentry, if_neg hne, installed, if_pos hmem]
    rfl
  · rw [installed, if_neg hmem, if_neg hcall, if_neg hkey, if_neg hclock, if_neg hn]
    by_cases hne : n = 15
    · subst hne
      have hzero : exceptions 15 = .zeroed := by
        rw [hexceptions, if_neg hmem]
        rfl
      rw [hzero, if_pos rfl]
      rfl
    · rw [← gate, gate_of_entry _ 0 0 true (hbefore hne hmem), if_neg hne]
      rfl

end Idt

end OsKernel
