import OsKernel.Library.Requests
import Mathlib.Data.UInt
import Mathlib.Data.Fintype.Basic
import Mathlib.Data.List.Find

/-!
# The interrupt controllers

Two 8259 chips in cascade, programmed over their ports. The driver keeps a mask for each chip and writes it
out whenever it changes. Each line is latched when its device raises it; the first line in the order of priority
that is not masked interrupts the processor, and the handler of the line acknowledges it with the command for this
line before the next one can come.
-/

namespace OsKernel

open Library

/-- An interrupt line: the chip and the pin. -/
inductive IrqLine where
  | master (i : Fin 8)
  | slave (i : Fin 8)
  deriving DecidableEq

/-- The number of a line in the driver. -/
def IrqLine.irqNum : IrqLine → UInt32
  | .master i => UInt32.ofNat i.val
  | .slave i => UInt32.ofNat (8 + i.val)

/-- A chip: its mask, the latched and the acknowledged requests, and what its initialisation has set; `expects` is
the number of the initialisation word that comes next, 0 behind them. -/
structure Pic where
  imr : UInt8
  irr : Fin 8 → Bool
  isr : Fin 8 → Bool
  base : UInt8
  cascade : UInt8
  expects : ℕ

namespace Pic

/-- A byte written to the command port: the first initialisation word, or the end of a given interrupt. -/
def outCommand (c : Pic) (value : UInt8) : Pic :=
  if value &&& 0x10 ≠ 0 then { c with imr := 0, irr := fun _ => false, isr := fun _ => false, expects := 2 }
  else if value &&& 0xF8 = 0x60 then
    { c with isr := fun i => c.isr i && i.val ≠ (value &&& 0x07).toNat }
  else c

/-- A byte written to the data port: the next initialisation word, or the mask. -/
def outData (c : Pic) (value : UInt8) : Pic :=
  if c.expects = 2 then { c with base := value &&& 0xF8, expects := 3 }
  else if c.expects = 3 then { c with cascade := value, expects := 4 }
  else if c.expects = 4 then { c with expects := 0 }
  else { c with imr := value }

/-- A line is masked. -/
def masked (c : Pic) (i : Fin 8) : Bool := c.imr.toNat.testBit i.val

/-- The request that the chip passes on: the first of the unmasked lines, unless one before it or itself is being
served. -/
def request (c : Pic) (lines : Fin 8 → Bool) : Option (Fin 8) :=
  ((List.finRange 8).find? fun i => lines i && !c.masked i).filter fun i => (List.finRange 8).all fun j =>
    !(c.isr j && decide (j ≤ i))

/-- A request is acknowledged. -/
def acknowledge (c : Pic) (i : Fin 8) : Pic :=
  { c with
    irr := Function.update c.irr i false
    isr := Function.update c.isr i true }

end Pic

def MASTER_8259_PORT : ℕ := 0x20
def SLAVE_8259_PORT : ℕ := 0xA0
def MASTER_8259_DATA : ℕ := MASTER_8259_PORT + 1
def SLAVE_8259_DATA : ℕ := SLAVE_8259_PORT + 1
def SLAVE_IRQ_NUM : UInt32 := 2
def ICW1 : UInt8 := 0x11
def ICW2_MASTER : UInt8 := 0x20
def ICW2_SLAVE : UInt8 := 0x28
def ICW3_MASTER : UInt8 := 0x04
def ICW3_SLAVE : UInt8 := 0x02
def ICW4 : UInt8 := 0x01
def EOI : UInt32 := 0x60

/-- The driver's masks, the two chips, the line being served and the vectors handed to the processor. -/
structure I8259 where
  masterMask : UInt8
  slaveMask : UInt8
  master : Pic
  slave : Pic
  serving : Option IrqLine
  vectors : List UInt8

namespace I8259

variable (s : I8259)

/-- `outb` -/
def outb (value : UInt8) (port : ℕ) : I8259 :=
  if port = MASTER_8259_PORT then { s with master := s.master.outCommand value }
  else if port = MASTER_8259_DATA then { s with master := s.master.outData value }
  else if port = SLAVE_8259_PORT then { s with slave := s.slave.outCommand value }
  else if port = SLAVE_8259_DATA then { s with slave := s.slave.outData value }
  else s

/-- `enable_irq` -/
def enableIrq (irqNum : UInt32) : I8259 :=
  if irqNum < 8 then
    let mask := (s.masterMask.toUInt32 &&& ~~~((1 : UInt32) <<< irqNum)).toUInt8
    ({ s with masterMask := mask } : I8259).outb mask MASTER_8259_DATA
  else
    let mask := (s.slaveMask.toUInt32 &&& ~~~((1 : UInt32) <<< (irqNum - 8))).toUInt8
    ({ s with slaveMask := mask } : I8259).outb mask SLAVE_8259_DATA

/-- `disable_irq` -/
def disableIrq (irqNum : UInt32) : I8259 :=
  if irqNum < 8 then
    let mask := (s.masterMask.toUInt32 ||| ((1 : UInt32) <<< irqNum)).toUInt8
    ({ s with masterMask := mask } : I8259).outb mask MASTER_8259_DATA
  else
    let mask := (s.slaveMask.toUInt32 ||| ((1 : UInt32) <<< (irqNum - 8))).toUInt8
    ({ s with slaveMask := mask } : I8259).outb mask SLAVE_8259_DATA

/-- `send_eoi` -/
def sendEoi (irqNum : UInt32) : I8259 :=
  if irqNum ≥ 8 then
    let slaveIrqNum := irqNum - 8
    (s.outb (EOI ||| slaveIrqNum).toUInt8 SLAVE_8259_PORT).outb (EOI ||| 2).toUInt8 MASTER_8259_PORT
  else s.outb (EOI ||| irqNum).toUInt8 MASTER_8259_PORT

/-- `i8259_init` -/
def i8259Init : I8259 :=
  let s := (s.outb 0xFF MASTER_8259_DATA).outb 0xFF SLAVE_8259_DATA
  let s := (s.outb ICW1 MASTER_8259_PORT).outb ICW1 SLAVE_8259_PORT
  let s := (s.outb ICW2_MASTER MASTER_8259_DATA).outb ICW2_SLAVE SLAVE_8259_DATA
  let s := (s.outb ICW3_MASTER MASTER_8259_DATA).outb ICW3_SLAVE SLAVE_8259_DATA
  let s := (s.outb ICW4 MASTER_8259_DATA).outb ICW4 SLAVE_8259_DATA
  let s := (s.outb s.masterMask MASTER_8259_DATA).outb s.slaveMask SLAVE_8259_DATA
  s.enableIrq SLAVE_IRQ_NUM

/-- A device raises its line. -/
def raise : IrqLine → I8259
  | .master i => { s with master := { s.master with irr := Function.update s.master.irr i true } }
  | .slave i => { s with slave := { s.slave with irr := Function.update s.slave.irr i true } }

/-- The processor acknowledges the request of the master; on the line of the cascade the slave has the vector. The
slave is wired to line 2. -/
def inta : Option I8259 :=
  let request := s.slave.request s.slave.irr
  (s.master.request (Function.update s.master.irr 2 request.isSome)).bind fun i =>
    if s.master.cascade.toNat.testBit i.val ∧ s.slave.cascade.toNat = i.val then
      request.map fun j =>
        { s with
          master := { s.master with isr := Function.update s.master.isr i true }
          slave := s.slave.acknowledge j
          serving := some (.slave j)
          vectors := s.vectors ++ [s.slave.base + UInt8.ofNat j.val] }
    else
      some { s with
        master := s.master.acknowledge i
        serving := some (.master i)
        vectors := s.vectors ++ [s.master.base + UInt8.ofNat i.val] }

/-- One event. A request is taken when no handler runs, and the handler of a line ends its interrupt. -/
def step : RequestEvent IrqLine → Option I8259
  | .raise l => some (s.raise l)
  | .enable l => some (s.enableIrq l.irqNum)
  | .disable l => some (s.disableIrq l.irqNum)
  | .take => if s.serving.isSome then none else s.inta
  | .finish => s.serving.map fun l => { s.sendEoi l.irqNum with serving := none }

end I8259

/-! ### The lines in the order of their priority -/

/-- The lines in the order of their priority: those of the slave stand where the cascade is. -/
def irqOrder : List IrqLine :=
  [.master 0, .master 1] ++ (List.finRange 8).map .slave ++ [.master 3, .master 4, .master 5, .master 6, .master 7]

/-- A line of the slave goes through the cascade. -/
def irqAllows (enabled : IrqLine → Bool) : IrqLine → Bool
  | .master i => enabled (.master i)
  | .slave i => enabled (.slave i) && enabled (.master 2)

/-- The vector of a line. -/
def IrqLine.vector : IrqLine → UInt8
  | .master i => ICW2_MASTER + UInt8.ofNat i.val
  | .slave i => ICW2_SLAVE + UInt8.ofNat i.val

/-- `PIT_IRQ` -/
def IrqLine.pit : IrqLine := .master 0

/-- `KEYBOARD_IRQ_NUM` -/
def IrqLine.keyboard : IrqLine := .master 1

/-- `RTC_IRQ_NUM` -/
def IrqLine.rtc : IrqLine := .slave 0

/-- No two lines have the same vector. -/
theorem vector_injective : Function.Injective IrqLine.vector := by
  intro l m hvector
  cases l with
  | master i =>
    cases m with
    | master j => revert i j; decide
    | slave j => revert i j; decide
  | slave i =>
    cases m with
    | master j => revert i j; decide
    | slave j => revert i j; decide

/-- A line has a latched request. -/
def I8259.latched (s : I8259) : IrqLine → Bool
  | .master i => s.master.irr i
  | .slave i => s.slave.irr i

/-- A line is masked on its chip. -/
def I8259.maskedLine (s : I8259) : IrqLine → Bool
  | .master i => s.master.masked i
  | .slave i => s.slave.masked i

/-- The controllers behave as lines of requests in the order of their priority. -/
structure I8259.Refines (s : I8259) (r : Requests IrqLine) : Prop where
  ready : s.master.expects = 0 ∧ s.slave.expects = 0
  bases : s.master.base = ICW2_MASTER ∧ s.slave.base = ICW2_SLAVE
  cascade : s.master.cascade = ICW3_MASTER ∧ s.slave.cascade = ICW3_SLAVE
  masks : s.master.imr = s.masterMask ∧ s.slave.imr = s.slaveMask
  pending : ∀ l, r.pending l = s.latched l
  enabled : ∀ l, r.enabled l = !s.maskedLine l
  serving : r.serving = s.serving
  masterService : ∀ i, s.master.isr i = true ↔ s.serving = some (.master i) ∨ i = 2 ∧ ∃ j, s.serving = some (.slave j)
  slaveService : ∀ i, s.slave.isr i = true ↔ s.serving = some (.slave i)
  vectors : s.vectors = r.taken.map IrqLine.vector

section Masks

/-- The bits of a mask with one of them cleared. -/
theorem testBit_clear (m : UInt8) (i k : Fin 8) :
    ((m.toUInt32 &&& ~~~((1 : UInt32) <<< UInt32.ofNat i.val)).toUInt8).toNat.testBit k.val =
      (m.toNat.testBit k.val && decide (k ≠ i)) := by
  have hbit : ∀ i k : Fin 8, (~~~((1 : UInt32) <<< UInt32.ofNat i.val)).toNat.testBit k.val = decide (k ≠ i) := by
    decide
  rw [UInt32.toNat_toUInt8, Nat.testBit_mod_two_pow, decide_eq_true k.isLt, Bool.true_and, UInt32.toNat_and,
    Nat.testBit_and, hbit, UInt8.toNat_toUInt32]

/-- The bits of a mask with one of them set. -/
theorem testBit_set (m : UInt8) (i k : Fin 8) :
    ((m.toUInt32 ||| ((1 : UInt32) <<< UInt32.ofNat i.val)).toUInt8).toNat.testBit k.val =
      (m.toNat.testBit k.val || decide (k = i)) := by
  have hbit : ∀ i k : Fin 8, ((1 : UInt32) <<< UInt32.ofNat i.val).toNat.testBit k.val = decide (k = i) := by decide
  rw [UInt32.toNat_toUInt8, Nat.testBit_mod_two_pow, decide_eq_true k.isLt, Bool.true_and, UInt32.toNat_or,
    Nat.testBit_or, hbit, UInt8.toNat_toUInt32]

/-- The number of a line of the slave, without the 8 lines of the master. -/
theorem slave_irqNum (i : Fin 8) : ¬(IrqLine.slave i).irqNum < 8 ∧ (IrqLine.slave i).irqNum ≥ 8 ∧
    (IrqLine.slave i).irqNum - 8 = UInt32.ofNat i.val := by
  revert i
  decide

/-- The number of a line of the master. -/
theorem master_irqNum (i : Fin 8) : (IrqLine.master i).irqNum < 8 ∧ ¬(IrqLine.master i).irqNum ≥ 8 := by
  revert i
  decide

/-- The command that ends the interrupt of a line on its chip. -/
theorem eoi_command (i : Fin 8) : (EOI ||| UInt32.ofNat i.val).toUInt8 &&& 0x10 = 0 ∧
    (EOI ||| UInt32.ofNat i.val).toUInt8 &&& 0xF8 = 0x60 ∧
    ((EOI ||| UInt32.ofNat i.val).toUInt8 &&& 0x07).toNat = i.val := by
  revert i
  decide

end Masks

namespace Pic

variable {c : Pic}

/-- Behind the initialisation a byte on the data port is the mask. -/
theorem outData_ready (h : c.expects = 0) (value : UInt8) : c.outData value = { c with imr := value } := by
  rw [outData, h]
  rfl

/-- The command that ends an interrupt. -/
theorem outCommand_eoi (c : Pic) (i : Fin 8) :
    c.outCommand (EOI ||| UInt32.ofNat i.val).toUInt8 = { c with isr := fun k => c.isr k && k ≠ i } := by
  obtain ⟨hicw, hocw, hline⟩ := eoi_command i
  rw [outCommand, if_neg (not_not.mpr hicw), if_pos hocw, hline]
  congr 1
  funext k
  simp [Fin.ext_iff]

/-- The initialisation sets a chip up whatever it was doing. -/
theorem outData_init (c : Pic) (icw2 icw3 icw4 mask : UInt8) :
    ((((((c.outData 0xFF).outCommand ICW1).outData icw2).outData icw3).outData icw4).outData mask) =
      { imr := mask, irr := fun _ => false, isr := fun _ => false, base := icw2 &&& 0xF8, cascade := icw3,
        expects := 0 } := by
  have hicw : ICW1 &&& 0x10 ≠ 0 := by decide
  rw [outCommand, if_pos hicw]
  rfl

/-- When nothing is being served the first unmasked line is passed on. -/
theorem request_idle (h : ∀ i, c.isr i = false) (lines : Fin 8 → Bool) :
    c.request lines = (List.finRange 8).find? fun i => lines i && !c.masked i := by
  rw [request]
  cases (List.finRange 8).find? fun i => lines i && !c.masked i with
  | none => rfl
  | some i => simp [Option.filter, h]

end Pic

namespace I8259

variable {s s' : I8259} {r : Requests IrqLine}

theorem outb_masterCommand (s : I8259) (value : UInt8) :
    s.outb value MASTER_8259_PORT = { s with master := s.master.outCommand value } := rfl

theorem outb_masterData (s : I8259) (value : UInt8) :
    s.outb value MASTER_8259_DATA = { s with master := s.master.outData value } := rfl

theorem outb_slaveCommand (s : I8259) (value : UInt8) :
    s.outb value SLAVE_8259_PORT = { s with slave := s.slave.outCommand value } := rfl

theorem outb_slaveData (s : I8259) (value : UInt8) :
    s.outb value SLAVE_8259_DATA = { s with slave := s.slave.outData value } := rfl

/-- The masks of the driver and of the chips, set together. -/
def setMasks (s : I8259) (masterMask slaveMask : UInt8) : I8259 :=
  { s with
    masterMask
    slaveMask
    master := { s.master with imr := masterMask }
    slave := { s.slave with imr := slaveMask } }

/-- What the masks enable. -/
def enables (masterMask slaveMask : UInt8) : IrqLine → Bool
  | .master i => !masterMask.toNat.testBit i.val
  | .slave i => !slaveMask.toNat.testBit i.val

/-- Setting the masks enables and disables lines. -/
theorem Refines.setMasks (h : s.Refines r) (masterMask slaveMask : UInt8) :
    (s.setMasks masterMask slaveMask).Refines { r with enabled := enables masterMask slaveMask } where
  ready := h.ready
  bases := h.bases
  cascade := h.cascade
  masks := ⟨rfl, rfl⟩
  pending l := by
    cases l with
    | master i => exact h.pending (.master i)
    | slave i => exact h.pending (.slave i)
  enabled l := by cases l <;> rfl
  serving := h.serving
  masterService := h.masterService
  slaveService := h.slaveService
  vectors := h.vectors

/-- The lines that are enabled before. -/
theorem Refines.enabled_eq (h : s.Refines r) : r.enabled = enables s.masterMask s.slaveMask := by
  funext l
  rw [h.enabled]
  cases l with
  | master i => rw [maskedLine, Pic.masked, h.masks.1, enables]
  | slave i => rw [maskedLine, Pic.masked, h.masks.2, enables]

/-- A write of the mask of one chip leaves the other as it is. -/
theorem Refines.outb_masks (h : s.Refines r) (mask : UInt8) :
    ({ s with masterMask := mask } : I8259).outb mask MASTER_8259_DATA = s.setMasks mask s.slaveMask ∧
      ({ s with slaveMask := mask } : I8259).outb mask SLAVE_8259_DATA = s.setMasks s.masterMask mask := by
  rw [outb_masterData, outb_slaveData, Pic.outData_ready h.ready.1, Pic.outData_ready h.ready.2, I8259.setMasks,
    I8259.setMasks, ← h.masks.1, ← h.masks.2]
  exact ⟨rfl, rfl⟩

/-- `enable_irq` enables its line and leaves the others as they are. -/
theorem Refines.enableIrq (h : s.Refines r) (l : IrqLine) :
    (s.enableIrq l.irqNum).Refines { r with enabled := Function.update r.enabled l true } := by
  rw [h.enabled_eq]
  cases l with
  | master i =>
    let mask := (s.masterMask.toUInt32 &&& ~~~((1 : UInt32) <<< UInt32.ofNat i.val)).toUInt8
    have henables : enables mask s.slaveMask = Function.update (enables s.masterMask s.slaveMask) (.master i) true := by
      funext k
      cases k with
      | master k =>
        rw [enables, testBit_clear]
        by_cases hk : k = i
        · simp [hk]
        · simp [hk, enables]
      | slave k => rfl
    rw [I8259.enableIrq, if_pos (master_irqNum i).1, ← henables]
    exact (h.outb_masks mask).1 ▸ h.setMasks mask s.slaveMask
  | slave i =>
    let mask := (s.slaveMask.toUInt32 &&& ~~~((1 : UInt32) <<< UInt32.ofNat i.val)).toUInt8
    have henables : enables s.masterMask mask = Function.update (enables s.masterMask s.slaveMask) (.slave i) true := by
      funext k
      cases k with
      | master k => rfl
      | slave k =>
        rw [enables, testBit_clear]
        by_cases hk : k = i
        · simp [hk]
        · simp [hk, enables]
    rw [I8259.enableIrq, if_neg (slave_irqNum i).1, (slave_irqNum i).2.2, ← henables]
    exact (h.outb_masks mask).2 ▸ h.setMasks s.masterMask mask

/-- `disable_irq` disables its line and leaves the others as they are. -/
theorem Refines.disableIrq (h : s.Refines r) (l : IrqLine) :
    (s.disableIrq l.irqNum).Refines { r with enabled := Function.update r.enabled l false } := by
  rw [h.enabled_eq]
  cases l with
  | master i =>
    let mask := (s.masterMask.toUInt32 ||| ((1 : UInt32) <<< UInt32.ofNat i.val)).toUInt8
    have henables : enables mask s.slaveMask =
        Function.update (enables s.masterMask s.slaveMask) (.master i) false := by
      funext k
      cases k with
      | master k =>
        rw [enables, testBit_set]
        by_cases hk : k = i
        · simp [hk]
        · simp [hk, enables]
      | slave k => rfl
    rw [I8259.disableIrq, if_pos (master_irqNum i).1, ← henables]
    exact (h.outb_masks mask).1 ▸ h.setMasks mask s.slaveMask
  | slave i =>
    let mask := (s.slaveMask.toUInt32 ||| ((1 : UInt32) <<< UInt32.ofNat i.val)).toUInt8
    have henables : enables s.masterMask mask =
        Function.update (enables s.masterMask s.slaveMask) (.slave i) false := by
      funext k
      cases k with
      | master k => rfl
      | slave k =>
        rw [enables, testBit_set]
        by_cases hk : k = i
        · simp [hk]
        · simp [hk, enables]
    rw [I8259.disableIrq, if_neg (slave_irqNum i).1, (slave_irqNum i).2.2, ← henables]
    exact (h.outb_masks mask).2 ▸ h.setMasks s.masterMask mask

/-- A device latches a request on its line. -/
theorem Refines.raise (h : s.Refines r) (l : IrqLine) :
    (s.raise l).Refines { r with pending := Function.update r.pending l true } := by
  have hpending := funext h.pending
  cases l with
  | master i =>
    refine ⟨h.ready, h.bases, h.cascade, h.masks, fun k => ?_, fun k => ?_, h.serving, h.masterService, h.slaveService,
      h.vectors⟩
    · rw [hpending]
      cases k with
      | master k =>
        by_cases hk : k = i
        · simp [I8259.raise, latched, hk]
        · simp [I8259.raise, latched, hk]
      | slave k => rfl
    · rw [h.enabled k]
      cases k <;> rfl
  | slave i =>
    refine ⟨h.ready, h.bases, h.cascade, h.masks, fun k => ?_, fun k => ?_, h.serving, h.masterService, h.slaveService,
      h.vectors⟩
    · rw [hpending]
      cases k with
      | master k => rfl
      | slave k =>
        by_cases hk : k = i
        · simp [I8259.raise, latched, hk]
        · simp [I8259.raise, latched, hk]
    · rw [h.enabled k]
      cases k <;> rfl

/-- The handler of a line ends its interrupt, and nothing is being served. -/
theorem Refines.finish (h : s.Refines r) {l : IrqLine} (hserving : s.serving = some l) :
    ({ s.sendEoi l.irqNum with serving := none } : I8259).Refines { r with serving := none } := by
  have hmaster (i : Fin 8) : s.master.isr i = true ↔ l = .master i ∨ i = 2 ∧ ∃ j, l = .slave j := by
    rw [h.masterService, hserving]
    simp
  have hslave (i : Fin 8) : s.slave.isr i = true ↔ l = .slave i := by
    rw [h.slaveService, hserving]
    simp
  cases l with
  | master i =>
    rw [I8259.sendEoi, if_neg (master_irqNum i).2, IrqLine.irqNum, outb_masterCommand, Pic.outCommand_eoi]
    refine ⟨h.ready, h.bases, h.cascade, h.masks, fun k => ?_, fun k => ?_, rfl, fun k => ?_, fun k => ?_, h.vectors⟩
    · rw [h.pending]
      cases k <;> rfl
    · rw [h.enabled]
      cases k <;> rfl
    · simp only [Bool.and_eq_true, hmaster, decide_eq_true_eq]
      simp [eq_comm]
    · simp [hslave]
  | slave i =>
    have htwo : (EOI ||| 2).toUInt8 = (EOI ||| UInt32.ofNat (2 : Fin 8).val).toUInt8 := rfl
    simp only [I8259.sendEoi, if_pos (slave_irqNum i).2.1, (slave_irqNum i).2.2, htwo, outb_slaveCommand,
      outb_masterCommand, Pic.outCommand_eoi]
    refine ⟨h.ready, h.bases, h.cascade, h.masks, fun k => ?_, fun k => ?_, rfl, fun k => ?_, fun k => ?_, h.vectors⟩
    · rw [h.pending]
      cases k <;> rfl
    · rw [h.enabled]
      cases k <;> rfl
    · simp only [Bool.and_eq_true, hmaster, decide_eq_true_eq]
      simp
    · simp only [Bool.and_eq_true, hslave, decide_eq_true_eq]
      simp [eq_comm]

/-- The first pin of the slave with an unmasked request. -/
def slaveRequest (s : I8259) : Option (Fin 8) := (List.finRange 8).find? fun j => s.slave.irr j && !s.slave.masked j

/-- A pin of the master has an unmasked request. -/
def masterRequest (s : I8259) (i : Fin 8) : Bool :=
  Function.update s.master.irr 2 s.slaveRequest.isSome i && !s.master.masked i

/-- The first line in the order of priority with a request is the one that the first pin of the master stands for. -/
theorem Refines.head_queue (h : s.Refines r) : (r.queue irqOrder irqAllows).head? =
    ((List.finRange 8).find? s.masterRequest).bind fun i =>
      if i = 2 then s.slaveRequest.map .slave else some (.master i) := by
  have hpins : List.finRange 8 = [0, 1] ++ ([2] ++ [3, 4, 5, 6, 7]) := rfl
  have horder : irqOrder = [0, 1].map .master ++ ((List.finRange 8).map .slave ++ [3, 4, 5, 6, 7].map .master) := rfl
  have hline (i : Fin 8) (hi : i ≠ 2) :
      (r.pending (.master i) && irqAllows r.enabled (.master i)) = s.masterRequest i := by
    rw [h.pending, irqAllows, h.enabled, masterRequest, Function.update_of_ne hi]
    rfl
  have hpart (pins : List (Fin 8)) (hpins : 2 ∉ pins) :
      (pins.map IrqLine.master).find? (fun l => r.pending l && irqAllows r.enabled l) =
        (pins.find? s.masterRequest).map .master := by
    rw [List.find?_map]
    refine congrArg _ (List.find?_congr fun i hi => ?_)
    exact hline i fun heq => hpins (heq ▸ hi)
  have hslave : ((List.finRange 8).map IrqLine.slave).find? (fun l => r.pending l && irqAllows r.enabled l) =
      if s.master.masked 2 then none else s.slaveRequest.map .slave := by
    rw [List.find?_map]
    cases hmask : s.master.masked 2 with
    | true =>
      rw [List.find?_eq_none.mpr]
      · rfl
      · intro j _
        simp [irqAllows, h.enabled, maskedLine, hmask]
    | false =>
      refine congrArg _ (List.find?_congr fun j _ => ?_)
      simp [irqAllows, h.enabled, h.pending, maskedLine, latched, hmask]
  have htwo : s.masterRequest 2 = (s.slaveRequest.isSome && !s.master.masked 2) := by
    rw [masterRequest, Function.update_self]
  rw [Requests.queue, List.head?_filter, horder, List.find?_append, List.find?_append, hpart _ (by decide),
    hpart _ (by decide), hslave, hpins, List.find?_append, List.find?_append, List.find?_singleton, htwo]
  have hother (pins : List (Fin 8)) (hpins : 2 ∉ pins) : (pins.find? s.masterRequest).bind (fun i =>
      if i = 2 then s.slaveRequest.map IrqLine.slave else some (.master i)) =
        (pins.find? s.masterRequest).map .master := by
    cases hfind : pins.find? s.masterRequest with
    | none => rfl
    | some i =>
      have hne : i ≠ 2 := ne_of_mem_of_not_mem (List.mem_of_find?_eq_some hfind) hpins
      exact if_neg hne
  rw [← hother _ (by decide), ← hother _ (by decide)]
  cases hfirst : [(0 : Fin 8), 1].find? s.masterRequest with
  | some i =>
    have hne : i ≠ 2 := ne_of_mem_of_not_mem (List.mem_of_find?_eq_some hfirst) (by decide)
    rw [Option.bind_some, if_neg hne, Option.some_or, Option.some_or, Option.bind_some, if_neg hne]
  | none => cases hmask : s.master.masked 2 <;> cases hrequest : s.slaveRequest <;> simp

/-- The pin that leads to the slave is the one of the cascade. -/
theorem Refines.cascade_pin (h : s.Refines r) (i : Fin 8) :
    (s.master.cascade.toNat.testBit i.val ∧ s.slave.cascade.toNat = i.val) ↔ i = 2 := by
  rw [h.cascade.1, h.cascade.2]
  revert i
  decide

/-- A line of the master is served. -/
theorem Refines.serve_master (h : s.Refines r) (hidle : s.serving = none) (i : Fin 8) :
    Refines { s with
      master := s.master.acknowledge i
      serving := some (.master i)
      vectors := s.vectors ++ [s.master.base + UInt8.ofNat i.val] } (r.serve (.master i)) := by
  refine ⟨h.ready, h.bases, h.cascade, h.masks, fun k => ?_, fun k => ?_, rfl, fun k => ?_, fun k => ?_, ?_⟩
  · rw [Requests.serve]
    cases k with
    | master k =>
      by_cases hk : k = i
      · simp [hk, latched, Pic.acknowledge]
      · simp [hk, latched, Pic.acknowledge, h.pending]
    | slave k => simp [latched, h.pending]
  · rw [Requests.serve, h.enabled]
    cases k <;> rfl
  · have hbefore := h.masterService k
    rw [hidle] at hbefore
    by_cases hk : k = i
    · simp [hk, Pic.acknowledge]
    · have hk' : i ≠ k := fun heq => hk heq.symm
      simpa [hk, hk', Pic.acknowledge] using hbefore
  · have hbefore := h.slaveService k
    rw [hidle] at hbefore
    simpa using hbefore
  · rw [h.vectors, h.bases.1, Requests.serve, List.map_append]
    rfl

/-- A line of the slave is served on both chips. -/
theorem Refines.serve_slave (h : s.Refines r) (hidle : s.serving = none) (j : Fin 8) :
    Refines { s with
      master := { s.master with isr := Function.update s.master.isr 2 true }
      slave := s.slave.acknowledge j
      serving := some (.slave j)
      vectors := s.vectors ++ [s.slave.base + UInt8.ofNat j.val] } (r.serve (.slave j)) := by
  refine ⟨h.ready, h.bases, h.cascade, h.masks, fun k => ?_, fun k => ?_, rfl, fun k => ?_, fun k => ?_, ?_⟩
  · rw [Requests.serve]
    cases k with
    | master k => simp [latched, h.pending]
    | slave k =>
      by_cases hk : k = j
      · simp [hk, latched, Pic.acknowledge]
      · simp [hk, latched, Pic.acknowledge, h.pending]
  · rw [Requests.serve, h.enabled]
    cases k <;> rfl
  · have hbefore := h.masterService k
    rw [hidle] at hbefore
    by_cases hk : k = 2
    · simp [hk]
    · simpa [hk] using hbefore
  · have hbefore := h.slaveService k
    rw [hidle] at hbefore
    by_cases hk : k = j
    · simp [hk, Pic.acknowledge]
    · have hk' : j ≠ k := fun heq => hk heq.symm
      simpa [hk, hk', Pic.acknowledge] using hbefore
  · rw [h.vectors, h.bases.2, Requests.serve, List.map_append]
    rfl

/-- The processor takes the first line in the order of priority. -/
theorem Refines.inta (h : s.Refines r) (hidle : s.serving = none) :
    Option.Rel Refines s.inta ((r.queue irqOrder irqAllows).head?.map r.serve) := by
  have hmaster (i : Fin 8) : s.master.isr i = false := by
    rw [← Bool.not_eq_true, h.masterService, hidle]
    simp
  have hslave (i : Fin 8) : s.slave.isr i = false := by
    rw [← Bool.not_eq_true, h.slaveService, hidle]
    simp
  have hpins : s.master.request (Function.update s.master.irr 2 s.slaveRequest.isSome) =
      (List.finRange 8).find? s.masterRequest := Pic.request_idle hmaster _
  have hrequest : s.slave.request s.slave.irr = s.slaveRequest := Pic.request_idle hslave _
  rw [h.head_queue, I8259.inta, hrequest, hpins]
  cases hfirst : (List.finRange 8).find? s.masterRequest with
  | none => exact .none
  | some i =>
    simp only [Option.bind_some, h.cascade_pin]
    split
    next htwo =>
      subst htwo
      have hsome := List.find?_some hfirst
      rw [masterRequest, Function.update_self, Bool.and_eq_true] at hsome
      obtain ⟨j, hj⟩ := Option.isSome_iff_exists.mp hsome.1
      rw [hj]
      exact .some (h.serve_slave hidle j)
    next => exact .some (h.serve_master hidle i)

/-- Every event of the controllers is the event of the lines. -/
theorem Refines.step (h : s.Refines r) (e : RequestEvent IrqLine) :
    Option.Rel Refines (s.step e) (r.step irqOrder irqAllows e) := by
  cases e with
  | raise l => exact .some (h.raise l)
  | enable l => exact .some (h.enableIrq l)
  | disable l => exact .some (h.disableIrq l)
  | take =>
    rw [I8259.step, Requests.step, h.serving]
    cases hserving : s.serving with
    | some l => exact .none
    | none => exact h.inta hserving
  | finish =>
    rw [I8259.step, Requests.step, h.serving]
    cases hserving : s.serving with
    | some l => exact .some (h.finish hserving)
    | none => exact .none

/-- The static data of the driver, over chips in any state. -/
def start (master slave : Pic) : I8259 :=
  { masterMask := 0xFF, slaveMask := 0xFF, master, slave, serving := none, vectors := [] }

/-- Lines of which only the cascade is enabled. -/
def lines : Requests IrqLine :=
  { pending := fun _ => false, enabled := fun l => l = .master 2, serving := none, taken := [] }

/-- The initialisation leaves nothing but the cascade enabled, whatever the chips were doing. -/
theorem i8259Init_refines (master slave : Pic) : (start master slave).i8259Init.Refines lines := by
  let chip (icw2 icw3 : UInt8) : Pic :=
    { imr := 0xFF, irr := fun _ => false, isr := fun _ => false, base := icw2, cascade := icw3, expects := 0 }
  let programmed : I8259 :=
    { start master slave with master := chip ICW2_MASTER ICW3_MASTER, slave := chip ICW2_SLAVE ICW3_SLAVE }
  have hinit : (start master slave).i8259Init = programmed.enableIrq (IrqLine.master 2).irqNum := by
    simp only [i8259Init, outb_masterCommand, outb_masterData, outb_slaveCommand, outb_slaveData]
    simp only [start, Pic.outData_init]
    rfl
  have hmasked : ∀ i : Fin 8, (0xFF : UInt8).toNat.testBit i.val = true := by decide
  have hprogrammed : programmed.Refines { lines with enabled := fun _ => false } := by
    refine ⟨⟨rfl, rfl⟩, ⟨rfl, rfl⟩, ⟨rfl, rfl⟩, ⟨rfl, rfl⟩, fun l => ?_, fun l => ?_, rfl, fun i => ?_, fun i => ?_,
      rfl⟩
    · cases l <;> rfl
    · cases l with
      | master i => exact (congrArg not (hmasked i)).symm
      | slave i => exact (congrArg not (hmasked i)).symm
    · simp [programmed, chip, start]
    · simp [programmed, chip, start]
  have henabled : Function.update (fun _ => false) (IrqLine.master 2) true = lines.enabled := by
    funext l
    by_cases hl : l = .master 2
    · simp [hl, lines]
    · simp [hl, lines]
  have hcascade : (programmed.enableIrq (IrqLine.master 2).irqNum).Refines
      { lines with enabled := Function.update (fun _ => false) (IrqLine.master 2) true } := hprogrammed.enableIrq _
  rw [hinit]
  rw [henabled] at hcascade
  exact hcascade

/-- The lines that can interrupt now, the next one first. -/
def waiting (s : I8259) : List IrqLine :=
  irqOrder.filter fun l => s.latched l && irqAllows (fun l => !s.maskedLine l) l

theorem Refines.waiting (h : s.Refines r) : r.queue irqOrder irqAllows = s.waiting := by
  rw [Requests.queue, I8259.waiting, funext h.pending, funext h.enabled]

/-- Related states take the same runs. -/
theorem Refines.run (h : s.Refines r) (events : List (RequestEvent IrqLine)) :
    Option.Rel Refines (Library.run I8259.step s events) (Library.run (Requests.step irqOrder irqAllows) r events) :=
  run_rel (fun _ _ h e => h.step e) h events

/-- Every run of the initialised controllers is a run of 15 lines in the order of their priority. -/
theorem init_run_refines (master slave : Pic) (events : List (RequestEvent IrqLine)) :
    Option.Rel Refines (Library.run I8259.step (start master slave).i8259Init events)
      (Library.run (Requests.step irqOrder irqAllows) lines events) :=
  (i8259Init_refines master slave).run events

/-- A state that the controllers reach stands for one of the lines. -/
theorem reached_refines {master slave : Pic} {events : List (RequestEvent IrqLine)}
    (h : Library.run I8259.step (start master slave).i8259Init events = some s) :
    ∃ r : Requests IrqLine, s.Refines r := by
  have hrel := (i8259Init_refines master slave).run events
  rw [h] at hrel
  generalize Library.run (Requests.step irqOrder irqAllows) lines events = abstract at hrel
  cases hrel with
  | some hs => exact ⟨_, hs⟩

/-- After any run the interrupts that wait come in the order of their priority, each of them once. -/
theorem interrupts_in_order (master slave : Pic) {events : List (RequestEvent IrqLine)}
    (h : Library.run I8259.step (start master slave).i8259Init events = some s) (hidle : s.serving = none) {n : ℕ}
    (hn : n ≤ s.waiting.length) :
    ∃ s', Library.run I8259.step s (List.replicate n [RequestEvent.take, .finish]).flatten = some s' ∧
      s'.vectors = s.vectors ++ (s.waiting.take n).map IrqLine.vector ∧ s'.waiting = s.waiting.drop n := by
  obtain ⟨r, hr⟩ := reached_refines h
  rw [← hr.waiting] at hn ⊢
  obtain ⟨r', hrun, hidle', htaken, hqueue⟩ := Requests.run_serves (by decide) (hr.serving.trans hidle) hn
  have hrel := hr.run (List.replicate n [RequestEvent.take, .finish]).flatten
  rw [hrun] at hrel
  generalize Library.run I8259.step s _ = last at hrel
  cases hrel with
  | @some s' _ hs' =>
    refine ⟨s', rfl, ?_, ?_⟩
    · rw [hs'.vectors, htaken, List.map_append, hr.vectors]
    · rw [← hs'.waiting, hqueue]

/-- A chip in the middle of an initialisation, with all its lines raised. -/
def dirtyPic : Pic :=
  { imr := 0, irr := fun _ => true, isr := fun _ => true, base := 8, cascade := 0, expects := 3 }

/-- The lines of the timer, the keyboard and the clock are raised, with the keyboard disabled. -/
def clockEvents : List (RequestEvent IrqLine) :=
  [.enable (.slave 0), .enable (.master 1), .enable (.master 0), .disable (.master 1), .raise (.slave 0),
    .raise (.master 1), .raise (.master 0)]

/-- The controllers behind these events. -/
def clockRaised : I8259 :=
  (Library.run I8259.step (start dirtyPic dirtyPic).i8259Init clockEvents).getD (start dirtyPic dirtyPic)

theorem clockRaised_run :
    Library.run I8259.step (start dirtyPic dirtyPic).i8259Init clockEvents = some clockRaised := rfl

/-- The timer comes before the clock. -/
theorem interrupts_in_order_clock :
    ∃ s', Library.run I8259.step clockRaised [.take, .finish, .take, .finish] = some s' ∧
      s'.vectors = [0x20, 0x28] := by
  obtain ⟨s', hrun, hvectors, -⟩ :=
    interrupts_in_order dirtyPic dirtyPic clockRaised_run rfl (n := 2) (by decide)
  refine ⟨s', hrun, ?_⟩
  rw [hvectors]
  decide

/-- Along any run an interrupt comes no more often than its line is raised, and none is lost. -/
theorem interrupts_conserved (master slave : Pic) {before events : List (RequestEvent IrqLine)}
    (h : Library.run I8259.step (start master slave).i8259Init before = some s)
    (hrun : Library.run I8259.step s events = some s') (l : IrqLine) :
    ∃ more, s'.vectors = s.vectors ++ more ∧
      more.count l.vector + (s'.latched l).toNat ≤ Requests.raises l events + (s.latched l).toNat ∧
      (s.latched l = true ∨ 0 < Requests.raises l events → s'.latched l = true ∨ l.vector ∈ more) := by
  obtain ⟨r, hr⟩ := reached_refines h
  have hrel := hr.run events
  rw [hrun] at hrel
  generalize habstract : Library.run (Requests.step irqOrder irqAllows) r events = abstract at hrel
  cases hrel with
  | @some _ r' hr' =>
    obtain ⟨more, htaken, hcount, hwaits⟩ := Requests.run_line habstract l
    refine ⟨more.map IrqLine.vector, ?_, ?_, ?_⟩
    · rw [hr'.vectors, htaken, List.map_append, hr.vectors]
    · rw [List.count_map_of_injective _ _ vector_injective, ← hr'.pending, ← hr.pending]
      exact hcount
    · rw [← hr'.pending, ← hr.pending, List.mem_map_of_injective vector_injective]
      exact hwaits

/-- The clock, raised once more, has come or is still latched. -/
theorem interrupts_conserved_clock : ∃ s' more,
    Library.run I8259.step clockRaised [.take, .finish, .raise (.slave 0), .take, .finish] = some s' ∧
      s'.vectors = clockRaised.vectors ++ more ∧ more.count (0x28 : UInt8) + (s'.latched (.slave 0)).toNat ≤ 2 ∧
      (s'.latched (.slave 0) = true ∨ (0x28 : UInt8) ∈ more) := by
  let events : List (RequestEvent IrqLine) := [.take, .finish, .raise (.slave 0), .take, .finish]
  obtain ⟨s', hrun⟩ : ∃ s', Library.run I8259.step clockRaised events = some s' := ⟨_, rfl⟩
  obtain ⟨more, hvectors, hcount, hwaits⟩ :=
    interrupts_conserved dirtyPic dirtyPic clockRaised_run hrun (.slave 0)
  exact ⟨s', more, hrun, hvectors, hcount, hwaits (.inr (by decide))⟩

end I8259

end OsKernel
