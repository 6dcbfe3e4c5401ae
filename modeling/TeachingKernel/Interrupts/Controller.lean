import TeachingKernel.Lib.LineRegister
import TeachingKernel.Lib.Ring

/-!
# The interrupt controllers

The pair of 8259A controllers that the kernel programs, as the simulator under
`bochs-2.6.8` implements them: the request, in-service and mask registers, the
commands written to the four ports, the two input operations of the devices and the
acknowledgement by the processor. Reading the registers back and the poll mode are
left out; the kernel reads no port of a controller.
-/

namespace TeachingKernel.Interrupts

open LineRegister RingLoop

structure Pic where
  interruptOffset : Byte
  autoEoi : Bool
  imr : Byte
  isr : Byte
  irr : Byte
  irq : Nat
  lowestPriority : Nat
  int : Bool
  irqIn : Byte
  inInit : Bool
  requires4 : Bool
  byteExpected : Nat
  specialMask : Bool
  rotateOnAutoEoi : Bool
  edgeLevel : Byte
  deriving DecidableEq

namespace Pic

def highestPriority (p : Pic) : Nat :=
  if p.lowestPriority + 1 > 7 then 0 else p.lowestPriority + 1

/-- The request that `service_master_pic` and `service_slave_pic` signal, if any. -/
def signalled (p : Pic) : Option Nat :=
  if p.int then none
  else
    let maxIrq :=
      if p.specialMask then p.highestPriority
      else if p.isr ≠ 0#8 then seek 8 p.isr.getLsbD 8 p.highestPriority
      else p.highestPriority
    -- the highest priority interrupt is in service
    if ¬ p.specialMask ∧ p.isr ≠ 0#8 ∧ maxIrq = p.highestPriority then none
    else
      let unmaskedRequests := p.irr &&& ~~~p.imr
      if unmaskedRequests ≠ 0#8 then
        search 8 (fun irq => !(p.specialMask && p.isr.getLsbD irq) && unmaskedRequests.getLsbD irq)
          maxIrq 8 p.highestPriority
      else none

def signal (p : Pic) (irq : Nat) : Pic := { p with int := true, irq := irq }

def clearHighestInterrupt (p : Pic) : Pic :=
  match search 8 p.isr.getLsbD p.highestPriority 8 p.highestPriority with
  | none => p
  | some irq => { p with isr := clearLine p.isr irq }

def raise (p : Pic) (line : Nat) : Pic :=
  { p with irqIn := setLine p.irqIn line, irr := setLine p.irr line }

def lower (p : Pic) (line : Nat) : Pic :=
  { p with irqIn := clearLine p.irqIn line, irr := clearLine p.irr line }

def accept (p : Pic) : Pic :=
  let p := if p.edgeLevel.getLsbD p.irq then p else { p with irr := clearLine p.irr p.irq }
  if ¬ p.autoEoi then { p with isr := setLine p.isr p.irq }
  else if p.rotateOnAutoEoi then { p with lowestPriority := p.irq }
  else p

def init1 (p : Pic) (value : Byte) : Option Pic :=
  -- single mode and level sensitive mode are not supported
  if value.getLsbD 1 ∨ value.getLsbD 3 then none
  else some { p with
    inInit := true
    requires4 := value.getLsbD 0
    byteExpected := 2
    imr := 0#8
    isr := 0#8
    irr := 0#8
    lowestPriority := 7
    int := false
    autoEoi := false
    rotateOnAutoEoi := false }

/-- A write to the first port that is no initialization command, and whether the
requests are looked at again behind it. `none` is a panic of the simulator. -/
def operation (p : Pic) (value : Byte) : Option (Pic × Bool) :=
  if value &&& 0x18#8 = 0x08#8 then
    if value.getLsbD 2 then some (p, false)
    else if (value &&& 0x60#8) >>> 5 = 2#8 then some ({ p with specialMask := false }, false)
    else if (value &&& 0x60#8) >>> 5 = 3#8 then some ({ p with specialMask := true }, true)
    else some (p, false)
  else if value = 0x00#8 ∨ value = 0x80#8 then
    some ({ p with rotateOnAutoEoi := decide (value ≠ 0#8) }, false)
  else if value = 0xA0#8 ∨ value = 0x20#8 then
    let p := p.clearHighestInterrupt
    if value = 0xA0#8 then
      some ({ p with
        lowestPriority := if p.lowestPriority + 1 > 7 then 0 else p.lowestPriority + 1 }, true)
    else some (p, true)
  else if value = 0x40#8 then some (p, false)
  else if 0x60#8 ≤ value ∧ value ≤ 0x67#8 then
    some ({ p with isr := clearLine p.isr (value - 0x60#8).toNat }, true)
  else if 0xC0#8 ≤ value ∧ value ≤ 0xC7#8 then
    some ({ p with lowestPriority := (value - 0xC0#8).toNat }, false)
  else if 0xE0#8 ≤ value ∧ value ≤ 0xE7#8 then
    some ({ p with
      isr := clearLine p.isr (value - 0xE0#8).toNat
      lowestPriority := (value - 0xE0#8).toNat }, true)
  else if value = 0x02#8 then some (p, false)
  else none

/-- A write to the second port: the rest of an initialization, or the mask. -/
def data (p : Pic) (value : Byte) : Option (Pic × Bool) :=
  if p.inInit then
    if p.byteExpected = 2 then
      some ({ p with interruptOffset := value &&& 0xF8#8, byteExpected := 3 }, false)
    else if p.byteExpected = 3 then
      if p.requires4 then some ({ p with byteExpected := 4 }, false)
      else some ({ p with inInit := false }, false)
    else if p.byteExpected = 4 then
      -- only 80x86 mode is supported
      if value.getLsbD 0 then some ({ p with autoEoi := value.getLsbD 1, inInit := false }, false)
      else none
    else none
  else some ({ p with imr := value }, true)

end Pic

/-- The state of `bx_pic_c`, and the interrupt request pin of the processor. -/
structure Pics where
  master : Pic
  slave : Pic
  intr : Bool
  deriving DecidableEq

namespace Pics

def init : Pics where
  master := ⟨0x08, false, 0xFF, 0, 0, 0, 7, false, 0, false, false, 0, false, false, 0⟩
  slave := ⟨0x70, false, 0xFF, 0, 0, 0, 7, false, 0, false, false, 0, false, false, 0⟩
  intr := false

def serviceMasterPic (s : Pics) : Pics :=
  match s.master.signalled with
  | none => s
  | some irq => { s with master := s.master.signal irq, intr := true }

/-- The first case of `raise_irq`. -/
def raiseMaster (s : Pics) (line : Nat) : Pics :=
  if s.master.irqIn.getLsbD line then s
  else serviceMasterPic { s with master := s.master.raise line }

def serviceSlavePic (s : Pics) : Pics :=
  match s.slave.signalled with
  | none => s
  | some irq => raiseMaster { s with slave := s.slave.signal irq } 2

def raiseIrq (s : Pics) (irqNo : Nat) : Pics :=
  if irqNo ≤ 7 then s.raiseMaster irqNo
  else if irqNo ≤ 15 then
    if s.slave.irqIn.getLsbD (irqNo % 8) then s
    else serviceSlavePic { s with slave := s.slave.raise (irqNo % 8) }
  else s

def lowerIrq (s : Pics) (irqNo : Nat) : Pics :=
  if irqNo ≤ 7 then
    if s.master.irqIn.getLsbD irqNo then { s with master := s.master.lower irqNo } else s
  else if irqNo ≤ 15 then
    if s.slave.irqIn.getLsbD (irqNo % 8) then { s with slave := s.slave.lower (irqNo % 8) } else s
  else s

def iac (s : Pics) : Pics × Byte :=
  let s : Pics := { s with intr := false, master := { s.master with int := false } }
  if s.master.irr = 0#8 then (s, s.master.interruptOffset + 7)
  else
    let irq := s.master.irq
    let s : Pics := { s with master := s.master.accept }
    if irq ≠ 2 then
      (s.serviceMasterPic, BitVec.ofNat 8 irq + s.master.interruptOffset)
    else
      let s : Pics := { s with
        slave := { s.slave with int := false }
        master := { s.master with irqIn := clearLine s.master.irqIn 2 } }
      if s.slave.irr = 0#8 then (s, s.slave.interruptOffset + 7)
      else
        let vector := BitVec.ofNat 8 s.slave.irq + s.slave.interruptOffset
        let s : Pics := { s with slave := s.slave.accept }
        (s.serviceSlavePic.serviceMasterPic, vector)

def afterMaster (s : Pics) (out : Pic × Bool) : Pics :=
  let s : Pics := { s with master := out.1 }
  if out.2 then s.serviceMasterPic else s

def afterSlave (s : Pics) (out : Pic × Bool) : Pics :=
  let s : Pics := { s with slave := out.1 }
  if out.2 then s.serviceSlavePic else s

/-- `outb` to a port of the controllers. `none` is a panic of the simulator. -/
def write (s : Pics) (address : Nat) (value : Byte) : Option Pics :=
  if address = 0x20 then
    if value.getLsbD 4 then
      (s.master.init1 value).map fun p => { s with master := p, intr := false }
    else (s.master.operation value).map s.afterMaster
  else if address = 0x21 then (s.master.data value).map s.afterMaster
  else if address = 0xA0 then
    if value.getLsbD 4 then
      (s.slave.init1 value).map fun p => { s with
        slave := p
        master := { s.master with irqIn := clearLine s.master.irqIn 2 } }
    else (s.slave.operation value).map s.afterSlave
  else if address = 0xA1 then (s.slave.data value).map s.afterSlave
  else some s

end Pics

end TeachingKernel.Interrupts
