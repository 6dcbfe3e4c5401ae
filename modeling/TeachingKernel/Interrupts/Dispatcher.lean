import TeachingKernel.Interrupts.Controller
import TeachingKernel.Lib.Runs

/-!
# The interrupt dispatcher

`IRQ::init` and `InterruptHandler` of P3 to P6, with the controllers and the devices
around them. Devices raise and lower their lines at any time. The processor
acknowledges an interrupt only outside of the dispatcher, since the gates of the
interrupts disable it, and no handler enables it again.
-/

namespace TeachingKernel.Interrupts

abbrev PortWrite := Nat × Byte

def irqRemap : List PortWrite :=
  [(0x20, 0x11), (0xA0, 0x11), (0x21, 0x20), (0xA1, 0x28), (0x21, 0x04), (0xA1, 0x02),
    (0x21, 0x01), (0xA1, 0x01), (0x21, 0x0), (0xA1, 0x0)]

def irqTableSize : Word := 16

def irqBase : Word := 32

def generatedBySlavePic (intNo : Word) : Bool := intNo > 7

/-- What `dispatch_interrupt` sends to the controllers behind the handler. -/
def endOfInterrupt (intNo : Word) : List PortWrite :=
  (if generatedBySlavePic intNo then [(0xA0, 0x20)] else []) ++ [(0x20, 0x20)]

/-- The kernel, with the port writes that the code running with interrupts disabled
still has to do, and the interrupts dispatched so far with the handlers called. -/
structure Kernel (H : Type) where
  pics : Pics
  handlerTable : Word → Option H
  writes : List PortWrite
  dispatched : List (Word × Option H)

namespace Kernel

variable {H : Type}

/-- `dispatch_interrupt`, up to its first port write. `none` is a failed assertion. -/
def dispatchInterrupt (k : Kernel H) (regIntNo : Word) : Option (Kernel H) :=
  let intNo := regIntNo - irqBase
  if intNo < irqTableSize then
    some { k with
      dispatched := k.dispatched ++ [(intNo, k.handlerTable intNo)]
      writes := endOfInterrupt intNo }
  else none

def registerHandler (k : Kernel H) (irqCode : Word) (handler : H) : Option (Kernel H) :=
  if irqCode < irqTableSize then
    some { k with handlerTable := fun c => if c = irqCode then some handler else k.handlerTable c }
  else none

def deregisterHandler (k : Kernel H) (irqCode : Word) : Option (Kernel H) :=
  if irqCode < irqTableSize then
    some { k with handlerTable := fun c => if c = irqCode then none else k.handlerTable c }
  else none

end Kernel

inductive Event (H : Type) where
  | raise (line : Nat)
  | lower (line : Nat)
  | acknowledge
  | outportb
  | registerHandler (irqCode : Word) (handler : H)
  | deregisterHandler (irqCode : Word)

/-- Line 2 of the master is the cascade, and no device has it. -/
def DeviceLine (line : Nat) : Prop := line < 16 ∧ line ≠ 2

instance (line : Nat) : Decidable (DeviceLine line) := inferInstanceAs (Decidable (_ ∧ _))

namespace Kernel

variable {H : Type}

/-- The stub of the vector leaves it in the interrupt number of the registers. -/
def acknowledge (k : Kernel H) : Option (Kernel H) :=
  if k.writes = [] ∧ k.pics.intr then
    let (pics, vector) := k.pics.iac
    { k with pics := pics }.dispatchInterrupt (vector.setWidth 32)
  else none

def outportb (k : Kernel H) : Option (Kernel H) :=
  match k.writes with
  | [] => none
  | (address, value) :: rest =>
      (k.pics.write address value).map fun pics => { k with pics := pics, writes := rest }

def exec (k : Kernel H) : Event H → Option (Kernel H)
  | .raise line =>
      if DeviceLine line then some { k with pics := k.pics.raiseIrq line } else none
  | .lower line =>
      if DeviceLine line then some { k with pics := k.pics.lowerIrq line } else none
  | .acknowledge => k.acknowledge
  | .outportb => k.outportb
  | .registerHandler irqCode handler => k.registerHandler irqCode handler
  | .deregisterHandler irqCode => k.deregisterHandler irqCode

def step (k : Kernel H) (a : Event H) (k' : Kernel H) : Prop := k.exec a = some k'

def boot (pics : Pics) (handlerTable : Word → Option H) : Kernel H :=
  ⟨pics, handlerTable, irqRemap, []⟩

/-- Outside of `IRQ::init` and of the dispatcher. -/
def Idle (k : Kernel H) : Prop := k.writes = []

instance (k : Kernel H) : Decidable k.Idle := inferInstanceAs (Decidable (_ = _))

end Kernel

end TeachingKernel.Interrupts
