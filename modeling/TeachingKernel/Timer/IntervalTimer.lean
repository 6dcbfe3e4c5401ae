import TeachingKernel.Interrupts.Dispatcher

/-!
# The interval timer chip

Counter 0 of the 82C54 that `SimpleTimer::set_frequency` programs, as the simulator
under `bochs-2.6.8` implements it, in the mode that the kernel selects: one clock at a
time, and many clocks at once with the changes of the output looked for only when they
are due. The handler of the output raises and lowers line 0 of the interrupt
controller. Latching and reading the counter are left out, and so are the other modes.
-/

namespace TeachingKernel.Timer

inductive WriteState where
  | lsByte | msByte | lsByteMultiple | msByteMultiple
  deriving DecidableEq, Repr

/-- `counter_type`, with the values handed to the output handler so far. -/
structure Counter where
  gate : Bool
  outPin : Bool
  count : Nat
  inlatch : BitVec 16
  mode : Nat
  bcdMode : Bool
  countBinary : Nat
  triggerGate : Bool
  writeState : WriteState
  countWritten : Bool
  firstPass : Bool
  nextChangeTime : Nat
  changes : List Bool
  deriving DecidableEq, Repr

namespace Counter

def init : Counter :=
  ⟨true, true, 0, 0, 4, false, 0, false, .lsByte, true, false, 0, []⟩

def setOut (c : Counter) (data : Bool) : Counter :=
  if c.outPin ≠ data then { c with outPin := data, changes := c.changes ++ [data] } else c

def setBinaryToCount (c : Counter) : Counter :=
  if c.bcdMode then { c with countBinary :=
    c.count % 16 + 10 * (c.count / 16 % 16) + 100 * (c.count / 256 % 16) +
      1000 * (c.count / 4096 % 16) }
  else { c with countBinary := c.count }

def setCountToBinary (c : Counter) : Counter :=
  if c.bcdMode then { c with count :=
    c.countBinary % 10 + 16 * (c.countBinary / 10 % 10) + 256 * (c.countBinary / 100 % 10) +
      4096 * (c.countBinary / 1000 % 10) }
  else { c with count := c.countBinary }

def setCount (c : Counter) (data : Nat) : Counter :=
  { c with count := data % 0x10000 }.setBinaryToCount

def decrement (c : Counter) : Counter :=
  if c.count = 0 then
    if c.bcdMode then { c with count := 0x9999, countBinary := 9999 }
    else { c with count := 0xFFFF, countBinary := 0xFFFF }
  else { c with countBinary := c.countBinary - 1 }.setCountToBinary

def lowPred (countBinary : Nat) : Nat := (countBinary + 0xFFFF) % 0x10000

/-- Case 2 of `clock`: the rate generator. -/
def clock (c : Counter) : Counter :=
  let c :=
    if c.countWritten then
      if c.triggerGate ∨ c.firstPass then
        let c := c.setCount c.inlatch.toNat
        let c := { c with nextChangeTime := lowPred c.countBinary }.setOut true
        { c with firstPass := false }
      else if c.gate then
        let c := c.decrement
        let c := { c with nextChangeTime := lowPred c.countBinary }
        if c.count = 1 then
          { ({ c with nextChangeTime := 1 }.setOut false) with firstPass := true }
        else c
      else { c with nextChangeTime := 0 }
    else { c with nextChangeTime := 0 }
  { c with triggerGate := false }

/-- The loop of `decrement_multiple`, which ends after at most `cycles` rounds. -/
def decrementLoop : Nat → Counter → Nat → Counter
  | 0, c, _ => c
  | fuel + 1, c, cycles =>
      if cycles = 0 then c
      else if cycles ≤ c.countBinary then
        { c with countBinary := c.countBinary - cycles }.setCountToBinary
      else
        decrementLoop fuel ({ c with countBinary := 0 }.setCountToBinary.decrement)
          (cycles - (c.countBinary + 1))

def decrementMultiple (c : Counter) (cycles : Nat) : Counter := decrementLoop cycles c cycles

/-- The loop of `clock_multiple` for mode 2, which ends after at most `cycles` rounds. -/
def clockLoop : Nat → Counter → Nat → Counter
  | 0, c, _ => c
  | fuel + 1, c, cycles =>
      if cycles = 0 then c
      else if c.nextChangeTime = 0 then
        if c.countWritten ∧ ¬ c.firstPass ∧ c.gate then c.decrementMultiple cycles else c
      else if c.nextChangeTime > cycles then
        { c.decrementMultiple cycles with nextChangeTime := c.nextChangeTime - cycles }
      else
        clockLoop fuel (c.decrementMultiple (c.nextChangeTime - 1)).clock
          (cycles - c.nextChangeTime)

def clockMultiple (c : Counter) (cycles : Nat) : Counter := clockLoop cycles c cycles

def program (c : Counter) (data : Byte) : Counter :=
  let rw := (data >>> 4 &&& 3#8).toNat
  let m := (data >>> 1 &&& 7#8).toNat
  -- a latch command touches nothing that is modelled
  if rw = 0 then c
  else
    let c := { c with
      inlatch := 0
      countWritten := false
      firstPass := true
      bcdMode := data.getLsbD 0
      mode := m
      writeState := if rw = 1 then .lsByte else if rw = 2 then .msByte else .lsByteMultiple }
    { c.setOut (m ≠ 0) with nextChangeTime := 0 }

def writeCount (c : Counter) (data : Byte) : Counter :=
  let c := match c.writeState with
    | .lsByteMultiple => { c with inlatch := data.setWidth 16, writeState := .msByteMultiple }
    | .lsByte => { c with inlatch := data.setWidth 16, countWritten := true }
    | .msByteMultiple => { c with
        writeState := .lsByteMultiple
        inlatch := c.inlatch ||| (data.setWidth 16 <<< 8)
        countWritten := true }
    | .msByte => { c with inlatch := data.setWidth 16 <<< 8, countWritten := true }
  let c := if c.countWritten ∧ c.writeState ≠ .msByteMultiple then c.setCount c.inlatch.toNat else c
  if c.mode = 0 then
    { (if c.writeState = .msByteMultiple then c.setOut false else c) with nextChangeTime := 1 }
  else if c.mode = 1 ∨ c.mode = 5 then
    if c.triggerGate then { c with nextChangeTime := 1 } else c
  else { c with nextChangeTime := 1 }

/-- `bx_pit_c::write`, as far as it reaches counter 0. -/
def write (c : Counter) (address : Nat) (value : Byte) : Counter :=
  if address = 0x40 then c.writeCount value
  else if address = 0x43 ∧ value >>> 6 = 0#8 then c.program value
  else c

end Counter

namespace SimpleTimer

/-- The port writes of `set_frequency`. `none` is a division by zero. -/
def setFrequency (hz : Int) : Option (List Interrupts.PortWrite) :=
  if hz = 0 then none
  else
    let divisor := Int.tdiv 1193180 hz
    some [(0x43, 0x34), (0x40, BitVec.ofInt 8 divisor), (0x40, BitVec.ofInt 8 (divisor / 256))]

end SimpleTimer

end TeachingKernel.Timer
