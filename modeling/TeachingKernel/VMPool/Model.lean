import TeachingKernel.Lib.ByteMemory
import TeachingKernel.Lib.ForLoop
import TeachingKernel.Machine

/-!
# The virtual memory pool

`VMPool` of P4. The list of regions is an array in the first page of the pool
itself, so every list access reads or writes the memory `m`. `frame_pool` is
stored by the constructor and never used; the page table enters `release` as the
page-freeing operation `freePage` on whatever state `σ` it acts on.
-/

namespace TeachingKernel.VM

open ForLoop

structure RegionInfo where
  startFrame : Word
  size : Word
  deriving DecidableEq, Repr

structure VMPool where
  baseAddress : Word
  size : Word
  numAllocated : Word
  allocatedList : Word

/-- Why a call does not return: a failed assertion, or a loop still running
after the given number of iterations. -/
inductive Stop where
  | assertion
  | running
  deriving DecidableEq, Repr

/-- The address of `allocated_list[i]`, a record of two words. -/
def entryAddr (list : Word) (i : Nat) : Word := list + BitVec.ofNat 32 (8 * i)

def readRegion (m : Memory) (list : Word) (i : Nat) : RegionInfo :=
  ⟨m.readWord (entryAddr list i), m.readWord (entryAddr list i + 4)⟩

def writeRegion (m : Memory) (list : Word) (i : Nat) (x : RegionInfo) : Memory :=
  (m.writeWord (entryAddr list i) x.startFrame).writeWord (entryAddr list i + 4) x.size

/-- `((_size - 1) / (4 KB) + 1) * 4 KB` -/
def roundToPages (size : Word) : Word := ((size - 1) / pageSize + 1) * pageSize

namespace VMPool

/-- The constructor. Its assertion looks at the member `base_address` before it is
assigned, so at the value `stale` that the memory of the object holds. -/
def construct (stale base size : Word) (m : Memory) : Except Stop (VMPool × Memory) :=
  if stale &&& 0x3FF#32 = 0 then
    .ok ({ baseAddress := base, size := roundToPages size, numAllocated := 1,
           allocatedList := base },
      writeRegion m base 0 ⟨base, pageSize⟩)
  else .error .assertion

def entry (p : VMPool) (m : Memory) (i : Nat) : RegionInfo := readRegion m p.allocatedList i

def shiftUp (list : Word) : Nat → Word → Word → Memory → Except Stop Memory
  | 0, _, _, _ => .error .running
  | fuel + 1, i, index, m =>
      if i ≥ index then
        shiftUp list fuel (i - 1) index
          (writeRegion m list (i + 1).toNat (readRegion m list i.toNat))
      else .ok m

def insertItem (p : VMPool) (m : Memory) (x : RegionInfo) (index : Word) :
    Except Stop (VMPool × Memory) := do
  let m ← shiftUp p.allocatedList (p.numAllocated.toNat + 1) (p.numAllocated - 1) index m
  .ok ({ p with numAllocated := p.numAllocated + 1 },
    writeRegion m p.allocatedList index.toNat x)

def removeItem (p : VMPool) (m : Memory) (index : Word) : VMPool × Memory :=
  let m := forRange index.toNat p.numAllocated.toNat
    (fun i m => writeRegion m p.allocatedList i (readRegion m p.allocatedList (i + 1))) m
  ({ p with numAllocated := p.numAllocated - 1 },
    writeRegion m p.allocatedList (p.numAllocated - 1).toNat ⟨0, 0⟩)

def gap (p : VMPool) (m : Memory) (i : Nat) : Word :=
  (p.entry m (i + 1)).startFrame - (p.entry m i).startFrame - (p.entry m i).size

def tailGap (p : VMPool) (m : Memory) : Word :=
  let last := p.entry m (p.numAllocated - 1).toNat
  p.baseAddress + p.size - last.startFrame - last.size

/-- The first of `k` gaps from `i` on that has room. -/
def findGap (p : VMPool) (m : Memory) (size : Word) : Nat → Nat → Option Nat
  | 0, _ => none
  | k + 1, i => if p.gap m i ≥ size then some i else findGap p m size k (i + 1)

/-- Entry `i` ends at this address. -/
def entryEnd (p : VMPool) (m : Memory) (i : Nat) : Word :=
  (p.entry m i).startFrame + (p.entry m i).size

def allocate (p : VMPool) (m : Memory) (size : Word) : Except Stop (Word × VMPool × Memory) :=
  let size := roundToPages size
  match p.findGap m size (p.numAllocated - 1).toNat 0 with
  | some i => do
      let (p', m') ← p.insertItem m ⟨p.entryEnd m i, size⟩ (BitVec.ofNat 32 i + 1)
      .ok (p.entryEnd m i, p', m')
  | none =>
      if p.tailGap m ≥ size then do
        let last := (p.numAllocated - 1).toNat
        let (p', m') ← p.insertItem m ⟨p.entryEnd m last, size⟩ p.numAllocated
        .ok (p.entryEnd m last, p', m')
      else .error .assertion

/-- The search loop of `release`. The statement in its body is the comparison
`region_num == i;`, whose value is dropped, so `region_num` stays what it was. -/
def findRegion (p : VMPool) (m : Memory) (start : Word) : Nat → Nat → Word → Word
  | 0, _, regionNum => regionNum
  | k + 1, i, regionNum =>
      if (p.entry m i).startFrame = start then regionNum
      else findRegion p m start k (i + 1) regionNum

def release {σ : Type} (freePage : Nat → σ → Option σ) (p : VMPool) (m : Memory) (s : σ)
    (start : Word) : Option (VMPool × Memory × σ) :=
  let regionNum := p.findRegion m start (p.numAllocated.toNat - 1) 1 0
  if regionNum = 0 then some (p, m, s)
  else
    let r := p.entry m regionNum.toNat
    (forRange? (r.startFrame / pageSize).toNat ((r.startFrame + r.size) / pageSize).toNat
      freePage s).map fun s' =>
        let (p', m') := p.removeItem m regionNum
        (p', m', s')

def isLegitimate (p : VMPool) (m : Memory) (a : Word) : Bool :=
  if p.numAllocated = 0 then true
  else (List.range p.numAllocated.toNat).any fun i =>
    (p.entry m i).startFrame ≤ a && p.entryEnd m i > a

end VMPool

end TeachingKernel.VM
