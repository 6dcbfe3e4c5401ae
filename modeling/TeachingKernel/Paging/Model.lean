import TeachingKernel.FramePool.Model
import TeachingKernel.Lib.Mmu

/-!
# The page tables

`PageTable` of P3 and of P4. P3 keeps the directory and the tables in frames of
the kernel pool, which the identity mapping of the first 4 MB makes directly
addressable. P4 keeps them in frames of the process pool and reaches them through
the last entry of the directory, which points to the directory itself.

Once paging is enabled every access of the handlers goes through the translation;
an access to an unmapped address would fault inside the handler and is `none`, as
is a failed assertion. The pools carry their bitmaps, so that `get_frames` and
`release_frame` make no translated access here: the results from boot on ask for
bitmaps in the first 4 MB that no pool hands out, and prove that they stay in reach.
-/

namespace TeachingKernel.Paging

open ForLoop FramePool Mmu

/-- Physical memory, the page directory base register, and the frame pools in the
order of their construction. -/
structure Machine where
  mem : Memory
  cr3 : Word
  pools : List ContFramePool

namespace Machine

/-- `get_frames(1)` of pool `k`, whose bitmap is in reach (see `BitmapSafe`). -/
def getFrame (k : Nat) (s : Machine) : Option (Word × Machine) :=
  s.pools[k]?.bind fun p => (p.getFrames 1).map fun (f, p') =>
    (f, { s with pools := s.pools.set k p' })

def load (s : Machine) (va : Word) : Option Word := (translate s.mem s.cr3 va).map s.mem.readWord

def store (s : Machine) (va v : Word) : Option Machine :=
  (translate s.mem s.cr3 va).map fun pa => { s with mem := s.mem.writeWord pa v }

def storePhysical (s : Machine) (pa v : Word) : Machine := { s with mem := s.mem.writeWord pa v }

end Machine

def getFirst10Bits (a : Word) : Word := a >>> 22

def getMiddle10Bits (a : Word) : Word := (a >>> 12) &&& ~~~(0xFFFFFC00#32)

/-- The loop of both constructors that maps the first 4 MB to itself. -/
def fillFirstTable (pageTable : Word) (s : Machine) : Machine :=
  (forRange 0 entriesPerPage
    (fun i (t : Machine × Word) =>
      (t.1.storePhysical (pageTable + 4 * BitVec.ofNat 32 i) (t.2 ||| 3), t.2 + pageSize))
    (s, 0)).1

/-- The directory entry `page_directory[0]`, which both constructors set in two steps. -/
def setFirstEntry (pageDirectory pageTable : Word) (s : Machine) : Machine :=
  let s := s.storePhysical pageDirectory pageTable
  s.storePhysical pageDirectory (s.mem.readWord pageDirectory ||| 3)

def emptyEntries (pageDirectory : Word) (lo hi : Nat) (s : Machine) : Machine :=
  forRange lo hi
    (fun i s => s.storePhysical (pageDirectory + 4 * BitVec.ofNat 32 i) (0 ||| 2)) s

def load (s : Machine) (pageDirectory : Word) : Machine := { s with cr3 := pageDirectory }

/-! ## Tables in directly addressed kernel frames -/

namespace P3

def writeTables (pageDirectory pageTable : Word) (s : Machine) : Machine :=
  let s := fillFirstTable pageTable s
  let s := setFirstEntry pageDirectory pageTable s
  emptyEntries pageDirectory 1 entriesPerPage s

def construct (kernel : Nat) (s : Machine) : Option (Word × Machine) := do
  let (f, s) ← s.getFrame kernel
  let pageDirectory := 4096 * f
  let (f, s) ← s.getFrame kernel
  let pageTable := 4096 * f
  some (pageDirectory, writeTables pageDirectory pageTable s)

def provideTable (kernel : Nat) (pdeAddr : Word) (s : Machine) : Option Machine := do
  let pde ← s.load pdeAddr
  if pde &&& 1#32 = 0 then
    let (f, s) ← s.getFrame kernel
    let pageTable := 4096 * f
    let s ← s.store pdeAddr pageTable
    let pde ← s.load pdeAddr
    let s ← s.store pdeAddr (pde ||| 3)
    forRange? 0 entriesPerPage (fun i s => s.store (pageTable + 4 * BitVec.ofNat 32 i) 2) s
  else some s

def providePage (process : Nat) (pdeAddr pageIndex : Word) (s : Machine) : Option Machine := do
  let pde ← s.load pdeAddr
  let pageTable := pde &&& ~~~(0xFFF#32)
  let pte ← s.load (pageTable + 4 * pageIndex)
  if pte &&& 1#32 = 0 then
    let (f, s) ← s.getFrame process
    let page := 4096 * f
    s.store (pageTable + 4 * pageIndex) (page ||| 3)
  else some s

def handleFault (kernel process : Nat) (curDirectory faultAddr : Word) (s : Machine) :
    Option Machine := do
  let pageTableIndex := faultAddr >>> 22
  let pageIndex := (faultAddr >>> 12) &&& ~~~(0xFFFFFC00#32)
  let s ← provideTable kernel (curDirectory + 4 * pageTableIndex) s
  providePage process (curDirectory + 4 * pageTableIndex) pageIndex s

end P3

/-! ## Tables in process frames, reached through the directory -/

namespace P4

def writeTables (pageDirectory pageTable : Word) (s : Machine) : Machine :=
  let s := fillFirstTable pageTable s
  let s := setFirstEntry pageDirectory pageTable s
  let s := s.storePhysical (pageDirectory + 4 * BitVec.ofNat 32 (entriesPerPage - 1))
    (pageDirectory ||| 3)
  emptyEntries pageDirectory 1 (entriesPerPage - 1) s

def construct (process : Nat) (s : Machine) : Option (Word × Machine) := do
  let (f, s) ← s.getFrame process
  let pageDirectory := 4096 * f
  let (f, s) ← s.getFrame process
  let pageTable := 4096 * f
  some (pageDirectory, writeTables pageDirectory pageTable s)

def constructPteAddress (pdi pti : Word) : Word :=
  (0xFFC00000#32 ||| pdi <<< 12) ||| pti <<< 2

def constructPdeAddress (pdi : Word) : Word := 0xFFFFF000#32 ||| pdi <<< 2

def provideTable (process : Nat) (pageTableIndex : Word) (s : Machine) : Option Machine := do
  let pdeAddr := constructPdeAddress pageTableIndex
  let pde ← s.load pdeAddr
  if pde &&& 1#32 = 0 then
    let (f, s) ← s.getFrame process
    let ptePhysicalAddr := 4096 * f
    let s ← s.store pdeAddr (ptePhysicalAddr ||| 3)
    forRange? 0 entriesPerPage
      (fun i s => s.store (constructPteAddress pageTableIndex (BitVec.ofNat 32 i)) 2) s
  else some s

def providePage (process : Nat) (pageTableIndex pageIndex : Word) (s : Machine) :
    Option Machine := do
  let pteAddr := constructPteAddress pageTableIndex pageIndex
  let pte ← s.load pteAddr
  if pte &&& 1#32 = 0 then
    let (f, s) ← s.getFrame process
    let page := 4096 * f
    s.store pteAddr (page ||| 3)
  else some s

/-- `check_address` asks the registered pools, which lie in virtual memory, so it is
a function of the whole state. An illegitimate address aborts. -/
def handleFault (checkAddress : Machine → Word → Bool) (process : Nat) (faultAddr : Word)
    (s : Machine) : Option Machine := do
  if !checkAddress s faultAddr then none
  else
    let pageTableIndex := getFirst10Bits faultAddr
    let pageIndex := getMiddle10Bits faultAddr
    let s ← provideTable process pageTableIndex s
    providePage process pageTableIndex pageIndex s

def freePage (pageNo : Word) (s : Machine) : Option Machine := do
  let dirEntryIndex := pageNo >>> 10
  let ptEntryIndex := pageNo &&& ~~~(0xFFFFFC00#32)
  let pteAddr := constructPteAddress dirEntryIndex ptEntryIndex
  let pde ← s.load (constructPdeAddress dirEntryIndex)
  if pde &&& 1#32 = 0 then some s
  else
    let pte ← s.load pteAddr
    if pte &&& 1#32 = 0 then some s
    else
      let frameAddr := (← s.load pteAddr) &&& ~~~(0x3FF#32)
      let pools ← releaseFrames s.pools (frameAddr / pageSize)
      Machine.store { s with pools := pools } pteAddr 2

end P4

end TeachingKernel.Paging
