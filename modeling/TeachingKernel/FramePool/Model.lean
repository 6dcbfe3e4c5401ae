import TeachingKernel.Lib.ForLoop
import TeachingKernel.Lib.PackedPairs
import TeachingKernel.Machine

/-!
# The contiguous frame pool

`ContFramePool` as P3 and P4 have it (the two files are identical). The bitmap
keeps two bits a frame: 11 free, 10 head of a sequence, 00 rest of a sequence,
01 inaccessible. A failed assertion stops the kernel and is `none`.
-/

namespace TeachingKernel.FramePool

open ForLoop PackedPairs

inductive FrameCode where
  | free | head | rest | inaccessible
  deriving DecidableEq, Repr

def code (bm : Bytes) (i : Nat) : FrameCode :=
  match first bm i, second bm i with
  | true, true => .free
  | true, false => .head
  | false, false => .rest
  | false, true => .inaccessible

/-- The pointer `bitmap` is its address together with the bytes found there, which are
those of no other pool (see `FramePool.SharedMemory`). -/
structure ContFramePool where
  bitmapAddr : Word
  bitmap : Bytes
  nFreeFrames : Word
  baseFrameNo : Word
  nframes : Word
  infoFrameNo : Word
  nInfoFrames : Word

namespace ContFramePool

/-- `(_n_frames-1) / (FRAME_SIZE * 4) + 1` -/
def neededInfoFrames (n : Word) : Word := (n - 1) / (pageSize * 4) + 1

def roundUp4 (n : Word) : Word := if n % 4 ≠ 0 then n + (4 - n % 4) else n

def fillFree (nframes : Nat) (bm : Bytes) : Bytes :=
  forRange 0 ((nframes + 3) / 4) (fun i bm => Function.update bm i 0xFF#8) bm

def setInaccessible (bm : Bytes) (i : Nat) : Bytes :=
  setBits (clearBits bm i (firstMask i)) i (secondMask i)

/-- The constructor. `memory` is what the bytes of the bitmap hold before. -/
def construct (memory : Bytes) (base n info nInfo : Word) : Option ContFramePool :=
  let nframes := roundUp4 n
  if info = 0 then
    let nInfo := neededInfoFrames nframes
    some {
      bitmapAddr := base * pageSize
      bitmap := forRange 0 nInfo.toNat (fun i bm => setInaccessible bm i)
        (fillFree nframes.toNat memory)
      nFreeFrames := n - nInfo
      baseFrameNo := base
      nframes := nframes
      infoFrameNo := info
      nInfoFrames := nInfo }
  else if info + nInfo < base ∨ info ≥ base + nframes then
    if nInfo * pageSize * 4 ≥ nframes then
      some {
        bitmapAddr := info * pageSize
        bitmap := fillFree nframes.toNat memory
        nFreeFrames := n
        baseFrameNo := base
        nframes := nframes
        infoFrameNo := info
        nInfoFrames := nInfo }
    else none
  else none

/-- The search loop of `get_frames` with its index `i` and its running `count`.
It answers the index at which `count` reaches `n`. A frame that is not free and
lies in a byte that is not zero leaves `count` as it is. -/
def search (bm : Bytes) (nframes n : Nat) : Nat → Nat → Nat → Option Nat
  | 0, _, _ => none
  | fuel + 1, i, count =>
      if i < nframes then
        if bm (i / 4) = 0#8 then search bm nframes n fuel (i + 3 + 1) 0
        else if first bm i && second bm i then
          if count + 1 = n then some i else search bm nframes n fuel (i + 1) (count + 1)
        else search bm nframes n fuel (i + 1) count
      else none

/-- The first frame becomes 10, the other `n - 1` frames become 00. -/
def markAllocated (bm : Bytes) (start n : Word) : Bytes :=
  let i := start.toNat
  let bm := clearBits (setBits bm i (firstMask i)) i (secondMask i)
  forRange (start + 1).toNat (start + n).toNat (fun i bm => clearBits bm i (bothMask i)) bm

def getFrames (p : ContFramePool) (n : Word) : Option (Word × ContFramePool) :=
  if p.nFreeFrames > 0 then
    match search p.bitmap p.nframes.toNat n.toNat p.nframes.toNat 0 0 with
    | none => none
    | some i =>
        let frameNo := p.baseFrameNo + BitVec.ofNat 32 i - n + 1
        let start := frameNo - p.baseFrameNo
        some (frameNo, { p with
          nFreeFrames := p.nFreeFrames - n
          bitmap := markAllocated p.bitmap start n })
  else none

/-- The value `(0x80 >> i%4 * 2 +1) > 0`, which `&` is applied to in the assertion
of `mark_inaccessible`: comparison binds tighter than `&`. -/
def guardMask (i : Nat) : Byte := if secondMask i > 0#8 then 1#8 else 0#8

def markInaccessible (p : ContFramePool) (b n : Word) : Option ContFramePool :=
  if b ≥ p.baseFrameNo ∧ b + n ≤ p.baseFrameNo + p.nframes then
    let body (i : Nat) (s : Bytes × Word) : Option (Bytes × Word) :=
      if s.1 (i / 4) &&& guardMask i ≠ 0#8 then
        some (setInaccessible s.1 i, s.2 - 1)
      else none
    (forRange? (b - p.baseFrameNo).toNat (b - p.baseFrameNo + n).toNat body
      (p.bitmap, p.nFreeFrames)).map fun s => { p with bitmap := s.1, nFreeFrames := s.2 }
  else none

def freeRest (nframes : Nat) : Nat → Nat → Bytes → Word → Bytes × Word
  | 0, _, bm, free => (bm, free)
  | fuel + 1, i, bm, free =>
      if i < nframes then
        if first bm i || second bm i then (bm, free)
        else freeRest nframes fuel (i + 1) (setBits bm i (bothMask i)) (free + 1)
      else (bm, free)

def releaseFrame (p : ContFramePool) (f : Word) : Option ContFramePool :=
  if f ≥ p.baseFrameNo ∧ f < p.baseFrameNo + p.nframes then
    let i := (f - p.baseFrameNo).toNat
    if first p.bitmap i && !second p.bitmap i then
      let s := freeRest p.nframes.toNat p.nframes.toNat (i + 1)
        (setBits p.bitmap i (bothMask i)) (p.nFreeFrames + 1)
      some { p with bitmap := s.1, nFreeFrames := s.2 }
    else none
  else none

/-- The test by which the static `release_frames` recognises a pool. -/
def Manages (p : ContFramePool) (f : Word) : Prop :=
  f ≥ p.baseFrameNo ∧ f < p.baseFrameNo + p.nframes

instance (p : ContFramePool) (f : Word) : Decidable (p.Manages f) :=
  inferInstanceAs (Decidable (_ ∧ _))

end ContFramePool

/-- The static `release_frames`: `pools` are the pools in the order of their
construction. A frame that no pool manages is ignored. -/
def releaseFrames : List ContFramePool → Word → Option (List ContFramePool)
  | [], _ => some []
  | p :: pools, f =>
      if p.Manages f then (p.releaseFrame f).map (· :: pools)
      else (releaseFrames pools f).map (p :: ·)

end TeachingKernel.FramePool
