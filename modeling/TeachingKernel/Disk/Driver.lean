import TeachingKernel.Lib.Ata
import TeachingKernel.Lib.Word

/-!
# The disk driver

`SimpleDisk` and `BlockingDisk` of P6 on an LBA28 controller: the seven port writes
of `issue_operation`, the poll of the status port, and the two loops that move the
512 bytes of a block through the data port.
-/

namespace TeachingKernel.Disk

open ForLoop Ata

inductive DiskId where
  | master | slave
  deriving DecidableEq, Repr

inductive DiskOperation where
  | read | write
  deriving DecidableEq, Repr

namespace DiskId

def toByte : DiskId → Byte
  | .master => 0
  | .slave => 1

def drive : DiskId → Drive
  | .master => .master
  | .slave => .slave

end DiskId

namespace DiskOperation

def toByte : DiskOperation → Byte
  | .read => 0x20
  | .write => 0x30

def direction : DiskOperation → Direction
  | .read => .read
  | .write => .write

end DiskOperation

/-- The byte for port 0x1F6: `((_block_no >> 24)&0x0F) | 0xE0 | (disk_id << 4)` -/
def deviceByte (id : DiskId) (blockNo : Word) : Byte :=
  (blockNo >>> 24).setWidth 8 &&& 0x0F ||| 0xE0 ||| id.toByte <<< 4

def commandWrites (id : DiskId) (op : DiskOperation) (blockNo : Word) :
    List (BitVec 16 × Byte) :=
  [(0x1F1, 0x00), (0x1F2, 0x01), (0x1F3, blockNo.setWidth 8), (0x1F4, (blockNo >>> 8).setWidth 8),
    (0x1F5, (blockNo >>> 16).setWidth 8),
    (0x1F6, deviceByte id blockNo), (0x1F7, op.toByte)]

def issueOperation (id : DiskId) (op : DiskOperation) (blockNo : Word) (c : Controller) :
    Controller :=
  (commandWrites id op blockNo).foldl (fun c w => c.outb w.1 w.2) c

def isReady (c : Controller) : Bool × Controller :=
  let s := c.inb 0x1F7
  (s.1 &&& 0x08 != 0, s.2)

abbrev Buffer := Nat → Byte

/-- `_buf[i*2] = tmpw; _buf[i*2+1] = tmpw >> 8` -/
def unpack (i : Nat) (w : BitVec 16) (buf : Buffer) : Buffer :=
  Function.update (Function.update buf (i * 2) (w.setWidth 8)) (i * 2 + 1) ((w >>> 8).setWidth 8)

/-- `_buf[2*i] | (_buf[2*i+1] << 8)` -/
def pack (buf : Buffer) (i : Nat) : BitVec 16 :=
  (buf (2 * i)).setWidth 16 ||| (buf (2 * i + 1)).setWidth 16 <<< 8

def readData (c : Controller) (buf : Buffer) : Controller × Buffer :=
  forRange 0 256 (fun i p => (p.1.inw.2, unpack i p.1.inw.1 p.2)) (c, buf)

def writeData (buf : Buffer) (c : Controller) : Controller :=
  forRange 0 256 (fun i c => c.outw (pack buf i)) c

/-! ## What the parts do -/

section

variable {c : Controller} {id : DiskId} {op : DiskOperation} {blockNo : Word} {buf : Buffer}

def wordByte (w : BitVec 16) (j : Nat) : Byte :=
  if j % 2 = 0 then w.setWidth 8 else (w >>> 8).setWidth 8

def blockBytes (m : Media) (d : Drive) (b : BitVec 28) : Buffer :=
  fun j => wordByte (m d b (j / 2)) j

theorem wordByte_pack (buf : Buffer) (j : Nat) : wordByte (pack buf (j / 2)) j = buf j := by
  unfold wordByte pack
  by_cases heven : j % 2 = 0
  · rw [if_pos heven, show 2 * (j / 2) = j by omega]
    apply BitVec.eq_of_getLsbD_eq
    intro i hi
    simp [hi]
  · rw [if_neg heven, show 2 * (j / 2) + 1 = j by omega]
    apply BitVec.eq_of_getLsbD_eq
    intro i hi
    simp [hi, show ¬ 8 + i < 8 by omega, show 8 + i < 16 by omega]

theorem unpack_apply (i : Nat) (w : BitVec 16) (buf : Buffer) (j : Nat) :
    unpack i w buf j = if j / 2 = i then wordByte w j else buf j := by
  unfold unpack wordByte
  by_cases hi : j / 2 = i
  · rw [if_pos hi]
    by_cases heven : j % 2 = 0
    · rw [if_pos heven, Function.update_of_ne (by omega), show i * 2 = j by omega,
        Function.update_self]
    · rw [if_neg heven, show i * 2 + 1 = j by omega, Function.update_self]
  · rw [if_neg hi, Function.update_of_ne (by omega), Function.update_of_ne (by omega)]

theorem deviceByte_drive (id : DiskId) (blockNo : Word) :
    (if (deviceByte id blockNo).getLsbD 4 then Drive.slave else .master) = id.drive := by
  cases id <;> simp [deviceByte, DiskId.toByte, DiskId.drive]

/-- The low half of that byte carries four bits of the block number. -/
theorem deviceByte_low (id : DiskId) (blockNo : Word) :
    (deviceByte id blockNo).setWidth 4 = (blockNo >>> 24).setWidth 4 := by
  apply BitVec.eq_of_getLsbD_eq
  intro i hi
  have hcases : i = 0 ∨ i = 1 ∨ i = 2 ∨ i = 3 := by omega
  rcases hcases with rfl | rfl | rfl | rfl <;> cases id <;> simp [deviceByte, DiskId.toByte]

theorem append_pieces (w : Word) :
    ((w >>> 24).setWidth 4 ++ (w >>> 16).setWidth 8 ++ (w >>> 8).setWidth 8 ++ w.setWidth 8 :
      BitVec 28) = w.setWidth 28 := by
  apply BitVec.eq_of_getLsbD_eq
  intro i hi
  simp only [BitVec.getLsbD_append, BitVec.getLsbD_setWidth, BitVec.getLsbD_ushiftRight]
  by_cases h1 : i < 8
  · simp [h1, hi]
  · by_cases h2 : i - 8 < 8
    · simp [h1, h2, hi, show 8 + (i - 8) = i by omega]
    · by_cases h3 : i - 8 - 8 < 8
      · simp [h1, h2, h3, hi, show 16 + (i - 8 - 8) = i by omega]
      · simp [h1, h2, h3, hi, show i - 8 - 8 - 8 < 4 by omega,
          show 24 + (i - 8 - 8 - 8) = i by omega]

/-- After `issue_operation` the controller holds the command that it was called for. -/
theorem issueOperation_spec (id : DiskId) (op : DiskOperation) (blockNo : Word) (c : Controller) :
    (issueOperation id op blockNo c).held =
        some ⟨op.direction, id.drive, blockNo.setWidth 28⟩ ∧
      (issueOperation id op blockNo c).position = 0 ∧
      (issueOperation id op blockNo c).waits = c.delays c.issued ∧
      (issueOperation id op blockNo c).media = c.media ∧
      (issueOperation id op blockNo c).delays = c.delays := by
  have heq : issueOperation id op blockNo c = Controller.hold
      { c with
        low := blockNo.setWidth 8
        mid := (blockNo >>> 8).setWidth 8
        high := (blockNo >>> 16).setWidth 8
        device := deviceByte id blockNo } op.direction := by
    cases op <;> rfl
  rw [heq]
  refine ⟨?_, rfl, rfl, rfl, rfl⟩
  have hblock := append_pieces blockNo
  rw [← deviceByte_low id blockNo] at hblock
  simp only [Controller.hold, Controller.drive, Controller.block, deviceByte_drive,
    BitVec.cast_eq, hblock]

theorem readData_spec {d : Drive} {b : BitVec 28} (h : c.Requests ⟨.read, d, b⟩) (buf : Buffer) :
    (readData c buf).1 = c.done ∧
      ∀ j, (readData c buf).2 j = if j < 512 then blockBytes c.media d b j else buf j := by
  rw [readData, h.read_words unpack]
  refine ⟨rfl, fun j => ?_⟩
  dsimp only
  have hloop := forRange_invariant (a := 0) (b := 256) (s := buf)
    (f := fun i s => unpack i (c.media d b i) s)
    (P := fun k s => s j = if j < 2 * k then blockBytes c.media d b j else buf j)
    (Nat.zero_le _) (by rw [if_neg (by omega)]) ?_
  · rw [hloop]
  · intro k s _ _ hs
    rw [unpack_apply, hs]
    by_cases hj : j / 2 = k
    · rw [if_pos hj, if_pos (by omega), blockBytes, hj]
    · rw [if_neg hj]
      by_cases hlow : j < 2 * k
      · rw [if_pos hlow, if_pos (by omega)]
      · rw [if_neg hlow, if_neg (by omega)]

theorem writeData_spec {d : Drive} {b : BitVec 28} (h : c.Requests ⟨.write, d, b⟩)
    (buf : Buffer) :
    (writeData buf c).held = none ∧ (writeData buf c).delays = c.delays ∧
      (∀ j < 512, blockBytes (writeData buf c).media d b j = buf j) ∧
      ∀ d' b', ¬(d' = d ∧ b' = b) →
        blockBytes (writeData buf c).media d' b' = blockBytes c.media d' b' := by
  rw [writeData, h.write_words]
  refine ⟨rfl, rfl, fun j hj => ?_, fun d' b' hne => ?_⟩
  · rw [← wordByte_pack buf j]
    show wordByte (if d = d ∧ b = b ∧ j / 2 < 256 then pack buf (j / 2) else _) j = _
    rw [if_pos ⟨rfl, rfl, by omega⟩]
  · funext j
    show wordByte (if d' = d ∧ b' = b ∧ j / 2 < 256 then _ else c.media d' b' (j / 2)) j = _
    rw [if_neg fun h => hne ⟨h.1, h.2.1⟩]
    rfl

end

end TeachingKernel.Disk
