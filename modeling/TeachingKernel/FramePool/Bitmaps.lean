import TeachingKernel.FramePool.Protection

/-!
# Where the bitmaps lie in memory

The code keeps a pointer to the bitmap, the model the bytes found there, as if every
pool had a memory of its own. That is exact while no two bitmaps share a byte, which
no constructor checks. Here are the addresses of a bitmap, and the frames that they
lie in for a pool as it is constructed.
-/

namespace TeachingKernel.FramePool

open PackedPairs

namespace ContFramePool

namespace Extent

def byteAddr (e : Extent) (c : Nat) : Word := e.bitmapAddr + BitVec.ofNat 32 c

/-- A byte of the bitmap lies at address `a`. -/
def BitmapAt (e : Extent) (a : Word) : Prop := ∃ c, 4 * c < e.nframes.toNat ∧ a = e.byteAddr c

def BitmapsApart (e e' : Extent) : Prop := ∀ a, e.BitmapAt a → ¬ e'.BitmapAt a

/-- The bitmap lies in the first 4 MB and in no frame of the pool. -/
structure BitmapOutside (e : Extent) : Prop where
  low : ∀ a, e.BitmapAt a → a.toNat / 4096 < 1024
  apart : ∀ a, e.BitmapAt a → a.toNat / 4096 < e.baseFrameNo.toNat ∨
    e.baseFrameNo.toNat + e.nframes.toNat ≤ a.toNat / 4096

variable {e e' : Extent} {a : Word} {c : Nat}

theorem byteAddr_sub (hc : 4 * c < e.nframes.toNat) :
    (e.byteAddr c - e.bitmapAddr).toNat = c := by
  have hlt := e.nframes.isLt
  rw [byteAddr, BitVec.add_comm, BitVec.add_sub_cancel, toNat_ofNat_of_lt (by omega)]

theorem byteAddr_toNat_sub (e : Extent) (a : Word) :
    e.byteAddr (a - e.bitmapAddr).toNat = a := by
  rw [byteAddr, BitVec.ofNat_toNat, BitVec.setWidth_eq, BitVec.add_comm, BitVec.sub_add_cancel]

theorem bitmapAt_iff : e.BitmapAt a ↔ 4 * (a - e.bitmapAddr).toNat < e.nframes.toNat := by
  constructor
  · rintro ⟨c, hc, rfl⟩
    rwa [byteAddr_sub hc]
  · exact fun h => ⟨_, h, (e.byteAddr_toNat_sub a).symm⟩

end Extent

def InFrames (f n a : Word) : Prop :=
  ∃ d < n.toNat, ∃ o < 4096, a = (f + BitVec.ofNat 32 d) * pageSize + BitVec.ofNat 32 o

section

variable {memory : Bytes} {base n info nInfo f a : Word} {p : ContFramePool}

theorem InFrames.frame (h : InFrames f n a) (hrange : f.toNat + n.toNat ≤ 2 ^ 20) :
    f.toNat ≤ a.toNat / 4096 ∧ a.toNat / 4096 < f.toNat + n.toNat := by
  obtain ⟨d, hd, o, ho, rfl⟩ := h
  have hframe : (f + BitVec.ofNat 32 d).toNat = f.toNat + d := by
    have hof := toNat_ofNat_of_lt (n := d) (by omega)
    rw [toNat_add_of_lt (by rw [hof]; omega), hof]
  have haddr : ((f + BitVec.ofNat 32 d) * pageSize + BitVec.ofNat 32 o).toNat =
      (f.toNat + d) * 4096 + o := by
    have hof := toNat_ofNat_of_lt (n := o) (by omega)
    rw [BitVec.toNat_add, BitVec.toNat_mul, hframe, pageSize_toNat, hof]
    omega
  rw [haddr]
  omega

theorem inFrames_of_outer (hinfo : info ≠ 0) (hfew : nInfo.toNat < 2 ^ 18)
    (h : construct memory base n info nInfo = some p) (ha : p.extent.BitmapAt a) :
    InFrames info nInfo a := by
  obtain ⟨-, hroom, hext, -⟩ := construct_outer hinfo h
  have hcap : (nInfo * pageSize * 4).toNat = nInfo.toNat * 16384 := by
    rw [BitVec.mul_assoc, BitVec.toNat_mul, show (pageSize * 4 : Word).toNat = 16384 from rfl]
    omega
  rw [ge_iff_le, BitVec.le_def, hcap] at hroom
  rw [hext] at ha
  obtain ⟨c, hc, rfl⟩ := ha
  dsimp only at hc
  exact ⟨c / 4096, by omega, c % 4096, Nat.mod_lt _ (by decide), bitmap_byte_in_frame info c⟩

/-- Frames provided in the first 4 MB keep the bitmap out of the pool. -/
theorem bitmapOutside_of_construct (hinfo : info ≠ 0) (hplace : info.toNat + nInfo.toNat ≤ 1024)
    (hrange : base.toNat + (roundUp4 n).toNat ≤ 2 ^ 20)
    (h : construct memory base n info nInfo = some p) : p.extent.BitmapOutside := by
  obtain ⟨hapart, -, hext, -⟩ := construct_outer hinfo h
  rw [BitVec.lt_def, ge_iff_le, BitVec.le_def, toNat_add_of_lt (by omega),
    toNat_add_of_lt (by omega)] at hapart
  have hframe : ∀ a, p.extent.BitmapAt a →
      info.toNat ≤ a.toNat / 4096 ∧ a.toNat / 4096 < info.toNat + nInfo.toNat := fun a ha =>
    (inFrames_of_outer hinfo (by omega) h ha).frame (by omega)
  refine ⟨fun a ha => ?_, fun a ha => ?_⟩
  · have := hframe a ha
    omega
  · have := hframe a ha
    rw [hext]
    dsimp only
    omega

end

end ContFramePool

end TeachingKernel.FramePool
