import Mathlib.Order.Interval.Finset.Nat
import TeachingKernel.FramePool.Completeness
import TeachingKernel.FramePool.Marking
import TeachingKernel.FramePool.Regions
import TeachingKernel.FramePool.Single

/-!
# Frames left

`get_frames` asks its counter before it searches the bitmap. A pool whose counter and
whose bitmap both have `n` free frames hands out `n` single frames.
-/

namespace TeachingKernel.FramePool.ContFramePool

open PackedPairs

structure Left (n : Nat) (p : ContFramePool) : Prop where
  bitmap : n ≤ p.freeFrames.card
  counter : n ≤ p.nFreeFrames.toNat

section

variable {p p' q : ContFramePool} {n : Nat}

theorem Left.mono {k : Nat} (h : Left n p) (hk : k ≤ n) : Left k p :=
  ⟨Nat.le_trans hk h.bitmap, Nat.le_trans hk h.counter⟩

/-- One more frame is handed out, and one less is left. -/
theorem Left.getFrames_one (h : Left (n + 1) p) :
    ∃ f p', p.getFrames 1 = some (f, p') ∧ Left n p' := by
  obtain ⟨i, hi⟩ := Finset.card_pos.mp (Nat.lt_of_lt_of_le (Nat.succ_pos n) h.bitmap)
  obtain ⟨hlt, hfree⟩ := Finset.mem_filter.mp hi
  have hlt := Finset.mem_range.mp hlt
  have hcounter := h.counter
  have hwindow : ∀ k, i ≤ k → k < i + 1 → code p.bitmap k = .free := fun k hlo hhi => by
    rwa [show k = i by omega]
  obtain ⟨e, hsearch⟩ := search_isSome_of_window (Nat.le_refl 1)
    (show i + 1 ≤ p.nframes.toNat by omega) hwindow
  obtain ⟨f, p', hget⟩ := getFrames_isSome (n := 1) (by omega) hsearch
  obtain ⟨e', hdone, -, hext, hcount, -, hcodes⟩ := getFrames_spec (by decide) hget
  have hone : (1 : Word).toNat = 1 := rfl
  have hcodes' : ∀ j, code p'.bitmap j = if j = e' then .head else code p.bitmap j := by
    intro j
    rw [hcodes, hone, Nat.add_sub_cancel]
    by_cases hj : j = e'
    · rw [if_pos hj, if_pos hj]
    · rw [if_neg hj, if_neg hj, if_neg (by omega)]
  refine ⟨f, p', hget, ?_, ?_⟩
  · have hmem : e' ∈ p.freeFrames :=
      Finset.mem_filter.mpr ⟨Finset.mem_range.mpr hdone.lt, hdone.free⟩
    have herase : p'.freeFrames = p.freeFrames.erase e' := by
      ext j
      rw [Finset.mem_erase, freeFrames, freeFrames, Finset.mem_filter, Finset.mem_filter,
        nframes_of_extent hext, hcodes']
      by_cases hj : j = e'
      · rw [if_pos hj]
        simp [hj]
      · rw [if_neg hj]
        simp [hj]
    have hbitmap := h.bitmap
    rw [herase, Finset.card_erase_of_mem hmem]
    omega
  · rw [hcount, toNat_sub_one (by omega)]
    omega

theorem markInaccessible_of_construct {memory : Bytes}
    {base n info nInfo holeFirst holeSize : Word} (hinfo : info ≠ 0)
    (hnew : construct memory base n info nInfo = some q)
    (hrange : base.toNat + (roundUp4 n).toNat < 2 ^ 32) (hlo : base.toNat ≤ holeFirst.toNat)
    (hhi : holeFirst.toNat + holeSize.toNat ≤ base.toNat + (roundUp4 n).toNat) :
    ∃ p, q.markInaccessible holeFirst holeSize = some p := by
  obtain ⟨-, -, hext, -, hcodes⟩ := construct_outer hinfo hnew
  have hbase : q.baseFrameNo = base := congrArg Extent.baseFrameNo hext
  have hframes : q.nframes = roundUp4 n := congrArg Extent.nframes hext
  rw [← hbase, ← hframes] at hrange hhi
  rw [← hbase] at hlo
  refine (markInaccessible_isSome_iff hrange hlo hhi).mpr fun i hi => .inl (hcodes _ ?_)
  -- the last frame of a byte is one of the pool, since their number is rounded up
  have hin := inRange_bounds hlo hhi
  have hlt := hi.2
  have hround := roundUp4_toNat n
  rw [hframes] at hin
  omega

/-- A pool that was only constructed and had one range made inaccessible has the other
frames left. -/
theorem left_of_boot {memory : Bytes} {base n info nInfo holeFirst holeSize : Word}
    (hinfo : info ≠ 0) (hnew : construct memory base n info nInfo = some q)
    (hlo : base.toNat ≤ holeFirst.toNat)
    (hhi : holeFirst.toNat + holeSize.toNat ≤ base.toNat + (roundUp4 n).toNat)
    (hsize : n.toNat ≤ (roundUp4 n).toNat) (hhole : holeSize.toNat ≤ n.toNat)
    (hmark : q.markInaccessible holeFirst holeSize = some p) :
    Left (n.toNat - holeSize.toNat) p := by
  obtain ⟨-, -, hext, hcount, hcodes⟩ := construct_outer hinfo hnew
  have hbase : q.baseFrameNo = base := congrArg Extent.baseFrameNo hext
  have hframes : q.nframes = roundUp4 n := congrArg Extent.nframes hext
  have hsub := toNat_sub_of_le hlo
  obtain ⟨hext', hcount', hcodes'⟩ := markInaccessible_spec
    (by rw [hbase, hframes]; omega) hmark
  rw [hbase, hsub] at hcodes'
  constructor
  · have hfree : Finset.range p.nframes.toNat \
        Finset.Ico (holeFirst.toNat - base.toNat)
          (holeFirst.toNat - base.toNat + holeSize.toNat) ⊆ p.freeFrames := by
      intro j hj
      obtain ⟨hj, hout⟩ := Finset.mem_sdiff.mp hj
      refine Finset.mem_filter.mpr ⟨hj, ?_⟩
      have hj := Finset.mem_range.mp hj
      rw [nframes_of_extent hext', hframes] at hj
      rw [Finset.mem_Ico] at hout
      rw [hcodes', if_neg hout, hcodes j hj]
    have hcard := Finset.le_card_sdiff (Finset.Ico (holeFirst.toNat - base.toNat)
      (holeFirst.toNat - base.toNat + holeSize.toNat)) (Finset.range p.nframes.toNat)
    rw [Nat.card_Ico, Finset.card_range, nframes_of_extent hext', hframes] at hcard
    have hle := Finset.card_le_card hfree
    rw [nframes_of_extent hext', hframes] at hle
    omega
  · rw [hcount', hcount, toNat_sub_of_le hhole]

end

end TeachingKernel.FramePool.ContFramePool
