import TeachingKernel.FramePool.Ops

/-!
# Which ranges `mark_inaccessible` accepts

Its assertion `bitmap[i/4] & (mask) > 0` compares before it masks, so it looks at the
lowest bit of the byte whatever the frame is. That bit belongs to the last of the four
frames in the byte: the call goes through when these frames are free or inaccessible,
and says nothing about the range.
-/

namespace TeachingKernel.FramePool

open ForLoop PackedPairs

/-- The last frame of the byte that holds frame `i` is free or inaccessible. -/
def LastOfByteSet (bm : Bytes) (i : Nat) : Prop :=
  code bm (4 * (i / 4) + 3) = .free ∨ code bm (4 * (i / 4) + 3) = .inaccessible

instance (bm : Bytes) (i : Nat) : Decidable (LastOfByteSet bm i) :=
  inferInstanceAs (Decidable (_ ∨ _))

namespace ContFramePool

def InRange (p : ContFramePool) (b n : Word) (i : Nat) : Prop :=
  (b - p.baseFrameNo).toNat ≤ i ∧ i < (b - p.baseFrameNo).toNat + n.toNat

def RangeFree (p : ContFramePool) (b n : Word) : Prop :=
  ∀ i, p.InRange b n i → code p.bitmap i = .free

/-- Exactly the frames of the range become 01, and the counter loses one for each. -/
structure MarkedExactly (p : ContFramePool) (b n : Word) (p' : ContFramePool) : Prop where
  extent_eq : p'.extent = p.extent
  inside : ∀ i, p.InRange b n i → code p'.bitmap i = .inaccessible
  outside : ∀ i, ¬ p.InRange b n i → code p'.bitmap i = code p.bitmap i
  counted : p'.nFreeFrames = p.nFreeFrames - n

/-- `mark_inaccessible` goes through for the free ranges only, and marks them. -/
structure MarksFree (p : ContFramePool) (b n : Word) : Prop where
  completes_iff : (∃ p', p.markInaccessible b n = some p') ↔ p.RangeFree b n
  exact_change : ∀ p', p.markInaccessible b n = some p' → p.MarkedExactly b n p'

end ContFramePool

open ContFramePool

section

variable {bm : Bytes} {i : Nat}

theorem second_eq_true_iff :
    second bm i = true ↔ code bm i = .free ∨ code bm i = .inaccessible := by
  unfold code
  cases first bm i <;> cases second bm i <;> simp

/-- The mask of the assertion is the second bit of the last frame of the byte. -/
theorem guardMask_eq (i : Nat) : guardMask i = secondMask (4 * (i / 4) + 3) := by
  have h : ∀ r : Fin 4, (if 0x80#8 >>> (r.val * 2 + 1) > 0#8 then 1#8 else 0#8) =
      0x80#8 >>> (3 * 2 + 1) := by decide
  rw [guardMask, secondMask, secondMask, show (4 * (i / 4) + 3) % 4 = 3 by omega]
  exact h ⟨i % 4, Nat.mod_lt _ (by decide)⟩

theorem guard_iff : bm (i / 4) &&& guardMask i ≠ 0#8 ↔ LastOfByteSet bm i := by
  rw [LastOfByteSet, ← second_eq_true_iff, second, guardMask_eq,
    show (4 * (i / 4) + 3) / 4 = i / 4 by omega, bne_iff_ne]

/-- Marking earlier frames leaves the tested bit of a byte as it was. -/
theorem lastOfByteSet_congr {bm' : Bytes} (h : ∀ j, i ≤ j → code bm' j = code bm j) :
    LastOfByteSet bm' i ↔ LastOfByteSet bm i := by
  rw [LastOfByteSet, LastOfByteSet, h _ (by omega)]

def markBody (i : Nat) (s : Bytes × Word) : Option (Bytes × Word) :=
  if s.1 (i / 4) &&& guardMask i ≠ 0#8 then some (setInaccessible s.1 i, s.2 - 1) else none

/-- The loop goes through if every byte in its way has its lowest bit set at the start:
the frames from the current one on keep the codes they had. -/
theorem markLoop_isSome_iff {lo hi : Nat} (hle : lo ≤ hi) (s : Bytes × Word) :
    (∃ u, forRange? lo hi markBody s = some u) ↔ ∀ i, lo ≤ i → i < hi → LastOfByteSet s.1 i := by
  refine forRange?_isSome_iff (P := fun k (u : Bytes × Word) =>
    ∀ j, k ≤ j → code u.1 j = code s.1 j) (G := LastOfByteSet s.1) hle (fun _ _ => rfl) ?_ ?_
  · intro i u _ _ hP hG
    rw [markBody, if_pos (guard_iff.mpr ((lastOfByteSet_congr hP).mpr hG))]
    refine ⟨_, rfl, fun j hj => ?_⟩
    rw [code_setInaccessible, if_neg (by omega)]
    exact hP j (by omega)
  · intro i u v _ _ hP hbody
    rw [markBody] at hbody
    by_contra hG
    rw [if_neg fun hguard => hG ((lastOfByteSet_congr hP).mp (guard_iff.mp hguard))] at hbody
    cases hbody

end

section

variable {p : ContFramePool} {b n : Word}

theorem inRange_bounds (hlo : p.baseFrameNo.toNat ≤ b.toNat)
    (hhi : b.toNat + n.toNat ≤ p.baseFrameNo.toNat + p.nframes.toNat) :
    (b - p.baseFrameNo).toNat + n.toNat ≤ p.nframes.toNat := by
  rw [toNat_sub_of_le hlo]
  omega

theorem markInaccessible_isSome_iff
    (hrange : p.baseFrameNo.toNat + p.nframes.toNat < 2 ^ 32)
    (hlo : p.baseFrameNo.toNat ≤ b.toNat)
    (hhi : b.toNat + n.toNat ≤ p.baseFrameNo.toNat + p.nframes.toNat) :
    (∃ p', p.markInaccessible b n = some p') ↔
      ∀ i, p.InRange b n i → LastOfByteSet p.bitmap i := by
  have hin := inRange_bounds hlo hhi
  have hsize := p.nframes.isLt
  have hassert : b ≥ p.baseFrameNo ∧ b + n ≤ p.baseFrameNo + p.nframes := by
    rw [ge_iff_le, BitVec.le_def, BitVec.le_def, toNat_add_of_lt hrange, toNat_add_of_lt (by omega)]
    exact ⟨hlo, hhi⟩
  have hend : (b - p.baseFrameNo + n).toNat = (b - p.baseFrameNo).toNat + n.toNat :=
    toNat_add_of_lt (by omega)
  unfold markInaccessible
  rw [if_pos hassert, hend]
  simp only [Option.map_eq_some_iff, exists_comm (α := ContFramePool), exists_eq_right',
    and_imp, InRange]
  exact markLoop_isSome_iff (by omega) _

theorem markedExactly_of_eq {p' : ContFramePool}
    (hin : (b - p.baseFrameNo).toNat + n.toNat ≤ p.nframes.toNat)
    (h : p.markInaccessible b n = some p') : p.MarkedExactly b n p' := by
  obtain ⟨hext, hcount, hcodes⟩ := markInaccessible_spec hin h
  refine ⟨hext, fun i hi => ?_, fun i hi => ?_, hcount⟩
  · rw [hcodes]
    exact if_pos hi
  · rw [hcodes]
    exact if_neg hi

/-- `mark_inaccessible` does what it is for on a free range exactly if the frame that
ends its last byte is free or inaccessible, and on a range with a frame that is not free
exactly if one of its bytes ends with a frame that is neither. -/
theorem marksFree_iff (hrange : p.baseFrameNo.toNat + p.nframes.toNat < 2 ^ 32)
    (hn : 1 ≤ n.toNat) (hlo : p.baseFrameNo.toNat ≤ b.toNat)
    (hhi : b.toNat + n.toNat ≤ p.baseFrameNo.toNat + p.nframes.toNat) :
    p.MarksFree b n ↔
      (p.RangeFree b n →
        LastOfByteSet p.bitmap ((b - p.baseFrameNo).toNat + n.toNat - 1)) ∧
      (¬ p.RangeFree b n → ∃ i, p.InRange b n i ∧ ¬ LastOfByteSet p.bitmap i) := by
  have hiff := markInaccessible_isSome_iff hrange hlo hhi
  constructor
  · rintro ⟨hcompletes, -⟩
    rw [hiff] at hcompletes
    refine ⟨fun hfree => hcompletes.mpr hfree _ ⟨by omega, by omega⟩, fun hused => ?_⟩
    by_contra hnone
    refine hused (hcompletes.mp fun i hi => ?_)
    by_contra hbit
    exact hnone ⟨i, hi, hbit⟩
  · rintro ⟨hfree, hused⟩
    refine ⟨?_, fun p' h => markedExactly_of_eq (inRange_bounds hlo hhi) h⟩
    rw [hiff]
    constructor
    · intro hset
      by_contra hnot
      obtain ⟨i, hi, hbit⟩ := hused hnot
      exact hbit (hset i hi)
    · intro hall i hi
      -- the byte ends inside the range, or it is the last byte of the range
      by_cases hlast : p.InRange b n (4 * (i / 4) + 3)
      · exact .inl (hall _ hlast)
      · have hbyte : i / 4 = ((b - p.baseFrameNo).toNat + n.toNat - 1) / 4 := by
          unfold InRange at hi hlast
          omega
        have hend := hfree hall
        rwa [LastOfByteSet, ← hbyte] at hend

end

def firstTaken : Option ContFramePool :=
  (construct (fun _ => 0#8) 16 4 100 1).bind fun p => (p.getFrames 1).map Prod.snd

def lastTaken : Option ContFramePool := do
  let (_, p) ← (← firstTaken).getFrames 1
  let (_, p) ← p.getFrames 1
  let (_, p) ← p.getFrames 1
  p.releaseFrame 16

/-- A frame in use is marked, because frame 19 is free; and a free frame is refused,
because frame 19 is in use. -/
theorem marks_by_last_of_byte :
    (∃ p, firstTaken = some p ∧ code p.bitmap 0 = .head ∧ (p.markInaccessible 16 1).isSome ∧
      ¬ p.MarksFree 16 1) ∧
    ∃ p, lastTaken = some p ∧ code p.bitmap 0 = .free ∧ p.markInaccessible 16 1 = none := by
  have h : (firstTaken.map fun p =>
      (p.baseFrameNo, code p.bitmap 0, (p.markInaccessible 16 1).isSome)) =
        some (16, .head, true) := by
    decide +kernel
  have h' : (lastTaken.map fun p => (code p.bitmap 0, (p.markInaccessible 16 1).isNone)) =
      some (.free, true) := by
    decide +kernel
  obtain ⟨p, hp, heq⟩ := Option.map_eq_some_iff.mp h
  obtain ⟨q, hq, heq'⟩ := Option.map_eq_some_iff.mp h'
  simp only [Prod.mk.injEq] at heq heq'
  obtain ⟨hbase, hcode, hsome⟩ := heq
  refine ⟨⟨p, hp, hcode, hsome, fun hmarks => ?_⟩, q, hq, heq'.1,
    Option.isNone_iff_eq_none.mp heq'.2⟩
  have hfree := hmarks.completes_iff.mp (Option.isSome_iff_exists.mp hsome) 0
    (by rw [InRange, hbase]; decide)
  rw [hcode] at hfree
  cases hfree

theorem marksFree_iff_firstTaken : ∃ p, firstTaken = some p ∧
    (p.MarksFree 16 1 ↔
      (p.RangeFree 16 1 → LastOfByteSet p.bitmap ((16 - p.baseFrameNo).toNat + 1 - 1)) ∧
      (¬ p.RangeFree 16 1 → ∃ i, p.InRange 16 1 i ∧ ¬ LastOfByteSet p.bitmap i)) := by
  have h : (firstTaken.map fun p => (p.baseFrameNo, p.nframes)) = some (16, 4) := by decide +kernel
  obtain ⟨p, hp, heq⟩ := Option.map_eq_some_iff.mp h
  obtain ⟨hbase, hsize⟩ := Prod.mk.inj heq
  exact ⟨p, hp, marksFree_iff (n := 1) (by rw [hbase, hsize]; decide) (by decide)
    (by rw [hbase]) (by rw [hbase, hsize]; decide)⟩

end TeachingKernel.FramePool
