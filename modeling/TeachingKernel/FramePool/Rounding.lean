import TeachingKernel.FramePool.History
import TeachingKernel.FramePool.Protection

/-!
# A frame count that is rounded up

The constructor accepts any number of frames and manages the next multiple of four, but
sets the free counter before it rounds. The frames added by rounding are free in the
bitmap, not counted, and handed out like the others.
-/

namespace TeachingKernel.FramePool

open PackedPairs ContFramePool Runs

def CountsFree (p : ContFramePool) : Prop := p.nFreeFrames.toNat = p.freeFrames.card

/-- A region answered by pool `k` lies among the `n` frames from `base` on. -/
def AnswersInside (k : Nat) (base n : Word) : PoolCall → Prop
  | .get j m f => j = k → (f - base).toNat + m.toNat ≤ n.toNat
  | _ => True

/-- The pool counts its free frames, and along every later run, whatever the other pools
and the calls are, hands out frames of its declared range only. -/
structure KeepsDeclared (p : ContFramePool) (base n : Word) : Prop where
  counts : CountsFree p
  inside : ∀ (pools : List ContFramePool) (k : Nat) (run : List (PoolCall × List ContFramePool)),
    pools[k]? = some p → IsRun CallStep pools run →
      EveryTransition (fun _ call _ => AnswersInside k base n call) pools run

section

variable {memory : Bytes} {base n info nInfo : Word} {p : ContFramePool}

theorem countsFree_iff (hn : 1 ≤ n.toNat) (h : construct memory base n info nInfo = some p) :
    CountsFree p ↔ n.toNat % 4 = 0 := by
  have hround := roundUp4_toNat n
  have hsize := n.isLt
  by_cases hinfo : info = 0
  · subst hinfo
    rw [CountsFree, card_freeFrames_inner h, (construct_inner h).2.1]
    by_cases hzero : (roundUp4 n).toNat = 0
    · -- rounding wrapped around, and the pool has no frames at all
      have hneeded : (neededInfoFrames (roundUp4 n)).toNat = 262144 := by
        rw [show roundUp4 n = 0 from BitVec.eq_of_toNat_eq hzero]
        decide
      rw [toNat_sub_of_le (by omega)]
      omega
    · have hneeded := neededInfoFrames_toNat (n := roundUp4 n) (by omega)
      rw [toNat_sub_of_le (by omega)]
      omega
  · rw [CountsFree, card_freeFrames_outer hinfo h, (construct_outer hinfo h).2.2.2.1]
    omega

theorem answersInside_step {k : Nat} {e : Extent} {pools pools' : List ContFramePool}
    {call : PoolCall} (h : ReservedAt k 0 e pools) (hstep : CallStep pools call pools') :
    AnswersInside k e.baseFrameNo e.nframes call := by
  cases hstep with
  | @get q q' j m f hj hget =>
      rintro rfl
      obtain ⟨r, hk, hext, -⟩ := h
      cases hj.symm.trans hk
      obtain ⟨i, hdone, hf, -⟩ := getFrames_spec (pos_of_getFrames hget) hget
      have hlt := hdone.lt
      have hcount := hdone.size_le
      have hsize := q.nframes.isLt
      rw [← hext]
      show (f - q.baseFrameNo).toNat + m.toNat ≤ q.nframes.toNat
      rw [hf, frameNo_sub_base q (by omega)]
      omega
  | mark hj hmark => trivial
  | release hrelease => trivial

/-- A pool keeps to its declared frames exactly if their number is a multiple of four. -/
theorem keepsDeclared_iff (hn : 1 ≤ n.toNat) (h : construct memory base n info nInfo = some p) :
    KeepsDeclared p base n ↔ n.toNat % 4 = 0 := by
  refine ⟨fun hkeeps => (countsFree_iff hn h).mp hkeeps.counts, fun hfour => ?_⟩
  refine ⟨(countsFree_iff hn h).mpr hfour, fun pools k run hk hrun => ?_⟩
  obtain ⟨hbase, hsize, -⟩ := extent_of_construct h
  rw [roundUp4_of_dvd hfour] at hsize
  have hstart : ReservedAt k 0 p.extent pools :=
    ⟨p, hk, rfl, fun i hi => absurd hi (Nat.not_lt_zero i)⟩
  refine everyTransition_of_step (fun s call t hs hstep => ⟨(hs.step hstep).1, ?_⟩) hstart hrun
  have hinside := answersInside_step hs hstep
  rwa [show p.extent.baseFrameNo = base from hbase, show p.extent.nframes = n from hsize] at hinside

end

/-- A pool built for five frames counts five, codes eight as free, and hands out all
eight as one region. -/
theorem five_frames_rounded : ∃ p p', construct (fun _ => 0#8) 16 5 100 1 = some p ∧
    p.nFreeFrames = 5 ∧ p.freeFrames.card = 8 ∧ p.getFrames 8 = some (16, p') ∧
    ¬ KeepsDeclared p 16 5 := by
  have h : ((construct (fun _ => 0#8) 16 5 100 1).bind fun p => (p.getFrames 8).map fun a =>
      (p.nFreeFrames, p.freeFrames.card, a.1)) = some (5, 8, 16) := by
    decide +kernel
  obtain ⟨p, hp, h⟩ := Option.bind_eq_some_iff.mp h
  obtain ⟨⟨f, p'⟩, hget, heq⟩ := Option.map_eq_some_iff.mp h
  simp only [Prod.mk.injEq] at heq
  obtain ⟨hcount, hcard, rfl⟩ := heq
  refine ⟨p, p', hp, hcount, hcard, hget, fun hkeeps => ?_⟩
  have hrun : IsRun CallStep [p] [(.get 0 8 16, [p'])] := ⟨.get rfl hget, trivial⟩
  have hinside := (hkeeps.inside [p] 0 _ rfl hrun).1 rfl
  exact absurd hinside (by decide)

theorem keepsDeclared_iff_five : ∃ p, construct (fun _ => 0#8) 16 5 100 1 = some p ∧
    (KeepsDeclared p 16 5 ↔ (5 : Word).toNat % 4 = 0) := by
  have h : (construct (fun _ => 0#8) 16 5 100 1).isSome = true := by decide +kernel
  obtain ⟨p, hp⟩ := Option.isSome_iff_exists.mp h
  exact ⟨p, hp, keepsDeclared_iff (by decide) hp⟩

end TeachingKernel.FramePool
