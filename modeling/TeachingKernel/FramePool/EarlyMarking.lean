import TeachingKernel.FramePool.EarlyPool
import TeachingKernel.FramePool.Marking

/-!
# `mark_inaccessible` of P2

Its loop is bounded by the member `nframes` where the argument `_n_frames` was meant, so
it goes on behind the range and, unless the range starts with the pool, behind the pool.
The model notes the bytes of the bitmap that are read or written.
-/

namespace TeachingKernel.FramePool.P2

open ForLoop PackedPairs ContFramePool

/-- The bitmap, the free counter, and the bytes touched so far. -/
structure Marking where
  bitmap : Bytes
  nFreeFrames : Word
  touched : List Nat

/-- Frame `i` passes the assertion `bitmap[i/4] & (0x80 >> i%4 * 2 + 1)`, is changed by
`mark`, and counted. -/
def markFrame (mark : Bytes → Nat → Bytes) (i : Nat) (s : Marking) : Option Marking :=
  if second s.bitmap i then
    some ⟨mark s.bitmap i, s.nFreeFrames - 1, i / 4 :: s.touched⟩
  else none

/-- `bitmap[i/4] &= ~(0xC0 >> i % 4 * 2)` -/
def setRest (bm : Bytes) (i : Nat) : Bytes := clearBits bm i (bothMask i)

def markInaccessible (p : ContFramePool) (b n : Word) : Option (ContFramePool × List Nat) :=
  if b ≥ p.baseFrameNo ∧ b + n ≤ p.baseFrameNo + p.nframes then do
    let i := b - p.baseFrameNo
    let s ← markFrame setInaccessible i.toNat ⟨p.bitmap, p.nFreeFrames, []⟩
    let s ← forRange? (i + 1).toNat (b - p.baseFrameNo + p.nframes).toNat (markFrame setRest) s
    some ({ p with bitmap := s.bitmap, nFreeFrames := s.nFreeFrames }, s.touched)
  else none

/-- Exactly the frames of the range stop being free, the counter loses one for each, and
no byte outside the bitmap is touched. -/
structure MarksRange (p : ContFramePool) (b n : Word) (p' : ContFramePool) (touched : List Nat) :
    Prop where
  inside : ∀ i, p.InRange b n i → code p'.bitmap i ≠ .free
  outside : ∀ i < p.nframes.toNat, ¬ p.InRange b n i → code p'.bitmap i = code p.bitmap i
  counted : p'.nFreeFrames = p.nFreeFrames - n
  in_bitmap : ∀ c ∈ touched, c < p.nframes.toNat / 4

section

variable {p p' : ContFramePool} {b n : Word} {touched : List Nat} {s t : Marking} {i : Nat}

@[simp] theorem code_setRest (bm : Bytes) (i j : Nat) :
    code (setRest bm i) j = if j = i then .rest else code bm j := FramePool.code_setRest bm i j

theorem markFrame_of_free (mark : Bytes → Nat → Bytes) (h : code s.bitmap i = .free) :
    markFrame mark i s = some ⟨mark s.bitmap i, s.nFreeFrames - 1, i / 4 :: s.touched⟩ :=
  if_pos (second_eq_true_iff.mpr (.inl h))

theorem markFrame_eq {mark : Bytes → Nat → Bytes} (h : markFrame mark i s = some t) :
    second s.bitmap i = true ∧
      t = ⟨mark s.bitmap i, s.nFreeFrames - 1, i / 4 :: s.touched⟩ := by
  unfold markFrame at h
  split at h
  · cases h
    exact ⟨by assumption, rfl⟩
  · cases h

/-- The loop has gone from frame `lo` to frame `k`. -/
structure Passed (s : Marking) (lo k : Nat) (t : Marking) : Prop where
  tested : ∀ j, lo ≤ j → j < k → second s.bitmap j = true
  rest : ∀ j, lo ≤ j → j < k → code t.bitmap j = .rest
  kept : ∀ j, ¬ (lo ≤ j ∧ j < k) → code t.bitmap j = code s.bitmap j
  counted : t.nFreeFrames = s.nFreeFrames - BitVec.ofNat 32 (k - lo)
  touched_iff : ∀ c, c ∈ t.touched ↔ c ∈ s.touched ∨ ∃ j, lo ≤ j ∧ j < k ∧ c = j / 4

theorem Passed.start (s : Marking) (lo : Nat) : Passed s lo lo s where
  tested j hlo hlt := by omega
  rest j hlo hlt := by omega
  kept j _ := rfl
  counted := by simp
  touched_iff c := by
    refine ⟨Or.inl, fun h => h.elim id ?_⟩
    rintro ⟨j, hlo, hlt, -⟩
    omega

theorem Passed.next {u : Marking} {lo k : Nat} (h : Passed s lo k t) (hlo : lo ≤ k)
    (hmark : markFrame setRest k t = some u) : Passed s lo (k + 1) u := by
  obtain ⟨htest, rfl⟩ := markFrame_eq hmark
  have hcode := h.kept k (by omega)
  refine ⟨fun j hj hjk => ?_, fun j hj hjk => ?_, fun j hj => ?_, ?_, fun c => ?_⟩
  · rcases Nat.lt_or_eq_of_le (Nat.le_of_lt_succ hjk) with hlt | rfl
    · exact h.tested j hj hlt
    · rw [second_eq_true_iff, ← hcode, ← second_eq_true_iff]
      exact htest
  · rw [code_setRest]
    by_cases hjk' : j = k
    · rw [if_pos hjk']
    · rw [if_neg hjk']
      exact h.rest j hj (by omega)
  · rw [code_setRest, if_neg (by omega)]
    exact h.kept j (by omega)
  · show t.nFreeFrames - 1 = _
    rw [h.counted, BitVec.sub_sub, Nat.succ_sub hlo, Nat.succ_eq_add_one, BitVec.ofNat_add]
    rfl
  · show c ∈ k / 4 :: t.touched ↔ _
    rw [List.mem_cons, h.touched_iff]
    constructor
    · rintro (rfl | hs | ⟨j, hj, hjk, rfl⟩)
      · exact .inr ⟨k, hlo, Nat.lt_succ_self k, rfl⟩
      · exact .inl hs
      · exact .inr ⟨j, hj, Nat.lt_succ_of_lt hjk, rfl⟩
    · rintro (hs | ⟨j, hj, hjk, rfl⟩)
      · exact .inr (.inl hs)
      · rcases Nat.lt_or_eq_of_le (Nat.le_of_lt_succ hjk) with hlt | rfl
        · exact .inr (.inr ⟨j, hj, hlt, rfl⟩)
        · exact .inl rfl

theorem passed_of_loop {lo hi : Nat} (hle : lo ≤ hi)
    (h : forRange? lo hi (markFrame setRest) s = some t) : Passed s lo hi t :=
  forRange?_invariant hle (Passed.start s lo) (fun _ _ _ hlo _ hP hv => hP.next hlo hv) h

theorem loop_of_free {lo hi : Nat} (hle : lo ≤ hi)
    (hfree : ∀ j, lo ≤ j → j < hi → code s.bitmap j = .free) :
    ∃ t, forRange? lo hi (markFrame setRest) s = some t := by
  obtain ⟨t, ht, -⟩ := forRange?_completes hle (Passed.start s lo) fun i u hlo hi hP => by
    have hcode := (hP.kept i (by omega)).trans (hfree i hlo hi)
    have hmark := markFrame_of_free setRest hcode
    exact ⟨_, hmark, hP.next hlo hmark⟩
  exact ⟨t, ht⟩

/-! ## The whole call -/

def firstMarked (p : ContFramePool) (i : Nat) : Marking :=
  ⟨setInaccessible p.bitmap i, p.nFreeFrames - 1, [i / 4]⟩

theorem markInaccessible_eq (hrange : p.baseFrameNo.toNat + p.nframes.toNat < 2 ^ 32)
    (hn : 1 ≤ n.toNat) (hlo : p.baseFrameNo.toNat ≤ b.toNat)
    (hhi : b.toNat + n.toNat ≤ p.baseFrameNo.toNat + p.nframes.toNat)
    (hfree : code p.bitmap (b - p.baseFrameNo).toNat = .free) :
    markInaccessible p b n =
      (forRange? ((b - p.baseFrameNo).toNat + 1) (b - p.baseFrameNo + p.nframes).toNat
        (markFrame setRest) (firstMarked p (b - p.baseFrameNo).toNat)).map fun s =>
          ({ p with bitmap := s.bitmap, nFreeFrames := s.nFreeFrames }, s.touched) := by
  have hin := inRange_bounds hlo hhi
  have hsize := p.nframes.isLt
  have hassert : b ≥ p.baseFrameNo ∧ b + n ≤ p.baseFrameNo + p.nframes := by
    rw [ge_iff_le, BitVec.le_def, BitVec.le_def, toNat_add_of_lt hrange, toNat_add_of_lt (by omega)]
    exact ⟨hlo, hhi⟩
  have hone : (1 : Word).toNat = 1 := rfl
  have hnext : (b - p.baseFrameNo + 1).toNat = (b - p.baseFrameNo).toNat + 1 :=
    toNat_add_of_lt (by omega)
  rw [markInaccessible, if_pos hassert]
  dsimp only
  rw [markFrame_of_free setInaccessible hfree, hnext, Option.map_eq_bind]
  rfl

theorem code_firstMarked (p : ContFramePool) (i j : Nat) :
    code (firstMarked p i).bitmap j = if j = i then .inaccessible else code p.bitmap j :=
  code_setInaccessible p.bitmap i j

/-- A loop that does not wrap must end with the range, so the range is the pool. -/
private theorem whole_of_marksRange (hsum : (b - p.baseFrameNo).toNat + p.nframes.toNat < 2 ^ 32)
    (hn : 1 ≤ n.toNat) (hin : (b - p.baseFrameNo).toNat + n.toNat ≤ p.nframes.toNat)
    (hloop : forRange? ((b - p.baseFrameNo).toNat + 1) (b - p.baseFrameNo + p.nframes).toNat
      (markFrame setRest) (firstMarked p (b - p.baseFrameNo).toNat) = some t)
    (h : MarksRange p b n { p with bitmap := t.bitmap, nFreeFrames := t.nFreeFrames } t.touched) :
    (b - p.baseFrameNo).toNat = 0 ∧ n.toNat = p.nframes.toNat := by
  have hend : (b - p.baseFrameNo + p.nframes).toNat =
      (b - p.baseFrameNo).toNat + p.nframes.toNat := toNat_add_of_lt hsum
  have hpassed := passed_of_loop (by omega) hloop
  rw [hend] at hpassed
  have hstart : (b - p.baseFrameNo).toNat = 0 := by
    by_contra hne
    -- the byte behind the bitmap is touched
    have htouched := (hpassed.touched_iff (p.nframes.toNat / 4)).mpr
      (.inr ⟨p.nframes.toNat, by omega, by omega, rfl⟩)
    exact absurd (h.in_bitmap _ htouched) (Nat.lt_irrefl _)
  refine ⟨hstart, ?_⟩
  by_contra hne
  -- frame `n` lies behind the range and in the pool
  have htest := hpassed.tested n.toNat (by omega) (by omega)
  have hkept := h.outside n.toNat (by omega) (by
    unfold InRange
    omega)
  have hrest : code t.bitmap n.toNat = .rest := hpassed.rest n.toNat (by omega) (by omega)
  rw [second_eq_true_iff, code_firstMarked, if_neg (by omega), ← hkept] at htest
  rcases htest with hfree | hinaccessible
  · cases hrest.symm.trans hfree
  · cases hrest.symm.trans hinaccessible

private theorem marksRange_whole (hstart : (b - p.baseFrameNo).toNat = 0)
    (hsize : n.toNat = p.nframes.toNat) (hfour : p.nframes.toNat % 4 = 0)
    (hn : 1 ≤ n.toNat) (hpassed : Passed (firstMarked p 0) 1 p.nframes.toNat t) :
    MarksRange p b n { p with bitmap := t.bitmap, nFreeFrames := t.nFreeFrames } t.touched := by
  have hrange : ∀ i, p.InRange b n i ↔ i < p.nframes.toNat := fun i => by
    unfold InRange
    omega
  refine ⟨fun i hi => ?_, fun i hi hout => absurd ((hrange i).mpr hi) hout, ?_, fun c hc => ?_⟩
  · have hlt := (hrange i).mp hi
    show code t.bitmap i ≠ .free
    by_cases hzero : i = 0
    · rw [hpassed.kept i (by omega), code_firstMarked, if_pos hzero]
      decide
    · rw [hpassed.rest i (by omega) hlt]
      decide
  · show t.nFreeFrames = _
    rw [hpassed.counted, firstMarked, BitVec.sub_sub]
    congr 1
    have hone : (1 : Word) = BitVec.ofNat 32 1 := rfl
    rw [hone, ← BitVec.ofNat_add, Nat.add_sub_cancel' (by omega), ← hsize, BitVec.ofNat_toNat,
      BitVec.setWidth_eq]
  · rcases (hpassed.touched_iff c).mp hc with hfirst | ⟨j, -, hj, rfl⟩
    · obtain rfl : c = 0 / 4 := List.mem_singleton.mp hfirst
      omega
    · omega

/-- Where the bound of the loop wraps around, the loop does nothing. -/
private theorem loop_of_wrap (hin : (b - p.baseFrameNo).toNat + n.toNat ≤ p.nframes.toNat)
    (hwrap : 2 ^ 32 ≤ (b - p.baseFrameNo).toNat + p.nframes.toNat) :
    forRange? ((b - p.baseFrameNo).toNat + 1) (b - p.baseFrameNo + p.nframes).toNat
      (markFrame setRest) s = some s := by
  have hend : (b - p.baseFrameNo + p.nframes).toNat < (b - p.baseFrameNo).toNat + 1 := by
    have hsize := p.nframes.isLt
    rw [BitVec.toNat_add]
    omega
  rw [forRange?, Nat.sub_eq_zero_of_le (Nat.le_of_lt hend)]
  rfl

private theorem marksRange_one (hone : n.toNat = 1) (hfour : p.nframes.toNat % 4 = 0)
    (hin : (b - p.baseFrameNo).toNat + n.toNat ≤ p.nframes.toNat) :
    MarksRange p b n { p with
      bitmap := (firstMarked p (b - p.baseFrameNo).toNat).bitmap
      nFreeFrames := (firstMarked p (b - p.baseFrameNo).toNat).nFreeFrames }
      (firstMarked p (b - p.baseFrameNo).toNat).touched := by
  refine ⟨fun i hi => ?_, fun i _ hi => ?_, ?_, fun c hc => ?_⟩
  · show code (firstMarked p _).bitmap i ≠ .free
    have heq : i = (b - p.baseFrameNo).toNat := by
      unfold InRange at hi
      omega
    rw [code_firstMarked, if_pos heq]
    decide
  · show code (firstMarked p _).bitmap i = _
    rw [code_firstMarked, if_neg]
    rintro rfl
    exact hi ⟨Nat.le_refl _, by omega⟩
  · show p.nFreeFrames - 1 = _
    rw [show n = 1 from BitVec.eq_of_toNat_eq hone]
  · obtain rfl : c = (b - p.baseFrameNo).toNat / 4 := List.mem_singleton.mp hc
    omega

/-- On a free range `mark_inaccessible` of P2 does what it is for exactly if the range is
the whole pool, or a single frame so far up in a huge pool that the bound of the loop
wraps around. -/
theorem marksRange_iff (hrange : p.baseFrameNo.toNat + p.nframes.toNat < 2 ^ 32)
    (hfour : p.nframes.toNat % 4 = 0) (hn : 1 ≤ n.toNat)
    (hlo : p.baseFrameNo.toNat ≤ b.toNat)
    (hhi : b.toNat + n.toNat ≤ p.baseFrameNo.toNat + p.nframes.toNat) (hfree : p.RangeFree b n) :
    (∃ p' touched, markInaccessible p b n = some (p', touched) ∧ MarksRange p b n p' touched) ↔
      (b = p.baseFrameNo ∧ n = p.nframes) ∨
        (n = 1 ∧ 2 ^ 32 ≤ b.toNat - p.baseFrameNo.toNat + p.nframes.toNat) := by
  have hin := inRange_bounds hlo hhi
  have hsub := toNat_sub_of_le hlo
  rw [markInaccessible_eq hrange hn hlo hhi (hfree _ ⟨Nat.le_refl _, by omega⟩), ← hsub]
  constructor
  · rintro ⟨p', touched, heq, hmarks⟩
    obtain ⟨t, hloop, heq⟩ := Option.map_eq_some_iff.mp heq
    cases heq
    by_cases hwrap : 2 ^ 32 ≤ (b - p.baseFrameNo).toNat + p.nframes.toNat
    · rw [loop_of_wrap hin hwrap] at hloop
      cases hloop
      refine .inr ⟨BitVec.eq_of_toNat_eq ?_, hwrap⟩
      show n.toNat = 1
      by_contra hne
      -- the second frame of the range is left free
      have hnext : p.InRange b n ((b - p.baseFrameNo).toNat + 1) := ⟨by omega, by omega⟩
      refine hmarks.inside _ hnext ?_
      show code (firstMarked p _).bitmap _ = .free
      rw [code_firstMarked, if_neg (by omega), hfree _ hnext]
    · obtain ⟨hstart, hsize⟩ := whole_of_marksRange (by omega) hn hin hloop hmarks
      exact .inl ⟨BitVec.eq_of_toNat_eq (by omega), BitVec.eq_of_toNat_eq hsize⟩
  · rintro (⟨rfl, rfl⟩ | ⟨hone, hwrap⟩)
    · have hstart : (p.baseFrameNo - p.baseFrameNo).toNat = 0 := by omega
      have hend : (p.baseFrameNo - p.baseFrameNo + p.nframes).toNat = p.nframes.toNat := by
        rw [BitVec.sub_self, BitVec.zero_add]
      rw [hstart, hend]
      obtain ⟨t, ht⟩ := loop_of_free (s := firstMarked p 0) hn fun j hj hlt => by
        rw [code_firstMarked, if_neg (by omega)]
        exact hfree j ⟨by omega, by omega⟩
      rw [Nat.zero_add, ht]
      exact ⟨_, _, rfl, marksRange_whole hstart rfl hfour hn (passed_of_loop hn ht)⟩
    · rw [loop_of_wrap hin hwrap]
      exact ⟨_, _, rfl, marksRange_one (by rw [hone]; rfl) hfour hin⟩

end

def eightFrames : Option ContFramePool := construct (fun _ => 0#8) 16 8 100 1

/-- Asked for four frames, the call marks all eight. -/
theorem marks_behind_range : ∃ p p' touched, eightFrames = some p ∧ p.RangeFree 16 4 ∧
    markInaccessible p 16 4 = some (p', touched) ∧ (∀ i < 8, code p'.bitmap i ≠ .free) ∧
    p'.nFreeFrames = 0 ∧ ¬ MarksRange p 16 4 p' touched := by
  have h : (eightFrames.bind fun p => (markInaccessible p 16 4).map fun a =>
      (p.baseFrameNo, p.nframes, (List.range 8).all (fun i => code p.bitmap i = .free),
        (List.range 8).all (fun i => code a.1.bitmap i ≠ .free), a.1.nFreeFrames)) =
      some (16, 8, true, true, 0) := by
    decide +kernel
  obtain ⟨p, hp, h⟩ := Option.bind_eq_some_iff.mp h
  obtain ⟨⟨p', touched⟩, hcall, heq⟩ := Option.map_eq_some_iff.mp h
  simp only [Prod.mk.injEq] at heq
  obtain ⟨hbase, hsize, hfree, hused, hcount⟩ := heq
  have hfree : ∀ i < 8, code p.bitmap i = .free := fun i hi =>
    of_decide_eq_true (List.all_eq_true.mp hfree i (List.mem_range.mpr hi))
  have hused : ∀ i < 8, code p'.bitmap i ≠ .free := fun i hi =>
    of_decide_eq_true (List.all_eq_true.mp hused i (List.mem_range.mpr hi))
  refine ⟨p, p', touched, hp, ?_, hcall, hused, hcount, fun hmarks => hused 4 (by decide) ?_⟩
  · rintro i ⟨-, hi⟩
    rw [hbase] at hi
    exact hfree i (Nat.lt_trans hi (by decide))
  · rw [hmarks.outside 4 (by rw [hsize]; decide) (by rw [InRange, hbase]; decide)]
    exact hfree 4 (by decide)

theorem marksRange_iff_eightFrames : ∃ p, eightFrames = some p ∧
    ((∃ p' touched, markInaccessible p 16 8 = some (p', touched) ∧ MarksRange p 16 8 p' touched) ↔
      (16 = p.baseFrameNo ∧ 8 = p.nframes) ∨
        ((8 : Word) = 1 ∧ 2 ^ 32 ≤ (16 : Word).toNat - p.baseFrameNo.toNat + p.nframes.toNat)) := by
  have h : (eightFrames.map fun p =>
      (p.baseFrameNo, p.nframes, (List.range 8).all fun i => code p.bitmap i = .free)) =
      some (16, 8, true) := by
    decide +kernel
  obtain ⟨p, hp, heq⟩ := Option.map_eq_some_iff.mp h
  simp only [Prod.mk.injEq] at heq
  obtain ⟨hbase, hsize, hfree⟩ := heq
  have hfree : p.RangeFree 16 8 := by
    rintro i ⟨-, hi⟩
    rw [hbase] at hi
    exact of_decide_eq_true (List.all_eq_true.mp hfree i (List.mem_range.mpr hi))
  exact ⟨p, hp, marksRange_iff (by rw [hbase, hsize]; decide) (by rw [hsize]; decide) (by decide)
    (by rw [hbase]) (by rw [hbase, hsize]) hfree⟩

end TeachingKernel.FramePool.P2
