import Mathlib.Data.Finset.Max
import TeachingKernel.FramePool.EarlyPool

/-!
# `get_frames` finds a run of free frames

If `n` free frames lie next to each other somewhere, the running count reaches `n` there
or before, and cannot step over `n`. The shortcut over an all-zero byte starts at its
first frame, so no frame that it skips is free.
-/

namespace TeachingKernel.FramePool

open PackedPairs ContFramePool

inductive LoopHead (bm : Bytes) (nframes n : Nat) : Nat → Nat → Prop
  | start : LoopHead bm nframes n 0 0
  | skip {i count : Nat} (h : LoopHead bm nframes n i count) (hi : i < nframes)
      (hzero : bm (i / 4) = 0#8) : LoopHead bm nframes n (i + 3 + 1) 0
  | free {i count : Nat} (h : LoopHead bm nframes n i count) (hi : i < nframes)
      (hbyte : bm (i / 4) ≠ 0#8) (hfree : first bm i && second bm i) (hmore : count + 1 ≠ n) :
      LoopHead bm nframes n (i + 1) (count + 1)
  | used {i count : Nat} (h : LoopHead bm nframes n i count) (hi : i < nframes)
      (hbyte : bm (i / 4) ≠ 0#8) (hused : ¬ (first bm i && second bm i)) :
      LoopHead bm nframes n (i + 1) count

section

variable {bm : Bytes} {nframes n i count m : Nat}

/-- What the search answers is decided by the loop from any of its heads on. -/
theorem search_eq_of_loopHead (h : LoopHead bm nframes n i count) :
    ∃ fuel, nframes ≤ i + fuel ∧
      search bm nframes n nframes 0 0 = search bm nframes n fuel i count := by
  induction h with
  | start => exact ⟨nframes, by omega, rfl⟩
  | skip _ hi hzero ih =>
      obtain ⟨fuel, hfuel, heq⟩ := ih
      obtain ⟨k, rfl⟩ := Nat.exists_eq_succ_of_ne_zero (show fuel ≠ 0 by omega)
      refine ⟨k, by omega, heq.trans ?_⟩
      rw [search, if_pos hi, if_pos hzero]
  | free _ hi hbyte hfree hmore ih =>
      obtain ⟨fuel, hfuel, heq⟩ := ih
      obtain ⟨k, rfl⟩ := Nat.exists_eq_succ_of_ne_zero (show fuel ≠ 0 by omega)
      refine ⟨k, by omega, heq.trans ?_⟩
      rw [search, if_pos hi, if_neg hbyte, if_pos hfree, if_neg hmore]
  | used _ hi hbyte hused ih =>
      obtain ⟨fuel, hfuel, heq⟩ := ih
      obtain ⟨k, rfl⟩ := Nat.exists_eq_succ_of_ne_zero (show fuel ≠ 0 by omega)
      refine ⟨k, by omega, heq.trans ?_⟩
      rw [search, if_pos hi, if_neg hbyte, if_neg hused]

/-- Inside a byte the loop has seen that the byte is not zero. -/
theorem LoopHead.byte_ne_zero (h : LoopHead bm nframes n i count) (hi : i % 4 ≠ 0) :
    bm (i / 4) ≠ 0#8 := by
  induction h with
  | start => exact absurd rfl hi
  | @skip j _ _ _ hzero ih => exact absurd hzero (ih (by omega))
  | @free j _ _ _ hbyte => rwa [show (j + 1) / 4 = j / 4 by omega]
  | @used j _ _ _ hbyte => rwa [show (j + 1) / 4 = j / 4 by omega]

theorem LoopHead.not_free_of_skip (h : LoopHead bm nframes n i count) (hzero : bm (i / 4) = 0#8)
    {k : Nat} (hlo : i ≤ k) (hhi : k < i + 3 + 1) : code bm k ≠ .free := by
  have halign : i % 4 = 0 := by
    by_contra hne
    exact h.byte_ne_zero hne hzero
  rw [byte_eq_zero_iff_codes.mp hzero k (by omega)]
  decide

/-- Counted up to its last free frame, a stretch has all its frames. -/
theorem stretch_subset_last (hm : m ∈ stretch bm i) (hlast : ∀ k ∈ stretch bm i, k ≤ m) :
    stretch bm i ⊆ stretch bm (m + 1) := by
  intro k hk
  have hmi := (mem_stretch.mp hm).1
  obtain ⟨-, hfree, hbytes⟩ := mem_stretch.mp hk
  have hle := hlast k hk
  exact mem_stretch.mpr ⟨by omega, hfree, fun c hkc hci => hbytes c hkc (by omega)⟩

/-- The count goes up by one at a time, so before it passes `n` it is `n`. -/
theorem exists_completes (hn : 1 ≤ n) (hm : m < nframes) (hfree : code bm m = .free)
    (hcard : n ≤ (stretch bm (m + 1)).card) : ∃ e, Completes bm nframes n e := by
  induction m using Nat.strong_induction_on with
  | _ m ih =>
      by_cases hearlier : ∃ j < m, code bm j = .free ∧ n ≤ (stretch bm (j + 1)).card
      · obtain ⟨j, hj, hjfree, hjcard⟩ := hearlier
        exact ih j hj (by omega) hjfree hjcard
      · refine ⟨m, hm, hfree, ?_, fun j hj hjfree heq => hearlier ⟨j, hj, hjfree, heq.ge⟩⟩
        by_contra hne
        rw [card_stretch_free hfree] at hcard hne
        -- the last free frame before `m` has the count already
        have hnonempty : (stretch bm m).Nonempty := Finset.card_pos.mp (by omega)
        have hmax := (stretch bm m).max'_mem hnonempty
        obtain ⟨hlt, hmaxfree, -⟩ := mem_stretch.mp hmax
        have hsub := stretch_subset_last hmax fun k hk => Finset.le_max' _ k hk
        have hle := Finset.card_le_card hsub
        exact hearlier ⟨_, hlt, hmaxfree, by omega⟩

/-- A run of `n` free frames lets the search complete. -/
theorem search_isSome_of_window {lo : Nat} (hn : 1 ≤ n) (hend : lo + n ≤ nframes)
    (hfree : ∀ k, lo ≤ k → k < lo + n → code bm k = .free) :
    ∃ e, search bm nframes n nframes 0 0 = some e := by
  have hwindow : Finset.Ico lo (lo + n) ⊆ stretch bm (lo + n - 1 + 1) := fun k hk => by
    obtain ⟨hlo, hhi⟩ := Finset.mem_Ico.mp hk
    exact mem_stretch_of_free_window (fun j hj hj' => hfree j hj (by omega)) hlo (by omega)
  have hcard := Finset.card_le_card hwindow
  rw [Nat.card_Ico, Nat.add_sub_cancel_left] at hcard
  obtain ⟨e, he⟩ := exists_completes hn (show lo + n - 1 < nframes by omega)
    (hfree _ (by omega) (by omega)) hcard
  cases hsearch : search bm nframes n nframes 0 0 with
  | none => exact absurd he (search_none hsearch e)
  | some e => exact ⟨e, rfl⟩

/-- `get_frames` of P2 answers what that of P3 and P4 does. -/
theorem P2.getFrames_of_getFrames {p p' : ContFramePool} {n f : Word}
    (h : p.getFrames n = some (f, p')) : P2.getFrames p n = some (f, p') := by
  unfold ContFramePool.getFrames at h
  unfold P2.getFrames
  by_cases hfree : p.nFreeFrames > 0
  · rw [if_pos hfree] at h ⊢
    cases hs : search p.bitmap p.nframes.toNat n.toNat p.nframes.toNat 0 0 with
    | none => simp [hs] at h
    | some e =>
        rw [hs] at h
        exact h
  · rw [if_neg hfree] at h
    cases h

theorem getFrames_isSome {p : ContFramePool} {n : Word} {e : Nat} (hcount : 0 < p.nFreeFrames.toNat)
    (h : search p.bitmap p.nframes.toNat n.toNat p.nframes.toNat 0 0 = some e) :
    ∃ f p', p.getFrames n = some (f, p') := by
  unfold ContFramePool.getFrames
  rw [if_pos (show p.nFreeFrames > 0 from BitVec.lt_def.mpr hcount), h]
  exact ⟨_, _, rfl⟩

end

/-- With `n` free frames next to each other, `get_frames` succeeds in both versions and
answers the frame it made the head of a sequence, which is frame 0 only if the pool has a
frame 0; and the shortcut of its loop jumps over no free frame. -/
theorem getFrames_complete {p : ContFramePool} {n : Word} {lo : Nat} (hn : 1 ≤ n.toNat)
    (hcount : 0 < p.nFreeFrames.toNat) (hend : lo + n.toNat ≤ p.nframes.toNat)
    (hfree : ∀ k, lo ≤ k → k < lo + n.toNat → code p.bitmap k = .free) :
    (∃ i p', i + n.toNat ≤ p.nframes.toNat ∧ code p'.bitmap i = .head ∧
      p.getFrames n = some (p.frameNo i, p') ∧ P2.getFrames p n = some (p.frameNo i, p') ∧
      ((∀ k < p.nframes.toNat, p.frameNo k ≠ 0) → p.frameNo i ≠ 0)) ∧
    ∀ i count k, LoopHead p.bitmap p.nframes.toNat n.toNat i count → i < p.nframes.toNat →
      p.bitmap (i / 4) = 0#8 → i ≤ k → k < i + 3 + 1 → code p.bitmap k ≠ .free := by
  constructor
  · obtain ⟨e, hsearch⟩ := search_isSome_of_window hn hend hfree
    obtain ⟨f, p', hget⟩ := getFrames_isSome hcount hsearch
    obtain ⟨e', hdone, rfl, -, -, -, hcodes⟩ := getFrames_spec hn hget
    have hlt := hdone.lt
    have hsize := hdone.size_le
    refine ⟨e' + 1 - n.toNat, p', by omega, ?_, hget, P2.getFrames_of_getFrames hget,
      fun hne => hne _ (by omega)⟩
    rw [hcodes, if_pos rfl]
  · exact fun i count k h _ hzero hlo hhi => h.not_free_of_skip hzero hlo hhi

/-- A pool that begins with frame 0 answers 0 for a region that it hands out. -/
theorem answers_frame_zero : ∃ p p', P2.construct (fun _ => 0#8) 0 4 100 1 = some p ∧
    (∀ k < 4, code p.bitmap k = .free) ∧ p.nFreeFrames = 4 ∧
    P2.getFrames p 1 = some (0, p') ∧ code p'.bitmap 0 = .head := by
  have h : ((P2.construct (fun _ => 0#8) 0 4 100 1).bind fun p => (P2.getFrames p 1).map fun a =>
      ((List.range 4).all (fun k => code p.bitmap k = .free), p.nFreeFrames, a.1,
        code a.2.bitmap 0)) = some (true, 4, 0, .head) := by
    decide +kernel
  obtain ⟨p, hp, h⟩ := Option.bind_eq_some_iff.mp h
  obtain ⟨⟨f, p'⟩, hget, heq⟩ := Option.map_eq_some_iff.mp h
  simp only [Prod.mk.injEq] at heq
  obtain ⟨hfree, hcount, rfl, hhead⟩ := heq
  exact ⟨p, p', hp, fun k hk =>
    of_decide_eq_true (List.all_eq_true.mp hfree k (List.mem_range.mpr hk)), hcount, hget, hhead⟩

theorem getFrames_complete_four : ∃ p, P2.construct (fun _ => 0#8) 16 4 100 1 = some p ∧
    ∃ i p', i + 4 ≤ p.nframes.toNat ∧ code p'.bitmap i = .head ∧
      p.getFrames 4 = some (p.frameNo i, p') ∧ P2.getFrames p 4 = some (p.frameNo i, p') := by
  have h : ((P2.construct (fun _ => 0#8) 16 4 100 1).map fun p =>
      (p.nframes, p.nFreeFrames, (List.range 4).all fun k => code p.bitmap k = .free)) =
      some (4, 4, true) := by
    decide +kernel
  obtain ⟨p, hp, heq⟩ := Option.map_eq_some_iff.mp h
  simp only [Prod.mk.injEq] at heq
  obtain ⟨hsize, hcount, hfree⟩ := heq
  obtain ⟨⟨i, p', hin, hhead, hget, hget', -⟩, -⟩ := getFrames_complete (n := 4) (by decide)
    (by rw [hcount]; decide) (show 0 + _ ≤ _ by rw [hsize]; decide) fun k _ hk =>
      of_decide_eq_true (List.all_eq_true.mp hfree k (List.mem_range.mpr hk))
  exact ⟨p, hp, i, p', hin, hhead, hget, hget'⟩

end TeachingKernel.FramePool
