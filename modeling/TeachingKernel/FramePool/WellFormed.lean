import TeachingKernel.FramePool.Marking
import TeachingKernel.FramePool.Protection

/-!
# Taking and giving back

`release_frame` does not know the size of the region: it frees forward until a frame is
not coded 00. In a well-formed bitmap every 00 continues a region, so the frame behind a
region that was taken from free frames stops it, and giving the region back undoes taking
it.
-/

namespace TeachingKernel.FramePool

open PackedPairs

namespace ContFramePool

/-- No frame of the pool coded 00 comes first, or right behind a frame coded 11 or 01. -/
def WellFormed (p : ContFramePool) : Prop :=
  ∀ i < p.nframes.toNat, code p.bitmap i = .rest →
    ∃ j, i = j + 1 ∧ code p.bitmap j ≠ .free ∧ code p.bitmap j ≠ .inaccessible

variable {p p' : ContFramePool} {b n f : Word}

theorem WellFormed.behind_free (h : p.WellFormed) {j : Nat} (hj : j + 1 < p.nframes.toNat)
    (hfree : code p.bitmap j = .free) : code p.bitmap (j + 1) ≠ .rest := by
  intro hrest
  obtain ⟨k, hk, hnot, -⟩ := h _ hj hrest
  cases hk
  exact hnot hfree

/-- Where a change makes frames free or inaccessible only, it must not stop before a 00. -/
theorem WellFormed.of_recoded (h : p.WellFormed) (hext : p'.extent = p.extent) {S : Nat → Prop}
    (hnew : ∀ i, S i → code p'.bitmap i ≠ .rest)
    (hold : ∀ i, ¬ S i → code p'.bitmap i = code p.bitmap i)
    (hbehind : ∀ j, S j → ¬ S (j + 1) → j + 1 < p.nframes.toNat →
      code p.bitmap (j + 1) ≠ .rest) : p'.WellFormed := by
  intro i hi hrest
  rw [nframes_of_extent hext] at hi
  have hi' : ¬ S i := fun hS => hnew i hS hrest
  rw [hold i hi'] at hrest
  obtain ⟨j, rfl, hfree, hinaccessible⟩ := h i hi hrest
  have hj : ¬ S j := fun hS => hbehind j hS hi' hi hrest
  exact ⟨j, rfl, by rwa [hold j hj], by rwa [hold j hj]⟩

theorem wellFormed_of_construct {memory : Bytes} {base info nInfo : Word}
    (h : construct memory base n info nInfo = some p) : p.WellFormed := by
  have hcodes : ∀ i < p.nframes.toNat, code p.bitmap i ≠ .rest := by
    by_cases hinfo : info = 0
    · subst hinfo
      obtain ⟨hext, -, hcodes⟩ := construct_inner h
      have hsize : p.nframes = roundUp4 n := congrArg Extent.nframes hext
      intro i hi
      rw [hcodes i (by rwa [← hsize])]
      by_cases hlow : i < (neededInfoFrames (roundUp4 n)).toNat
      · simp [hlow]
      · simp [hlow]
    · obtain ⟨-, -, hext, -, hcodes⟩ := construct_outer hinfo h
      have hsize : p.nframes = roundUp4 n := congrArg Extent.nframes hext
      intro i hi
      rw [hcodes i (by rwa [← hsize])]
      decide
  exact fun i hi hrest => absurd hrest (hcodes i hi)

theorem WellFormed.markInaccessible (h : p.WellFormed)
    (hin : (b - p.baseFrameNo).toNat + n.toNat ≤ p.nframes.toNat) (hfree : p.RangeFree b n)
    (hmark : p.markInaccessible b n = some p') : p'.WellFormed := by
  have hmarked := markedExactly_of_eq hin hmark
  refine h.of_recoded hmarked.extent_eq (S := p.InRange b n) (fun i hi => ?_) hmarked.outside
    fun j hj _ hlt => h.behind_free hlt (hfree j hj)
  rw [hmarked.inside i hi]
  decide

/-- Whatever the window is, it ends with a frame that was free. -/
theorem WellFormed.getFrames (h : p.WellFormed) (hget : p.getFrames n = some (f, p')) :
    p'.WellFormed := by
  obtain ⟨e, hdone, -, hext, -, -, hcodes⟩ := getFrames_spec (pos_of_getFrames hget) hget
  intro i hi hrest
  rw [nframes_of_extent hext] at hi
  rw [hcodes] at hrest
  by_cases hhead : i = e + 1 - n.toNat
  · rw [if_pos hhead] at hrest
    cases hrest
  · rw [if_neg hhead] at hrest
    by_cases hwindow : e + 1 - n.toNat < i ∧ i ≤ e
    · refine ⟨i - 1, by omega, ?_⟩
      rw [hcodes]
      by_cases hfirst : i - 1 = e + 1 - n.toNat
      · simp [hfirst]
      · rw [if_neg hfirst, if_pos (by omega)]
        simp
    · rw [if_neg hwindow] at hrest
      obtain ⟨j, rfl, hfree, hinaccessible⟩ := h i hi hrest
      have hje : j ≠ e := by
        rintro rfl
        exact hfree hdone.free
      have hsize := hdone.size_le
      refine ⟨j, rfl, ?_⟩
      by_cases hbefore : j = e + 1 - n.toNat
      · rw [hcodes, if_pos hbefore]
        simp
      · rw [hcodes, if_neg hbefore, if_neg (by omega)]
        exact ⟨hfree, hinaccessible⟩

theorem WellFormed.releaseFrame (h : p.WellFormed) (hrelease : p.releaseFrame f = some p') :
    p'.WellFormed := by
  obtain ⟨hmanages, hhead⟩ := head_of_releaseFrame hrelease
  obtain ⟨q, hq, hext, -, hcodes⟩ := releaseFrame_eq hmanages hhead
  cases hrelease.symm.trans hq
  refine h.of_recoded hext (S := fun i => (f - p.baseFrameNo).toNat ≤ i ∧
    i ≤ (f - p.baseFrameNo).toNat + p.restAfter (f - p.baseFrameNo).toNat)
    (fun i hi => ?_) (fun i hi => ?_) ?_
  · rw [hcodes, if_pos hi]
    decide
  · rw [hcodes, if_neg hi]
  · intro j hj hj' hlt
    have hstop : j + 1 = (f - p.baseFrameNo).toNat + 1 +
        p.restAfter (f - p.baseFrameNo).toNat := by omega
    rw [hstop] at hlt ⊢
    exact not_rest_behind_restRun (by omega) hlt

theorem manages_of_getFrames (hrange : p.baseFrameNo.toNat + p.nframes.toNat < 2 ^ 32)
    (hget : p.getFrames n = some (f, p')) : p'.Manages f := by
  have hn := pos_of_getFrames hget
  obtain ⟨e, hdone, rfl, hext, -, -, -⟩ := getFrames_spec hn hget
  have hlt := hdone.lt
  have hindex : (BitVec.ofNat 32 (e + 1 - n.toNat)).toNat = e + 1 - n.toNat :=
    toNat_ofNat_of_lt (by omega)
  rw [manages_of_extent hext, manages_iff hrange, frameNo, toNat_add_of_lt (by omega), hindex]
  omega

def StopsBehindFree (p : ContFramePool) : Prop :=
  ∀ j, j + 1 < p.nframes.toNat → code p.bitmap j = .free → code p.bitmap (j + 1) ≠ .rest

theorem WellFormed.stopsBehindFree (h : p.WellFormed) : p.StopsBehindFree := fun _ =>
  h.behind_free

/-- The frame behind a region that ends on a free frame stops the freeing loop. -/
theorem StopsBehindFree.restAfter_of_taken (h : p.StopsBehindFree) (hn : 0 < n.toNat) {e : Nat}
    (hdone : Completes p.bitmap p.nframes.toNat n.toNat e) (hext : p'.extent = p.extent)
    (hcodes : ∀ j, code p'.bitmap j = if j = e + 1 - n.toNat then .head
      else if e + 1 - n.toNat < j ∧ j ≤ e then .rest else code p.bitmap j) :
    p'.restAfter (e + 1 - n.toNat) = n.toNat - 1 := by
  have hlt := hdone.lt
  have hsize := hdone.size_le
  have hend : e + 1 - n.toNat + 1 + (n.toNat - 1) = e + 1 := by omega
  refine restRun_eq _ (by omega) (by rw [nframes_of_extent hext]; omega) (fun j hlo hhi => ?_)
    fun hinside => ?_
  · rw [hcodes, if_neg (by omega), if_pos (by omega)]
  · rw [nframes_of_extent hext, hend] at hinside
    rw [hend, hcodes, if_neg (by omega), if_neg (by omega)]
    exact h e hinside hdone.free

/-- What `get_frames` took from free frames, `release_frame` gives back. -/
theorem StopsBehindFree.releaseFrame_getFrames (h : p.StopsBehindFree)
    (hrange : p.baseFrameNo.toNat + p.nframes.toNat < 2 ^ 32)
    (hget : p.getFrames n = some (f, p')) (hfree : p.RangeFree f n) :
    p'.releaseFrame f = some p := by
  have hn := pos_of_getFrames hget
  obtain ⟨e, hdone, hf, hext, hcount, -, hcodes⟩ := getFrames_spec hn hget
  have hlt := hdone.lt
  have hsize := hdone.size_le
  have hnf := p.nframes.isLt
  have hbase := base_of_extent hext
  have hstart : (f - p.baseFrameNo).toNat = e + 1 - n.toNat := by
    rw [hf, frameNo_sub_base p (by omega)]
  have hhead : code p'.bitmap (f - p'.baseFrameNo).toNat = .head := by
    rw [hbase, hstart, hcodes, if_pos rfl]
  obtain ⟨q, hq, hqext, hqcount, hqcodes⟩ :=
    releaseFrame_eq (manages_of_getFrames hrange hget) hhead
  rw [hbase, hstart, h.restAfter_of_taken hn hdone hext hcodes] at hqcount hqcodes
  rw [hq]
  congr 1
  refine eq_of_extent (hqext.trans hext) (bitmap_ext fun i => ?_) ?_
  · rw [hqcodes]
    by_cases hin : e + 1 - n.toNat ≤ i ∧ i ≤ e + 1 - n.toNat + (n.toNat - 1)
    · rw [if_pos hin, hfree i (by
        rw [InRange, hstart]
        omega)]
    · rw [if_neg hin, hcodes, if_neg (by omega), if_neg (by omega)]
  · rw [hqcount, hcount, Nat.sub_add_cancel hn, BitVec.ofNat_toNat, BitVec.setWidth_eq,
      BitVec.sub_add_cancel]

theorem releaseFrames_restores {pools : List ContFramePool} {k : Nat} (hk : pools[k]? = some p)
    (hearlier : ∀ j q, j < k → pools[j]? = some q → ¬ q.Manages f)
    (hrelease : p'.releaseFrame f = some p) :
    releaseFrames (pools.set k p') f = some pools := by
  obtain ⟨hlt, hself⟩ := List.getElem?_eq_some_iff.mp hk
  have hreleases := releaseFrames_eq (List.getElem?_set_self hlt)
    (head_of_releaseFrame hrelease).1 (fun j q hj hq => hearlier j q hj (by
      rwa [List.getElem?_set_ne (Nat.ne_of_gt hj)] at hq)) hrelease
  rw [hreleases, List.set_set, ← hself, List.set_getElem_self]

end ContFramePool

open ContFramePool

/-- A new pool is well-formed, and every call that passes keeps it so, `mark_inaccessible`
on free frames; and releasing a region right after it was taken from free frames restores
the bitmap and the counter, also when the static `release_frames` looks for the pool. The
frames are those of a machine, whose numbers are words: physical frames end at `2 ^ 20`. -/
theorem wellFormed_round_trip :
    (∀ (memory : Bytes) (base n info nInfo : Word) (p : ContFramePool),
      construct memory base n info nInfo = some p → p.WellFormed) ∧
    ∀ p : ContFramePool, p.WellFormed →
      (∀ b n p', p.baseFrameNo.toNat ≤ b.toNat →
        b.toNat + n.toNat ≤ p.baseFrameNo.toNat + p.nframes.toNat → p.RangeFree b n →
        p.markInaccessible b n = some p' → p'.WellFormed) ∧
      (∀ n f p', p.getFrames n = some (f, p') → p'.WellFormed) ∧
      (∀ f p', p.releaseFrame f = some p' → p'.WellFormed) ∧
      (p.baseFrameNo.toNat + p.nframes.toNat < 2 ^ 32 →
        ∀ n f p', p.getFrames n = some (f, p') → p.RangeFree f n →
          p'.releaseFrame f = some p ∧
          ∀ (pools : List ContFramePool) (k : Nat), pools[k]? = some p →
            (∀ j q, j < k → pools[j]? = some q → ¬ q.Manages f) →
            releaseFrames (pools.set k p') f = some pools) := by
  refine ⟨fun _ _ _ _ _ _ => wellFormed_of_construct, fun p hp => ⟨?_, ?_, ?_, ?_⟩⟩
  · exact fun b n p' hlo hhi => hp.markInaccessible (inRange_bounds hlo hhi)
  · exact fun n f p' => hp.getFrames
  · exact fun f p' => hp.releaseFrame
  · intro hrange n f p' hget hfree
    have hrelease := hp.stopsBehindFree.releaseFrame_getFrames hrange hget hfree
    exact ⟨hrelease, fun pools k hk hearlier => releaseFrames_restores hk hearlier hrelease⟩

/-- The last four frames that a word can number: their end wraps to 0, so `release_frame`
refuses the frame it is given and `release_frames` finds no pool for it. -/
theorem wrapped_pool_keeps_frame : ∃ p f p',
    construct (fun _ => 0#8) 0xFFFFFFFC 4 100 1 = some p ∧ p.WellFormed ∧
      p.getFrames 1 = some (f, p') ∧ p.RangeFree f 1 ∧ p'.releaseFrame f = none ∧
      releaseFrames [p'] f = some [p'] ∧ p'.nFreeFrames ≠ p.nFreeFrames := by
  have h : ((construct (fun _ => 0#8) 0xFFFFFFFC 4 100 1).bind fun p =>
      (p.getFrames 1).map fun a =>
        (p.baseFrameNo, a.1, code p.bitmap 0, (a.2.releaseFrame a.1).isNone,
          decide (a.2.Manages a.1), decide (a.2.nFreeFrames ≠ p.nFreeFrames))) =
      some (0xFFFFFFFC, 0xFFFFFFFC, .free, true, false, true) := by
    decide +kernel
  obtain ⟨p, hp, h⟩ := Option.bind_eq_some_iff.mp h
  obtain ⟨⟨f, p'⟩, hget, heq⟩ := Option.map_eq_some_iff.mp h
  simp only [Prod.mk.injEq, Option.isNone_iff_eq_none, decide_eq_true_eq,
    decide_eq_false_iff_not] at heq
  obtain ⟨hbase, rfl, hfree, hrefused, hmanages, hcount⟩ := heq
  refine ⟨p, _, p', hp, wellFormed_of_construct hp, hget, ?_, hrefused, ?_, hcount⟩
  · rintro i ⟨-, hhi⟩
    rw [hbase] at hhi
    have hi : i < 1 := hhi
    rw [Nat.lt_one_iff.mp hi]
    exact hfree
  · rw [releaseFrames, if_neg hmanages]
    rfl

theorem wellFormed_round_trip_sixteen : ∃ p f p',
    construct (fun _ => 0#8) 512 16 0 0 = some p ∧ p.getFrames 3 = some (f, p') ∧
      p'.releaseFrame f = some p := by
  have h : ((construct (fun _ => 0#8) 512 16 0 0).bind fun p => (p.getFrames 3).map fun a =>
      (p.baseFrameNo, p.nframes, a.1,
        (List.range 4).all fun i => i = 0 ∨ code p.bitmap i = .free)) =
      some (512, 16, 513, true) := by
    decide +kernel
  obtain ⟨p, hp, h⟩ := Option.bind_eq_some_iff.mp h
  obtain ⟨⟨f, p'⟩, hget, heq⟩ := Option.map_eq_some_iff.mp h
  simp only [Prod.mk.injEq] at heq
  obtain ⟨hbase, hsize, rfl, hfree⟩ := heq
  refine ⟨p, 513, p', hp, hget, ?_⟩
  have hw := wellFormed_round_trip.1 _ _ _ _ _ _ hp
  refine ((wellFormed_round_trip.2 p hw).2.2.2 (by rw [hbase, hsize]; decide) _ _ _ hget ?_).1
  rintro i ⟨hlo, hhi⟩
  rw [hbase] at hlo hhi
  have hlo : 1 ≤ i := hlo
  have hhi : i < 4 := hhi
  have hor := of_decide_eq_true (List.all_eq_true.mp hfree i (List.mem_range.mpr hhi))
  exact hor.resolve_left (by omega)

end TeachingKernel.FramePool
