import TeachingKernel.FramePool.Protection
import TeachingKernel.Lib.Commuting

/-!
# The order of releases

A release frees a head and the 00 frames behind it, and stops at the next head at the
latest. So the frames of two releases are apart, in any bitmap, and neither release
changes where the other one stops.
-/

namespace TeachingKernel.FramePool

open PackedPairs Commuting

namespace ContFramePool

variable {p p' q r : ContFramePool} {f g : Word} {i j x : Nat}

def Frees (p : ContFramePool) (i x : Nat) : Prop := i ≤ x ∧ x ≤ i + p.restAfter i

/-- The pool after a release of the head `i`. -/
structure Released (p : ContFramePool) (i : Nat) (p' : ContFramePool) : Prop where
  extent_eq : p'.extent = p.extent
  counted : p'.nFreeFrames = p.nFreeFrames + BitVec.ofNat 32 (p.restAfter i + 1)
  freed : ∀ x, p.Frees i x → code p'.bitmap x = .free
  kept : ∀ x, ¬ p.Frees i x → code p'.bitmap x = code p.bitmap x

theorem releaseFrame_released (hmanages : p.Manages f)
    (hhead : code p.bitmap (f - p.baseFrameNo).toNat = .head) :
    ∃ p', p.releaseFrame f = some p' ∧ Released p (f - p.baseFrameNo).toNat p' := by
  obtain ⟨p', hp', hext, hcount, hcodes⟩ := releaseFrame_eq hmanages hhead
  refine ⟨p', hp', hext, hcount, fun x hx => ?_, fun x hx => ?_⟩
  · rw [hcodes]
    exact if_pos hx
  · rw [hcodes]
    exact if_neg hx

theorem released_of_releaseFrame (hrun : p.releaseFrame f = some p') :
    p.Manages f ∧ Released p (f - p.baseFrameNo).toNat p' := by
  obtain ⟨hmanages, hhead⟩ := head_of_releaseFrame hrun
  obtain ⟨q, hq, hreleased⟩ := releaseFrame_released hmanages hhead
  cases hq.symm.trans hrun
  exact ⟨hmanages, hreleased⟩

theorem Frees.rest (h : p.Frees i x) (hne : x ≠ i) : code p.bitmap x = .rest := by
  have hlo : i + 1 ≤ x := Nat.lt_of_le_of_ne h.1 (Ne.symm hne)
  have hhi : x < i + 1 + p.restAfter i := by
    have := h.2
    omega
  exact rest_of_lt_restRun hlo hhi

theorem not_frees_head (hhead : code p.bitmap j = .head) (hne : j ≠ i) : ¬ p.Frees i j := by
  intro h
  rw [h.rest hne] at hhead
  cases hhead

theorem frees_apart (hi : code p.bitmap i = .head) (hj : code p.bitmap j = .head) (hne : i ≠ j)
    (hx : p.Frees i x) : ¬ p.Frees j x := by
  intro hx'
  rcases Nat.lt_or_gt_of_ne hne with hlt | hgt
  · exact not_frees_head hj (Ne.symm hne) ⟨Nat.le_of_lt hlt, Nat.le_trans hx'.1 hx.2⟩
  · exact not_frees_head hi hne ⟨Nat.le_of_lt hgt, Nat.le_trans hx.1 hx'.2⟩

/-- A release leaves another head, and the run of 00 behind it, as they were. -/
theorem Released.restAfter_eq (h : Released p i p') (hi : code p.bitmap i = .head)
    (hj : code p.bitmap j = .head) (hne : i ≠ j) (hlt : j < p.nframes.toNat) :
    p'.restAfter j = p.restAfter j := by
  have hsize := nframes_of_extent h.extent_eq
  have hfits : j + 1 + p.restAfter j ≤ p.nframes.toNat := restRun_le (by omega)
  unfold restAfter at hfits ⊢
  rw [hsize]
  refine restRun_eq _ (by omega) hfits (fun x hlo hhi => ?_) fun hend hrest => ?_
  · have hx : p.Frees j x := ⟨by omega, by
      unfold restAfter
      omega⟩
    rw [h.kept x (frees_apart hj hi (Ne.symm hne) hx)]
    exact hx.rest (by omega)
  · by_cases hx : p.Frees i (j + 1 + restRun p.bitmap p.nframes.toNat p.nframes.toNat (j + 1))
    · rw [h.freed _ hx] at hrest
      cases hrest
    · rw [h.kept _ hx] at hrest
      exact not_rest_behind_restRun (by omega) hend hrest

theorem Released.frees_iff (h : Released p i p') (hi : code p.bitmap i = .head)
    (hj : code p.bitmap j = .head) (hne : i ≠ j) (hlt : j < p.nframes.toNat) :
    p'.Frees j x ↔ p.Frees j x := by
  rw [Frees, Frees, h.restAfter_eq hi hj hne hlt]

/-- Two releases end in the same pool in either order. -/
theorem released_comm {q' r' : ContFramePool} (hi : code p.bitmap i = .head)
    (hj : code p.bitmap j = .head) (hne : i ≠ j) (hlti : i < p.nframes.toNat)
    (hltj : j < p.nframes.toNat) (hq : Released p i q) (hq' : Released q j q')
    (hr : Released p j r) (hr' : Released r i r') : q' = r' := by
  have hji := Ne.symm hne
  have hfrees : ∀ x, q.Frees j x ↔ p.Frees j x := fun x => hq.frees_iff hi hj hne hltj
  have hfrees' : ∀ x, r.Frees i x ↔ p.Frees i x := fun x => hr.frees_iff hj hi hji hlti
  refine eq_of_extent ?_ (bitmap_ext fun x => ?_) ?_
  · rw [hq'.extent_eq, hq.extent_eq, hr'.extent_eq, hr.extent_eq]
  · by_cases hx : p.Frees j x
    · have hxi : ¬ p.Frees i x := frees_apart hj hi hji hx
      rw [hq'.freed x ((hfrees x).mpr hx), hr'.kept x (fun h => hxi ((hfrees' x).mp h)),
        hr.freed x hx]
    · rw [hq'.kept x fun h => hx ((hfrees x).mp h)]
      by_cases hxi : p.Frees i x
      · rw [hq.freed x hxi, hr'.freed x ((hfrees' x).mpr hxi)]
      · rw [hq.kept x hxi, hr'.kept x fun h => hxi ((hfrees' x).mp h), hr.kept x hx]
  · rw [hq'.counted, hq.counted, hr'.counted, hr.counted, hq.restAfter_eq hi hj hne hltj,
      hr.restAfter_eq hj hi hji hlti, BitVec.add_assoc, BitVec.add_assoc,
      BitVec.add_comm (BitVec.ofNat 32 (p.restAfter i + 1))]

theorem Manages.sub_lt (h : p.Manages f) :
    (f - p.baseFrameNo).toNat < p.nframes.toNat := by
  obtain ⟨hlo, hhi⟩ := h
  rw [ge_iff_le, BitVec.le_def] at hlo
  rw [BitVec.lt_def, BitVec.toNat_add] at hhi
  rw [toNat_sub_of_le hlo]
  omega

theorem sub_base_ne (hne : f ≠ g) : (f - p.baseFrameNo).toNat ≠ (g - p.baseFrameNo).toNat := by
  intro heq
  exact hne (BitVec.sub_left_inj p.baseFrameNo |>.mp (BitVec.eq_of_toNat_eq heq))

theorem Released.manages_head (h : Released p (f - p.baseFrameNo).toNat p')
    (hg : p.Manages g) (hghead : code p.bitmap (g - p.baseFrameNo).toNat = .head) (hne : f ≠ g) :
    p'.Manages g ∧ code p'.bitmap (g - p'.baseFrameNo).toNat = .head := by
  refine ⟨(manages_of_extent h.extent_eq g).mpr hg, ?_⟩
  rw [base_of_extent h.extent_eq, h.kept _ (not_frees_head hghead (Ne.symm (sub_base_ne hne)))]
  exact hghead

end ContFramePool

open ContFramePool

/-- A frame belongs to at most one pool. -/
def DisjointPools (pools : List ContFramePool) : Prop :=
  ∀ (j k : Nat) (q p : ContFramePool) (f : Word), pools[j]? = some q → pools[k]? = some p →
    q.Manages f → p.Manages f → j = k

def IsHead (pools : List ContFramePool) (f : Word) : Prop :=
  ∃ (k : Nat) (p : ContFramePool), pools[k]? = some p ∧ p.Manages f ∧
    code p.bitmap (f - p.baseFrameNo).toNat = .head

section

variable {pools : List ContFramePool} {f g : Word} {j k : Nat} {p p' q : ContFramePool}

theorem DisjointPools.set (h : DisjointPools pools) (hk : pools[k]? = some p)
    (hext : p'.extent = p.extent) : DisjointPools (pools.set k p') := by
  have hsame := map_extent_set hk hext
  intro a b q r f ha hb hq hr
  obtain ⟨q', ha', hqext⟩ := extent_of_getElem? hsame.symm ha
  obtain ⟨r', hb', hrext⟩ := extent_of_getElem? hsame.symm hb
  exact h a b q' r' f ha' hb' ((manages_of_extent hqext f).mpr hq)
    ((manages_of_extent hrext f).mpr hr)

theorem DisjointPools.releaseFrames_eq (h : DisjointPools pools) (hk : pools[k]? = some p)
    (hmanages : p.Manages f) (hp' : p.releaseFrame f = some p') :
    releaseFrames pools f = some (pools.set k p') :=
  FramePool.releaseFrames_eq hk hmanages
    (fun i q hik hq hq' => Nat.ne_of_lt hik (h i k q p f hq hk hq' hmanages)) hp'

theorem DisjointPools.commute_same (h : DisjointPools pools) (hk : pools[k]? = some p)
    (hf : p.Manages f) (hfhead : code p.bitmap (f - p.baseFrameNo).toNat = .head)
    (hg : p.Manages g) (hghead : code p.bitmap (g - p.baseFrameNo).toNat = .head) (hne : f ≠ g) :
    ((releaseFrames pools f).bind fun ps => releaseFrames ps g) =
      (releaseFrames pools g).bind fun ps => releaseFrames ps f := by
  -- the release of `b` after that of `a`, for both orders
  have hboth : ∀ a b : Word, p.Manages a → code p.bitmap (a - p.baseFrameNo).toNat = .head →
      p.Manages b → code p.bitmap (b - p.baseFrameNo).toNat = .head → a ≠ b →
      ∃ q q', Released p (a - p.baseFrameNo).toNat q ∧ Released q (b - p.baseFrameNo).toNat q' ∧
        ((releaseFrames pools a).bind fun ps => releaseFrames ps b) = some (pools.set k q') := by
    intro a b ha hahead hb hbhead hab
    obtain ⟨q, hq, hreleased⟩ := releaseFrame_released ha hahead
    obtain ⟨hb', hbhead'⟩ := hreleased.manages_head hb hbhead hab
    obtain ⟨q', hq', hreleased'⟩ := releaseFrame_released hb' hbhead'
    rw [base_of_extent hreleased.extent_eq] at hreleased'
    have hself : (pools.set k q)[k]? = some q :=
      List.getElem?_set_self (List.getElem?_eq_some_iff.mp hk).1
    refine ⟨q, q', hreleased, hreleased', ?_⟩
    rw [h.releaseFrames_eq hk ha hq, Option.bind_some,
      (h.set hk hreleased.extent_eq).releaseFrames_eq hself hb' hq', List.set_set]
  obtain ⟨q, q', hq, hq', hfg⟩ := hboth f g hf hfhead hg hghead hne
  obtain ⟨r, r', hr, hr', hgf⟩ := hboth g f hg hghead hf hfhead (Ne.symm hne)
  rw [hfg, hgf, released_comm hfhead hghead (sub_base_ne hne) hf.sub_lt hg.sub_lt hq hq' hr hr']

theorem DisjointPools.commute_apart (h : DisjointPools pools) (hjk : j ≠ k)
    (hj : pools[j]? = some q) (hk : pools[k]? = some p)
    (hf : q.Manages f) (hfhead : code q.bitmap (f - q.baseFrameNo).toNat = .head)
    (hg : p.Manages g) (hghead : code p.bitmap (g - p.baseFrameNo).toNat = .head) :
    ((releaseFrames pools f).bind fun ps => releaseFrames ps g) =
      (releaseFrames pools g).bind fun ps => releaseFrames ps f := by
  obtain ⟨q', hq', hqreleased⟩ := releaseFrame_released hf hfhead
  obtain ⟨p', hp', hpreleased⟩ := releaseFrame_released hg hghead
  rw [h.releaseFrames_eq hj hf hq', h.releaseFrames_eq hk hg hp', Option.bind_some,
    Option.bind_some,
    (h.set hj hqreleased.extent_eq).releaseFrames_eq ((List.getElem?_set_ne hjk).trans hk) hg hp',
    (h.set hk hpreleased.extent_eq).releaseFrames_eq
      ((List.getElem?_set_ne (Ne.symm hjk)).trans hj) hf hq',
    List.set_comm _ _ hjk]

end

/-- Heads of pools that share no frame are released independently of each other. -/
theorem independent_releases :
    Independent releaseFrames fun pools f => DisjointPools pools ∧ IsHead pools f where
  succeeds := by
    rintro pools f ⟨hdisjoint, k, p, hk, hf, hfhead⟩
    obtain ⟨p', hp', -⟩ := releaseFrame_released hf hfhead
    exact ⟨_, hdisjoint.releaseFrames_eq hk hf hp'⟩
  stays := by
    rintro pools pools' f g ⟨hdisjoint, k, p, hk, hf, hfhead⟩ ⟨-, j, q, hj, hg, hghead⟩ hne hcall
    obtain ⟨p', hp', hreleased⟩ := releaseFrame_released hf hfhead
    cases hcall.symm.trans (hdisjoint.releaseFrames_eq hk hf hp')
    refine ⟨hdisjoint.set hk hreleased.extent_eq, j, ?_⟩
    by_cases hkj : k = j
    · subst hkj
      cases hk.symm.trans hj
      exact ⟨p', List.getElem?_set_self (List.getElem?_eq_some_iff.mp hk).1,
        hreleased.manages_head hg hghead hne⟩
    · exact ⟨q, (List.getElem?_set_ne hkj).trans hj, hg, hghead⟩
  commutes := by
    rintro pools f g ⟨hdisjoint, k, p, hk, hf, hfhead⟩ ⟨-, j, q, hj, hg, hghead⟩ hne
    by_cases hkj : k = j
    · subst hkj
      cases hk.symm.trans hj
      exact hdisjoint.commute_same hk hf hfhead hg hghead hne
    · exact hdisjoint.commute_apart hkj hk hj hf hfhead hg hghead

/-- Heads are released in any two orders with success and the same pools at the end. -/
theorem foldlM_releaseFrames_perm {pools : List ContFramePool} {frames frames' : List Word}
    (hdisjoint : DisjointPools pools) (hnodup : frames.Nodup)
    (hheads : ∀ f ∈ frames, IsHead pools f) (hperm : frames.Perm frames') :
    ∃ pools', frames.foldlM releaseFrames pools = some pools' ∧
      frames'.foldlM releaseFrames pools = some pools' := by
  have hready : ∀ f ∈ frames, DisjointPools pools ∧ IsHead pools f :=
    fun f hf => ⟨hdisjoint, hheads f hf⟩
  obtain ⟨pools', hpools⟩ := independent_releases.foldlM_isSome hnodup hready
  exact ⟨pools', hpools, independent_releases.foldlM_perm hperm hnodup hready ▸ hpools⟩

end TeachingKernel.FramePool
