import TeachingKernel.FramePool.Search

/-!
# One specification for each pool operation

Callers cite these and never unfold the operations. Indices count from the first
frame of the pool; only the bitmap and the free counter ever change.
-/

namespace TeachingKernel.FramePool

open ForLoop PackedPairs

namespace ContFramePool

structure Extent where
  bitmapAddr : Word
  baseFrameNo : Word
  nframes : Word
  infoFrameNo : Word
  nInfoFrames : Word
  deriving DecidableEq

def extent (p : ContFramePool) : Extent :=
  ⟨p.bitmapAddr, p.baseFrameNo, p.nframes, p.infoFrameNo, p.nInfoFrames⟩

theorem base_of_extent {p q : ContFramePool} (h : q.extent = p.extent) :
    q.baseFrameNo = p.baseFrameNo := congrArg Extent.baseFrameNo h

theorem nframes_of_extent {p q : ContFramePool} (h : q.extent = p.extent) :
    q.nframes = p.nframes := congrArg Extent.nframes h

theorem manages_of_extent {p q : ContFramePool} (h : q.extent = p.extent) (f : Word) :
    q.Manages f ↔ p.Manages f := by
  rw [Manages, Manages, base_of_extent h, nframes_of_extent h]

theorem eq_of_extent {p q : ContFramePool} (h : q.extent = p.extent)
    (hbitmap : q.bitmap = p.bitmap) (hcount : q.nFreeFrames = p.nFreeFrames) : q = p := by
  cases p
  cases q
  cases h
  cases hbitmap
  cases hcount
  rfl

def frameNo (p : ContFramePool) (i : Nat) : Word := p.baseFrameNo + BitVec.ofNat 32 i

theorem frameNo_sub_base (p : ContFramePool) {i : Nat} (hi : i < 2 ^ 32) :
    (p.frameNo i - p.baseFrameNo).toNat = i := by
  rw [frameNo, BitVec.add_comm, BitVec.add_sub_cancel, toNat_ofNat_of_lt hi]

theorem manages_iff {p : ContFramePool} (hrange : p.baseFrameNo.toNat + p.nframes.toNat < 2 ^ 32)
    (f : Word) :
    p.Manages f ↔
      p.baseFrameNo.toNat ≤ f.toNat ∧ f.toNat < p.baseFrameNo.toNat + p.nframes.toNat := by
  rw [Manages, ge_iff_le, BitVec.le_def, BitVec.lt_def, toNat_add_of_lt hrange]

theorem extent_of_getElem? {pools pools' : List ContFramePool}
    (h : pools'.map extent = pools.map extent) {j : Nat} {q : ContFramePool}
    (hq : pools[j]? = some q) : ∃ q', pools'[j]? = some q' ∧ q'.extent = q.extent := by
  have hj : (pools'.map extent)[j]? = some q.extent := by
    rw [h, List.getElem?_map, hq]
    rfl
  rw [List.getElem?_map] at hj
  exact Option.map_eq_some_iff.mp hj

theorem map_extent_set {pools : List ContFramePool} {k : Nat} {p p' : ContFramePool}
    (hk : pools[k]? = some p) (h : p'.extent = p.extent) :
    (pools.set k p').map extent = pools.map extent := by
  rw [List.map_set, h]
  apply List.ext_getElem?
  intro j
  rw [List.getElem?_set]
  by_cases hj : k = j
  · subst hj
    have hlt : k < (pools.map extent).length := by
      rw [List.length_map]
      exact (List.getElem?_eq_some_iff.mp hk).1
    rw [if_pos rfl, if_pos hlt, List.getElem?_map, hk]
    rfl
  · rw [if_neg hj]

/-! ## The constructor -/

theorem roundUp4_of_dvd {n : Word} (h : n.toNat % 4 = 0) : roundUp4 n = n := by
  have hmod : n % 4 = 0 := by
    apply BitVec.eq_of_toNat_eq
    simpa [BitVec.toNat_umod] using h
  rw [roundUp4, if_neg (not_not.mpr hmod)]

/-- Rounding reaches a multiple of four, if need be by wrapping around. -/
theorem roundUp4_toNat (n : Word) :
    (roundUp4 n).toNat = (n.toNat + 3) / 4 * 4 % 2 ^ 32 := by
  have hmod : (n % 4).toNat = n.toNat % 4 := by
    rw [BitVec.toNat_umod]
    rfl
  have hlt := Nat.mod_lt n.toNat (show 0 < 4 by decide)
  have hsize := n.isLt
  have hfour : (4 : Word).toNat = 4 := rfl
  have hzero : n % 4 = 0 ↔ n.toNat % 4 = 0 := by
    rw [← BitVec.toNat_inj, hmod]
    rfl
  unfold roundUp4
  by_cases hdvd : n.toNat % 4 = 0
  · rw [if_neg (not_not.mpr (hzero.mpr hdvd))]
    omega
  · have hpad : (4 - n % 4).toNat = 4 - n.toNat % 4 := by
      rw [toNat_sub_of_le (by omega), hmod, hfour]
    rw [if_pos (fun h => hdvd (hzero.mp h)), BitVec.toNat_add, hpad]
    omega

theorem neededInfoFrames_toNat {n : Word} (hn : 0 < n.toNat) :
    (neededInfoFrames n).toNat = (n.toNat - 1) / 16384 + 1 := by
  have hlt := n.isLt
  have hsub : (n - 1).toNat = n.toNat - 1 := toNat_sub_of_le (b := 1) hn
  have hdiv : ((n - 1) / (pageSize * 4)).toNat = (n.toNat - 1) / 16384 := by
    rw [BitVec.toNat_udiv, hsub]
    rfl
  have hone : (1 : Word).toNat = 1 := rfl
  rw [neededInfoFrames, toNat_add_of_lt (by rw [hdiv, hone]; omega), hdiv, hone]

theorem neededInfoFrames_le {n : Word} (hn : 0 < n.toNat) :
    (neededInfoFrames n).toNat ≤ n.toNat := by
  rw [neededInfoFrames_toNat hn]
  omega

theorem construct_inner {memory : Bytes} {base n nInfo : Word} {p : ContFramePool}
    (h : construct memory base n 0 nInfo = some p) :
    p.extent = ⟨base * pageSize, base, roundUp4 n, 0, neededInfoFrames (roundUp4 n)⟩ ∧
      p.nFreeFrames = n - neededInfoFrames (roundUp4 n) ∧
      ∀ j < (roundUp4 n).toNat, code p.bitmap j =
        if j < (neededInfoFrames (roundUp4 n)).toNat then .inaccessible else .free := by
  simp only [construct, ↓reduceIte, Option.some.injEq] at h
  subst h
  refine ⟨rfl, rfl, fun j hj => ?_⟩
  simp only
  rw [code_setInaccessible_range _ (Nat.zero_le _), code_fillFree memory hj]
  simp only [Nat.zero_le, true_and]

theorem construct_outer {memory : Bytes} {base n info nInfo : Word} {p : ContFramePool}
    (hinfo : info ≠ 0) (h : construct memory base n info nInfo = some p) :
    (info + nInfo < base ∨ info ≥ base + roundUp4 n) ∧ nInfo * pageSize * 4 ≥ roundUp4 n ∧
      p.extent = ⟨info * pageSize, base, roundUp4 n, info, nInfo⟩ ∧ p.nFreeFrames = n ∧
      ∀ j < (roundUp4 n).toNat, code p.bitmap j = .free := by
  unfold construct at h
  rw [if_neg hinfo] at h
  by_cases hapart : info + nInfo < base ∨ info ≥ base + roundUp4 n
  · rw [if_pos hapart] at h
    by_cases hroom : nInfo * pageSize * 4 ≥ roundUp4 n
    · rw [if_pos hroom] at h
      cases h
      exact ⟨hapart, hroom, rfl, rfl, fun j hj => code_fillFree memory hj⟩
    · rw [if_neg hroom] at h
      cases h
  · rw [if_neg hapart] at h
    cases h

/-! ## `get_frames` -/

theorem getFrames_spec {p p' : ContFramePool} {n f : Word} (hn : 0 < n.toNat)
    (h : p.getFrames n = some (f, p')) :
    ∃ e, Completes p.bitmap p.nframes.toNat n.toNat e ∧ f = p.frameNo (e + 1 - n.toNat) ∧
      p'.extent = p.extent ∧ p'.nFreeFrames = p.nFreeFrames - n ∧ 0 < p.nFreeFrames.toNat ∧
      ∀ j, code p'.bitmap j =
        if j = e + 1 - n.toNat then .head
        else if e + 1 - n.toNat < j ∧ j ≤ e then .rest else code p.bitmap j := by
  unfold getFrames at h
  by_cases hfree : p.nFreeFrames > 0
  · rw [if_pos hfree] at h
    cases hs : search p.bitmap p.nframes.toNat n.toNat p.nframes.toNat 0 0 with
    | none => simp [hs] at h
    | some e =>
        have hc := search_some hs
        have hsize := hc.size_le
        have hlt := hc.lt
        have hnf := p.nframes.isLt
        have hframe : p.baseFrameNo + BitVec.ofNat 32 e - n + 1 = p.frameNo (e + 1 - n.toNat) := by
          apply BitVec.eq_of_toNat_eq
          simp only [frameNo, BitVec.toNat_add, BitVec.toNat_sub, BitVec.toNat_ofNat,
            show (1 : Word).toNat = 1 from rfl]
          have hb := p.baseFrameNo.isLt
          have hn' := n.isLt
          omega
        have hstart := frameNo_sub_base p (i := e + 1 - n.toNat) (by omega)
        simp only [hs, Option.some.injEq, Prod.mk.injEq] at h
        obtain ⟨rfl, rfl⟩ := h
        refine ⟨e, hc, hframe, rfl, rfl, ?_, ?_⟩
        · exact BitVec.lt_def.mp hfree
        · intro j
          simp only [hframe]
          rw [code_markAllocated _ hn (by rw [hstart]; omega), hstart]
          by_cases hj : j = e + 1 - n.toNat
          · rw [if_pos hj, if_pos hj]
          · rw [if_neg hj, if_neg hj]
            by_cases hin : e + 1 - n.toNat < j ∧ j ≤ e
            · rw [if_pos (by omega), if_pos hin]
            · rw [if_neg (by omega), if_neg hin]
  · rw [if_neg hfree] at h
    cases h

/-! ## `mark_inaccessible` -/

theorem markInaccessible_spec {p p' : ContFramePool} {b n : Word}
    (hin : (b - p.baseFrameNo).toNat + n.toNat ≤ p.nframes.toNat)
    (h : p.markInaccessible b n = some p') :
    p'.extent = p.extent ∧ p'.nFreeFrames = p.nFreeFrames - n ∧
      ∀ j, code p'.bitmap j =
        if (b - p.baseFrameNo).toNat ≤ j ∧ j < (b - p.baseFrameNo).toNat + n.toNat then
          .inaccessible
        else code p.bitmap j := by
  unfold markInaccessible at h
  by_cases hassert : b ≥ p.baseFrameNo ∧ b + n ≤ p.baseFrameNo + p.nframes
  · rw [if_pos hassert] at h
    obtain ⟨s, hloop, rfl⟩ := Option.map_eq_some_iff.mp h
    have hnf := p.nframes.isLt
    have hend : (b - p.baseFrameNo + n).toNat = (b - p.baseFrameNo).toNat + n.toNat :=
      toNat_add_of_lt (by omega)
    rw [hend] at hloop
    have hinv := forRange?_invariant (P := fun k s =>
        s.2 = p.nFreeFrames - BitVec.ofNat 32 (k - (b - p.baseFrameNo).toNat) ∧
        ∀ j, code s.1 j =
          if (b - p.baseFrameNo).toNat ≤ j ∧ j < k then .inaccessible else code p.bitmap j)
      (by omega) ⟨by simp, fun j => by rw [if_neg (by omega)]⟩ ?_ hloop
    · refine ⟨rfl, ?_, hinv.2⟩
      rw [hinv.1, Nat.add_sub_cancel_left, BitVec.ofNat_toNat, BitVec.setWidth_eq]
    · intro i u v hlo _ hP hbody
      by_cases hguard : u.1 (i / 4) &&& guardMask i ≠ 0#8
      · rw [if_pos hguard] at hbody
        cases hbody
        refine ⟨?_, fun j => ?_⟩
        · rw [hP.1, BitVec.sub_sub, Nat.succ_sub hlo, Nat.succ_eq_add_one, BitVec.ofNat_add]
          rfl
        · rw [code_setInaccessible, hP.2]
          by_cases hj : j = i
          · rw [if_pos hj, if_pos (by omega)]
          · rw [if_neg hj]
            by_cases hin : (b - p.baseFrameNo).toNat ≤ j ∧ j < i
            · rw [if_pos hin, if_pos (by omega)]
            · rw [if_neg hin, if_neg (by omega)]
      · rw [if_neg hguard] at hbody
        cases hbody
  · rw [if_neg hassert] at h
    cases h

/-! ## `release_frame` -/

/-- The number of frames that `release_frame` frees behind the first one. -/
def restAfter (p : ContFramePool) (i : Nat) : Nat :=
  restRun p.bitmap p.nframes.toNat p.nframes.toNat (i + 1)

theorem releaseFrame_eq {p : ContFramePool} {f : Word} (hmanages : p.Manages f)
    (hhead : code p.bitmap (f - p.baseFrameNo).toNat = .head) :
    ∃ p', p.releaseFrame f = some p' ∧ p'.extent = p.extent ∧
      p'.nFreeFrames =
        p.nFreeFrames + BitVec.ofNat 32 (p.restAfter (f - p.baseFrameNo).toNat + 1) ∧
      ∀ j, code p'.bitmap j =
        if (f - p.baseFrameNo).toNat ≤ j ∧
          j ≤ (f - p.baseFrameNo).toNat + p.restAfter (f - p.baseFrameNo).toNat then .free
        else code p.bitmap j := by
  generalize hi : (f - p.baseFrameNo).toNat = i at hhead ⊢
  let s := freeRest p.nframes.toNat p.nframes.toNat (i + 1) (setBits p.bitmap i (bothMask i))
    (p.nFreeFrames + 1)
  have heq : p.releaseFrame f = some { p with bitmap := s.1, nFreeFrames := s.2 } := by
    have hassert : f ≥ p.baseFrameNo ∧ f < p.baseFrameNo + p.nframes := hmanages
    unfold releaseFrame
    rw [if_pos hassert, hi]
    simp only [code_eq_head_iff.mp hhead, ↓reduceIte]
    rfl
  have hrun : restRun (setBits p.bitmap i (bothMask i)) p.nframes.toNat p.nframes.toNat (i + 1) =
      p.restAfter i :=
    restRun_congr _ _ _ (fun j hj => by rw [code_setFree, if_neg (by omega)])
  obtain ⟨hcount, hcodes⟩ := freeRest_spec p.nframes.toNat p.nframes.toNat (i + 1)
    (setBits p.bitmap i (bothMask i)) (p.nFreeFrames + 1)
  rw [hrun] at hcount hcodes
  refine ⟨_, heq, rfl, ?_, ?_⟩
  · change s.2 = _
    rw [hcount, BitVec.add_assoc, BitVec.ofNat_add, BitVec.add_comm 1]
    rfl
  · intro j
    change code s.1 j = _
    rw [hcodes, code_setFree]
    by_cases hj : j = i
    · rw [if_neg (by omega), if_pos hj, if_pos (by omega)]
    · rw [if_neg hj]
      by_cases hin : i + 1 ≤ j ∧ j < i + 1 + p.restAfter i
      · rw [if_pos hin, if_pos (by omega)]
      · rw [if_neg hin, if_neg (by omega)]

theorem head_of_releaseFrame {p p' : ContFramePool} {f : Word} (h : p.releaseFrame f = some p') :
    p.Manages f ∧ code p.bitmap (f - p.baseFrameNo).toNat = .head := by
  unfold releaseFrame at h
  by_cases hmanages : f ≥ p.baseFrameNo ∧ f < p.baseFrameNo + p.nframes
  · rw [if_pos hmanages] at h
    refine ⟨hmanages, ?_⟩
    by_contra hcode
    rw [if_neg (fun hbits => hcode (code_eq_head_iff.mpr hbits))] at h
    cases h
  · rw [if_neg hmanages] at h
    cases h

end ContFramePool

open ContFramePool

/-- A run of exactly `k` frames coded 00 is what the freeing loop passes. -/
theorem restRun_eq {bm : Bytes} {nframes i k : Nat} (fuel : Nat) (hfuel : nframes ≤ i + fuel)
    (hend : i + k ≤ nframes) (hrest : ∀ j, i ≤ j → j < i + k → code bm j = .rest)
    (hstop : i + k < nframes → code bm (i + k) ≠ .rest) : restRun bm nframes fuel i = k := by
  induction fuel generalizing i k with
  | zero =>
      rw [restRun]
      omega
  | succ fuel ih =>
      rw [restRun]
      by_cases hk : k = 0
      · rw [if_neg]
        · exact hk.symm
        · rintro ⟨hi, hcode⟩
          rw [hk] at hstop
          exact hstop hi hcode
      · rw [if_pos ⟨by omega, hrest i (Nat.le_refl _) (by omega)⟩,
          ih (i := i + 1) (k := k - 1) (by omega) (by omega)
            (fun j hj hjk => hrest j (by omega) (by omega))
            (fun hlt => by
              rw [show i + 1 + (k - 1) = i + k by omega] at hlt ⊢
              exact hstop hlt)]
        omega

/-! ## The static `release_frames` -/

theorem map_extent_releaseFrames {pools pools' : List ContFramePool} {f : Word}
    (h : releaseFrames pools f = some pools') : pools'.map extent = pools.map extent := by
  induction pools generalizing pools' with
  | nil =>
      cases h
      rfl
  | cons q pools ih =>
      unfold releaseFrames at h
      by_cases hq : q.Manages f
      · rw [if_pos hq] at h
        obtain ⟨q', hrelease, rfl⟩ := Option.map_eq_some_iff.mp h
        have hhead := (head_of_releaseFrame hrelease).2
        obtain ⟨q'', heq, hext, _⟩ := releaseFrame_eq hq hhead
        cases hrelease.symm.trans heq
        rw [List.map_cons, List.map_cons, hext]
      · rw [if_neg hq] at h
        obtain ⟨qs, hrest, rfl⟩ := Option.map_eq_some_iff.mp h
        rw [List.map_cons, List.map_cons, ih hrest]

theorem releaseFrames_eq {pools : List ContFramePool} {k : Nat} {p p' : ContFramePool} {f : Word}
    (hk : pools[k]? = some p) (hmanages : p.Manages f)
    (hearlier : ∀ j q, j < k → pools[j]? = some q → ¬ q.Manages f)
    (hrelease : p.releaseFrame f = some p') :
    releaseFrames pools f = some (pools.set k p') := by
  induction pools generalizing k with
  | nil => simp at hk
  | cons q pools ih =>
      cases k with
      | zero =>
          simp only [List.getElem?_cons_zero, Option.some.injEq] at hk
          subst hk
          simp [releaseFrames, hmanages, hrelease]
      | succ k =>
          have hq : ¬ q.Manages f := hearlier 0 q (by omega) rfl
          have hrest := ih (k := k) (by simpa using hk) (fun j r hj hr =>
            hearlier (j + 1) r (by omega) (by simpa using hr))
          simp [releaseFrames, hq, hrest]

end TeachingKernel.FramePool
