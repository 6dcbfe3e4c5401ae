import TeachingKernel.Paging.Demand
import TeachingKernel.VMPool.FirstFit

/-!
# Calls of pools in demand-paged memory

Where `VMPool.allocate` finds room, `allocate` on the machine returns the same region, and
the addresses of every listed region are legitimate.
-/

namespace TeachingKernel.Paging.P4

open FramePool ContFramePool VM Mmu

section

variable {s t : Machine} {list a : Word} {f i k : Nat} {m m' : Memory} {x : RegionInfo}
  {q : ContFramePool} {p p' : VMPool} {size : Word} {y : System}

theorem shiftUp_completes {fuel : Nat} {i index : Word} (hg : Good k q s) (h : ListPage s list f)
    (hs : ShowsList s list m) (hindex : 1 ≤ index.toNat) (hi : index ≤ i → i.toNat + 1 < 512)
    (hrun : VMPool.shiftUp list fuel i index m = .ok m') :
    ∃ t, shiftUp list fuel i index s = some t := by
  induction fuel generalizing s i m with
  | zero => cases hrun
  | succ fuel ih =>
      rw [VMPool.shiftUp] at hrun
      rw [shiftUp]
      by_cases hge : i ≥ index
      · rw [if_pos hge] at hrun ⊢
        have hlt := hi hge
        have hge' : index.toNat ≤ i.toNat := hge
        have hnext : (i + 1).toNat = i.toNat + 1 := toNat_add_one (by omega)
        have hprev : (i - 1).toNat = i.toNat - 1 := toNat_sub_one (by omega)
        obtain ⟨u, hu, -⟩ := h.storeRegion (x := readRegion m list i.toNat) hg
          (show (i + 1).toNat < 512 by omega)
        have hw := storeRegion_wrote hg h hs (by omega) hu
        obtain ⟨t, ht⟩ := ih hw.good hw.page hw.shows_list (fun _ => by omega) hrun
        refine ⟨t, ?_⟩
        rw [hs _ (by omega)]
        show (s.storeRegion list (i + 1).toNat (readRegion m list i.toNat)).bind _ = _
        rw [hu]
        exact ht
      · rw [if_neg hge]
        exact ⟨s, rfl⟩

theorem insertItem_completes {index : Word} (hg : Good k q s) (h : ListPage s p.allocatedList f)
    (hs : ShowsList s p.allocatedList m) (hpos : 1 ≤ p.numAllocated.toNat)
    (hfew : p.numAllocated.toNat < 512) (hindex : 1 ≤ index.toNat)
    (hle : index.toNat ≤ p.numAllocated.toNat) (hrun : p.insertItem m x index = .ok (p', m')) :
    ∃ t, insertItem p s x index = some (p', t) := by
  have hstart : (p.numAllocated - 1).toNat = p.numAllocated.toNat - 1 := toNat_sub_one hpos
  cases hshift : VMPool.shiftUp p.allocatedList (p.numAllocated.toNat + 1) (p.numAllocated - 1)
      index m with
  | error e =>
      rw [VMPool.insertItem, hshift] at hrun
      cases hrun
  | ok m₁ =>
      rw [VMPool.insertItem, hshift] at hrun
      cases hrun
      obtain ⟨u, hu⟩ := shiftUp_completes hg h hs hindex (fun _ => by omega) hshift
      obtain ⟨m₂, hm₂, hw⟩ := shiftUp_wrote hg h hs hindex (fun _ => by omega) hu
      obtain ⟨t, ht, -⟩ := hw.page.storeRegion (x := x) hw.good (show index.toNat < 512 by omega)
      refine ⟨t, ?_⟩
      simp only [insertItem, hu, ht, Option.bind_eq_bind, Option.bind_some]

/-- The call on the machine returns what it returns on a memory that shows the list. -/
theorem allocate_completes (hg : Good k q s) (h : ListPage s p.allocatedList f)
    (hs : ShowsList s p.allocatedList m) (hpos : 1 ≤ p.numAllocated.toNat)
    (hfew : p.numAllocated.toNat < 512) (hrun : p.allocate m size = .ok (a, p', m')) :
    ∃ t, allocate p s size = some (a, p', t) := by
  have hlast : (p.numAllocated - 1).toNat = p.numAllocated.toNat - 1 := toNat_sub_one hpos
  have hgap : findGap p s (roundToPages size) (p.numAllocated - 1).toNat 0 =
      some (p.findGap m (roundToPages size) (p.numAllocated - 1).toNat 0) :=
    findGap_eq hs (by omega)
  have hinsert : ∀ {x index b}, 1 ≤ index.toNat → index.toNat ≤ p.numAllocated.toNat →
      (p.insertItem m x index >>= fun r => Except.ok (b, r.1, r.2)) = .ok (a, p', m') →
      b = a ∧ ∃ t, insertItem p s x index = some (p', t) := by
    intro x index b hindex hle hbind
    cases hins : p.insertItem m x index with
    | error e =>
        rw [hins] at hbind
        cases hbind
    | ok r =>
        rw [hins] at hbind
        cases hbind
        exact ⟨rfl, insertItem_completes hg h hs hpos hfew hindex hle hins⟩
  rw [VMPool.allocate] at hrun
  cases hfind : p.findGap m (roundToPages size) (p.numAllocated - 1).toNat 0 with
  | some i =>
      obtain ⟨-, hi, -⟩ := VMPool.findGap_some hfind
      have hi32 : (BitVec.ofNat 32 i).toNat = i := toNat_ofNat_of_lt (by omega)
      have hindex : (BitVec.ofNat 32 i + 1).toNat = i + 1 := by
        rw [toNat_add_one (by omega), hi32]
      rw [hfind] at hrun
      obtain ⟨rfl, t, ht⟩ := hinsert (by omega) (by omega) hrun
      refine ⟨t, ?_⟩
      simp only [allocate, hgap, hfind, hs i (by omega), Option.bind_eq_bind, Option.bind_some]
      show (insertItem p s ⟨p.entryEnd m i, _⟩ _).bind _ = _
      rw [ht]
      rfl
  | none =>
      rw [hfind] at hrun
      dsimp only at hrun
      by_cases hroom : p.tailGap m ≥ roundToPages size
      · rw [if_pos hroom] at hrun
        obtain ⟨rfl, t, ht⟩ := hinsert hpos (Nat.le_refl _) hrun
        refine ⟨t, ?_⟩
        simp only [allocate, hgap, hfind, hs (p.numAllocated - 1).toNat (by omega),
          Option.bind_eq_bind, Option.bind_some]
        show (if p.tailGap m ≥ roundToPages size then
          (insertItem p s ⟨p.entryEnd m _, _⟩ _).bind _ else none) = _
        rw [if_pos hroom, ht]
        rfl
      · rw [if_neg hroom] at hrun
        cases hrun

/-! ## What the pools list -/

theorem PoolGood.exists_lists (h : PoolGood s p) :
    ∃ l, Lists s p l ∧ Lined p.baseAddress p.size l := by
  obtain ⟨f, m, -, hs, hlined⟩ := h.list
  exact ⟨_, ⟨m, hs, rfl⟩, hlined⟩

theorem Lists.unique {l l' : List RegionInfo} (h : Lists s p l) (h' : Lists s p l')
    (hfew : p.numAllocated.toNat ≤ 512) : l = l' := by
  obtain ⟨m, hs, rfl⟩ := h
  obtain ⟨m', hs', rfl⟩ := h'
  refine List.map_congr_left fun j hj => ?_
  have hj := List.mem_range.mp hj
  exact Option.some.inj ((hs j (by omega)).symm.trans (hs' j (by omega)))

theorem Lists.lined {l : List RegionInfo} (h : Lists s p l) (hp : PoolGood s p) :
    Lined p.baseAddress p.size l := by
  obtain ⟨l', hl', hlined⟩ := hp.exists_lists
  rwa [h.unique hl' hp.few]

theorem Lists.keep {l : List RegionInfo} (h : Lists s p l) (hp : PoolGood s p)
    (hkeep : KeepsPage s t (pageOf p.allocatedList)) : Lists t p l := by
  obtain ⟨f, -, hl, -⟩ := hp.list
  obtain ⟨m, hs, hentries⟩ := h
  exact ⟨m, hkeep.showsList hl hs, hentries⟩

theorem SystemGood.legitimate {l : List RegionInfo} (h : SystemGood k q y)
    (hpool : y.vmPools[i]? = some p) (hl : Lists y.machine p l) {r : RegionInfo} (hr : r ∈ l)
    (ha : a.toNat ∈ r.span) :
    isLegitimate p y.machine a = some true ∧
      checkAddress y.vmPools y.machine a = some true := by
  have hp := h.pools p (List.mem_of_getElem? hpool)
  have hfew := hp.few
  have hlined := hl.lined hp
  obtain ⟨m, hs, rfl⟩ := hl
  have hyes : isLegitimate p y.machine a = some true := by
    rw [isLegitimate_eq fun j hj => hs j (by omega)]
    exact congrArg some ((isLegitimate_iff hp.geometry.below_window hlined).mpr ⟨r, hr, ha⟩)
  obtain ⟨b, hb, hiff⟩ := checkAddress_of_answers (a := a) fun p hp =>
    let ⟨b, hb, _⟩ := (h.pools p hp).answers a
    ⟨b, hb⟩
  refine ⟨hyes, ?_⟩
  rw [hb, hiff.mpr ⟨p, List.mem_of_getElem? hpool, hyes⟩]

theorem Lists.allocate {l : List RegionInfo} (h : Lists s p l) (hg : Good k q s)
    (hp : PoolGood s p) (hrun : P4.allocate p s size = some (a, p', t))
    (hfew : p'.numAllocated.toNat ≤ 512) :
    ∃ i r, l[i]? = some r ∧ a.toNat = r.stop ∧
      Lists t p' (l.insertIdx (i + 1) ⟨a, roundToPages size⟩) ∧
      a.toNat + (roundToPages size).toNat ≤ p.baseAddress.toNat + p.size.toNat := by
  have hlined := h.lined hp
  obtain ⟨m, hs, rfl⟩ := h
  obtain ⟨f, -, hl, -⟩ := hp.list
  have hpool := allocate_pool hrun
  have hpos := VMPool.numAllocated_pos hlined
  have hold := hp.few
  have hcount : (p.numAllocated + 1).toNat = p.numAllocated.toNat + 1 := toNat_add_one (by omega)
  rw [hpool] at hfew
  obtain ⟨m', hm', hw⟩ := allocate_wrote hg hl hs hpos (by dsimp only at hfew; omega) hrun
  obtain ⟨i, hins⟩ := VMPool.allocate_inserted hp.geometry.below_window hlined (by omega) hm'
  refine ⟨i, p.entry m i, ?_, hins.start_eq, ⟨m', ?_, hins.entries_eq⟩, hins.inside⟩
  · rw [VMPool.getElem?_entries, if_pos hins.listed]
  · rw [hpool]
    exact hw.shows_list

theorem Lists.allocate_frames {l : List RegionInfo} (h : Lists s p l) (hg : Good k q s)
    (hp : PoolGood s p) (hrun : P4.allocate p s size = some (a, p', t))
    (hfew : p'.numAllocated.toNat ≤ 512) : t.pools = s.pools := by
  have hlined := h.lined hp
  obtain ⟨m, hs, rfl⟩ := h
  obtain ⟨f, -, hl, -⟩ := hp.list
  have hpos := VMPool.numAllocated_pos hlined
  have hold := hp.few
  have hcount : (p.numAllocated + 1).toNat = p.numAllocated.toNat + 1 := toNat_add_one (by omega)
  rw [allocate_pool hrun] at hfew
  obtain ⟨_, -, hw⟩ := allocate_wrote hg hl hs hpos (by dsimp only at hfew; omega) hrun
  exact hw.writes.regs.pools_eq

theorem Lists.allocate_returns {l : List RegionInfo} {limit : Nat} (h : Lists s p l)
    (hg : Good k q s) (hp : PoolGood s p) (hfew : p.numAllocated.toNat < 512)
    (hlimit : ∀ r ∈ l, r.stop ≤ limit)
    (hroom : limit + (roundToPages size).toNat ≤ p.baseAddress.toNat + p.size.toNat) :
    ∃ a p' t, P4.allocate p s size = some (a, p', t) := by
  have hlined := h.lined hp
  obtain ⟨m, hs, rfl⟩ := h
  obtain ⟨f, -, hl, -⟩ := hp.list
  have hpos := VMPool.numAllocated_pos hlined
  have hcharted := VMPool.lined_charted hlined
  rcases FirstFit.exists_isFirst_or_full (p.baseAddress.toNat + p.size.toNat) (p.spans m)
    (roundToPages size).toNat with ⟨i, r, hfirst⟩ | hfull
  · obtain ⟨m', hcall, -, -⟩ := hcharted.allocateFound_first (by omega) hfirst
    have hpure : p.allocate m size = .ok (BitVec.ofNat 32 r.stop,
        { p with numAllocated := p.numAllocated + 1 }, m') := by
      rw [VMPool.allocate_eq, hcall]
      rfl
    obtain ⟨t, ht⟩ := allocate_completes hg hl hs hpos hfew hpure
    exact ⟨_, _, t, ht⟩
  · -- the room behind the last region is a gap
    have hlast := VMPool.getElem?_spans (m := m) (Nat.sub_one_lt_of_lt hpos)
    have hnone : (p.spans m)[p.numAllocated.toNat - 1 + 1]? = none :=
      List.getElem?_eq_none_iff.mpr (by rw [VMPool.length_spans]; omega)
    have hgap := hfull _ _ hlast
    rw [FirstFit.nextFirst_of_none hnone] at hgap
    have hle := hlimit (p.entry m (p.numAllocated.toNat - 1)) (by
      refine List.mem_of_getElem? (i := p.numAllocated.toNat - 1) ?_
      rw [VMPool.getElem?_entries, if_pos (by omega)])
    have hstop : (p.entry m (p.numAllocated.toNat - 1)).span.stop =
        (p.entry m (p.numAllocated.toNat - 1)).stop := rfl
    omega

/-! ## Whole pages -/

structure Paged (base : Word) (l : List RegionInfo) : Prop where
  head : l.head? = some ⟨base, pageSize⟩
  aligned : ∀ r ∈ l, pageSize.toNat ∣ r.startFrame.toNat ∧ pageSize.toNat ∣ r.size.toNat

def ListsPages (y : System) : Prop :=
  ∀ p ∈ y.vmPools, ∃ l, Lists y.machine p l ∧ Paged p.baseAddress l

theorem Paged.insertIdx {base : Word} {l : List RegionInfo} {r : RegionInfo} (h : Paged base l)
    (hr : l[i]? = some r) (ha : a.toNat = r.stop) (size : Word) :
    Paged base (l.insertIdx (i + 1) ⟨a, roundToPages size⟩) := by
  obtain ⟨hi, -⟩ := List.getElem?_eq_some_iff.mp hr
  have hali := h.aligned r (List.mem_of_getElem? hr)
  refine ⟨?_, fun x hx => ?_⟩
  · have hhead := h.head
    cases l with
    | nil => exact absurd hi (Nat.not_lt_zero i)
    | cons x rest => exact hhead
  · rcases (List.mem_insertIdx (by omega)).mp hx with rfl | hx
    · refine ⟨?_, VMPool.roundToPages_aligned size⟩
      rw [ha]
      exact Nat.dvd_add hali.1 hali.2
    · exact h.aligned x hx

theorem Paged.stop_ge {base size : Word} {l : List RegionInfo} (h : Paged base l)
    (hl : Lined base size l) {r : RegionInfo} (hr : r ∈ l) :
    base.toNat + pageSize.toNat ≤ r.stop := by
  have hhead := h.head
  have hsorted := hl.sorted
  cases l with
  | nil => cases hr
  | cons x rest =>
      cases hhead
      rcases List.mem_cons.mp hr with rfl | hr
      · exact Nat.le_refl _
      · have hbefore : base.toNat + pageSize.toNat ≤ r.startFrame.toNat :=
          List.rel_of_pairwise_cons hsorted hr
        exact Nat.le_trans hbefore r.start_le_stop

theorem ListsPages.keep {z : System} (h : ListsPages y) (hg : SystemGood k q y)
    (hpools : z.vmPools = y.vmPools)
    (hkeep : ∀ p ∈ y.vmPools, KeepsPage y.machine z.machine (pageOf p.allocatedList)) :
    ListsPages z := by
  intro p hp
  rw [hpools] at hp
  obtain ⟨l, hl, hpaged⟩ := h p hp
  exact ⟨l, hl.keep (hg.pools p hp) (hkeep p hp), hpaged⟩

theorem ListsPages.step {op : SystemOp} {z : System} (h : ListsPages y) (hg : SystemGood k q y)
    (hrange : q.baseFrameNo.toNat + q.nframes.toNat ≤ 2 ^ 20) (hstep : SystemStep k y op z) :
    ListsPages z := by
  cases hstep with
  | @construct stale base size _ hroom hfit hrun =>
      obtain ⟨-, hpools, hlists, hkeep⟩ := hg.construct_keeps hrange hroom hfit hrun
      intro p hp
      rw [hpools] at hp
      rcases List.mem_append.mp hp with hp | hp
      · obtain ⟨l, hl, hpaged⟩ := h p hp
        have hpool := hg.pools p hp
        have hne := hpool.page_ne (hfit.apart p hp) hfit.aligned hfit.size_ge
        exact ⟨l, hl.keep hpool (hkeep _ hpool.user hne), hpaged⟩
      · rw [List.mem_singleton.mp hp]
        refine ⟨_, hlists, rfl, fun r hr => ?_⟩
        rw [List.mem_singleton.mp hr]
        exact ⟨hfit.aligned, Nat.dvd_refl _⟩
  | @allocate i p size a p' t hpool hrun hfew =>
      have hmem := List.mem_of_getElem? hpool
      have hp := hg.pools p hmem
      obtain ⟨-, -, hkeep⟩ := hp.allocate hg.paging hrun hfew
      intro p₁ hp₁
      obtain ⟨j, hj⟩ := List.mem_iff_getElem?.mp hp₁
      by_cases hij : i = j
      · subst hij
        rw [List.getElem?_set, if_pos rfl, if_pos (List.getElem?_eq_some_iff.mp hpool).1] at hj
        cases hj
        obtain ⟨l, hl, hpaged⟩ := h p hmem
        obtain ⟨i', r, hr, ha, hl', -⟩ := hl.allocate hg.paging hp hrun hfew
        refine ⟨_, hl', ?_⟩
        rw [allocate_pool hrun]
        exact hpaged.insertIdx hr ha size
      · rw [List.getElem?_set, if_neg hij] at hj
        have hother := hg.pools p₁ (List.mem_of_getElem? hj)
        have hne := hother.page_ne (hg.apart_of_ne (fun hc => hij hc.symm) hj hpool)
          hp.geometry.base_aligned hp.geometry.size_ge
        rw [← hp.geometry.list_eq] at hne
        obtain ⟨l, hl, hpaged⟩ := h p₁ (List.mem_of_getElem? hj)
        exact ⟨l, hl.keep hother (hkeep _ hother.user hne), hpaged⟩
  | touch hlegit hrun =>
      obtain ⟨-, -, hkeep⟩ := hg.paging.demand hrange (hg.userPage hlegit) hrun
      exact h.keep hg rfl fun p hp => hkeep _ (hg.pools p hp).user
  | store hlegit hfree hrun hpa =>
      obtain ⟨hgood, -, hkeep⟩ := hg.paging.demand hrange (hg.userPage hlegit) hrun
      obtain ⟨-, -, hkeep'⟩ := hgood.writesPage (hg.userPage hlegit) (lookup_of_translate hpa)
        (writesFrame_update _ _ _)
      exact h.keep hg rfl fun p hp => (hkeep _ (hg.pools p hp).user).trans
        (hkeep' _ (hg.pools p hp).user fun hc => hfree p hp hc.symm)

end

end TeachingKernel.Paging.P4
