import TeachingKernel.Paging.ListPages

/-!
# Pools in demand-paged memory

Pools are constructed on the loaded page table, each of which faults in its list page
while it is registered with no entries; regions are allocated, and legitimate
addresses touched. Every list page stays mapped, so no access of the handler faults.
-/

namespace TeachingKernel.Paging.P4

open FramePool ContFramePool VM Mmu Runs

structure System where
  machine : Machine
  vmPools : List VMPool

/-- What happens before an access of the kernel: nothing, or the handler runs. -/
def demand (pools : List VMPool) (process : Nat) (va : Word) (s : Machine) : Option Machine :=
  if (s.load va).isSome then some s else handleFault (accepts pools) process va s

/-- The constructor of `VMPool`, which registers the pool while its list is empty and
then writes the first entry. `stale` is the member `base_address` before it is assigned. -/
def constructPool (process : Nat) (stale base size : Word) (y : System) : Option System :=
  if stale &&& 0x3FF#32 = 0 then do
    let p : VMPool := ⟨base, roundToPages size, 0, base⟩
    let pools := y.vmPools ++ [p]
    let s ← demand pools process (entryAddr base 0) y.machine
    let s ← s.store (entryAddr base 0) base
    let s ← demand pools process (entryAddr base 0 + 4) s
    let s ← s.store (entryAddr base 0 + 4) pageSize
    some ⟨s, y.vmPools ++ [{ p with numAllocated := 1 }]⟩
  else none

def poolSpan (p : VMPool) : Span := ⟨p.baseAddress.toNat, p.size.toNat⟩

/-- Whole pages between the first 4 MB and the window, apart from the pools there are. -/
structure Admissible (pools : List VMPool) (base size : Word) : Prop where
  aligned : pageSize.toNat ∣ base.toNat
  low : 0x400000 ≤ base.toNat
  size_ge : pageSize.toNat ≤ (roundToPages size).toNat
  high : base.toNat + (roundToPages size).toNat ≤ recursiveWindow
  apart : ∀ p ∈ pools, (poolSpan p).Apart ⟨base.toNat, (roundToPages size).toNat⟩

inductive SystemOp where
  | construct (stale base size : Word)
  | allocate (i : Nat) (size : Word)
  | touch (a : Word)
  | store (a : Word) (b : Byte)

/-- The constructors and calls that return, and accesses to legitimate addresses. A
store leaves the list pages alone. -/
inductive SystemStep (process : Nat) : System → SystemOp → System → Prop
  | construct {y stale base size z} (hroom : y.vmPools.length < maxPools)
      (hfit : Admissible y.vmPools base size)
      (hrun : constructPool process stale base size y = some z) :
      SystemStep process y (.construct stale base size) z
  | allocate {y i p size a p' t} (hpool : y.vmPools[i]? = some p)
      (hrun : P4.allocate p y.machine size = some (a, p', t))
      (hfew : p'.numAllocated.toNat ≤ 512) :
      SystemStep process y (.allocate i size) ⟨t, y.vmPools.set i p'⟩
  | touch {y a t} (hlegit : checkAddress y.vmPools y.machine a = some true)
      (hrun : demand y.vmPools process a y.machine = some t) :
      SystemStep process y (.touch a) ⟨t, y.vmPools⟩
  | store {y a b t pa} (hlegit : checkAddress y.vmPools y.machine a = some true)
      (hfree : ∀ p ∈ y.vmPools, pageOf a ≠ pageOf p.allocatedList)
      (hrun : demand y.vmPools process a y.machine = some t)
      (hpa : translate t.mem t.cr3 a = some pa) :
      SystemStep process y (.store a b)
        ⟨{ t with mem := Function.update t.mem pa b }, y.vmPools⟩

def OutOfFrames (process : Nat) (a : Word) (s : Machine) : Prop :=
  (provideTable process (getFirst10Bits a) s = none ∧ s.getFrame process = none) ∨
    ∃ u, provideTable process (getFirst10Bits a) s = some u ∧
      providePage process (getFirst10Bits a) (getMiddle10Bits a) u = none ∧
      u.getFrame process = none

/-! ## The invariant -/

def Lists (s : Machine) (p : VMPool) (l : List RegionInfo) : Prop :=
  ∃ m, ShowsList s p.allocatedList m ∧ p.entries m = l

/-- The list of the pool lies in a mapped page and is in order. -/
structure PoolGood (s : Machine) (p : VMPool) : Prop where
  geometry : Geometry p
  low : 0x400000 ≤ p.baseAddress.toNat
  few : p.numAllocated.toNat ≤ 512
  list : ∃ f m, ListPage s p.allocatedList f ∧ ShowsList s p.allocatedList m ∧
    Lined p.baseAddress p.size (p.entries m)

structure SystemGood (k : Nat) (q : ContFramePool) (y : System) : Prop where
  paging : Good k q y.machine
  pools : ∀ p ∈ y.vmPools, PoolGood y.machine p
  apart : (y.vmPools.map poolSpan).Pairwise Span.Apart
  room : y.vmPools.length ≤ maxPools

section

variable {s t : Machine} {p p' : VMPool} {pools : List VMPool} {k f v : Nat} {q : ContFramePool}
  {a base size stale : Word} {y z : System} {op : SystemOp}

theorem PoolGood.keep (h : PoolGood s p) (hkeep : KeepsPage s t (pageOf p.allocatedList)) :
    PoolGood t p := by
  obtain ⟨f, m, hl, hs, hlined⟩ := h.list
  exact ⟨h.geometry, h.low, h.few, f, m, hkeep.listPage hl, hkeep.showsList hl hs, hlined⟩

theorem PoolGood.user (h : PoolGood s p) : UserPage (pageOf p.allocatedList) := by
  obtain ⟨f, m, hl, -⟩ := h.list
  exact hl.user

theorem PoolGood.answers (h : PoolGood s p) (a : Word) :
    ∃ b, isLegitimate p s a = some b ∧ (b = true → a.toNat ∈ poolSpan p) := by
  obtain ⟨f, m, hl, hs, hlined⟩ := h.list
  have hfew := h.few
  refine ⟨_, isLegitimate_eq fun i hi => hs i (by omega), fun hb => ?_⟩
  obtain ⟨r, hr, hlo, hhi⟩ := (isLegitimate_iff h.geometry.below_window hlined).mp hb
  obtain ⟨hstart, hstop⟩ := hlined.inside r hr
  have hlt : a.toNat < r.stop := hhi
  have hle : r.startFrame.toNat ≤ a.toNat := hlo
  exact ⟨by dsimp only [poolSpan]; omega, by dsimp only [poolSpan]; omega⟩

theorem PoolGood.page_ne (h : PoolGood s p) (hapart : (poolSpan p).Apart ⟨base.toNat, size.toNat⟩)
    (haligned : pageSize.toNat ∣ base.toNat) (hsize : pageSize.toNat ≤ size.toNat) :
    pageOf p.allocatedList ≠ pageOf base := by
  intro hpage
  have hali := h.geometry.base_aligned
  have hge := h.geometry.size_ge
  rw [h.geometry.list_eq] at hpage
  rw [pageSize_toNat] at haligned hsize hali hge
  unfold pageOf at hpage
  refine hapart base.toNat ⟨?_, ?_⟩ ⟨Nat.le_refl _, ?_⟩
  · dsimp only [poolSpan]
    omega
  · dsimp only [poolSpan]
    omega
  · dsimp only
    omega

/-- Every question about an address is answered, and what is accepted lies in a pool. -/
theorem SystemGood.check (h : SystemGood k q y) (a : Word) :
    ∃ b, checkAddress y.vmPools y.machine a = some b ∧
      (b = true → ∃ p ∈ y.vmPools, a.toNat ∈ poolSpan p) := by
  obtain ⟨b, hb, hiff⟩ := checkAddress_of_answers (a := a) fun p hp =>
    let ⟨b, hb, _⟩ := (h.pools p hp).answers a
    ⟨b, hb⟩
  refine ⟨b, hb, fun hyes => ?_⟩
  obtain ⟨p, hp, hlegit⟩ := hiff.mp hyes
  obtain ⟨b', hb', hin⟩ := (h.pools p hp).answers a
  exact ⟨p, hp, hin (Option.some.inj (hb'.symm.trans hlegit))⟩

theorem userPage_of_bounds (hlo : 0x400000 ≤ a.toNat) (hhi : a.toNat < recursiveWindow) :
    UserPage (pageOf a) := by
  unfold recursiveWindow at hhi
  unfold UserPage pageOf lastTable
  omega

theorem Admissible.userPage {pools : List VMPool} {base size : Word}
    (h : Admissible pools base size) : UserPage (pageOf base) := by
  have hsize := h.size_ge
  have hhigh := h.high
  rw [pageSize_toNat] at hsize
  exact userPage_of_bounds h.low (by omega)

theorem SystemGood.userPage (h : SystemGood k q y)
    (hlegit : checkAddress y.vmPools y.machine a = some true) : UserPage (pageOf a) := by
  obtain ⟨b, hb, hin⟩ := h.check a
  obtain ⟨p, hp, hlo, hhi⟩ := hin (Option.some.inj (hb.symm.trans hlegit))
  have hlow := (h.pools p hp).low
  have hwin := (h.pools p hp).geometry.below_window
  dsimp only [poolSpan] at hlo hhi
  exact userPage_of_bounds (by omega) (by omega)

/-! ## The handler -/

theorem load_isSome :
    (s.load a).isSome = (lookup (words s.mem) (frameOf s.cr3) (pageOf a)).isSome := by
  rw [Machine.load, Mmu.translate, Option.isSome_map, Option.isSome_map]

theorem Good.demand (h : Good k q s) (hrange : q.baseFrameNo.toNat + q.nframes.toNat ≤ 2 ^ 20)
    (ha : UserPage (pageOf a)) (hrun : P4.demand pools k a s = some t) :
    Good k q t ∧ (lookup (words t.mem) (frameOf t.cr3) (pageOf a)).isSome ∧
      ∀ v, UserPage v → KeepsPage s t v := by
  unfold P4.demand at hrun
  split at hrun
  · cases hrun
    exact ⟨h, load_isSome ▸ ‹_›, fun v _ => KeepsPage.refl s v⟩
  · obtain ⟨hgood, hcr3, hsome, -⟩ := h.handleFault hrange ha.1 ha.2 hrun
    exact ⟨hgood, by rw [hcr3]; exact hsome, fun v hv => h.handleFault_keeps hrange ha hrun hv⟩

/-- The handler returns, unless a call of `get_frames` fails. -/
theorem Good.handleFault_or {checkAddress : Machine → Word → Bool} (h : Good k q s)
    (hrange : q.baseFrameNo.toNat + q.nframes.toNat ≤ 2 ^ 20) (ha : UserPage (pageOf a))
    (haccept : checkAddress s a = true) :
    (∃ t, P4.handleFault checkAddress k a s = some t) ∨ OutOfFrames k a s := by
  have hfirst := getFirst10Bits_toNat a
  have hmiddle := getMiddle10Bits_toNat a
  have hlt := ha.2
  have hpdi : (getFirst10Bits a).toNat < lastTable := by omega
  have hpdi' : (getFirst10Bits a).toNat < 1024 := by unfold lastTable at hpdi; omega
  have hpti : (getMiddle10Bits a).toNat < 1024 := by omega
  cases htable : P4.provideTable k (getFirst10Bits a) s with
  | none =>
      exact .inr (.inl ⟨htable, h.exhausted_of_provideTable hrange hpdi htable⟩)
  | some u =>
      obtain ⟨hgood, hcr3, hp, -⟩ := h.provideTable hrange hpdi htable
      rw [← hcr3] at hp
      cases hpage : P4.providePage k (getFirst10Bits a) (getMiddle10Bits a) u with
      | none =>
          exact .inr (.inr ⟨u, htable, hpage, hgood.exhausted_of_providePage hpdi' hpti hp hpage⟩)
      | some t =>
          refine .inl ⟨t, ?_⟩
          unfold P4.handleFault
          rw [haccept]
          show (P4.provideTable k (getFirst10Bits a) s).bind _ = _
          rw [htable]
          exact hpage

/-! ## The constructor -/

@[simp] theorem entryAddr_zero (list : Word) : entryAddr list 0 = list := by simp [entryAddr]

theorem demand_of_store {w : Word} (h : s.store a w = some t) : P4.demand pools k a s = some s := by
  obtain ⟨pa, hpa, -⟩ := Option.map_eq_some_iff.mp h
  have hload : (s.load a).isSome := by
    rw [Machine.load, hpa]
    rfl
  rw [P4.demand, if_pos hload]

/-- After the first store the page is there, so the second one does not fault. -/
theorem constructPool_eq (hstale : stale &&& 0x3FF#32 = 0)
    (hdemand : P4.demand (y.vmPools ++ [⟨base, roundToPages size, 0, base⟩]) k base y.machine =
      some s) (hstore : s.storeRegion base 0 ⟨base, pageSize⟩ = some t) :
    constructPool k stale base size y =
      some ⟨t, y.vmPools ++ [⟨base, roundToPages size, 1, base⟩]⟩ := by
  obtain ⟨u, hu, ht⟩ := Option.bind_eq_some_iff.mp hstore
  have hnoop : P4.demand (y.vmPools ++ [⟨base, roundToPages size, 0, base⟩]) k _ u = some u :=
    demand_of_store ht
  rw [entryAddr_zero] at hu ht hnoop
  simp only [constructPool, if_pos hstale, entryAddr_zero, hdemand, Option.bind_eq_bind,
    Option.bind_some, hu, hnoop, ht]

theorem Good.listPage (hbase : pageSize.toNat ∣ base.toNat) (huser : UserPage (pageOf base))
    (hmapped : (lookup (words s.mem) (frameOf s.cr3) (pageOf base)).isSome) :
    ∃ f, ListPage s base f := by
  obtain ⟨f, hf⟩ := Option.isSome_iff_exists.mp hmapped
  exact ⟨f, hbase, huser, hf⟩

theorem poolGood_new (hg : Good k q s) (hfit : Admissible pools base size) (hl : ListPage s base f)
    (hstore : s.storeRegion base 0 ⟨base, pageSize⟩ = some t) :
    Good k q t ∧ PoolGood t ⟨base, roundToPages size, 1, base⟩ ∧
      Lists t ⟨base, roundToPages size, 1, base⟩ [⟨base, pageSize⟩] ∧
      ∀ v, UserPage v → v ≠ pageOf base → KeepsPage s t v := by
  obtain ⟨t', ht', hw, hfirst, hsecond, -⟩ :=
    hl.storeRegion (x := ⟨base, pageSize⟩) hg (show 0 < 512 by decide)
  cases hstore.symm.trans ht'
  obtain ⟨hgood, hlookup, hkeep⟩ := hg.writesPage hl.user hl.mapped hw
  have hlt := hl.user.2
  have hl' : ListPage t base f := ⟨hl.aligned, hl.user, by
    rw [hw.regs.cr3_eq, hlookup _ (by omega), hl.mapped]⟩
  obtain ⟨m, hm⟩ := hl'.exists_shows
  have hread := (hl'.loadRegion (show 0 < 512 by decide)).symm.trans (hm 0 (by decide))
  rw [Option.some_inj, hfirst, hsecond] at hread
  have hentries : VMPool.entries ⟨base, roundToPages size, 1, base⟩ m = [⟨base, pageSize⟩] := by
    simp [VMPool.entries, VMPool.entry, ← hread]
  have hround := VMPool.roundToPages_aligned size
  have hone : (1 : Word).toNat ≤ 512 := by decide
  refine ⟨hgood, ⟨⟨rfl, hfit.aligned, hround, hfit.size_ge, hfit.high⟩, hfit.low, hone, f, m, hl',
    hm, ?_⟩, ⟨m, hm, hentries⟩, hkeep⟩
  rw [hentries]
  refine ⟨rfl, List.pairwise_singleton _ _, fun r hr => ?_⟩
  rw [List.mem_singleton.mp hr]
  exact ⟨Nat.le_refl _, Nat.add_le_add_left hfit.size_ge _⟩

theorem SystemGood.construct_keeps (h : SystemGood k q y)
    (hrange : q.baseFrameNo.toNat + q.nframes.toNat ≤ 2 ^ 20) (hroom : y.vmPools.length < maxPools)
    (hfit : Admissible y.vmPools base size)
    (hrun : constructPool k stale base size y = some z) :
    SystemGood k q z ∧ z.vmPools = y.vmPools ++ [⟨base, roundToPages size, 1, base⟩] ∧
      Lists z.machine ⟨base, roundToPages size, 1, base⟩ [⟨base, pageSize⟩] ∧
      ∀ v, UserPage v → v ≠ pageOf base → KeepsPage y.machine z.machine v := by
  have huser := hfit.userPage
  have hstale : stale &&& 0x3FF#32 = 0 := by
    by_contra hc
    rw [constructPool, if_neg hc] at hrun
    cases hrun
  have hdemand : ∃ s, P4.demand (y.vmPools ++ [⟨base, roundToPages size, 0, base⟩]) k base
      y.machine = some s := by
    rw [constructPool, if_pos hstale] at hrun
    obtain ⟨s, hs, -⟩ := Option.bind_eq_some_iff.mp hrun
    rw [entryAddr_zero] at hs
    exact ⟨s, hs⟩
  obtain ⟨s, hs⟩ := hdemand
  obtain ⟨hgood, hmapped, hkeep⟩ := h.paging.demand hrange huser hs
  obtain ⟨f, hl⟩ := Good.listPage hfit.aligned huser hmapped
  obtain ⟨t, ht, -⟩ := hl.storeRegion (x := ⟨base, pageSize⟩) hgood (show 0 < 512 by decide)
  cases hrun.symm.trans (constructPool_eq hstale hs ht)
  obtain ⟨hgood', hnew, hlists, hkeep'⟩ := poolGood_new hgood hfit hl ht
  refine ⟨⟨hgood', ?_, ?_, by rwa [List.length_append]⟩, rfl, hlists, fun v hv hne =>
    (hkeep v hv).trans (hkeep' v hv hne)⟩
  · intro p hp
    rcases List.mem_append.mp hp with hp | hp
    · have hpool := h.pools p hp
      have hne := hpool.page_ne (hfit.apart p hp) hfit.aligned hfit.size_ge
      exact hpool.keep ((hkeep _ hpool.user).trans (hkeep' _ hpool.user hne))
    · rw [List.mem_singleton.mp hp]
      exact hnew
  · rw [List.map_append, List.pairwise_append]
    refine ⟨h.apart, List.pairwise_singleton _ _, fun r hr r' hr' => ?_⟩
    obtain ⟨p, hp, rfl⟩ := List.mem_map.mp hr
    rw [List.mem_singleton.mp hr']
    exact hfit.apart p hp

theorem SystemGood.construct (h : SystemGood k q y)
    (hrange : q.baseFrameNo.toNat + q.nframes.toNat ≤ 2 ^ 20) (hroom : y.vmPools.length < maxPools)
    (hfit : Admissible y.vmPools base size)
    (hrun : constructPool k stale base size y = some z) : SystemGood k q z :=
  (h.construct_keeps hrange hroom hfit hrun).1

/-! ## The other steps -/

/-- A call that returns lists one more entry. -/
theorem allocate_pool (h : P4.allocate p s size = some (a, p', t)) :
    p' = { p with numAllocated := p.numAllocated + 1 } := by
  have hinsert : ∀ {x index}, insertItem p s x index = some (p', t) →
      p' = { p with numAllocated := p.numAllocated + 1 } := by
    intro x index hins
    obtain ⟨u, -, hins⟩ := Option.bind_eq_some_iff.mp hins
    obtain ⟨v, -, hins⟩ := Option.bind_eq_some_iff.mp hins
    cases hins
    rfl
  obtain ⟨place, -, h⟩ := Option.bind_eq_some_iff.mp h
  cases place with
  | some i =>
      obtain ⟨r, -, h⟩ := Option.bind_eq_some_iff.mp h
      obtain ⟨⟨p₁, u⟩, hu, h⟩ := Option.bind_eq_some_iff.mp h
      cases h
      exact hinsert hu
  | none =>
      obtain ⟨r, -, h⟩ := Option.bind_eq_some_iff.mp h
      dsimp only at h
      split at h
      · obtain ⟨⟨p₁, u⟩, hu, h⟩ := Option.bind_eq_some_iff.mp h
        cases h
        exact hinsert hu
      · cases h

theorem PoolGood.allocate (hg : Good k q s) (h : PoolGood s p)
    (hrun : P4.allocate p s size = some (a, p', t)) (hfew : p'.numAllocated.toNat ≤ 512) :
    Good k q t ∧ PoolGood t p' ∧
      ∀ v, UserPage v → v ≠ pageOf p.allocatedList → KeepsPage s t v := by
  obtain ⟨f, m, hl, hs, hlined⟩ := h.list
  have hpool := allocate_pool hrun
  have hpos := VMPool.numAllocated_pos hlined
  have hold := h.few
  have hcount : (p.numAllocated + 1).toNat = p.numAllocated.toNat + 1 := toNat_add_one (by omega)
  rw [hpool] at hfew
  obtain ⟨m', hm', hw⟩ := allocate_wrote hg hl hs hpos (by dsimp only at hfew; omega) hrun
  obtain ⟨i, hp⟩ := VMPool.allocate_inserted h.geometry.below_window hlined (by omega) hm'
  have hlined' := hp.lined hlined
  refine ⟨hw.good, ?_, (hg.writesPage hl.user hl.mapped hw.writes).2.2⟩
  subst hpool
  exact ⟨h.geometry.grow _, h.low, hfew, f, m', hw.page, hw.shows_list, hlined'⟩

theorem SystemGood.apart_of_ne (h : SystemGood k q y) {i j : Nat} (hne : i ≠ j)
    (hi : y.vmPools[i]? = some p) (hj : y.vmPools[j]? = some p') :
    (poolSpan p).Apart (poolSpan p') := by
  have hpair := List.pairwise_iff_getElem.mp h.apart
  obtain ⟨hi, rfl⟩ := List.getElem?_eq_some_iff.mp hi
  obtain ⟨hj, rfl⟩ := List.getElem?_eq_some_iff.mp hj
  rcases Nat.lt_or_gt_of_ne hne with hlt | hgt
  · have hij := hpair i j (by rwa [List.length_map]) (by rwa [List.length_map]) hlt
    rwa [List.getElem_map, List.getElem_map] at hij
  · have hji := hpair j i (by rwa [List.length_map]) (by rwa [List.length_map]) hgt
    rw [List.getElem_map, List.getElem_map] at hji
    exact hji.symm

theorem SystemGood.allocate (h : SystemGood k q y) {i : Nat} (hpool : y.vmPools[i]? = some p)
    (hrun : P4.allocate p y.machine size = some (a, p', t)) (hfew : p'.numAllocated.toNat ≤ 512) :
    SystemGood k q ⟨t, y.vmPools.set i p'⟩ := by
  have hp := h.pools p (List.mem_of_getElem? hpool)
  obtain ⟨hgood, hnew, hkeep⟩ := hp.allocate h.paging hrun hfew
  have hspan : poolSpan p' = poolSpan p := by
    rw [allocate_pool hrun]
    rfl
  refine ⟨hgood, fun p₁ hp₁ => ?_, ?_, by simpa using h.room⟩
  · obtain ⟨j, hj⟩ := List.mem_iff_getElem?.mp hp₁
    by_cases hij : i = j
    · subst hij
      rw [List.getElem?_set, if_pos rfl, if_pos (List.getElem?_eq_some_iff.mp hpool).1] at hj
      cases hj
      exact hnew
    · rw [List.getElem?_set, if_neg hij] at hj
      have hother := h.pools p₁ (List.mem_of_getElem? hj)
      have hne := hother.page_ne (h.apart_of_ne (fun hc => hij hc.symm) hj hpool)
        hp.geometry.base_aligned hp.geometry.size_ge
      rw [← hp.geometry.list_eq] at hne
      exact hother.keep (hkeep _ hother.user hne)
  · have hsame : (y.vmPools.set i p').map poolSpan = y.vmPools.map poolSpan := by
      apply List.ext_getElem?
      intro j
      rw [List.getElem?_map, List.getElem?_map, List.getElem?_set]
      by_cases hij : i = j
      · subst hij
        rw [if_pos rfl, if_pos (List.getElem?_eq_some_iff.mp hpool).1, hpool, Option.map_some,
          Option.map_some, hspan]
      · rw [if_neg hij]
    rw [hsame]
    exact h.apart

theorem SystemGood.touch (h : SystemGood k q y)
    (hrange : q.baseFrameNo.toNat + q.nframes.toNat ≤ 2 ^ 20)
    (hlegit : checkAddress y.vmPools y.machine a = some true)
    (hrun : P4.demand y.vmPools k a y.machine = some t) : SystemGood k q ⟨t, y.vmPools⟩ := by
  obtain ⟨hgood, -, hkeep⟩ := h.paging.demand hrange (h.userPage hlegit) hrun
  exact ⟨hgood, fun p hp => (h.pools p hp).keep (hkeep _ (h.pools p hp).user), h.apart, h.room⟩

theorem writesFrame_update (s : Machine) (pa : Word) (b : Byte) :
    WritesFrame s { s with mem := Function.update s.mem pa b } (pageOf pa) := by
  refine ⟨⟨rfl, rfl⟩, fun g hg hne j hj => ?_⟩
  refine Memory.readWord_congr fun x hx => Function.update_of_ne ?_ _ _
  rintro rfl
  have hslot := slot_toNat hg hj
  have hx32 := x.isLt
  rw [BitVec.toNat_sub, hslot] at hx
  apply hne
  unfold pageOf
  omega

theorem SystemGood.store (h : SystemGood k q y)
    (hrange : q.baseFrameNo.toNat + q.nframes.toNat ≤ 2 ^ 20) {pa : Word} (b : Byte)
    (hlegit : checkAddress y.vmPools y.machine a = some true)
    (hfree : ∀ p ∈ y.vmPools, pageOf a ≠ pageOf p.allocatedList)
    (hrun : P4.demand y.vmPools k a y.machine = some t) (hpa : translate t.mem t.cr3 a = some pa) :
    SystemGood k q ⟨{ t with mem := Function.update t.mem pa b }, y.vmPools⟩ := by
  obtain ⟨hgood, hpools, hapart, hroom⟩ := h.touch hrange hlegit hrun
  obtain ⟨hgood', -, hkeep⟩ := hgood.writesPage (h.userPage hlegit) (lookup_of_translate hpa)
    (writesFrame_update t pa b)
  exact ⟨hgood', fun p hp => (hpools p hp).keep
    (hkeep _ (hpools p hp).user fun hc => hfree p hp hc.symm), hapart, hroom⟩

theorem SystemGood.step (h : SystemGood k q y)
    (hrange : q.baseFrameNo.toNat + q.nframes.toNat ≤ 2 ^ 20) (hstep : SystemStep k y op z) :
    SystemGood k q z := by
  cases hstep with
  | construct hroom hfit hrun => exact h.construct hrange hroom hfit hrun
  | allocate hpool hrun hfew => exact h.allocate hpool hrun hfew
  | touch hlegit hrun => exact h.touch hrange hlegit hrun
  | store hlegit hfree hrun hpa => exact h.store hrange _ hlegit hfree hrun hpa

/-! ## Constructors that return -/

theorem SystemGood.accepts_new (h : SystemGood k q y) (a : Word) :
    checkAddress (y.vmPools ++ [⟨base, roundToPages size, 0, base⟩]) y.machine a = some true := by
  have hnew : isLegitimate ⟨base, roundToPages size, 0, base⟩ y.machine a = some true := if_pos rfl
  have hall : ∀ p ∈ y.vmPools ++ [⟨base, roundToPages size, 0, base⟩],
      ∃ b, isLegitimate p y.machine a = some b := by
    intro p hp
    rcases List.mem_append.mp hp with hp | hp
    · obtain ⟨b, hb, -⟩ := (h.pools p hp).answers a
      exact ⟨b, hb⟩
    · rw [List.mem_singleton.mp hp]
      exact ⟨true, hnew⟩
  obtain ⟨b, hb, hiff⟩ := checkAddress_of_answers hall
  rw [hb, hiff.mpr ⟨_, List.mem_append_right _ (List.mem_singleton.mpr rfl), hnew⟩]

theorem SystemGood.constructs (h : SystemGood k q y)
    (hrange : q.baseFrameNo.toNat + q.nframes.toNat ≤ 2 ^ 20) (hstale : stale &&& 0x3FF#32 = 0)
    (hfit : Admissible y.vmPools base size) :
    (∃ z, constructPool k stale base size y = some z ∧
        (translate z.machine.mem z.machine.cr3 base).isSome) ∨ OutOfFrames k base y.machine := by
  have huser := hfit.userPage
  have hdemand : (∃ s, P4.demand (y.vmPools ++ [⟨base, roundToPages size, 0, base⟩]) k base
      y.machine = some s) ∨ OutOfFrames k base y.machine := by
    rw [P4.demand]
    split
    · exact .inl ⟨_, rfl⟩
    · exact h.paging.handleFault_or hrange huser (accepts_of_checkAddress (h.accepts_new base))
  rcases hdemand with ⟨s, hs⟩ | hout
  · obtain ⟨hgood, hmapped, -⟩ := h.paging.demand hrange huser hs
    obtain ⟨f, hl⟩ := Good.listPage hfit.aligned huser hmapped
    obtain ⟨t, ht, hw, -⟩ := hl.storeRegion (x := ⟨base, pageSize⟩) hgood (show 0 < 512 by decide)
    refine .inl ⟨_, constructPool_eq hstale hs ht, ?_⟩
    have hlt := huser.2
    rw [Mmu.translate, hw.regs.cr3_eq, (hgood.writesPage hl.user hl.mapped hw).2.1 _ (by omega),
      hl.mapped]
    rfl
  · exact .inr hout

/-- Two frames are enough for a fault. -/
theorem Good.not_outOfFrames (h : Good k q s)
    (hrange : q.baseFrameNo.toNat + q.nframes.toNat ≤ 2 ^ 20) (ha : UserPage (pageOf a))
    (hspare : Spare k s) : ¬ OutOfFrames k a s := by
  have hfirst := getFirst10Bits_toNat a
  have hlt := ha.2
  obtain ⟨t, ht, g, w, hget⟩ := h.provideTable_completes hrange
    (show (getFirst10Bits a).toNat < lastTable by omega) hspare
  rintro (⟨hnone, -⟩ | ⟨u, hu, -, hnone⟩)
  · cases ht.symm.trans hnone
  · cases ht.symm.trans hu
    cases hget.symm.trans hnone

end

end TeachingKernel.Paging.P4
