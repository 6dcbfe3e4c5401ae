import TeachingKernel.VMPool.Regions

/-!
# The list and the client's data

The list of regions shares the memory of the pool with the regions themselves.
It has room for 512 entries before it grows out of its page, and into the first
region; that bound on the history is what keeps the two apart.
-/

namespace TeachingKernel.VM

open Runs

section

variable {σ : Type} {freePage : Nat → σ → Option σ} {s t : Client σ} {p p' : VMPool}
  {m m' : Memory} {size a base sz : Word} {op : PoolOp}

def Isolated (s : Client σ) : Prop :=
  ∀ x, InList s.pool.allocatedList s.pool.numAllocated.toNat x → ∀ r ∈ s.live, ¬ r.Covers x

/-- A store of the client leaves the list as it was, a call the client's data. -/
def Undisturbed (s : Client σ) (op : PoolOp) (t : Client σ) : Prop :=
  match op with
  | .store _ _ => ∀ x, InList s.pool.allocatedList s.pool.numAllocated.toNat x → t.mem x = s.mem x
  | _ => ∀ r ∈ s.live, ∀ x, r.Covers x → t.mem x = s.mem x

/-- The request does not wrap around the address space, and its entry still fits
the page of the list. -/
def ListFits (s : Client σ) (op : PoolOp) : Prop :=
  match op with
  | .allocate size => size.toNat ≤ 2 ^ 32 - pageSize.toNat ∧ s.pool.numAllocated.toNat < 512
  | _ => True

structure Filling (base sz : Word) (s : Client σ) : Prop where
  good : Good base sz s
  first : 1 < s.pool.numAllocated.toNat →
    ∃ r ∈ s.live, r.start.toNat = base.toNat + pageSize.toNat

theorem Good.isolated (h : Good base sz s) : Isolated s := by
  intro x hx r hr hcovers
  have hlist := h.inList_lt h.few hx
  have hbounds := h.live_bounds hr
  have hspan := (h.covers_iff hr).mp hcovers
  rw [Region.span, Span.mem_mk] at hspan
  omega

private theorem count_grow (hfew : s.pool.numAllocated.toNat ≤ 512) :
    (s.pool.numAllocated + 1).toNat = s.pool.numAllocated.toNat + 1 := toNat_add_one (by omega)

theorem Filling.step (h : Filling base sz s) (hop : op.IsRelease = false) (hfits : ListFits s op)
    (hstep : Step freePage s op t) : Filling base sz t ∧ Undisturbed s op t := by
  obtain ⟨hgood, hfirst⟩ := h
  cases hstep with
  | release hrun => cases hop
  | store hown =>
      refine ⟨⟨hgood.store hown, hfirst⟩, fun x hx => ?_⟩
      obtain ⟨r, hr, hcovers⟩ := hown
      apply Function.update_of_ne
      rintro rfl
      exact hgood.isolated _ hx r hr hcovers
  | @allocate size a p' m' hsize hrun =>
      obtain ⟨hmax, hroom⟩ := hfits
      obtain ⟨rfl, rfl, hg, hlaid, hfew, -, -⟩ := id hgood
      obtain ⟨i, hp⟩ := VMPool.allocate_spec hg hlaid hfew hsize hmax hrun
      have hcount := count_grow hfew
      have hnew : p'.numAllocated.toNat ≤ 512 := by
        rw [hp.pool_eq, hcount]
        omega
      refine ⟨⟨(hgood.allocate hsize hmax hrun hnew).1, fun _ => ?_⟩, ?_⟩
      · by_cases hmore : 1 < s.pool.numAllocated.toNat
        · obtain ⟨r, hr, hstart⟩ := hfirst hmore
          exact ⟨r, List.mem_cons_of_mem _ hr, hstart⟩
        · have hzero : i = 0 := by
            have := hp.listed
            omega
          refine ⟨⟨a, size⟩, List.mem_cons_self, ?_⟩
          rw [hp.start_eq, hzero, VMPool.entry_zero hlaid.lined]
          rfl
      · intro r hr x hcovers
        apply hp.outside
        intro hx
        have hlist := hgood.inList_lt (show s.pool.numAllocated.toNat + 1 ≤ 512 by omega) hx
        have hbounds := hgood.live_bounds hr
        have hspan := (hgood.covers_iff hr).mp hcovers
        rw [Region.span, Span.mem_mk] at hspan
        omega

/-- A request that wraps covers the list, and the 513th entry is written over the
first region. -/
theorem Filling.overlap (h : Filling base sz s) (hop : op.IsRelease = false)
    (hfits : ¬ ListFits s op) (hstep : Step freePage s op t) : ¬ Isolated t := by
  obtain ⟨hgood, hfirst⟩ := h
  have hfew := hgood.few
  have hcount := count_grow hfew
  intro hiso
  cases hstep with
  | release hrun => cases hop
  | store hown => exact hfits trivial
  | @allocate size a p' m' hsize hrun =>
      have hpool := allocate_pool hrun
      have hnum : p'.numAllocated.toNat = s.pool.numAllocated.toNat + 1 := by rw [hpool, hcount]
      by_cases hmax : size.toNat ≤ 2 ^ 32 - pageSize.toNat
      · have hfull : s.pool.numAllocated.toNat = 512 := by
          have : ¬ s.pool.numAllocated.toNat < 512 := fun hlt => hfits ⟨hmax, hlt⟩
          omega
        obtain ⟨r, hr, hstart⟩ := hfirst (by omega)
        have hle := le_roundUp r.size
        have hpos := (hgood.bounded r hr).1
        refine hiso r.start ?_ r (List.mem_cons_of_mem _ hr) ?_
        · have hsub : (r.start - base).toNat = pageSize.toNat := by
            rw [toNat_sub_of_le (by omega), hstart]
            omega
          rw [InList, hnum, hfull, hpool, hgood.geometry.list_eq, hgood.base_eq, hsub]
          decide
        · rw [Region.Covers, BitVec.sub_self]
          exact Nat.lt_of_lt_of_le hpos hle
      · have hround := (roundToPages_of_gt (Nat.lt_of_not_le hmax)).2
        refine hiso p'.allocatedList ?_ ⟨a, size⟩ List.mem_cons_self ?_
        · rw [InList, BitVec.sub_self, hnum]
          simp
        · rw [Region.Covers, hround]
          exact (_ - a).isLt

theorem Filling.start {stale size : Word} {m₀ : Memory} (pages : σ)
    (hbase : pageSize.toNat ∣ base.toNat) (hsize : pageSize.toNat ≤ (roundToPages size).toNat)
    (hfit : base.toNat + (roundToPages size).toNat ≤ recursiveWindow)
    (hnew : VMPool.construct stale base size m₀ = .ok (p, m)) :
    Filling base (roundToPages size) (Client.start p m pages) := by
  refine ⟨Good.start pages hbase hsize hfit hnew, fun hmore => ?_⟩
  obtain ⟨rfl, rfl⟩ := VMPool.construct_eq hnew
  exact absurd hmore (by simp [Client.start])

private theorem calls_of_kept {run : List (PoolOp × Client σ)} (hrun : IsRun (Step freePage) s run)
    (hkept : ∀ e ∈ run, e.1.IsRelease = false) :
    IsRun (fun s op t => Step freePage s op t ∧ op.IsRelease = false) s run :=
  isRun_and_of_forall (R := fun op _ => op.IsRelease = false) hrun hkept

theorem Filling.everyState_isolated_iff {run : List (PoolOp × Client σ)} (h : Filling base sz s)
    (hrun : IsRun (Step freePage) s run) (hkept : ∀ e ∈ run, e.1.IsRelease = false) :
    EveryState Isolated s run ↔ EveryStep ListFits s run :=
  everyState_iff_of_breaks (fun _ hs => hs.good.isolated)
    (fun _ _ _ hs hfits hstep => (Filling.step hs hstep.2 hfits hstep.1).1)
    (fun _ _ _ hs hfits hstep => Filling.overlap hs hstep.2 hfits hstep.1) h
    (calls_of_kept hrun hkept)

theorem Filling.everyState {run : List (PoolOp × Client σ)} (h : Filling base sz s)
    (hrun : IsRun (Step freePage) s run) (hkept : ∀ e ∈ run, e.1.IsRelease = false)
    (hfits : EveryStep ListFits s run) : EveryState (Filling base sz) s run :=
  everyState_of_step (fun _ _ _ hs hstep => (Filling.step hs hstep.1.2 hstep.2 hstep.1.1).1) h
    (isRun_and_of_everyStep (calls_of_kept hrun hkept) hfits)

/-- The list and the regions of the client stay apart along a run exactly when
every request of the run finds room for its entry in the page of the list and
does not wrap around the address space. -/
theorem isolated_iff_listFits {stale size : Word} {m₀ : Memory} {pages : σ}
    {run : List (PoolOp × Client σ)} (hbase : pageSize.toNat ∣ base.toNat)
    (hsize : pageSize.toNat ≤ (roundToPages size).toNat)
    (hfit : base.toNat + (roundToPages size).toNat ≤ recursiveWindow)
    (hnew : VMPool.construct stale base size m₀ = .ok (p, m))
    (hrun : IsRun (Step freePage) (Client.start p m pages) run)
    (hkept : ∀ e ∈ run, e.1.IsRelease = false) :
    EveryState Isolated (Client.start p m pages) run ∧
        EveryTransition Undisturbed (Client.start p m pages) run ↔
      EveryStep ListFits (Client.start p m pages) run := by
  have hfilling := Filling.start pages hbase hsize hfit hnew
  have hiff := hfilling.everyState_isolated_iff hrun hkept
  refine ⟨fun h => hiff.mp h.1, fun h => ⟨hiff.mpr h, ?_⟩⟩
  exact everyTransition_of_step (P := Filling base (roundToPages size))
    (fun _ _ _ hs hstep => hs.step hstep.1.2 hstep.2 hstep.1.1) hfilling
    (isRun_and_of_everyStep (calls_of_kept hrun hkept) h)

end

def hugeRequest : List PoolOp := [.allocate 100, .store 0x11004 7, .allocate 0xFFFFFFFF]

theorem isolated_iff_listFits_hugeRequest : ∃ p m run,
    VMPool.construct 0 0x10000 0x4000 (fun _ => 0) = .ok (p, m) ∧ run.length = 3 ∧
      (EveryState Isolated (Client.start p m ()) run ∧
          EveryTransition Undisturbed (Client.start p m ()) run ↔
        EveryStep ListFits (Client.start p m ()) run) := by
  have h : ((VMPool.construct 0 0x10000 0x4000 (fun _ => 0)).toOption.bind fun q =>
      (runOf (Client.exec fun _ _ => some ()) (Client.start q.1 q.2 ()) hugeRequest).map fun run =>
        (run.length, decide (∀ e ∈ run, e.1.IsRelease = false))) = some (3, true) := by
    decide +kernel
  obtain ⟨⟨p, m⟩, hnew, h⟩ := Option.bind_eq_some_iff.mp h
  obtain ⟨run, hrun, h⟩ := Option.map_eq_some_iff.mp h
  simp only [Prod.mk.injEq, decide_eq_true_eq] at h
  obtain ⟨hlen, hkept⟩ := h
  have hnew := eq_ok_of_toOption hnew
  have hrun : IsRun (Step fun _ _ => some ()) (Client.start p m ()) run :=
    isRun_of_runOf (fun _ _ _ => step_of_exec) hrun
  exact ⟨p, m, run, hnew, hlen,
    isolated_iff_listFits (by decide) (by decide) (by decide) hnew hrun hkept⟩

section

variable {σ : Type} {freePage : Nat → σ → Option σ} {s t : Client σ} {p : VMPool} {m : Memory}
  {size base sz : Word}

/-! ## A pool filled up with one-page regions -/

structure Packed (base sz : Word) (s : Client σ) : Prop where
  good : Good base sz s
  packed : ∀ i < s.pool.numAllocated.toNat,
    (s.pool.entry s.mem i).startFrame.toNat = base.toNat + pageSize.toNat * i ∧
      (s.pool.entry s.mem i).size.toNat = pageSize.toNat

private theorem Packed.gap (h : Packed base sz s) {i : Nat}
    (hi : i + 1 < s.pool.numAllocated.toNat) : (s.pool.gap s.mem i).toNat = 0 := by
  have hgap := VMPool.gap_toNat h.good.laid.lined hi
  have h1 := h.packed i (by omega)
  have h2 := h.packed (i + 1) hi
  rw [pageSize_toNat] at h1 h2
  omega

theorem Packed.start {stale size : Word} {m₀ : Memory} (pages : σ)
    (hgood : Good base sz (Client.start p m pages))
    (hnew : VMPool.construct stale base size m₀ = .ok (p, m)) :
    Packed base sz (Client.start p m pages) ∧ p.numAllocated.toNat = 1 := by
  obtain ⟨rfl, rfl⟩ := VMPool.construct_eq hnew
  refine ⟨⟨hgood, fun i hi => ?_⟩, rfl⟩
  obtain rfl : i = 0 := Nat.lt_one_iff.mp hi
  simp [Client.start, VMPool.entry]

private theorem Packed.findGap_eq (h : Packed base sz s) :
    s.pool.findGap s.mem pageSize (s.pool.numAllocated - 1).toNat 0 = none := by
  have hpos := VMPool.numAllocated_pos h.good.laid.lined
  have hlast : (s.pool.numAllocated - 1).toNat = s.pool.numAllocated.toNat - 1 :=
    toNat_sub_one hpos
  refine VMPool.findGap_eq_none fun j _ hj hge => ?_
  have hle : pageSize.toNat ≤ (s.pool.gap s.mem j).toNat := hge
  rw [h.gap (by omega)] at hle
  exact absurd hle (by decide)

private theorem Packed.le_tailGap (h : Packed base sz s)
    (hroom : pageSize.toNat * (s.pool.numAllocated.toNat + 1) ≤ sz.toNat) :
    s.pool.tailGap s.mem ≥ pageSize := by
  have hpos := VMPool.numAllocated_pos h.good.laid.lined
  obtain ⟨rfl, rfl, hg, hlaid, -, -, -⟩ := id h.good
  have hgap := VMPool.tailGap_toNat hlaid.lined
  have hpacked := h.packed (s.pool.numAllocated.toNat - 1) (by omega)
  show pageSize.toNat ≤ (s.pool.tailGap s.mem).toNat
  rw [pageSize_toNat] at *
  omega

/-- The request goes past both searches and appends an entry. -/
private theorem Packed.allocate_eq (h : Packed base sz s)
    (hroom : pageSize.toNat * (s.pool.numAllocated.toNat + 1) ≤ sz.toNat) :
    ∃ a m', s.pool.allocate s.mem 1 =
      .ok (a, { s.pool with numAllocated := s.pool.numAllocated + 1 }, m') := by
  have hfew := h.good.few
  have hpos := VMPool.numAllocated_pos h.good.laid.lined
  have hlast : (s.pool.numAllocated - 1).toNat = s.pool.numAllocated.toNat - 1 :=
    toNat_sub_one hpos
  have hone : roundToPages 1 = pageSize := by decide
  have hfind := h.findGap_eq
  have htail := h.le_tailGap hroom
  obtain ⟨m₁, hins, -, -⟩ := VMPool.insertItem_spec (p := s.pool) (m := s.mem)
    (x := ⟨s.pool.entryEnd s.mem (s.pool.numAllocated.toNat - 1), pageSize⟩)
    (by omega) hpos (Nat.le_refl _)
  refine ⟨s.pool.entryEnd s.mem (s.pool.numAllocated.toNat - 1), m₁, ?_⟩
  rw [hlast] at hfind
  simp only [VMPool.allocate, hone, hfind, htail, hlast, hins, if_true]
  rfl

/-- Between two entries there is no room, so a region stands after the last one. -/
private theorem Packed.last_of_placed {a : Word} {p' : VMPool} {m' : Memory} {i : Nat}
    (h : Packed base sz s) (hp : s.pool.PlacedAfter s.mem 1 i a p' m') :
    i + 1 = s.pool.numAllocated.toNat := by
  have hlisted := hp.listed
  by_contra hne
  have hnext := hp.before_next (by omega)
  have h1 := h.packed i hlisted
  have h2 := h.packed (i + 1) (by omega)
  have hstart := hp.start_eq
  have hround : roundUp 1 = pageSize.toNat := by decide
  rw [RegionInfo.stop] at hstart
  rw [pageSize_toNat] at *
  omega

/-- With a page left at the end of the pool, a request of one byte gets it. -/
theorem Packed.allocate (freePage : Nat → σ → Option σ) (h : Packed base sz s)
    (hroom : pageSize.toNat * (s.pool.numAllocated.toNat + 1) ≤ sz.toNat) :
    ∃ t, Step freePage s (.allocate 1) t ∧
      t.pool.numAllocated.toNat = s.pool.numAllocated.toNat + 1 ∧
      (t.pool.numAllocated.toNat ≤ 512 → Packed base sz t) := by
  obtain ⟨a, m', hrun⟩ := h.allocate_eq hroom
  have hcount := count_grow h.good.few
  refine ⟨_, .allocate (by decide) hrun, hcount, fun hmore => ⟨?_, fun j hj => ?_⟩⟩
  · exact (h.good.allocate (by decide) (by decide) hrun hmore).1
  · have hone : roundToPages 1 = pageSize := by decide
    obtain ⟨i, hp⟩ := VMPool.allocate_spec h.good.geometry h.good.laid h.good.few (by decide)
      (by decide) hrun
    have hi := h.last_of_placed hp
    rw [hcount] at hj
    have hread := congrArg (·[j]?) hp.entries_eq
    dsimp only at hread
    rw [hi, hone, VMPool.getElem?_entries, List.getElem?_insertIdx, VMPool.getElem?_entries,
      VMPool.length_entries, hcount, if_pos hj] at hread
    rcases Nat.lt_or_eq_of_le (Nat.le_of_lt_succ hj) with hlt | rfl
    · rw [if_pos hlt, if_pos hlt] at hread
      dsimp only
      rw [Option.some.inj hread]
      exact h.packed j hlt
    · rw [if_neg (Nat.lt_irrefl _), if_pos rfl, if_pos (Nat.le_refl _)] at hread
      dsimp only
      rw [Option.some.inj hread]
      have hstart := hp.start_eq
      have hpacked := h.packed i (by omega)
      rw [RegionInfo.stop] at hstart
      refine ⟨?_, rfl⟩
      rw [pageSize_toNat] at *
      dsimp only
      omega

/-- Requests of one byte fill the pool up to one entry more than fits the list. -/
theorem Packed.fill (freePage : Nat → σ → Option σ) {n : Nat} (h : Packed base sz s)
    (hn : s.pool.numAllocated.toNat + n ≤ 513) (hroom : pageSize.toNat * 513 ≤ sz.toNat) :
    ∃ run, IsRun (Step freePage) s run ∧ (∀ e ∈ run, e.1 = .allocate 1) ∧
      (last s run).pool.numAllocated.toNat = s.pool.numAllocated.toNat + n := by
  induction n generalizing s with
  | zero => exact ⟨[], trivial, by simp, rfl⟩
  | succ n ih =>
      rw [pageSize_toNat] at hroom
      obtain ⟨t, hstep, hcount, hpacked⟩ := h.allocate freePage (by
        rw [pageSize_toNat]
        omega)
      cases n with
      | zero => exact ⟨[(_, t)], ⟨hstep, trivial⟩, by simp, hcount⟩
      | succ n =>
          obtain ⟨run, hrun, hops, hlast⟩ := ih (hpacked (by omega)) (by omega)
          refine ⟨(_, t) :: run, ⟨hstep, hrun⟩, List.forall_mem_cons.mpr ⟨rfl, hops⟩, ?_⟩
          rw [last, hlast, hcount]
          omega

end

/-- The list of the page at `0x400000` and 512 regions of one byte: the last entry
is written over the first region. -/
theorem fullPool_overlaps : ∃ p m run,
    VMPool.construct 0 0x400000 0x201000 (fun _ => 0) = .ok (p, m) ∧
      IsRun (Step fun _ _ => some ()) (Client.start p m ()) run ∧
      (∀ e ∈ run, e.1 = .allocate 1) ∧
      ¬ (EveryState Isolated (Client.start p m ()) run ∧
        EveryTransition Undisturbed (Client.start p m ()) run) := by
  have hnew : VMPool.construct 0 0x400000 0x201000 (fun _ => 0) =
      .ok (⟨0x400000, 0x201000, 1, 0x400000⟩,
        writeRegion (fun _ => 0) 0x400000 0 ⟨0x400000, pageSize⟩) := rfl
  have hfilling := Filling.start () (by decide) (by decide) (by decide) hnew
  obtain ⟨hpacked, hone⟩ := Packed.start () hfilling.good hnew
  obtain ⟨run, hrun, hops, hlast⟩ := hpacked.fill (fun _ _ => some ()) (n := 512)
    (Nat.add_le_add_right (Nat.le_of_eq hone) 512) (by decide)
  have hkept : ∀ e ∈ run, e.1.IsRelease = false := fun e he => by rw [hops e he]; rfl
  refine ⟨_, _, run, hnew, hrun, hops, fun hsafe => ?_⟩
  have hfits := (hfilling.everyState_isolated_iff hrun hkept).mp hsafe.1
  have hfew := (last_of_everyState (hfilling.everyState hrun hkept hfits)).good.few
  rw [hlast, Client.start, hone] at hfew
  exact absurd hfew (by decide)

end TeachingKernel.VM
