import TeachingKernel.Lib.Mmu
import TeachingKernel.Lib.Runs
import TeachingKernel.VMPool.Allocate

/-!
# Regions and pages

Every region inherits its alignment from the base of the pool. The assertion that is to
check the base looks at the member before it is assigned, and at the low ten bits only; and
a region that ends with the last page has the end address 0, so that the page loop of
`release` has nothing to count.
-/

namespace TeachingKernel.VM

open FirstFit Mmu Runs

namespace RegionInfo

/-- Byte `x` belongs to the region, also where it continues at address 0. -/
def Holds (r : RegionInfo) (x : Word) : Prop := (x - r.startFrame).toNat < r.size.toNat

def OnPage (r : RegionInfo) (k : Nat) : Prop := ∃ x, r.Holds x ∧ pageOf x = k

/-- The page loop of `release` for the region reaches page `k`. -/
def FreesPage (r : RegionInfo) (k : Nat) : Prop :=
  (r.startFrame / pageSize).toNat ≤ k ∧ k < ((r.startFrame + r.size) / pageSize).toNat

end RegionInfo

/-- The listed regions begin and end on page boundaries, no page belongs to two of them, and
the page loop of `release` reaches the pages of its region and no others. -/
structure PageWise (s : VMPool × Memory) : Prop where
  aligned : ∀ r ∈ s.1.entries s.2,
    pageSize.toNat ∣ r.startFrame.toNat ∧ pageSize.toNat ∣ (r.startFrame + r.size).toNat
  apart : (s.1.entries s.2).Pairwise fun r r' => ∀ k, r.OnPage k → ¬ r'.OnPage k
  freed : ∀ r ∈ (s.1.entries s.2).tail, ∀ k, r.FreesPage k ↔ r.OnPage k

/-- A call of `allocate` that returns, while the array of the list ends within the address
space. -/
inductive AllocateStep : VMPool × Memory → Word → VMPool × Memory → Prop
  | call {p m size a p' m'} (hfew : 8 * (p.numAllocated.toNat + 1) ≤ 2 ^ 32)
      (hrun : p.allocate m size = .ok (a, p', m')) : AllocateStep (p, m) size (p', m')

/-- The assertion of the constructor passes exactly for page-aligned bases, and a pool that
was constructed keeps its regions page-wise in every sequence of calls of `allocate`. -/
def AlignmentChecked (stale base size : Word) : Prop :=
  (∀ m₀, (∃ s, VMPool.construct stale base size m₀ = .ok s) ↔ pageSize.toNat ∣ base.toNat) ∧
  ∀ m₀ s run, VMPool.construct stale base size m₀ = .ok s → IsRun AllocateStep s run →
    EveryState PageWise s run

/-! ## Spans as regions -/

/-- Both ends of the span are page boundaries, and it is shorter than the address space. -/
structure PageAligned (r : Span) : Prop where
  first : pageSize.toNat ∣ r.first
  size : pageSize.toNat ∣ r.size
  short : r.size < 2 ^ 32

namespace PageAligned

variable {r q : Span} {k lo hi : Nat} {x : Word}

theorem holds_iff (hr : PageAligned r) : r.toRegion.Holds x ↔ ∃ y ∈ r, BitVec.ofNat 32 y = x := by
  have hsize : (BitVec.ofNat 32 r.size).toNat = r.size := toNat_ofNat_of_lt hr.short
  change (x - BitVec.ofNat 32 r.first).toNat < (BitVec.ofNat 32 r.size).toNat ↔ _
  rw [hsize]
  constructor
  · intro hx
    refine ⟨r.first + (x - BitVec.ofNat 32 r.first).toNat, ⟨Nat.le_add_right _ _, by omega⟩, ?_⟩
    rw [BitVec.ofNat_add, BitVec.ofNat_toNat, BitVec.setWidth_eq, BitVec.add_comm,
      BitVec.sub_add_cancel]
  · rintro ⟨y, ⟨hlo, hhi⟩, rfl⟩
    have hshort := hr.short
    have hdist := toNat_ofNat_sub_sub (a := r.first) (b := 0) (c := y) (by omega) (by omega)
    rw [BitVec.sub_zero] at hdist
    omega

/-- The region has a byte of page `k` where the span has one, counted modulo `2 ^ 20`. -/
theorem onPage_iff (hr : PageAligned r) :
    r.toRegion.OnPage k ↔ ∃ y ∈ r, y / 4096 % 2 ^ 20 = k := by
  have hpage : ∀ y : Nat, pageOf (BitVec.ofNat 32 y) = y / 4096 % 2 ^ 20 := by
    intro y
    rw [pageOf, BitVec.toNat_ofNat]
    omega
  constructor
  · rintro ⟨x, hx, rfl⟩
    obtain ⟨y, hy, rfl⟩ := hr.holds_iff.mp hx
    exact ⟨y, hy, (hpage y).symm⟩
  · rintro ⟨y, hy, rfl⟩
    exact ⟨_, hr.holds_iff.mpr ⟨y, hy, rfl⟩, hpage y⟩

theorem boundaries (hr : PageAligned r) :
    pageSize.toNat ∣ r.toRegion.startFrame.toNat ∧
      pageSize.toNat ∣ (r.toRegion.startFrame + r.toRegion.size).toNat := by
  obtain ⟨hfirst, hsize, -⟩ := hr
  rw [Span.toRegion, ← BitVec.ofNat_add, BitVec.toNat_ofNat, BitVec.toNat_ofNat, pageSize_toNat]
  rw [pageSize_toNat] at hfirst hsize
  omega

/-- Two spans within one turn of the address space share no page. -/
theorem apart (hr : PageAligned r) (hq : PageAligned q) (hlo : pageSize.toNat ∣ lo)
    (hturn : hi ≤ lo + 2 ^ 32) (hlower : lo ≤ r.first) (horder : r.stop ≤ q.first)
    (hupper : q.stop ≤ hi) : r.toRegion.OnPage k → ¬ q.toRegion.OnPage k := by
  rw [hr.onPage_iff, hq.onPage_iff]
  rintro ⟨y, ⟨hy, hyr⟩, rfl⟩ ⟨z, ⟨hz, hzq⟩, heq⟩
  have hfirst := hq.first
  rw [pageSize_toNat] at hlo hfirst
  rw [Span.stop] at horder hupper
  omega

/-- The page loop fits the region exactly where the span ends before an address wraps. -/
theorem freed (hr : PageAligned r) (hend : r.first % 2 ^ 32 + r.size < 2 ^ 32) :
    r.toRegion.FreesPage k ↔ r.toRegion.OnPage k := by
  obtain ⟨hfirst, hsize, -⟩ := id hr
  have hstart : (r.toRegion.startFrame / pageSize).toNat = r.first % 2 ^ 32 / 4096 := by
    rw [BitVec.toNat_udiv, Span.toRegion, BitVec.toNat_ofNat]
    rfl
  have hstop : ((r.toRegion.startFrame + r.toRegion.size) / pageSize).toNat =
      (r.first % 2 ^ 32 + r.size) / 4096 := by
    rw [BitVec.toNat_udiv, Span.toRegion, ← BitVec.ofNat_add, BitVec.toNat_ofNat, pageSize_toNat]
    omega
  rw [RegionInfo.FreesPage, hr.onPage_iff, hstart, hstop]
  rw [pageSize_toNat] at hfirst hsize
  constructor
  · rintro ⟨hlo, hhi⟩
    exact ⟨r.first + (4096 * k - r.first % 2 ^ 32), ⟨by omega, by omega⟩, by omega⟩
  · rintro ⟨y, ⟨hlo, hhi⟩, rfl⟩
    omega

/-- A span that ends with the last page is not reached by its page loop, which ends at 0. -/
theorem not_freed (hr : PageAligned r) (hpos : 0 < r.size) (hend : r.stop = 2 ^ 32) :
    ¬ ∀ k, r.toRegion.FreesPage k ↔ r.toRegion.OnPage k := by
  intro hfreed
  have hon : r.toRegion.OnPage (r.first / 4096 % 2 ^ 20) :=
    hr.onPage_iff.mpr ⟨r.first, Span.first_mem hpos, rfl⟩
  have hzero : r.toRegion.startFrame + r.toRegion.size = 0 := by
    change BitVec.ofNat 32 r.first + BitVec.ofNat 32 r.size = 0
    rw [← BitVec.ofNat_add, show r.first + r.size = 2 ^ 32 from hend]
    rfl
  have hloop := (hfreed _).mpr hon
  rw [RegionInfo.FreesPage, hzero] at hloop
  exact absurd hloop.2 (Nat.not_lt_zero _)

end PageAligned

/-! ## Runs -/

/-- The listed spans lie on page boundaries, the page of the list first, and none of the
others wraps around the address space. -/
structure Settled (hi : Nat) (s : VMPool × Memory) : Prop where
  base : pageSize.toNat ∣ s.1.baseAddress.toNat
  turn : hi ≤ s.1.baseAddress.toNat + 2 ^ 32
  noWrap : hi < 2 ^ 32 ∨ s.1.baseAddress.toNat = 2 ^ 32 - pageSize.toNat
  chart : ∃ l, s.1.Charted s.2 hi (⟨s.1.baseAddress.toNat, pageSize.toNat⟩ :: l) ∧
    ∀ r ∈ l, PageAligned r

theorem pageAligned_list {base : Word} (hbase : pageSize.toNat ∣ base.toNat) :
    PageAligned ⟨base.toNat, pageSize.toNat⟩ :=
  ⟨hbase, Nat.dvd_refl _, show pageSize.toNat < 2 ^ 32 by decide⟩

namespace Settled

variable {s t : VMPool × Memory} {hi : Nat} {size : Word}

theorem pageWise (h : Settled hi s) : PageWise s := by
  obtain ⟨l, hcharted, hpages⟩ := h.chart
  have haligned := List.forall_mem_cons.mpr ⟨pageAligned_list h.base, hpages⟩
  refine ⟨?_, ?_, ?_⟩
  · rw [hcharted.entries_eq, List.forall_mem_map]
    exact fun r hr => (haligned r hr).boundaries
  · rw [hcharted.entries_eq, List.pairwise_map]
    refine hcharted.arranged.sorted.imp_of_mem fun {a b} ha hb hab k => ?_
    exact (haligned a ha).apart (haligned b hb) h.base h.turn (hcharted.arranged.inside a ha).1 hab
      (hcharted.arranged.inside b hb).2
  · rw [hcharted.entries_eq, List.map_cons, List.tail_cons, List.forall_mem_map]
    refine fun r hr k => (hpages r hr).freed ?_
    have hbehind : s.1.baseAddress.toNat + pageSize.toNat ≤ r.first :=
      List.rel_of_pairwise_cons hcharted.arranged.sorted hr
    have hupper := (hcharted.arranged.inside r (List.mem_cons_of_mem _ hr)).2
    have hturn := h.turn
    rw [Span.stop] at hupper
    rcases h.noWrap with hbelow | hlast
    · omega
    · rw [pageSize_toNat] at hbehind hlast
      omega

theorem step (h : Settled hi s) (hstep : AllocateStep s size t) : Settled hi t := by
  cases hstep with
  | @call p m size a p' m' hfew hrun =>
      obtain ⟨l, hcharted, hpages⟩ := h.chart
      have haligned := List.forall_mem_cons.mpr ⟨pageAligned_list h.base, hpages⟩
      obtain ⟨i, r, hfirst, -, rfl, hcharted', -, -⟩ := hcharted.allocate_inv hfew hrun
      refine ⟨h.base, h.turn, h.noWrap, l.insertIdx i _, hcharted', fun q hq => ?_⟩
      have hlen := (List.getElem?_eq_some_iff.mp hfirst.listed).1
      rcases (List.mem_insertIdx (Nat.le_of_lt_succ hlen)).mp hq with rfl | hq
      · have hr := haligned r (List.mem_of_getElem? hfirst.listed)
        exact ⟨Nat.dvd_add hr.first hr.size, VMPool.roundToPages_aligned size, BitVec.isLt _⟩
      · exact hpages q hq

end Settled

section

variable {stale base size : Word} {m₀ m : Memory} {p : VMPool} {s : VMPool × Memory}

theorem construct_ok_iff :
    (∃ s, VMPool.construct stale base size m₀ = .ok s) ↔ stale &&& 0x3FF#32 = 0 := by
  rw [VMPool.construct]
  by_cases hstale : stale &&& 0x3FF#32 = 0
  · rw [if_pos hstale]
    exact ⟨fun _ => hstale, fun _ => ⟨_, rfl⟩⟩
  · rw [if_neg hstale]
    refine ⟨?_, fun h => absurd h hstale⟩
    rintro ⟨s, h⟩
    cases h

/-- The pool ends before the last address, or only the page of its list does not. -/
def EndsInside (base size : Word) : Prop :=
  base.toNat + VMPool.capacity (roundToPages size) < 2 ^ 32 ∨
    base.toNat = 2 ^ 32 - pageSize.toNat

theorem Settled.start (hbase : pageSize.toNat ∣ base.toNat) (hend : EndsInside base size)
    (hnew : VMPool.construct stale base size m₀ = .ok (p, m)) :
    Settled (base.toNat + VMPool.capacity (roundToPages size)) (p, m) := by
  obtain ⟨rfl, -, hcharted⟩ := VMPool.charted_of_construct hnew
  have hbounds := VMPool.capacity_bounds (VMPool.roundToPages_aligned size)
  exact ⟨hbase, Nat.add_le_add_left hbounds.2 _, hend, [], hcharted,
    fun _ hr => absurd hr List.not_mem_nil⟩

/-- A whole number of pages is not rounded. -/
theorem roundToPages_of_dvd {n : Nat} (hpages : pageSize.toNat ∣ n) (hpos : 0 < n)
    (hle : n ≤ 2 ^ 32 - pageSize.toNat) : (roundToPages (BitVec.ofNat 32 n)).toNat = n := by
  rw [pageSize_toNat] at hpages hle
  have hword : (BitVec.ofNat 32 n).toNat = n := toNat_ofNat_of_lt (by omega)
  rw [roundToPages_toNat_of_le (by omega) (by rw [pageSize_toNat]; omega), roundUp, hword,
    pageSize_toNat]
  omega

/-- Otherwise a single call gets the region that ends with the last page. -/
theorem exists_call_to_end (hbase : pageSize.toNat ∣ base.toNat) (hend : ¬ EndsInside base size)
    (hnew : VMPool.construct stale base size m₀ = .ok (p, m)) :
    ∃ n t, AllocateStep (p, m) n t ∧ ¬ PageWise t := by
  obtain ⟨rfl, hone, hcharted⟩ := VMPool.charted_of_construct hnew
  obtain ⟨hpast, hlast⟩ := not_or.mp hend
  have hlt := p.baseAddress.isLt
  rw [pageSize_toNat] at hbase hlast
  -- what is left behind the page of the list
  let r : Span :=
    ⟨p.baseAddress.toNat + pageSize.toNat, 2 ^ 32 - pageSize.toNat - p.baseAddress.toNat⟩
  have hsize : r.size = 2 ^ 32 - 4096 - p.baseAddress.toNat := rfl
  have hfirst : r.first = p.baseAddress.toNat + 4096 := rfl
  have hr : PageAligned r :=
    ⟨by rw [pageSize_toNat, hfirst]; omega, by rw [pageSize_toNat, hsize]; omega, by omega⟩
  have hround := roundToPages_of_dvd hr.size (by omega) (by rw [pageSize_toNat, hsize]; omega)
  have hplace : IsFirst (p.baseAddress.toNat + VMPool.capacity (roundToPages size))
      [⟨p.baseAddress.toNat, pageSize.toNat⟩] (roundToPages (BitVec.ofNat 32 r.size)).toNat 0
      ⟨p.baseAddress.toNat, pageSize.toNat⟩ := by
    refine ⟨rfl, ?_, fun j _ hj => absurd hj (Nat.not_lt_zero j)⟩
    rw [hround]
    change p.baseAddress.toNat + 4096 + r.size ≤ p.baseAddress.toNat + _
    omega
  obtain ⟨m', hcall, hcharted', -⟩ :=
    hcharted.allocateFound_first (by rw [hone]; decide) hplace
  have hrun := VMPool.allocate_eq p m (BitVec.ofNat 32 r.size)
  rw [hcall] at hrun
  have hlisted : r.toRegion ∈
      (VMPool.entries { p with numAllocated := p.numAllocated + 1 } m').tail := by
    rw [hcharted'.entries_eq, hround]
    exact List.mem_singleton_self _
  refine ⟨_, _, .call (by rw [hone]; decide) hrun, fun hpages => ?_⟩
  exact hr.not_freed (by omega) (by rw [Span.stop]; omega) (hpages.freed _ hlisted)

end

/-- The assertion secures the pages of a pool exactly where the low ten bits of the member
that it looks at are clear for page-aligned bases only, and a pool with such a base ends
inside the address space. -/
theorem alignmentChecked_iff (stale base size : Word) :
    AlignmentChecked stale base size ↔
      (stale &&& 0x3FF#32 = 0 ↔ pageSize.toNat ∣ base.toNat) ∧
        (pageSize.toNat ∣ base.toNat → EndsInside base size) := by
  constructor
  · rintro ⟨hassert, hruns⟩
    have hiff : stale &&& 0x3FF#32 = 0 ↔ pageSize.toNat ∣ base.toNat :=
      construct_ok_iff.symm.trans (hassert fun _ => 0)
    refine ⟨hiff, fun hbase => ?_⟩
    by_contra hend
    obtain ⟨⟨p, m⟩, hnew⟩ := (hassert fun _ => 0).mpr hbase
    obtain ⟨n, t, hcall, hbad⟩ := exists_call_to_end hbase hend hnew
    exact hbad (last_of_everyState (hruns _ _ [(n, t)] hnew ⟨hcall, trivial⟩))
  · rintro ⟨hiff, hend⟩
    refine ⟨fun m₀ => construct_ok_iff.trans hiff, ?_⟩
    rintro m₀ ⟨p, m⟩ run hnew hrun
    have hbase := hiff.mp (construct_ok_iff.mp ⟨_, hnew⟩)
    have hsettled := everyState_of_step
      (P := Settled (base.toNat + VMPool.capacity (roundToPages size)))
      (fun _ _ _ hs hstep => hs.step hstep) (Settled.start hbase (hend hbase) hnew) hrun
    exact hsettled.imp fun _ hs => hs.pageWise

/-- Where the memory of the object holds 0, a pool may begin in the middle of a page. -/
theorem unaligned_base_passes : ¬ AlignmentChecked 0 0x400 0x1000 := by
  intro h
  have haligned := (h.1 fun _ => 0).mp ⟨_, rfl⟩
  exact absurd haligned (by decide)

end TeachingKernel.VM
