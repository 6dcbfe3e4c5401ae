import Mathlib.Logic.Function.Basic
import TeachingKernel.Lib.Runs
import TeachingKernel.VMPool.Allocate

/-!
# Regions over whole runs

A client of one pool allocates regions, releases them, and stores bytes into the
regions it holds. The list of the pool lies in the same memory. As long as the
list fits its reserved page it stays laid out, and every region handed out is
fresh.
-/

namespace TeachingKernel.VM

open Runs

/-- What a client was given: the address returned and the size it asked for. -/
structure Region where
  start : Word
  size : Word
  deriving DecidableEq, Repr

namespace Region

/-- The whole pages of the region, as addresses modulo `2 ^ 32`. -/
def Covers (r : Region) (x : Word) : Prop := (x - r.start).toNat < roundUp r.size

instance (r : Region) (x : Word) : Decidable (r.Covers x) := inferInstanceAs (Decidable (_ < _))

def span (r : Region) : Span := ⟨r.start.toNat, roundUp r.size⟩

end Region

/-- A pool, the memory it lies in, the page table behind it, and the regions
handed out and not yet given back. -/
structure Client (σ : Type) where
  pool : VMPool
  mem : Memory
  pages : σ
  live : List Region

inductive PoolOp where
  | allocate (size : Word)
  | release (start : Word)
  | store (a : Word) (b : Byte)

def PoolOp.IsRelease : PoolOp → Bool
  | .release _ => true
  | _ => false

/-- The calls that return, and the stores of the client into its own regions. -/
inductive Step {σ : Type} (freePage : Nat → σ → Option σ) : Client σ → PoolOp → Client σ → Prop
  | allocate {s size a p' m'} (hsize : 1 ≤ size.toNat)
      (hrun : s.pool.allocate s.mem size = .ok (a, p', m')) :
      Step freePage s (.allocate size) { s with pool := p', mem := m', live := ⟨a, size⟩ :: s.live }
  | release {s start p' m' pages'}
      (hrun : s.pool.release freePage s.mem s.pages start = some (p', m', pages')) :
      Step freePage s (.release start)
        ⟨p', m', pages', s.live.filter fun r => r.start ≠ start⟩
  | store {s a b} (hown : ∃ r ∈ s.live, r.Covers a) :
      Step freePage s (.store a b) { s with mem := Function.update s.mem a b }

def Client.exec {σ : Type} (freePage : Nat → σ → Option σ) (s : Client σ) :
    PoolOp → Option (Client σ)
  | .allocate size =>
      if 1 ≤ size.toNat then
        match s.pool.allocate s.mem size with
        | .ok (a, p', m') => some { s with pool := p', mem := m', live := ⟨a, size⟩ :: s.live }
        | .error _ => none
      else none
  | .release start =>
      (s.pool.release freePage s.mem s.pages start).map fun (p', m', pages') =>
        ⟨p', m', pages', s.live.filter fun r => r.start ≠ start⟩
  | .store a b =>
      if ∃ r ∈ s.live, r.Covers a then some { s with mem := Function.update s.mem a b } else none

def Client.start {σ : Type} (p : VMPool) (m : Memory) (pages : σ) : Client σ := ⟨p, m, pages, []⟩

section

variable {σ : Type} {freePage : Nat → σ → Option σ} {s t : Client σ} {p p' : VMPool}
  {m m' : Memory} {size a : Word} {op : PoolOp}

/-! ## What the calls do to the pool -/

theorem findRegion_eq (start : Word) (k i : Nat) (regionNum : Word) :
    p.findRegion m start k i regionNum = regionNum := by
  induction k generalizing i with
  | zero => rfl
  | succ k ih =>
      rw [VMPool.findRegion, ih]
      exact ite_self _

/-- `release` never finds its region, so it changes nothing. -/
theorem release_eq (g : σ) (start : Word) : p.release freePage m g start = some (p, m, g) := by
  rw [VMPool.release, findRegion_eq]
  rfl

private theorem insertItem_pool {x : RegionInfo} {index : Word}
    (h : p.insertItem m x index = .ok (p', m')) :
    p' = { p with numAllocated := p.numAllocated + 1 } := by
  rw [VMPool.insertItem] at h
  cases hshift : VMPool.shiftUp p.allocatedList (p.numAllocated.toNat + 1) (p.numAllocated - 1)
      index m with
  | error e =>
      rw [hshift] at h
      cases h
  | ok u =>
      rw [hshift] at h
      cases h
      rfl

/-- Whatever the request, a call that returns lists one more entry. -/
theorem allocate_pool (h : p.allocate m size = .ok (a, p', m')) :
    p' = { p with numAllocated := p.numAllocated + 1 } := by
  have hplace : ∀ (x : RegionInfo) (index b : Word),
      (p.insertItem m x index >>= fun q => Except.ok (b, q.1, q.2)) = .ok (a, p', m') →
        p' = { p with numAllocated := p.numAllocated + 1 } := by
    intro x index b hbind
    cases hins : p.insertItem m x index with
    | error e =>
        rw [hins] at hbind
        cases hbind
    | ok q =>
        rw [hins] at hbind
        cases hbind
        exact insertItem_pool hins
  rw [VMPool.allocate] at h
  split at h
  · exact hplace _ _ _ h
  · split at h
    · exact hplace _ _ _ h
    · cases h

theorem step_of_exec (h : s.exec freePage op = some t) : Step freePage s op t := by
  cases op with
  | allocate size =>
      simp only [Client.exec] at h
      split at h
      · split at h
        · cases h
          exact .allocate (by assumption) (by assumption)
        · cases h
      · cases h
  | release start =>
      obtain ⟨⟨p', m', pages'⟩, hrun, rfl⟩ := Option.map_eq_some_iff.mp h
      exact .release hrun
  | store a b =>
      simp only [Client.exec] at h
      split at h
      · cases h
        exact .store (by assumption)
      · cases h

/-! ## The invariant -/

/-- The list is laid out in its page, and every live region has an entry after
the reserved one. -/
structure Good (base size : Word) (s : Client σ) : Prop where
  base_eq : s.pool.baseAddress = base
  size_eq : s.pool.size = size
  geometry : Geometry s.pool
  laid : Laid s.pool.baseAddress s.pool.size (s.pool.entries s.mem)
  few : s.pool.numAllocated.toNat ≤ 512
  bounded : ∀ r ∈ s.live, 1 ≤ r.size.toNat ∧ r.size.toNat ≤ 2 ^ 32 - pageSize.toNat
  listed : ∀ r ∈ s.live, ⟨r.start, roundToPages r.size⟩ ∈ (s.pool.entries s.mem).tail

theorem Good.inList_lt {base sz : Word} (h : Good base sz s) {n : Nat} (hn : n ≤ 512) {x : Word}
    (hx : InList s.pool.allocatedList n x) :
    base.toNat ≤ x.toNat ∧ x.toNat < base.toNat + pageSize.toNat := by
  have hwin := h.geometry.below_window
  have hge := h.geometry.size_ge
  rw [h.geometry.list_eq, h.base_eq, InList, BitVec.toNat_sub] at hx
  rw [h.base_eq] at hwin
  simp only [recursiveWindow, pageSize_toNat] at hwin hge ⊢
  omega

/-- The live regions lie behind the first page, inside the pool. -/
theorem Good.live_bounds {base sz : Word} (h : Good base sz s) {r : Region} (hr : r ∈ s.live) :
    base.toNat + pageSize.toNat ≤ r.start.toNat ∧
      r.start.toNat + roundUp r.size ≤ base.toNat + sz.toNat := by
  have hmem := h.listed r hr
  have hsize := roundToPages_toNat_of_le (h.bounded r hr).1 (h.bounded r hr).2
  have hhead := h.laid.head
  have hsorted := h.laid.sorted
  have hin := h.laid.inside _ (List.mem_of_mem_tail hmem)
  rw [RegionInfo.stop, hsize, h.base_eq, h.size_eq] at hin
  cases hl : s.pool.entries s.mem with
  | nil =>
      rw [hl] at hmem
      cases hmem
  | cons e rest =>
      rw [hl] at hmem hhead hsorted
      cases hhead
      have hle := List.rel_of_pairwise_cons hsorted hmem
      rw [RegionInfo.stop, h.base_eq] at hle
      exact ⟨hle, hin.2⟩

theorem Good.covers_iff {base sz : Word} (h : Good base sz s) {r : Region} (hr : r ∈ s.live)
    {x : Word} : r.Covers x ↔ x.toNat ∈ r.span := by
  have hbounds := h.live_bounds hr
  have hwin := h.geometry.below_window
  rw [h.base_eq, h.size_eq] at hwin
  rw [Region.Covers, Region.span, Span.mem_mk, BitVec.toNat_sub]
  unfold recursiveWindow at hwin
  omega

theorem Good.start {stale base size : Word} {m₀ : Memory} (pages : σ)
    (hbase : pageSize.toNat ∣ base.toNat) (hsize : pageSize.toNat ≤ (roundToPages size).toNat)
    (hfit : base.toNat + (roundToPages size).toNat ≤ recursiveWindow)
    (hnew : VMPool.construct stale base size m₀ = .ok (p, m)) :
    Good base (roundToPages size) (Client.start p m pages) := by
  obtain ⟨rfl, rfl⟩ := VMPool.construct_eq hnew
  have hentries : VMPool.entries ⟨base, roundToPages size, 1, base⟩
      (writeRegion m₀ base 0 ⟨base, pageSize⟩) = [⟨base, pageSize⟩] := by
    simp [VMPool.entries, VMPool.entry]
  refine ⟨rfl, rfl, ⟨rfl, hbase, VMPool.roundToPages_aligned size, hsize, hfit⟩, ?_, ?_,
    by simp [Client.start], by simp [Client.start]⟩
  · rw [Client.start, hentries]
    refine ⟨rfl, List.pairwise_singleton _ _, ?_, ?_, ?_⟩
    · simpa using hbase
    · simp
    · simpa [RegionInfo.stop] using hsize
  · simp [Client.start]

/-- The region of the call is fresh: at least as long as asked for and apart from
every live region. -/
def FreshRegion (s : Client σ) (op : PoolOp) (t : Client σ) : Prop :=
  ∀ size, op = .allocate size → ∃ a n, t.live = ⟨a, size⟩ :: s.live ∧
    ⟨a, n⟩ ∈ t.pool.entries t.mem ∧ size.toNat ≤ n.toNat ∧
    ∀ r ∈ s.live, Span.Apart ⟨a.toNat, n.toNat⟩ r.span

private theorem tail_insertIdx {α : Type} {l : List α} (hne : l ≠ []) (i : Nat) (x : α) :
    (l.insertIdx (i + 1) x).tail = l.tail.insertIdx i x := by
  cases l with
  | nil => exact absurd rfl hne
  | cons e rest => rfl

theorem Good.allocate {base sz : Word} (h : Good base sz s) (h1 : 1 ≤ size.toNat)
    (h2 : size.toNat ≤ 2 ^ 32 - pageSize.toNat)
    (hrun : s.pool.allocate s.mem size = .ok (a, p', m')) (hfew : p'.numAllocated.toNat ≤ 512) :
    Good base sz { s with pool := p', mem := m', live := ⟨a, size⟩ :: s.live } ∧
      FreshRegion s (.allocate size)
        { s with pool := p', mem := m', live := ⟨a, size⟩ :: s.live } := by
  obtain ⟨rfl, rfl, hg, hlaid, hold, hbounded, hlisted⟩ := h
  obtain ⟨i, hp⟩ := VMPool.allocate_spec hg hlaid hold h1 h2 hrun
  have hround := roundToPages_toNat_of_le h1 h2
  have hlen : i < (s.pool.entries s.mem).length := by simpa using hp.listed
  have hne : s.pool.entries s.mem ≠ [] := List.ne_nil_of_length_pos (by omega)
  have htail : ∀ r, r ∈ (p'.entries m').tail ↔
      r = ⟨a, roundToPages size⟩ ∨ r ∈ (s.pool.entries s.mem).tail := by
    intro r
    rw [hp.entries_eq, tail_insertIdx hne]
    exact List.mem_insertIdx (by rw [List.length_tail]; omega)
  have hpool := hp.pool_eq
  constructor
  · refine ⟨by rw [hpool], by rw [hpool], hpool ▸ hg.grow _, ?_, hfew,
      List.forall_mem_cons.mpr ⟨⟨h1, h2⟩, hbounded⟩, List.forall_mem_cons.mpr ⟨?_, ?_⟩⟩
    · have hnew := hp.laid hlaid h1 h2
      rwa [hpool] at hnew ⊢
    · exact (htail _).mpr (.inl rfl)
    · exact fun r hr => (htail _).mpr (.inr (hlisted r hr))
  · rintro _ ⟨⟩
    refine ⟨a, roundToPages size, rfl, List.mem_of_mem_tail ((htail _).mpr (.inl rfl)),
      hround ▸ le_roundUp size, fun r hr => ?_⟩
    have hspan : r.span = RegionInfo.span ⟨r.start, roundToPages r.size⟩ := by
      have hr32 := roundToPages_toNat_of_le (hbounded r hr).1 (hbounded r hr).2
      rw [RegionInfo.span, hr32, Region.span]
    rw [hround, hspan]
    exact hp.apart hlaid h1 (List.mem_of_mem_tail (hlisted r hr))

theorem Good.release {base sz start : Word} {g : σ} (h : Good base sz s)
    (hrun : s.pool.release freePage s.mem s.pages start = some (p', m', g)) :
    Good base sz ⟨p', m', g, s.live.filter fun r => r.start ≠ start⟩ := by
  rw [release_eq] at hrun
  cases hrun
  have hkept : ∀ r ∈ s.live.filter (fun r => r.start ≠ start), r ∈ s.live := fun r hr =>
    (List.mem_filter.mp hr).1
  exact { h with
    bounded := fun r hr => h.bounded r (hkept r hr)
    listed := fun r hr => h.listed r (hkept r hr) }

theorem Good.entries_store {base sz : Word} (h : Good base sz s) {b : Byte}
    (hown : ∃ r ∈ s.live, r.Covers a) :
    s.pool.entries (Function.update s.mem a b) = s.pool.entries s.mem := by
  obtain ⟨r, hr, hcovers⟩ := hown
  have hfew := h.few
  apply VMPool.entries_congr (by omega)
  intro x hx
  apply Function.update_of_ne
  rintro rfl
  have hlist := h.inList_lt h.few hx
  have hbounds := h.live_bounds hr
  have hspan := (h.covers_iff hr).mp hcovers
  rw [Region.span, Span.mem_mk] at hspan
  omega

theorem Good.store {base sz : Word} (h : Good base sz s) {b : Byte}
    (hown : ∃ r ∈ s.live, r.Covers a) :
    Good base sz { s with mem := Function.update s.mem a b } := by
  have hentries := h.entries_store (b := b) hown
  exact { h with
    laid := by rw [hentries]; exact h.laid
    listed := by rw [hentries]; exact h.listed }

def PoolOp.SizeOk : PoolOp → Prop
  | .allocate size => size.toNat ≤ 2 ^ 32 - pageSize.toNat
  | _ => True

instance (op : PoolOp) : Decidable op.SizeOk :=
  match op with
  | .allocate _ => inferInstanceAs (Decidable (_ ≤ _))
  | .release _ => inferInstanceAs (Decidable True)
  | .store _ _ => inferInstanceAs (Decidable True)

theorem Good.step {base sz : Word} (h : Good base sz s) (hstep : Step freePage s op t)
    (hop : op.SizeOk) (hfew : t.pool.numAllocated.toNat ≤ 512) :
    Good base sz t ∧ FreshRegion s op t := by
  cases hstep with
  | allocate hsize hrun => exact h.allocate hsize hop hrun hfew
  | release hrun => exact ⟨h.release hrun, fun _ heq => by cases heq⟩
  | store hown => exact ⟨h.store hown, fun _ heq => by cases heq⟩

/-- The region list as an invariant of the pool, in the words of its purpose, with
every unsigned subtraction of `allocate` equal to the true difference. -/
structure RegionInvariant (base size : Word) (p : VMPool) (m : Memory) : Prop where
  reserved : (p.entries m).head? = some ⟨base, pageSize⟩
  sorted : (p.entries m).Pairwise fun r r' => r.startFrame.toNat < r'.startFrame.toNat
  disjoint : (p.entries m).Pairwise fun r r' => r.span.Apart r'.span
  aligned : ∀ r ∈ p.entries m,
    pageSize.toNat ∣ r.startFrame.toNat ∧ pageSize.toNat ∣ r.size.toNat
  nonempty : ∀ r ∈ p.entries m, 0 < r.size.toNat
  inside : ∀ r ∈ p.entries m, base.toNat ≤ r.startFrame.toNat ∧
    r.startFrame.toNat + r.size.toNat ≤ base.toNat + size.toNat
  gap_exact : ∀ i, i + 1 < p.numAllocated.toNat → ((p.gap m i).toNat : Int) =
    (p.entry m (i + 1)).startFrame.toNat - (p.entry m i).startFrame.toNat -
      (p.entry m i).size.toNat
  tail_exact : ((p.tailGap m).toNat : Int) = base.toNat + size.toNat -
    (p.entry m (p.numAllocated.toNat - 1)).startFrame.toNat -
      (p.entry m (p.numAllocated.toNat - 1)).size.toNat

theorem Good.regionInvariant {base sz : Word} (h : Good base sz s) :
    RegionInvariant base sz s.pool s.mem := by
  obtain ⟨rfl, rfl, hg, hlaid, -, -, -⟩ := h
  refine ⟨hlaid.head, ?_, ?_, hlaid.aligned, hlaid.nonempty, hlaid.inside,
    fun i hi => VMPool.gap_toNat hlaid.lined hi, VMPool.tailGap_toNat hlaid.lined⟩
  · refine hlaid.sorted.imp_of_mem fun {r r'} hr _ hle => ?_
    have hpos := hlaid.nonempty r hr
    rw [RegionInfo.stop] at hle
    omega
  · refine hlaid.sorted.imp_of_mem fun {r r'} hr hr' hle => ?_
    exact (Span.apart_iff (hlaid.nonempty r hr) (hlaid.nonempty r' hr')).mpr (.inl hle)

/-- Along every run of calls and stores that lists at most 512 regions, the list
stays sorted and disjoint and each region returned is fresh. -/
theorem regions_laid_out {stale base size : Word} {m₀ : Memory} {pages : σ}
    {run : List (PoolOp × Client σ)} (hbase : pageSize.toNat ∣ base.toNat)
    (hsize : pageSize.toNat ≤ (roundToPages size).toNat)
    (hfit : base.toNat + (roundToPages size).toNat ≤ recursiveWindow)
    (hnew : VMPool.construct stale base size m₀ = .ok (p, m))
    (hrun : IsRun (Step freePage) (Client.start p m pages) run)
    (hops : ∀ e ∈ run, e.1.SizeOk)
    (hfew : ∀ e ∈ run, e.2.pool.numAllocated.toNat ≤ 512) :
    EveryState (fun s => RegionInvariant base (roundToPages size) s.pool s.mem)
        (Client.start p m pages) run ∧
      EveryTransition FreshRegion (Client.start p m pages) run := by
  have hgood := Good.start pages hbase hsize hfit hnew
  have hguarded := isRun_and_of_forall
    (R := fun op t => op.SizeOk ∧ t.pool.numAllocated.toNat ≤ 512) hrun
    fun e he => ⟨hops e he, hfew e he⟩
  have hstep : ∀ s op t, Good base (roundToPages size) s →
      (Step freePage s op t ∧ op.SizeOk ∧ t.pool.numAllocated.toNat ≤ 512) →
      Good base (roundToPages size) t ∧ FreshRegion s op t :=
    fun s op t hs h => hs.step h.1 h.2.1 h.2.2
  constructor
  · exact (everyState_of_step (fun s op t hs h => (hstep s op t hs h).1) hgood hguarded).imp
      fun s hs => hs.regionInvariant
  · exact everyTransition_of_step hstep hgood hguarded

end

theorem eq_ok_of_toOption {ε α : Type} {x : Except ε α} {a : α} (h : x.toOption = some a) :
    x = .ok a := by
  cases x with
  | error e => cases h
  | ok b =>
      cases h
      rfl

def twoRegions : List PoolOp :=
  [.allocate 100, .allocate 5000, .store 0x11004 7, .release 0x11000]

theorem regions_laid_out_twoRegions : ∃ p m run,
    VMPool.construct 0 0x10000 0x4000 (fun _ => 0) = .ok (p, m) ∧ run.length = 4 ∧
      EveryState (fun s => RegionInvariant 0x10000 (roundToPages 0x4000) s.pool s.mem)
        (Client.start p m ()) run ∧
      EveryTransition FreshRegion (Client.start p m ()) run := by
  have h : ((VMPool.construct 0 0x10000 0x4000 (fun _ => 0)).toOption.bind fun q =>
      (runOf (Client.exec fun _ _ => some ()) (Client.start q.1 q.2 ()) twoRegions).map fun run =>
        (run.length, decide (∀ e ∈ run, e.1.SizeOk),
          decide (∀ e ∈ run, e.2.pool.numAllocated.toNat ≤ 512))) = some (4, true, true) := by
    decide +kernel
  obtain ⟨⟨p, m⟩, hnew, h⟩ := Option.bind_eq_some_iff.mp h
  obtain ⟨run, hrun, h⟩ := Option.map_eq_some_iff.mp h
  have hnew := eq_ok_of_toOption hnew
  simp only [Prod.mk.injEq, decide_eq_true_eq] at h
  obtain ⟨hlen, hops, hfew⟩ := h
  have hrun : IsRun (Step fun _ _ => some ()) (Client.start p m ()) run :=
    isRun_of_runOf (fun _ _ _ => step_of_exec) hrun
  exact ⟨p, m, run, hnew, hlen,
    regions_laid_out (by decide) (by decide) (by decide) hnew hrun hops hfew⟩

end TeachingKernel.VM
