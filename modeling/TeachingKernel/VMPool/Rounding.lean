import TeachingKernel.VMPool.Regions

/-!
# Requests of any size

The size is rounded to pages modulo `2 ^ 32`. A request for nothing, or for more than the
last whole page below `2 ^ 32`, comes out as 0 pages: it finds room anywhere, and the
region behind it starts at the same address.
-/

namespace TeachingKernel.VM

open FirstFit Runs

/-- A call that returns, whatever the size it asks for, or a store beside the entries of
the list. -/
inductive CallStep {σ : Type} (freePage : Nat → σ → Option σ) :
    Client σ → PoolOp → Client σ → Prop
  | allocate {s size a p' m'} (hrun : s.pool.allocate s.mem size = .ok (a, p', m')) :
      CallStep freePage s (.allocate size)
        { s with pool := p', mem := m', live := ⟨a, size⟩ :: s.live }
  | release {s start p' m' pages'}
      (hrun : s.pool.release freePage s.mem s.pages start = some (p', m', pages')) :
      CallStep freePage s (.release start)
        ⟨p', m', pages', s.live.filter fun r => r.start ≠ start⟩
  | store {s a b} (hbeside : ¬ InList s.pool.allocatedList s.pool.numAllocated.toNat a) :
      CallStep freePage s (.store a b) { s with mem := Function.update s.mem a b }

/-- The sizes that rounding makes neither smaller nor 0. -/
def PoolOp.RoundsUp : PoolOp → Prop
  | .allocate size => 1 ≤ size.toNat ∧ size.toNat ≤ 2 ^ 32 - pageSize.toNat
  | _ => True

/-- The region of the call is recorded with whole pages, at least as many bytes as asked
for and at least one, and starts where no listed and no live region does. -/
def RecordedWhole {σ : Type} (s : Client σ) (op : PoolOp) (t : Client σ) : Prop :=
  ∀ size, op = .allocate size → ∃ a n, t.live = ⟨a, size⟩ :: s.live ∧
    (t.pool.entries t.mem).Perm (⟨a, n⟩ :: s.pool.entries s.mem) ∧
    max size.toNat 1 ≤ n.toNat ∧ pageSize.toNat ∣ n.toNat ∧
    (∀ r ∈ s.pool.entries s.mem, r.startFrame ≠ a) ∧ ∀ r ∈ s.live, r.start ≠ a

theorem roundToPages_eq_zero {size : Word}
    (h : ¬ (1 ≤ size.toNat ∧ size.toNat ≤ 2 ^ 32 - pageSize.toNat)) : roundToPages size = 0 := by
  by_cases h1 : 1 ≤ size.toNat
  · exact (roundToPages_of_gt (Nat.lt_of_not_le fun h2 => h ⟨h1, h2⟩)).1
  · have hzero : size = 0 := BitVec.eq_of_toNat_eq (show size.toNat = 0 by omega)
    rw [hzero]
    rfl

section

variable {σ : Type} {freePage : Nat → σ → Option σ} {s t : Client σ} {hi : Nat} {op : PoolOp}
  {size a b : Word} {p' : VMPool} {m' : Memory}

/-- Each listed region has a page of its own within one turn of the address space, and
the live ones are listed. -/
structure Whole (hi : Nat) (s : Client σ) : Prop where
  short : hi ≤ s.pool.baseAddress.toNat + 2 ^ 32
  chart : ∃ l, s.pool.Charted s.mem hi l ∧ ∀ r ∈ l, pageSize.toNat ≤ r.size
  listed : ∀ r ∈ s.live, r.start ∈ (s.pool.entries s.mem).map RegionInfo.startFrame

/-- So many regions fit the address space that their list does, too. -/
theorem Whole.list_fits (h : Whole hi s) : 8 * (s.pool.numAllocated.toNat + 1) ≤ 2 ^ 32 := by
  obtain ⟨l, hcharted, hpages⟩ := h.chart
  have hlength := hcharted.arranged.length_le hpages
  have hshort := h.short
  rw [hcharted.length_eq, pageSize_toNat] at hlength
  omega

theorem Whole.starts_nodup (h : Whole hi s) :
    ((s.pool.entries s.mem).map RegionInfo.startFrame).Nodup := by
  obtain ⟨l, hcharted, hpages⟩ := h.chart
  exact hcharted.starts_nodup h.short fun r hr => Nat.lt_of_lt_of_le (by decide) (hpages r hr)

/-- What the call lists, whatever its size. -/
theorem Whole.allocate_perm (h : Whole hi s)
    (hrun : s.pool.allocate s.mem size = .ok (a, p', m')) :
    (p'.entries m').Perm (⟨a, roundToPages size⟩ :: s.pool.entries s.mem) := by
  obtain ⟨l, hcharted, -⟩ := h.chart
  obtain ⟨i, r, hfirst, -, -, -, hentries, -⟩ := hcharted.allocate_inv h.list_fits hrun
  rw [hentries]
  exact List.perm_insertIdx _ _ (VMPool.length_entries ▸ hcharted.lt_numAllocated hfirst.listed)

theorem Whole.allocate (h : Whole hi s) (hsize : (PoolOp.allocate size).RoundsUp)
    (hrun : s.pool.allocate s.mem size = .ok (a, p', m')) :
    Whole hi { s with pool := p', mem := m', live := ⟨a, size⟩ :: s.live } := by
  obtain ⟨l, hcharted, hpages⟩ := h.chart
  have hperm := (h.allocate_perm hrun).map RegionInfo.startFrame
  obtain ⟨i, r, hfirst, -, hpool, hcharted', -, -⟩ := hcharted.allocate_inv h.list_fits hrun
  have hround := roundToPages_toNat_of_le hsize.1 hsize.2
  refine ⟨hpool ▸ h.short, ⟨_, hcharted', fun q hq => ?_⟩, fun q hq => ?_⟩
  · rcases (List.mem_insertIdx (List.getElem?_eq_some_iff.mp hfirst.listed).1).mp hq with rfl | hq
    · change pageSize.toNat ≤ (roundToPages size).toNat
      rw [hround, roundUp]
      exact Nat.le_mul_of_pos_left _ (Nat.succ_pos _)
    · exact hpages q hq
  · rw [hperm.mem_iff, List.map_cons, List.mem_cons]
    rcases List.mem_cons.mp hq with rfl | hq
    · exact .inl rfl
    · exact .inr (h.listed q hq)

theorem Whole.recordedWhole (h : Whole hi s) (hsize : (PoolOp.allocate size).RoundsUp)
    (hrun : s.pool.allocate s.mem size = .ok (a, p', m')) :
    RecordedWhole s (.allocate size)
      { s with pool := p', mem := m', live := ⟨a, size⟩ :: s.live } := by
  have hperm := h.allocate_perm hrun
  have hstarts : ((p'.entries m').map RegionInfo.startFrame).Nodup :=
    (h.allocate hsize hrun).starts_nodup
  have hnodup := (hperm.map RegionInfo.startFrame).nodup_iff.mp hstarts
  have hnew : a ∉ (s.pool.entries s.mem).map RegionInfo.startFrame :=
    (List.nodup_cons.mp hnodup).1
  have hround := roundToPages_toNat_of_le hsize.1 hsize.2
  rintro _ ⟨⟩
  refine ⟨a, roundToPages size, rfl, hperm, ?_, VMPool.roundToPages_aligned size,
    fun r hr heq => hnew (heq ▸ List.mem_map_of_mem hr), fun r hr heq => hnew (heq ▸ h.listed r hr)⟩
  rw [hround, Nat.max_eq_left hsize.1]
  exact le_roundUp size

/-- A request outside the range is recorded with size 0. -/
theorem Whole.not_recordedWhole (h : Whole hi s) (hsize : ¬ (PoolOp.allocate size).RoundsUp)
    (hrun : s.pool.allocate s.mem size = .ok (a, p', m')) :
    ¬ RecordedWhole s (.allocate size)
      { s with pool := p', mem := m', live := ⟨a, size⟩ :: s.live } := by
  intro hrecorded
  obtain ⟨a', n, hlive, hperm', hlarge, -⟩ := hrecorded size rfl
  have hperm := hperm'.symm.trans (h.allocate_perm hrun)
  rw [roundToPages_eq_zero hsize] at hperm
  have hn : n = 0 := by
    by_contra hne
    have hdiff : (⟨a', n⟩ : RegionInfo) ≠ ⟨a, 0⟩ := fun heq => hne (congrArg RegionInfo.size heq)
    have hcount := hperm.count_eq ⟨a', n⟩
    rw [List.count_cons_self, List.count_cons_of_ne hdiff.symm] at hcount
    omega
  rw [hn] at hlarge
  exact absurd (Nat.le_trans (Nat.le_max_right _ 1) hlarge) (by decide)

theorem Whole.store (h : Whole hi s) {b : Byte}
    (hbeside : ¬ InList s.pool.allocatedList s.pool.numAllocated.toNat a) :
    Whole hi { s with mem := Function.update s.mem a b } := by
  have hfits := h.list_fits
  have hentries : s.pool.entries (Function.update s.mem a b) = s.pool.entries s.mem := by
    refine VMPool.entries_congr (by omega) fun x hx => Function.update_of_ne ?_ _ _
    rintro rfl
    exact hbeside hx
  obtain ⟨l, hcharted, hpages⟩ := h.chart
  exact ⟨h.short, ⟨l, { hcharted with entries_eq := hentries.trans hcharted.entries_eq }, hpages⟩,
    fun r hr => by
      dsimp only
      rw [hentries]
      exact h.listed r hr⟩

theorem Whole.release {pages' : σ} (h : Whole hi s)
    (hrun : s.pool.release freePage s.mem s.pages b = some (p', m', pages')) :
    Whole hi ⟨p', m', pages', s.live.filter fun r => r.start ≠ b⟩ := by
  rw [release_eq] at hrun
  cases hrun
  exact ⟨h.short, h.chart, fun r hr => h.listed r (List.mem_filter.mp hr).1⟩

theorem Whole.step (h : Whole hi s) (hop : op.RoundsUp) (hstep : CallStep freePage s op t) :
    Whole hi t ∧ RecordedWhole s op t := by
  cases hstep with
  | allocate hrun => exact ⟨h.allocate hop hrun, h.recordedWhole hop hrun⟩
  | release hrun => exact ⟨h.release hrun, fun _ heq => by cases heq⟩
  | store hbeside => exact ⟨h.store hbeside, fun _ heq => by cases heq⟩

theorem Whole.start {stale base : Word} {m₀ m : Memory} {p : VMPool} (pages : σ)
    (hnew : VMPool.construct stale base size m₀ = .ok (p, m)) :
    Whole (base.toNat + VMPool.capacity (roundToPages size)) (Client.start p m pages) := by
  obtain ⟨hbase, -, hcharted⟩ := VMPool.charted_of_construct hnew
  refine ⟨?_, ⟨_, hcharted, by simp⟩, by simp [Client.start]⟩
  rw [show (Client.start p m pages).pool.baseAddress = base from hbase]
  exact Nat.add_le_add_left (VMPool.capacity_bounds (VMPool.roundToPages_aligned size)).2 _

/-- Every pool records the requests of a run whole exactly when each of them asks for a
size from 1 to `2 ^ 32 - 4096`. -/
theorem recordedWhole_iff {stale base : Word} {m₀ m : Memory} {p : VMPool} {pages : σ}
    {run : List (PoolOp × Client σ)} (hnew : VMPool.construct stale base size m₀ = .ok (p, m))
    (hrun : IsRun (CallStep freePage) (Client.start p m pages) run) :
    EveryTransition RecordedWhole (Client.start p m pages) run ↔
      EveryStep (fun _ op => op.RoundsUp) (Client.start p m pages) run := by
  refine everyTransition_iff_everyStep (fun s op t hs hop hstep => hs.step hop hstep)
    (fun s op t hs hop hstep => ?_) (Whole.start pages hnew) hrun
  cases hstep with
  | allocate hrun => exact hs.not_recordedWhole hop hrun
  | release hrun => exact absurd trivial hop
  | store hbeside => exact absurd trivial hop

end

/-- A new pool gives the same address to a request for nothing and to the next one. -/
theorem emptyRequest_shares_start : ∃ p m run,
    VMPool.construct 0 0x10000 0x4000 (fun _ => 0) = .ok (p, m) ∧
      IsRun (CallStep fun _ _ => some ()) (Client.start p m ()) run ∧
      (last (Client.start p m ()) run).live = [⟨0x11000, 100⟩, ⟨0x11000, 0⟩] ∧
      ¬ EveryTransition RecordedWhole (Client.start p m ()) run := by
  have h : ((VMPool.construct 0 0x10000 0x4000 fun _ => 0).toOption.bind fun q =>
      (q.1.allocate q.2 0).toOption.bind fun r =>
        (r.2.1.allocate r.2.2 100).toOption.map fun u => (r.1, u.1)) =
      some (0x11000, 0x11000) := by decide +kernel
  obtain ⟨⟨p, m⟩, hnew, h⟩ := Option.bind_eq_some_iff.mp h
  obtain ⟨⟨a, p₁, m₁⟩, hempty, h⟩ := Option.bind_eq_some_iff.mp h
  obtain ⟨⟨a', p₂, m₂⟩, hnext, h⟩ := Option.map_eq_some_iff.mp h
  obtain ⟨rfl, rfl⟩ := Prod.mk.inj h
  refine ⟨p, m, [(.allocate 0, _), (.allocate 100, _)], eq_ok_of_toOption hnew,
    ⟨.allocate (eq_ok_of_toOption hempty), .allocate (eq_ok_of_toOption hnext), trivial⟩, rfl, ?_⟩
  rintro ⟨-, hrecorded, -⟩
  obtain ⟨a, n, hlive, -, -, -, -, hfresh⟩ := hrecorded 100 rfl
  have ha : (0x11000 : Word) = a := congrArg Region.start (List.cons.inj hlive).1
  exact hfresh ⟨0x11000, 0⟩ List.mem_cons_self ha

theorem recordedWhole_iff_page : ∃ p m run,
    VMPool.construct 0 0x10000 0x4000 (fun _ => 0) = .ok (p, m) ∧ run.length = 1 ∧
      EveryTransition RecordedWhole (Client.start p m ()) run := by
  have h : ((VMPool.construct 0 0x10000 0x4000 fun _ => 0).toOption.bind fun q =>
      (q.1.allocate q.2 100).toOption.map Prod.fst) = some 0x11000 := by decide +kernel
  obtain ⟨⟨p, m⟩, hnew, h⟩ := Option.bind_eq_some_iff.mp h
  obtain ⟨⟨a, p', m'⟩, hcall, -⟩ := Option.map_eq_some_iff.mp h
  have hrun : IsRun (CallStep fun _ _ => some ()) (Client.start p m ()) [(.allocate 100, _)] :=
    ⟨.allocate (eq_ok_of_toOption hcall), trivial⟩
  exact ⟨p, m, _, eq_ok_of_toOption hnew, rfl,
    (recordedWhole_iff (eq_ok_of_toOption hnew) hrun).mpr ⟨⟨by decide, by decide⟩, trivial⟩⟩

end TeachingKernel.VM
