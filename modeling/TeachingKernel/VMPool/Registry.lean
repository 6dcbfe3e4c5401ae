import TeachingKernel.VMPool.Regions

/-!
# The registered pools

The page table asks every registered pool whether an address is legitimate. Pools
are constructed and allocate from, in any order, over one memory; while the list of
each pool is in order, the answer is whether the address lies in a listed region,
and as long as no two lists share a byte the listed regions are those handed out.
-/

namespace TeachingKernel.VM

open Runs

def maxPools : Nat := 10

/-- `PageTable::check_address`. The loop goes on after a pool said yes. -/
def checkAddress (pools : List VMPool) (m : Memory) (a : Word) : Bool :=
  pools.foldl (fun valid p => if p.isLegitimate m a then true else valid) false

structure Registered where
  pool : VMPool
  live : List Region

structure Registry where
  pools : List Registered
  mem : Memory

namespace Registry

def empty (m : Memory) : Registry := ⟨[], m⟩

def vmPools (s : Registry) : List VMPool := s.pools.map Registered.pool

end Registry

inductive RegistryOp where
  | construct (stale base size : Word)
  | allocate (i : Nat) (size : Word)
  deriving DecidableEq

/-- The constructors, each of which registers its pool, and the calls that return. -/
inductive RegistryStep : Registry → RegistryOp → Registry → Prop
  | construct {s stale base size p m'} (hroom : s.pools.length < maxPools)
      (hnew : VMPool.construct stale base size s.mem = .ok (p, m')) :
      RegistryStep s (.construct stale base size) ⟨s.pools ++ [⟨p, []⟩], m'⟩
  | allocate {s i c size a p' m'} (hpool : s.pools[i]? = some c)
      (hrun : c.pool.allocate s.mem size = .ok (a, p', m')) :
      RegistryStep s (.allocate i size) ⟨s.pools.set i ⟨p', ⟨a, size⟩ :: c.live⟩, m'⟩

def Registry.exec (s : Registry) : RegistryOp → Option Registry
  | .construct stale base size =>
      if s.pools.length < maxPools then
        match VMPool.construct stale base size s.mem with
        | .ok (p, m') => some ⟨s.pools ++ [⟨p, []⟩], m'⟩
        | .error _ => none
      else none
  | .allocate i size =>
      match s.pools[i]? with
      | some c =>
          match c.pool.allocate s.mem size with
          | .ok (a, p', m') => some ⟨s.pools.set i ⟨p', ⟨a, size⟩ :: c.live⟩, m'⟩
          | .error _ => none
      | none => none

namespace Registered

/-- The address lies in the first page of the pool. -/
def Reserves (c : Registered) (a : Word) : Prop :=
  c.pool.baseAddress.toNat ≤ a.toNat ∧ a.toNat < c.pool.baseAddress.toNat + pageSize.toNat

/-- The address lies in a region that the list of the pool shows after the first page. -/
def Lists (c : Registered) (m : Memory) (a : Word) : Prop :=
  ∃ r ∈ (c.pool.entries m).tail, a.toNat ∈ r.span

/-- The address lies in a region that a call returned. -/
def HandedOut (c : Registered) (a : Word) : Prop := ∃ r ∈ c.live, a.toNat ∈ r.span

end Registered

namespace Registry

def Listed (s : Registry) (a : Word) : Prop := ∃ c ∈ s.pools, c.Reserves a ∨ c.Lists s.mem a

def Allocated (s : Registry) (a : Word) : Prop := ∃ c ∈ s.pools, c.Reserves a ∨ c.HandedOut a

end Registry

def RegionsHold (s : Registry) : Prop := ∀ c ∈ s.pools,
  c.pool.baseAddress.toNat + c.pool.size.toNat ≤ recursiveWindow ∧
    RegionInvariant c.pool.baseAddress c.pool.size c.pool s.mem

/-- No two pools keep their lists in the same bytes. -/
def ListsApart (s : Registry) : Prop := ∀ (i j : Nat) (c c' : Registered), i ≠ j →
  s.pools[i]? = some c → s.pools[j]? = some c' → ∀ x,
    InList c.pool.allocatedList c.pool.numAllocated.toNat x →
    ¬ InList c'.pool.allocatedList c'.pool.numAllocated.toNat x

def LaidOut (s : Registry) : Prop := ∀ c ∈ s.pools, Geometry c.pool ∧
  Laid c.pool.baseAddress c.pool.size (c.pool.entries s.mem) ∧ c.pool.numAllocated.toNat ≤ 512

instance (s : Registry) : Decidable (LaidOut s) :=
  inferInstanceAs (Decidable (∀ c ∈ s.pools, _))

/-- No two pools have the same first page. -/
def PagesApart (s : Registry) : Prop := s.pools.Pairwise fun c c' =>
  c.pool.baseAddress.toNat + pageSize.toNat ≤ c'.pool.baseAddress.toNat ∨
    c'.pool.baseAddress.toNat + pageSize.toNat ≤ c.pool.baseAddress.toNat

instance (s : Registry) : Decidable (PagesApart s) :=
  inferInstanceAs (Decidable (List.Pairwise _ s.pools))

section

variable {p : VMPool} {pools : List VMPool} {m : Memory} {a : Word} {base size : Word}

theorem registryStep_of_exec {s t : Registry} {op : RegistryOp} (h : s.exec op = some t) :
    RegistryStep s op t := by
  cases op with
  | construct stale base size =>
      simp only [Registry.exec] at h
      split at h
      · split at h
        · cases h
          exact .construct (by assumption) (by assumption)
        · cases h
      · cases h
  | allocate i size =>
      simp only [Registry.exec] at h
      split at h
      · split at h
        · cases h
          exact .allocate (by assumption) (by assumption)
        · cases h
      · cases h

theorem LaidOut.client {s : Registry} (h : LaidOut s) {c : Registered} (hc : c ∈ s.pools) :
    Good c.pool.baseAddress c.pool.size (Client.start c.pool s.mem ()) := by
  obtain ⟨hg, hlaid, hfew⟩ := h c hc
  exact ⟨rfl, rfl, hg, hlaid, hfew, fun r hr => (by cases hr), fun r hr => (by cases hr)⟩

theorem LaidOut.regionsHold {s : Registry} (h : LaidOut s) : RegionsHold s := fun _ hc =>
  ⟨(h.client hc).geometry.below_window, (h.client hc).regionInvariant⟩

theorem LaidOut.listsApart {s : Registry} (h : LaidOut s) (hpages : PagesApart s) :
    ListsApart s := by
  intro i j c c' hne hi hj x hx hx'
  have hbounds := (h.client (List.mem_of_getElem? hi)).inList_lt (h.client
    (List.mem_of_getElem? hi)).few hx
  have hbounds' := (h.client (List.mem_of_getElem? hj)).inList_lt (h.client
    (List.mem_of_getElem? hj)).few hx'
  obtain ⟨hilt, rfl⟩ := List.getElem?_eq_some_iff.mp hi
  obtain ⟨hjlt, rfl⟩ := List.getElem?_eq_some_iff.mp hj
  have hpair := List.pairwise_iff_getElem.mp hpages
  rcases Nat.lt_or_gt_of_ne hne with hlt | hlt
  · have := hpair i j hilt hjlt hlt
    omega
  · have := hpair j i hjlt hilt hlt
    omega

theorem checkAddress_iff :
    checkAddress pools m a = true ↔ ∃ p ∈ pools, p.isLegitimate m a = true := by
  have h : ∀ valid, pools.foldl (fun valid p => if p.isLegitimate m a then true else valid) valid =
      (valid || pools.any fun p => p.isLegitimate m a) := by
    induction pools with
    | nil => simp
    | cons p rest ih =>
        intro valid
        rw [List.foldl_cons, ih, List.any_cons]
        cases p.isLegitimate m a <;> cases valid <;> rfl
  rw [checkAddress, h, Bool.false_or, List.any_eq_true]

/-- A pool with an ordered list accepts the addresses of the listed regions. -/
theorem isLegitimate_iff (hwin : p.baseAddress.toNat + p.size.toNat ≤ recursiveWindow)
    (h : Lined p.baseAddress p.size (p.entries m)) :
    p.isLegitimate m a = true ↔ ∃ r ∈ p.entries m, a.toNat ∈ r.span := by
  have hpos := VMPool.numAllocated_pos h
  have hne : p.numAllocated ≠ 0 := by
    intro hc
    rw [hc] at hpos
    exact absurd hpos (by decide)
  rw [VMPool.isLegitimate, if_neg hne, List.any_eq_true]
  constructor
  · rintro ⟨i, hi, htest⟩
    rw [List.mem_range] at hi
    simp only [Bool.and_eq_true, decide_eq_true_eq] at htest
    refine ⟨p.entry m i, List.mem_map.mpr ⟨i, List.mem_range.mpr hi, rfl⟩, htest.1, ?_⟩
    have hend := VMPool.entryEnd_toNat hwin h hi
    have hlt : a.toNat < (p.entryEnd m i).toNat := htest.2
    rwa [hend] at hlt
  · rintro ⟨r, hr, hlo, hhi⟩
    obtain ⟨i, hi, rfl⟩ := List.mem_map.mp hr
    refine ⟨i, hi, ?_⟩
    rw [List.mem_range] at hi
    have hend := VMPool.entryEnd_toNat hwin h hi
    have hlt : a.toNat < (p.entryEnd m i).toNat := by
      rw [hend]
      exact hhi
    simp only [Bool.and_eq_true, decide_eq_true_eq]
    exact ⟨hlo, hlt⟩

theorem RegionInvariant.lined (h : RegionInvariant base size p m) :
    Lined base size (p.entries m) := by
  refine ⟨h.reserved, ?_, h.inside⟩
  have hboth := h.sorted.and h.disjoint
  refine hboth.imp_of_mem fun {r r'} hr hr' hrr' => ?_
  rcases (Span.apart_iff (h.nonempty r hr) (h.nonempty r' hr')).mp hrr'.2 with hle | hle
  · exact hle
  · have hpos := h.nonempty r' hr'
    have hlt := hrr'.1
    have : r'.startFrame.toNat + r'.size.toNat ≤ r.startFrame.toNat := hle
    omega

/-- The regions are whole pages one after another, so there are at most `2 ^ 20`. -/
theorem RegionInvariant.few (h : RegionInvariant base size p m) :
    p.numAllocated.toNat ≤ 2 ^ 20 := by
  have hstart : ∀ i, i < p.numAllocated.toNat →
      pageSize.toNat * i ≤ (p.entry m i).startFrame.toNat := by
    intro i
    induction i with
    | zero => exact fun _ => Nat.zero_le _
    | succ i ih =>
        intro hi
        have hprev := ih (by omega)
        have hmem : ∀ j, j < p.numAllocated.toNat → p.entry m j ∈ p.entries m := fun j hj =>
          List.mem_map.mpr ⟨j, List.mem_range.mpr hj, rfl⟩
        have hlt := List.pairwise_iff_getElem.mp h.sorted i (i + 1) (by simpa using by omega)
          (by simpa using hi) (by omega)
        rw [VMPool.getElem_entries, VMPool.getElem_entries] at hlt
        have h1 := (h.aligned _ (hmem i (by omega))).1
        have h2 := (h.aligned _ (hmem (i + 1) hi)).1
        rw [pageSize_toNat] at h1 h2 hprev ⊢
        omega
  by_contra hmany
  have hlast := hstart (2 ^ 20) (by omega)
  have hlt := (p.entry m (2 ^ 20)).startFrame.isLt
  rw [pageSize_toNat] at hlast
  omega

/-- What the pools answer, in terms of their lists. -/
theorem RegionsHold.checkAddress_iff {s : Registry} (h : RegionsHold s) :
    checkAddress s.vmPools s.mem a = true ↔ s.Listed a := by
  rw [VM.checkAddress_iff, Registry.Listed]
  constructor
  · rintro ⟨p, hp, hlegit⟩
    obtain ⟨c, hc, rfl⟩ := List.mem_map.mp hp
    obtain ⟨hwin, hinv⟩ := h c hc
    obtain ⟨r, hr, hin⟩ := (isLegitimate_iff hwin hinv.lined).mp hlegit
    refine ⟨c, hc, ?_⟩
    have hhead := hinv.reserved
    cases hl : c.pool.entries s.mem with
    | nil => rw [hl] at hr; cases hr
    | cons e rest =>
        rw [hl] at hr hhead
        cases hhead
        rcases List.mem_cons.mp hr with rfl | hr
        · exact .inl hin
        · refine .inr ⟨r, ?_, hin⟩
          rw [hl]
          exact hr
  · rintro ⟨c, hc, hlegit⟩
    obtain ⟨hwin, hinv⟩ := h c hc
    refine ⟨c.pool, List.mem_map.mpr ⟨c, hc, rfl⟩, (isLegitimate_iff hwin hinv.lined).mpr ?_⟩
    rcases hlegit with hfirst | ⟨r, hr, hin⟩
    · exact ⟨_, List.mem_of_mem_head? hinv.reserved, hfirst⟩
    · exact ⟨r, List.mem_of_mem_tail hr, hin⟩

theorem RegionsHold.listed_lt {s : Registry} (h : RegionsHold s) (ha : s.Listed a) :
    a.toNat < recursiveWindow := by
  obtain ⟨c, hc, hin⟩ := ha
  obtain ⟨hwin, hinv⟩ := h c hc
  rcases hin with hin | ⟨r, hr, hin⟩
  · have hfirst := hinv.inside _ (List.mem_of_mem_head? hinv.reserved)
    have hlt := hin.2
    dsimp only at hfirst
    omega
  · have hinside := hinv.inside r (List.mem_of_mem_tail hr)
    have hlt : a.toNat < r.startFrame.toNat + r.size.toNat := hin.2
    omega

end

/-! ## The lists show what was handed out -/

/-- The list of the pool shows the regions handed out, after the first page. -/
def Registered.Recorded (c : Registered) (m : Memory) : Prop := ∀ r,
  r ∈ (c.pool.entries m).tail ↔ ∃ g ∈ c.live, r = ⟨g.start, roundToPages g.size⟩

def Recorded (s : Registry) : Prop := ∀ c ∈ s.pools, c.Recorded s.mem

section

variable {s t : Registry} {c : Registered} {op : RegistryOp} {m' : Memory} {p' : VMPool}
  {size a : Word} {i : Nat}

/-- A size that does not round to zero rounds without wrapping. -/
theorem roundToPages_of_ne (h : roundToPages size ≠ 0) :
    (roundToPages size).toNat = roundUp size := by
  have h1 : size ≠ 0 := by
    rintro rfl
    exact h (by decide)
  have hpos : 1 ≤ size.toNat := by
    rw [← BitVec.toNat_inj.ne] at h1
    exact Nat.one_le_iff_ne_zero.mpr h1
  refine roundToPages_toNat_of_le hpos ?_
  by_contra hgt
  exact h (roundToPages_of_gt (by omega)).1

theorem Registered.Recorded.lists_iff (h : c.Recorded s.mem)
    (hinv : RegionInvariant c.pool.baseAddress c.pool.size c.pool s.mem) :
    c.Lists s.mem a ↔ c.HandedOut a := by
  have hspan : ∀ g ∈ c.live, RegionInfo.span ⟨g.start, roundToPages g.size⟩ = g.span := by
    intro g hg
    have hpos := hinv.nonempty _ (List.mem_of_mem_tail ((h _).mpr ⟨g, hg, rfl⟩))
    have hne : roundToPages g.size ≠ 0 := by
      intro hc
      rw [hc] at hpos
      exact Nat.lt_irrefl 0 hpos
    rw [RegionInfo.span, roundToPages_of_ne hne, Region.span]
  constructor
  · rintro ⟨r, hr, hin⟩
    obtain ⟨g, hg, rfl⟩ := (h r).mp hr
    exact ⟨g, hg, hspan g hg ▸ hin⟩
  · rintro ⟨g, hg, hin⟩
    exact ⟨_, (h _).mpr ⟨g, hg, rfl⟩, (hspan g hg).symm ▸ hin⟩

theorem Registered.Recorded.allocate (h : c.Recorded s.mem)
    (hinv : RegionInvariant c.pool.baseAddress c.pool.size c.pool s.mem)
    (hwin : c.pool.baseAddress.toNat + c.pool.size.toNat ≤ recursiveWindow)
    (hrun : c.pool.allocate s.mem size = .ok (a, p', m')) :
    (Registered.mk p' (⟨a, size⟩ :: c.live)).Recorded m' := by
  have hfew := hinv.few
  obtain ⟨i, hp⟩ := VMPool.allocate_inserted hwin hinv.lined (by omega) hrun
  have hlen : i < (c.pool.entries s.mem).length := by simpa using hp.listed
  intro r
  rw [hp.entries_eq]
  cases hl : c.pool.entries s.mem with
  | nil => simp [hl] at hlen
  | cons e rest =>
      have hrest := h r
      rw [hl] at hlen hrest
      have hi : i ≤ rest.length := Nat.le_of_lt_succ hlen
      rw [List.insertIdx_succ_cons, List.tail_cons, List.mem_insertIdx hi]
      rw [List.tail_cons] at hrest
      rw [hrest, List.exists_mem_cons_iff]

/-- Writing one list leaves the entries of another that shares no byte with it. -/
theorem entries_of_apart {p : VMPool} {list : Word} {n : Nat}
    (hinv : RegionInvariant p.baseAddress p.size p s.mem)
    (hout : ∀ y, ¬ InList list n y → m' y = s.mem y)
    (hapart : ∀ x, InList list n x → ¬ InList p.allocatedList p.numAllocated.toNat x) :
    p.entries m' = p.entries s.mem := by
  have hfew := hinv.few
  exact VMPool.entries_congr (by omega) fun x hx => hout x fun hin => hapart x hin hx

theorem Recorded.construct {stale base size : Word} {p : VMPool} (h : Recorded s)
    (hs : RegionsHold s) (ht : ListsApart ⟨s.pools ++ [⟨p, []⟩], m'⟩)
    (hnew : VMPool.construct stale base size s.mem = .ok (p, m')) :
    Recorded ⟨s.pools ++ [⟨p, []⟩], m'⟩ := by
  obtain ⟨rfl, rfl⟩ := VMPool.construct_eq hnew
  intro c hc
  rcases List.mem_append.mp hc with hc | hc
  · obtain ⟨i, hi⟩ := List.mem_iff_getElem?.mp hc
    have hlt := (List.getElem?_eq_some_iff.mp hi).1
    have hentries := entries_of_apart (hs c hc).2
      (fun y hy => writeRegion_apply (m := s.mem) (r := ⟨base, pageSize⟩) (n := 1)
        (by decide) Nat.zero_lt_one hy)
      (ht s.pools.length i _ c (by omega) List.getElem?_concat_length
        (by rw [List.getElem?_append_left hlt, hi]))
    intro r
    rw [hentries]
    exact h c hc r
  · rw [List.mem_singleton.mp hc]
    intro r
    simp [VMPool.entries]

/-- `allocate` writes inside the list of its own pool only. -/
theorem Recorded.allocateAt {i : Nat} {a size : Word} (h : Recorded s) (hs : RegionsHold s)
    (ht : ListsApart ⟨s.pools.set i ⟨p', ⟨a, size⟩ :: c.live⟩, m'⟩)
    (hpool : s.pools[i]? = some c) (hrun : c.pool.allocate s.mem size = .ok (a, p', m')) :
    Recorded ⟨s.pools.set i ⟨p', ⟨a, size⟩ :: c.live⟩, m'⟩ := by
  have hi := (List.getElem?_eq_some_iff.mp hpool).1
  have hmem : c ∈ s.pools := List.mem_of_getElem? hpool
  obtain ⟨hwin, hinv⟩ := hs c hmem
  have hfew := hinv.few
  obtain ⟨k, hp⟩ := VMPool.allocate_inserted hwin hinv.lined (by omega) hrun
  have hcount : (c.pool.numAllocated + 1).toNat = c.pool.numAllocated.toNat + 1 :=
    toNat_add_one (by omega)
  have hself : (s.pools.set i ⟨p', ⟨a, size⟩ :: c.live⟩)[i]? =
      some ⟨p', ⟨a, size⟩ :: c.live⟩ := by
    rw [List.getElem?_set, if_pos rfl, if_pos hi]
  intro d hd
  obtain ⟨j, hj⟩ := List.mem_iff_getElem?.mp hd
  by_cases hne : i = j
  · subst hne
    cases hself.symm.trans hj
    exact (h c hmem).allocate hinv hwin hrun
  · have hother : s.pools[j]? = some d := by
      rwa [List.getElem?_set, if_neg hne] at hj
    have hapart := ht i j _ d hne hself hj
    rw [hp.pool_eq] at hapart
    dsimp only at hapart
    rw [hcount] at hapart
    have hentries := entries_of_apart (hs d (List.mem_of_getElem? hother)).2 hp.outside hapart
    intro r
    rw [hentries]
    exact h d (List.mem_of_getElem? hother) r

theorem Recorded.step (h : Recorded s) (hs : RegionsHold s) (ht : ListsApart t)
    (hstep : RegistryStep s op t) : Recorded t := by
  cases hstep with
  | construct hroom hnew => exact h.construct hs ht hnew
  | allocate hpool hrun => exact h.allocateAt hs ht hpool hrun

/-- Where no two lists share a byte, the listed regions are those handed out. -/
theorem recorded_of_apart {m₀ : Memory} {run : List (RegistryOp × Registry)}
    (hrun : IsRun RegistryStep (Registry.empty m₀) run)
    (hhold : EveryState RegionsHold (Registry.empty m₀) run)
    (hapart : EveryState ListsApart (Registry.empty m₀) run) :
    EveryState (fun s => RegionsHold s ∧ Recorded s) (Registry.empty m₀) run := by
  have hguarded := isRun_and_of_forall (R := fun _ t => RegionsHold t ∧ ListsApart t) hrun
    fun e he => ⟨hhold.2 e he, hapart.2 e he⟩
  have hstart : Recorded (Registry.empty m₀) := fun c hc => by cases hc
  exact everyState_of_step (fun s op t hs h => ⟨h.2.1, hs.2.step hs.1 h.2.2 h.1⟩)
    ⟨hhold.1, hstart⟩ hguarded

theorem Recorded.allocated_iff (h : Recorded s) (hs : RegionsHold s) :
    s.Allocated a ↔ s.Listed a := by
  unfold Registry.Allocated Registry.Listed
  refine exists_congr fun c => and_congr_right fun hc => ?_
  rw [(h c hc).lists_iff (hs c hc).2]

end

end TeachingKernel.VM
