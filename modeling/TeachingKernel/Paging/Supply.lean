import TeachingKernel.FramePool.Counting
import TeachingKernel.Paging.Demand

/-!
# The frames that a fault takes

A fault takes two frames at most, one for a missing table and one for the page. While the
pool has two frames left, it is handled.
-/

namespace TeachingKernel.Paging

open ForLoop FramePool ContFramePool VM Mmu

def Spares (k n : Nat) (s : Machine) : Prop := ∃ p, s.pools[k]? = some p ∧ p.Left n

section

variable {s t u : Machine} {a v f : Word} {k n : Nat}

theorem Spares.of_pools (h : Spares k n s) (hpools : t.pools = s.pools) : Spares k n t := by
  obtain ⟨p, hp, hleft⟩ := h
  exact ⟨p, hpools ▸ hp, hleft⟩

theorem Spares.mono {m : Nat} (h : Spares k n s) (hm : m ≤ n) : Spares k m s := by
  obtain ⟨p, hp, hleft⟩ := h
  exact ⟨p, hp, hleft.mono hm⟩

theorem Spares.getFrame (h : Spares k (n + 1) s) :
    ∃ f u, s.getFrame k = some (f, u) ∧ Spares k n u := by
  obtain ⟨p, hp, hleft⟩ := h
  obtain ⟨f, p', hget, hleft'⟩ := hleft.getFrames_one
  refine ⟨f, { s with pools := s.pools.set k p' }, ?_, p', ?_, hleft'⟩
  · rw [Machine.getFrame, hp, Option.bind_some, hget]
    rfl
  · exact List.getElem?_set_self (List.getElem?_eq_some_iff.mp hp).1

theorem Spares.of_getFrame (h : Spares k (n + 1) s) (hget : s.getFrame k = some (f, u)) :
    Spares k n u := by
  obtain ⟨f', u', hget', hleft⟩ := h.getFrame
  cases hget.symm.trans hget'
  exact hleft

theorem store_pools (h : s.store a v = some t) : t.pools = s.pools := by
  obtain ⟨pa, -, rfl⟩ := Option.map_eq_some_iff.mp h
  rfl

theorem stores_pools {addr : Nat → Word} {lo hi : Nat}
    (h : forRange? lo hi (fun i s => s.store (addr i) v) s = some t) : t.pools = s.pools :=
  forRange?_keeps (Q := fun u => u.pools = s.pools) rfl
    (fun _ _ _ hu hstore => (store_pools hstore).trans hu) h

end

/-! ## The constructors -/

theorem storePhysical_pools (s : Machine) (a v : Word) :
    (s.storePhysical a v).pools = s.pools := rfl

theorem setFirstEntry_pools (pageDirectory pageTable : Word) (s : Machine) :
    (setFirstEntry pageDirectory pageTable s).pools = s.pools := rfl

theorem fillFirstTable_pools (pageTable : Word) (s : Machine) :
    (fillFirstTable pageTable s).pools = s.pools := by
  -- for every number of entries, so that nothing computes the 1024 of them
  have h : ∀ n, (forRange 0 n (fun i (t : Machine × Word) =>
      (t.1.storePhysical (pageTable + 4 * BitVec.ofNat 32 i) (t.2 ||| 3), t.2 + pageSize))
      (s, 0)).1.pools = s.pools := fun n =>
    forRange_invariant (P := fun _ (t : Machine × Word) => t.1.pools = s.pools) (Nat.zero_le n) rfl
      fun _ _ _ _ ht => ht
  rw [fillFirstTable, h]

theorem emptyEntries_pools (pageDirectory : Word) {lo hi : Nat} (s : Machine) (hle : lo ≤ hi) :
    (emptyEntries pageDirectory lo hi s).pools = s.pools := by
  have h : (forRange lo hi (fun i s => s.storePhysical (pageDirectory + 4 * BitVec.ofNat 32 i)
      (0 ||| 2)) s).pools = s.pools :=
    forRange_invariant (P := fun _ (t : Machine) => t.pools = s.pools) hle rfl fun _ _ _ _ ht => ht
  rw [emptyEntries, h]

namespace P4

section

variable {s t : Machine} {a pdi pti : Word} {k n : Nat} {q : ContFramePool} {pools : List VMPool}
  {checkAddress : Machine → Word → Bool}

theorem provideTable_spares (h : Spares k (n + 1) s) (hrun : provideTable k pdi s = some t) :
    Spares k n t := by
  obtain ⟨pde, -, hrun⟩ := Option.bind_eq_some_iff.mp hrun
  split at hrun
  · obtain ⟨⟨f, u⟩, hget, hrun⟩ := Option.bind_eq_some_iff.mp hrun
    obtain ⟨v, hv, hrun⟩ := Option.bind_eq_some_iff.mp hrun
    exact (h.of_getFrame hget).of_pools ((stores_pools hrun).trans (store_pools hv))
  · cases hrun
    exact h.mono (Nat.le_succ n)

theorem providePage_spares (h : Spares k (n + 1) s) (hrun : providePage k pdi pti s = some t) :
    Spares k n t := by
  obtain ⟨pte, -, hrun⟩ := Option.bind_eq_some_iff.mp hrun
  split at hrun
  · obtain ⟨⟨f, u⟩, hget, hrun⟩ := Option.bind_eq_some_iff.mp hrun
    exact (h.of_getFrame hget).of_pools (store_pools hrun)
  · cases hrun
    exact h.mono (Nat.le_succ n)

theorem handleFault_spares (h : Spares k (n + 2) s)
    (hrun : handleFault checkAddress k a s = some t) : Spares k n t := by
  unfold handleFault at hrun
  split at hrun
  · cases hrun
  · obtain ⟨u, hu, hrun⟩ := Option.bind_eq_some_iff.mp hrun
    exact providePage_spares (provideTable_spares h hu) hrun

theorem demand_spares (h : Spares k (n + 2) s) (hrun : demand pools k a s = some t) :
    Spares k n t := by
  rw [demand] at hrun
  split at hrun
  · cases hrun
    exact h.mono (by omega)
  · exact handleFault_spares h hrun

theorem writeTables_pools (pageDirectory pageTable : Word) (s : Machine) :
    (writeTables pageDirectory pageTable s).pools = s.pools := by
  rw [writeTables, emptyEntries_pools _ _ (by decide), storePhysical_pools, setFirstEntry_pools,
    fillFirstTable_pools]

/-- With two frames left the paging structures are set up. -/
theorem construct_returns (h : Spares k (n + 2) s) :
    ∃ pageDirectory t, P4.construct k s = some (pageDirectory, t) ∧ Spares k n t := by
  obtain ⟨d, u, hd, hu⟩ := h.getFrame
  obtain ⟨f, v, hf, hv⟩ := hu.getFrame
  refine ⟨4096 * d, writeTables (4096 * d) (4096 * f) v, ?_, hv.of_pools (writeTables_pools ..)⟩
  simp only [P4.construct, hd, hf, Option.bind_eq_bind, Option.bind_some]

theorem demand_mapped (h : (s.load a).isSome) : demand pools k a s = some s := if_pos h

theorem spare_of_spares (h : Spares k 2 s) : Spare k s := by
  obtain ⟨f, u, hget, hu⟩ := Spares.getFrame h
  obtain ⟨g, v, hget', -⟩ := hu.getFrame
  exact ⟨f, u, g, v, hget, hget'⟩

theorem Good.demand_returns (h : Good k q s)
    (hrange : q.baseFrameNo.toNat + q.nframes.toNat ≤ 2 ^ 20) (ha : UserPage (pageOf a))
    (hlegit : P4.checkAddress pools s a = some true) (hspares : Spares k 2 s) :
    ∃ t, P4.demand pools k a s = some t := by
  rw [P4.demand]
  split
  · exact ⟨s, rfl⟩
  · exact h.handleFault_completes hrange ha.2 (accepts_of_checkAddress hlegit)
      (spare_of_spares hspares)

theorem constructPool_spares {stale base size : Word} {y z : System}
    (h : Spares k (n + 4) y.machine) (hrun : constructPool k stale base size y = some z) :
    Spares k n z.machine := by
  rw [constructPool] at hrun
  split at hrun
  · obtain ⟨s, hs, hrun⟩ := Option.bind_eq_some_iff.mp hrun
    obtain ⟨t, ht, hrun⟩ := Option.bind_eq_some_iff.mp hrun
    obtain ⟨u, hu, hrun⟩ := Option.bind_eq_some_iff.mp hrun
    obtain ⟨v, hv, hrun⟩ := Option.bind_eq_some_iff.mp hrun
    cases hrun
    exact (demand_spares ((demand_spares h hs).of_pools (store_pools ht)) hu).of_pools
      (store_pools hv)
  · cases hrun

theorem SystemGood.constructPool_returns {stale base size : Word} {y : System}
    (h : SystemGood k q y) (hrange : q.baseFrameNo.toNat + q.nframes.toNat ≤ 2 ^ 20)
    (hstale : stale &&& 0x3FF#32 = 0) (hfit : Admissible y.vmPools base size)
    (hspares : Spares k 2 y.machine) : ∃ z, constructPool k stale base size y = some z := by
  rcases h.constructs hrange hstale hfit with ⟨z, hz, -⟩ | hout
  · exact ⟨z, hz⟩
  · exact absurd hout (h.paging.not_outOfFrames hrange hfit.userPage (spare_of_spares hspares))

end

/-! ## The set-up of `main` -/

theorem admissible_codePool : Admissible [] 0x20000000 0x10000000 :=
  ⟨by decide, by decide, by decide, by decide, fun p hp => by cases hp⟩

/-- The process pool of `main` with its hole, booted, and `code_pool`. -/
theorem sampleCodePool : ∃ p₀ q pageDirectory s₁ z,
    ContFramePool.construct (fun _ => 0) 1024 7168 513 1 = some p₀ ∧
      p₀.markInaccessible 3840 256 = some q ∧
      P4.construct 0 ⟨fun _ => 0, 0, [q]⟩ = some (pageDirectory, s₁) ∧
      constructPool 0 0 0x20000000 0x10000000 ⟨load s₁ pageDirectory, []⟩ = some z ∧
      q.baseFrameNo.toNat + q.nframes.toNat ≤ 2 ^ 20 ∧
      SystemGood 0 q ⟨load s₁ pageDirectory, []⟩ ∧ Spares 0 1000 z.machine := by
  obtain ⟨p₀, hp₀⟩ : ∃ p₀, ContFramePool.construct (fun _ => 0) 1024 7168 513 1 = some p₀ :=
    ⟨_, rfl⟩
  have hinfo : (513 : Word) ≠ 0 := by decide
  have hlo : (1024 : Word).toNat ≤ (3840 : Word).toNat := by decide
  have hhi : (3840 : Word).toNat + (256 : Word).toNat ≤
      (1024 : Word).toNat + (roundUp4 7168).toNat := by decide
  obtain ⟨q, hq⟩ := markInaccessible_of_construct hinfo hp₀ (by decide) hlo hhi
  have hleft := left_of_boot hinfo hp₀ hlo hhi (by decide) (by decide) hq
  have hspares : Spares 0 (1004 + 2) ⟨fun _ => 0, 0, [q]⟩ := ⟨q, rfl, hleft.mono (by decide)⟩
  obtain ⟨pageDirectory, s₁, hboot, hspares₁⟩ := construct_returns hspares
  obtain ⟨hbase, hframes, hseparated, -⟩ := booted_pool hinfo (by decide) hp₀ hlo hhi hq
    (by decide)
  have hrange : q.baseFrameNo.toNat + q.nframes.toNat ≤ 2 ^ 20 := by
    rw [hbase, hframes]
    decide
  have hstart : SystemGood 0 q ⟨load s₁ pageDirectory, []⟩ :=
    ⟨Good.boot rfl hseparated hrange (fun j _ hj => absurd hj (Nat.not_lt_zero j)) hboot,
      fun p hp => (by cases hp), .nil, Nat.zero_le maxPools⟩
  have hspares₂ : Spares 0 (1000 + 4) (load s₁ pageDirectory) := hspares₁.of_pools rfl
  obtain ⟨z, hz⟩ : ∃ z, constructPool 0 0 0x20000000 0x10000000 ⟨load s₁ pageDirectory, []⟩ =
      some z :=
    hstart.constructPool_returns hrange (by decide) admissible_codePool (hspares₂.mono (by decide))
  exact ⟨p₀, q, pageDirectory, s₁, z, hp₀, hq, hboot, hz, hrange, hstart,
    constructPool_spares hspares₂ hz⟩

end P4

end TeachingKernel.Paging
