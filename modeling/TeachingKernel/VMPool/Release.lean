import TeachingKernel.Paging.History
import TeachingKernel.VMPool.Regions

/-!
# Giving a region back

One pool over the page table of P4. `release` looks its region up and drops the
result of the lookup, so it returns early for every region it is asked to release.
-/

namespace TeachingKernel.VM

open FramePool ContFramePool Mmu Paging Runs

/-- `free_page` by the number that the page loop of `release` counts. -/
def freePage (pageNo : Nat) : Machine → Option Machine := P4.freePage (BitVec.ofNat 32 pageNo)

inductive SystemOp where
  | call (op : PoolOp)
  | fault (a : Word)

inductive SystemStep (k : Nat) : Client Machine → SystemOp → Client Machine → Prop
  | call {s op t} (hstep : Step freePage s op t) : SystemStep k s (.call op) t
  | fault {s a pages'} (hrun : P4.handleFault (fun _ => s.pool.isLegitimate s.mem) k a s.pages =
      some pages') : SystemStep k s (.fault a) { s with pages := pages' }

def Client.gaveBack (s : Client Machine) (r : Region) (after : VMPool × Memory × Machine) :
    Client Machine :=
  ⟨after.1, after.2.1, after.2.2, s.live.filter fun r' => r'.start ≠ r.start⟩

/-- What a release of region `r` is for. -/
structure ReleasesExactly (k : Nat) (s : Client Machine) (r : Region)
    (after : VMPool × Memory × Machine) : Prop where
  legitimate : ∀ a, after.1.isLegitimate after.2.1 a =
    if r.Covers a then false else s.pool.isLegitimate s.mem a
  entries : ∃ i, (s.pool.entries s.mem)[i]? = some ⟨r.start, roundToPages r.size⟩ ∧
    after.1.entries after.2.1 = (s.pool.entries s.mem).eraseIdx i
  count : after.1.numAllocated = s.pool.numAllocated - 1
  pages : ∀ va pa, r.Covers va → translate s.pages.mem s.pages.cr3 va = some pa →
    translate after.2.2.mem after.2.2.cr3 va = none ∧
      ∃ q ∈ after.2.2.pools, q.Codes (pageOf pa) .free
  reusable : ∃ run, IsRun (SystemStep k) (s.gaveBack r after) run ∧
    r ∈ (last (s.gaveBack r after) run).live

section

variable {k : Nat} {s : Client Machine} {r : Region}

/-- The count of regions stays, so nothing was released. -/
theorem not_releasesExactly_unchanged : ¬ ReleasesExactly k s r (s.pool, s.mem, s.pages) := by
  intro h
  have hcount := congrArg BitVec.toNat h.count
  rw [BitVec.toNat_sub] at hcount
  simp at hcount
  omega

/-- Whatever the state, the release of a region returns, leaves the pool, the memory and
the page table as they were, and so releases nothing. -/
theorem release_releases_nothing (k : Nat) (s : Client Machine) (r : Region) :
    s.pool.release freePage s.mem s.pages r.start = some (s.pool, s.mem, s.pages) ∧
      ¬ ReleasesExactly k s r (s.pool, s.mem, s.pages) :=
  ⟨release_eq _ _, not_releasesExactly_unchanged⟩

end

def samplePool : Option Unit := do
  let q ← (VMPool.construct 0 0x20000000 0x4000 fun _ => 0).toOption
  let r ← (q.1.allocate q.2 100).toOption
  if r.1 = 0x20001000 ∧ r.2.1.isLegitimate r.2.2 r.1 then some () else none

theorem touchedRegion_kept : ∃ p m pages run s,
    VMPool.construct 0 0x20000000 0x4000 (fun _ => 0) = .ok (p, m) ∧
      IsRun (SystemStep 0) (Client.start p m pages) run ∧
      run.map Prod.fst = [.call (.allocate 100), .fault 0x20001000] ∧
      s = last (Client.start p m pages) run ∧ ⟨0x20001000, 100⟩ ∈ s.live ∧
      s.pool.release freePage s.mem s.pages 0x20001000 = some (s.pool, s.mem, s.pages) ∧
      s.pool.isLegitimate s.mem 0x20001000 = true ∧
      (translate s.pages.mem s.pages.cr3 0x20001000).isSome ∧
      ¬ ReleasesExactly 0 s ⟨0x20001000, 100⟩ (s.pool, s.mem, s.pages) := by
  have h : samplePool = some () := by decide +kernel
  simp only [samplePool, Option.bind_eq_bind, Option.bind_eq_some_iff] at h
  obtain ⟨⟨p, m⟩, hnew, ⟨a, p', m'⟩, hallocate, h⟩ := h
  obtain ⟨rfl, hlegitimate⟩ : a = 0x20001000 ∧ p'.isLegitimate m' a = true := by
    by_contra hc
    rw [if_neg hc] at h
    cases h
  obtain ⟨-, q, pageDirectory, s₁, -, -, -, hrange, hgood, hspare⟩ := P4.sampleBoot_good
  obtain ⟨t, ht⟩ : ∃ t, P4.handleFault (fun _ => p'.isLegitimate m') 0 0x20001000
      (load s₁ pageDirectory) = some t :=
    hgood.handleFault_completes hrange (by decide) hlegitimate hspare
  obtain ⟨-, hcr3, hsome, -⟩ := hgood.handleFault hrange (by decide) (by decide) ht
  refine ⟨p, m, load s₁ pageDirectory, [(.call (.allocate 100), ⟨p', m', load s₁ pageDirectory,
    [⟨0x20001000, 100⟩]⟩), (.fault 0x20001000, ⟨p', m', t, [⟨0x20001000, 100⟩]⟩)], _,
    eq_ok_of_toOption hnew, ⟨.call (.allocate (by decide) (eq_ok_of_toOption hallocate)), .fault ht,
    trivial⟩, rfl, rfl, List.mem_singleton_self _, release_eq _ _, hlegitimate, ?_,
    fun h => ?_⟩
  · show (translate t.mem t.cr3 0x20001000).isSome
    rw [Mmu.translate, hcr3, Option.isSome_map]
    exact hsome
  · have hreleased := h.legitimate 0x20001000
    rw [if_pos (by decide)] at hreleased
    cases hlegitimate.symm.trans hreleased

end TeachingKernel.VM
