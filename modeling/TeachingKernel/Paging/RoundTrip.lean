import TeachingKernel.FramePool.WellFormed
import TeachingKernel.Paging.Demand

/-!
# A fault and a free

`handle_fault` reaches an entry from an address, `free_page` from a page number. Where
the table is there, the second undoes the first: the frame goes back to the pool it came
from, and the one entry that was written is absent again.
-/

namespace TeachingKernel

namespace FramePool.ContFramePool

variable {p p' : ContFramePool} {f : Word}

theorem Separated.stopsBehindFree (h : p.Separated) : p.StopsBehindFree := by
  intro j hj hfree hrest
  have hindex : p.baseFrameNo.toNat + j - p.baseFrameNo.toNat = j := Nat.add_sub_cancel_left ..
  refine h (p.baseFrameNo.toNat + j) (.inl ⟨by omega, by omega, by rwa [hindex]⟩)
    ⟨by omega, by omega, ?_⟩
  rwa [show p.baseFrameNo.toNat + j + 1 - p.baseFrameNo.toNat = j + 1 by omega]

/-- A single frame that was handed out and is given back leaves the pool as it was. -/
theorem Separated.releaseFrame_getFrames (h : p.Separated)
    (hrange : p.baseFrameNo.toNat + p.nframes.toNat < 2 ^ 32)
    (hget : p.getFrames 1 = some (f, p')) :
    p'.releaseFrame f = some p := by
  obtain ⟨hlo, -, hfree⟩ := (ContFramePool.getFrames_one hrange hget).1
  refine h.stopsBehindFree.releaseFrame_getFrames hrange hget fun i hi => ?_
  obtain ⟨h1, h2⟩ := hi
  have hone : (1 : Word).toNat = 1 := rfl
  rw [toNat_sub_of_le hlo] at h1 h2
  rwa [show i = f.toNat - p.baseFrameNo.toNat by omega]

end FramePool.ContFramePool

namespace Paging.P4

open FramePool ContFramePool Mmu Runs

/-- The page table that an address falls under is there. -/
def HasTable (s : Machine) (a : Word) : Prop :=
  Present (words s.mem (frameOf s.cr3) (pageOf a / 1024))

def faultThenFree (checkAddress : Machine → Word → Bool) (k : Nat) (a : Word) (s : Machine) :
    Option Machine :=
  (handleFault checkAddress k a s).bind (freePage (a / pageSize))

/-- `t` has the pools of `s`, and maps every virtual page as `s` does. -/
structure Restored (s t : Machine) : Prop where
  pools : t.pools = s.pools
  translates : ∀ va, Mmu.translate t.mem t.cr3 va = Mmu.translate s.mem s.cr3 va

/-- A fault and a free of the same page undo each other, unless the handler stops
because the pool has no frame, and a free of an absent page does nothing. -/
structure Undoes (checkAddress : Machine → Word → Bool) (k : Nat) (s : Machine) : Prop where
  restores : ∀ a : Word, 0x400000 ≤ a.toNat → a.toNat < 0xFFC00000 → checkAddress s a = true →
    Mmu.translate s.mem s.cr3 a = none → HasTable s a →
      if s.getFrame k = none then handleFault checkAddress k a s = none
      else ∃ t, faultThenFree checkAddress k a s = some t ∧ Restored s t
  unchanged : ∀ pageNo : Word, pageNo.toNat < 2 ^ 20 →
    lookup (words s.mem) (frameOf s.cr3) pageNo.toNat = none → freePage pageNo s = some s

inductive ClientOp where
  | page (op : PageOp)
  | store (a : Word) (b : Byte)

inductive ClientStep (checkAddress : Machine → Word → Bool) (k : Nat) :
    Machine → ClientOp → Machine → Prop
  | page {s t op} (hstep : Step checkAddress k s op t) : ClientStep checkAddress k s (.page op) t
  | store {s a b pa} (hlo : 0x400000 ≤ a.toNat) (hhi : a.toNat < 0xFFC00000)
      (hpa : Mmu.translate s.mem s.cr3 a = some pa) :
      ClientStep checkAddress k s (.store a b) { s with mem := Function.update s.mem pa b }

section

variable {checkAddress : Machine → Word → Bool} {s t : Machine} {p q : ContFramePool} {k : Nat}
  {a f : Word} {op : ClientOp}

theorem Good.clientStep (h : Good k p s)
    (hrange : p.baseFrameNo.toNat + p.nframes.toNat ≤ 2 ^ 20)
    (hstep : ClientStep checkAddress k s op t) : Good k p t := by
  cases hstep with
  | page hstep => exact (h.step hrange hstep).1
  | store hlo hhi hpa =>
      exact (h.writesPage (userPage_of_bounds hlo hhi) (lookup_of_translate hpa)
        (writesFrame_update s _ _)).1

/-- The frame that `get_frames(1)` took from the pool goes back, whatever pools there are. -/
theorem Holds.releaseFrames_getFrame {q' : ContFramePool} (h : Holds k p s q)
    (hrange : p.baseFrameNo.toNat + p.nframes.toNat ≤ 2 ^ 20)
    (hget : q.getFrames 1 = some (f, q')) : releaseFrames (s.pools.set k q') f = some s.pools := by
  have hq := h.range hrange
  have hfree := (ContFramePool.getFrames_one (by omega) hget).1
  refine releaseFrames_restores h.listed (fun j r hj hr => ?_)
    (h.separated.releaseFrame_getFrames (by omega) hget)
  refine h.earlier j r hj hr f ((manages_of_extent h.extent_eq f).mp ?_)
  exact (manages_iff (by omega) f).mpr ⟨hfree.1, hfree.2.1⟩

theorem pageNo_toNat (a : Word) : (a / pageSize).toNat = pageOf a := by
  rw [BitVec.toNat_udiv, pageSize_toNat, pageOf]

theorem HasTable.entry_absent (h : HasTable s a) (hnone : Mmu.translate s.mem s.cr3 a = none) :
    ¬ Present (words s.mem (frameOf (words s.mem (frameOf s.cr3) (pageOf a / 1024)))
      (pageOf a % 1024)) := by
  intro hp
  rw [translate_eq_none, lookup_of_present h, if_pos hp] at hnone
  cases hnone

/-- The handler only writes the entry of the page. -/
theorem Good.handleFault_page {u : Machine} (h : Good k p s) (haccept : checkAddress s a = true)
    (hnone : Mmu.translate s.mem s.cr3 a = none) (htable : HasTable s a)
    (hget : s.getFrame k = some (f, u)) :
    ∃ t, P4.handleFault checkAddress k a s = some t ∧ SameRegisters u t ∧
      SetsWord (words s.mem) (words t.mem)
        (frameOf (words s.mem (frameOf s.cr3) (pageOf a / 1024))) (pageOf a % 1024)
        (entryOf f) := by
  have hpage := pageOf_lt a
  have hfirst := getFirst10Bits_toNat a
  have hmiddle := getMiddle10Bits_toNat a
  have habsent := htable.entry_absent hnone
  rw [HasTable, ← hfirst] at htable
  rw [← hfirst, ← hmiddle] at habsent ⊢
  obtain ⟨t, ht, hregs, hset⟩ :=
    providePage_absent h.self (by omega) (by omega) htable habsent hget
  refine ⟨t, ?_, hregs, hset⟩
  unfold P4.handleFault
  rw [haccept]
  show (P4.provideTable k (getFirst10Bits a) s).bind _ = _
  rw [provideTable_present h.self (by omega) htable]
  exact ht

theorem Good.handleFault_exhausted (h : Good k p s)
    (hnone : Mmu.translate s.mem s.cr3 a = none) (htable : HasTable s a)
    (hget : s.getFrame k = none) :
    P4.handleFault checkAddress k a s = none := by
  have hpage := pageOf_lt a
  have hfirst := getFirst10Bits_toNat a
  have hmiddle := getMiddle10Bits_toNat a
  have habsent := htable.entry_absent hnone
  rw [HasTable, ← hfirst] at htable
  rw [← hfirst, ← hmiddle] at habsent
  unfold P4.handleFault
  split
  · rfl
  · show (P4.provideTable k (getFirst10Bits a) s).bind _ = _
    rw [provideTable_present h.self (by omega) htable]
    exact providePage_exhausted h.self (by omega) (by omega) htable habsent hget

theorem Good.faultThenFree {u : Machine} (h : Good k p s)
    (hrange : p.baseFrameNo.toNat + p.nframes.toNat ≤ 2 ^ 20) (ha : UserPage (pageOf a))
    (haccept : checkAddress s a = true) (hnone : Mmu.translate s.mem s.cr3 a = none)
    (htable : HasTable s a) (hget : s.getFrame k = some (f, u)) :
    ∃ t, faultThenFree checkAddress k a s = some t ∧ Restored s t := by
  obtain ⟨q, hq⟩ := h.holds
  obtain ⟨hf, -, -⟩ := hq.getFrame hrange hget
  obtain ⟨v, hv, hregs, hset⟩ := h.handleFault_page haccept hnone htable hget
  obtain ⟨hgood, hcr3, -, -⟩ := h.handleFault hrange ha.1 ha.2 hv
  have hmod : pageOf a % 1024 < 1024 := Nat.mod_lt _ (by decide)
  have hapart : frameOf (words s.mem (frameOf s.cr3) (pageOf a / 1024)) ≠ frameOf s.cr3 :=
    hq.tree.dir_apart _ (by have := ha.2; omega) htable
  have hdir : words v.mem (frameOf s.cr3) (pageOf a / 1024) =
      words s.mem (frameOf s.cr3) (pageOf a / 1024) :=
    hset.dir_eq (frameOf_lt _) hapart (by have := pageOf_lt a; omega)
  -- the page is mapped to the frame, which goes back to its pool
  have hentry := hset.written (frameOf_lt _) hmod
  have hmapped : lookup (words v.mem) (frameOf v.cr3) (a / pageSize).toNat = some f.toNat := by
    rw [pageNo_toNat, hcr3, lookup_of_present (by rwa [hdir]), hdir, hentry,
      if_pos (present_entryOf hf), frameOf_entryOf hf]
  obtain ⟨q₁, q', hk, hone, rfl⟩ := getFrame_eq hget
  cases Option.some.inj (hk.symm.trans hq.listed)
  have hrelease : releaseFrames v.pools (BitVec.ofNat 32 f.toNat) = some s.pools := by
    rw [hregs.pools_eq, BitVec.ofNat_toNat, BitVec.setWidth_eq]
    exact hq.releaseFrames_getFrame hrange hone
  obtain ⟨-, t, ht, hregs', hset'⟩ :=
    freePage_present hgood.self (by rw [pageNo_toNat]; exact pageOf_lt a) hmapped hrelease
  refine ⟨t, ?_, hregs'.pools_eq, fun va => ?_⟩
  · rw [P4.faultThenFree, hv]
    exact ht
  -- both writes are to the entry of the page
  · rw [pageNo_toNat, hcr3, hdir] at hset'
    have hcr3' : t.cr3 = s.cr3 := hregs'.cr3_eq.trans hcr3
    rw [Mmu.translate, Mmu.translate, hcr3', (hset.trans hset').lookup_absent (frameOf_lt _) hapart
      (htable.entry_absent hnone) not_present_absentEntry (pageOf_lt va)]

theorem Good.undoes (h : Good k p s)
    (hrange : p.baseFrameNo.toNat + p.nframes.toNat ≤ 2 ^ 20) : Undoes checkAddress k s := by
  refine ⟨fun a hlo hhi haccept hnone htable => ?_, fun pageNo => freePage_absent h.self⟩
  cases hget : s.getFrame k with
  | none =>
      rw [if_pos rfl]
      exact h.handleFault_exhausted hnone htable hget
  | some r =>
      rw [if_neg (Option.some_ne_none r)]
      exact h.faultThenFree hrange (userPage_of_bounds hlo hhi) haccept hnone htable hget

/-- From boot on, in every state that faults, freed pages and stores of the clients lead
to, a fault under a table that is there and a free undo each other, and both find the bitmap
of the pool in its place. -/
theorem fault_then_free {memory : PackedPairs.Bytes}
    {base n info nInfo holeFirst holeSize pageDirectory : Word} {s₀ s₁ : Machine}
    {run : List (ClientOp × Machine)} (hinfo : info ≠ 0)
    (hplace : info.toNat + nInfo.toNat ≤ 1024)
    (hnew : ContFramePool.construct memory base n info nInfo = some q)
    (hlo : base.toNat ≤ holeFirst.toNat)
    (hhi : holeFirst.toNat + holeSize.toNat ≤ base.toNat + (roundUp4 n).toNat)
    (hmark : q.markInaccessible holeFirst holeSize = some p)
    (hrange : base.toNat + (roundUp4 n).toNat ≤ 2 ^ 20) (hp : s₀.pools[k]? = some p)
    (hearlier : ∀ j r, j < k → s₀.pools[j]? = some r → ∀ f, p.Manages f → ¬ r.Manages f)
    (hboot : P4.construct k s₀ = some (pageDirectory, s₁))
    (hrun : IsRun (ClientStep checkAddress k) (load s₁ pageDirectory) run) :
    EveryState (fun s => Undoes checkAddress k s ∧ BitmapSafe k (frames s) s)
      (load s₁ pageDirectory) run := by
  obtain ⟨hbase, hframes, hseparated, hbitmap, -⟩ :=
    booted_pool hinfo hplace hnew hlo hhi hmark hrange
  rw [← hbase, ← hframes] at hrange
  have hgood := Good.boot hp hseparated hrange hearlier hboot
  exact (everyState_of_step (fun _ _ _ hs hstep => hs.clientStep hrange hstep) hgood hrun).imp
    fun s hs => ⟨hs.undoes hrange, hs.bitmapSafe hbitmap⟩

end

theorem fault_then_free_sampleBoot : ∃ q p pageDirectory s₁ t,
    ContFramePool.construct (fun _ => 0) 1024 64 512 1 = some q ∧
      q.markInaccessible 1040 8 = some p ∧
      P4.construct 0 ⟨fun _ => 0, 0, [p]⟩ = some (pageDirectory, s₁) ∧
      handleFault (fun _ _ => true) 0 0x400000 (load s₁ pageDirectory) = some t ∧
      EveryState (fun s => Undoes (fun _ _ => true) 0 s ∧ BitmapSafe 0 (frames s) s)
        (load s₁ pageDirectory) [(ClientOp.page (.fault 0x400000), t)] := by
  obtain ⟨q, p, pageDirectory, s₁, hq, hp, hboot, hrange, hgood, hspare⟩ := sampleBoot_good
  obtain ⟨t, ht⟩ : ∃ t, P4.handleFault (fun _ _ => true) 0 0x400000 (load s₁ pageDirectory) =
      some t := hgood.handleFault_completes hrange (by decide) rfl hspare
  have hrun : IsRun (ClientStep (fun _ _ => true) 0) (load s₁ pageDirectory)
      [(ClientOp.page (.fault 0x400000), t)] :=
    ⟨.page (.fault (by decide) (by decide) rfl ht), trivial⟩
  exact ⟨q, p, pageDirectory, s₁, t, hq, hp, hboot, ht, fault_then_free (by decide) (by decide)
    hq (by decide) (by decide) hp (by decide) rfl (fun j _ hj => absurd hj (Nat.not_lt_zero j))
    hboot hrun⟩

end Paging.P4

end TeachingKernel
