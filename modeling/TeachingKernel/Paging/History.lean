import TeachingKernel.Lib.Runs
import TeachingKernel.Paging.Boot

/-!
# Faults and frees over whole runs

From the boot of P4 on, any sequence of page faults and freed pages keeps the
paging structures apart in the process pool, and each call changes the one page it
is made for.
-/

namespace TeachingKernel.Paging.P4

open FramePool ContFramePool Mmu Runs

inductive PageOp where
  | fault (a : Word)
  | free (pageNo : Word)

/-- The calls that return, on addresses between the first 4 MB and the window of the
last directory entry. -/
inductive Step (checkAddress : Machine → Word → Bool) (k : Nat) : Machine → PageOp → Machine → Prop
  | fault {s t a} (hlo : 0x400000 ≤ a.toNat) (hhi : a.toNat < 0xFFC00000)
      (haccept : checkAddress s a = true) (hrun : handleFault checkAddress k a s = some t) :
      Step checkAddress k s (.fault a) t
  | free {s t pageNo} (hlo : 1024 ≤ pageNo.toNat) (hhi : pageNo.toNat < 0xFFC00)
      (hrun : freePage pageNo s = some t) : Step checkAddress k s (.free pageNo) t

/-- The paging structures of a state. `hole` are the frames made inaccessible. -/
structure PagingInvariant (k : Nat) (hole : Nat → Prop) (s : Machine) : Prop where
  directory : SelfMapped s
  identity : ∀ va : Word, va.toNat < 0x400000 → translate s.mem s.cr3 va = some va
  distinct : ∀ o o' f, frames s o = some f → frames s o' = some f → o = o'
  pooled : ∀ o f, frames s o = some f → ∃ p, s.pools[k]? = some p ∧
    p.baseFrameNo.toNat ≤ f ∧ f < p.baseFrameNo.toNat + p.nframes.toNat ∧
    code p.bitmap (f - p.baseFrameNo.toNat) ≠ .free ∧ ¬ hole f
  bitmap : BitmapSafe k (frames s) s

def Spare (k : Nat) (s : Machine) : Prop :=
  ∃ f u g v, s.getFrame k = some (f, u) ∧ u.getFrame k = some (g, v)

/-- Unless the pool is exhausted, every call returns. -/
structure Completes (checkAddress : Machine → Word → Bool) (k : Nat) (s : Machine) : Prop where
  fault : ∀ a : Word, 0x400000 ≤ a.toNat → a.toNat < 0xFFC00000 → checkAddress s a = true →
    Spare k s → ∃ t, handleFault checkAddress k a s = some t
  free : ∀ pageNo : Word, 1024 ≤ pageNo.toNat → pageNo.toNat < 0xFFC00 →
    ∃ t, freePage pageNo s = some t

/-- A fault maps its page, if it was not mapped, and a free unmaps its page. The
translation of every other address of the range stays. -/
def ChangesOnePage (s : Machine) (op : PageOp) (t : Machine) : Prop :=
  match op with
  | .fault a => (translate t.mem t.cr3 a).isSome ∧
      ∀ va : Word, 0x400000 ≤ va.toNat → va.toNat < 0xFFC00000 →
        pageOf va ≠ pageOf a ∨ (translate s.mem s.cr3 a).isSome →
          translate t.mem t.cr3 va = translate s.mem s.cr3 va
  | .free pageNo => (∀ va : Word, pageOf va = pageNo.toNat → translate t.mem t.cr3 va = none) ∧
      ∀ va : Word, 0x400000 ≤ va.toNat → va.toNat < 0xFFC00000 → pageOf va ≠ pageNo.toNat →
        translate t.mem t.cr3 va = translate s.mem s.cr3 va

section

variable {checkAddress : Machine → Word → Bool} {s t : Machine} {p q : ContFramePool} {k : Nat}
  {op : PageOp} {hole : Nat → Prop}

/-- The bitmap lies in the first 4 MB, and the pool hands out none of its frames. -/
theorem Good.bitmapSafe (h : Good k p s) (hbitmap : p.extent.BitmapOutside) :
    BitmapSafe k (frames s) s := by
  obtain ⟨q, hq⟩ := h.holds
  intro q' hq' a ha
  cases hq.listed.symm.trans hq'
  rw [hq.extent_eq] at ha
  refine ⟨translate_self (h.identity _ (hbitmap.low a ha)), fun o ho => ?_⟩
  have hhead := (hq.owns.held o _ ho).head
  have hlo := hhead.1
  have hhi := hhead.2.1
  rw [base_of_extent hq.extent_eq] at hlo hhi
  rw [nframes_of_extent hq.extent_eq] at hhi
  rcases hbitmap.apart a ha with hbelow | habove
  · exact Nat.not_lt.mpr hlo hbelow
  · exact Nat.not_lt.mpr habove hhi

theorem Good.invariant (h : Good k p s) (hbitmap : p.extent.BitmapOutside)
    (hhole : ∀ g, hole g → p.Codes g .inaccessible) : PagingInvariant k hole s := by
  obtain ⟨q, hq⟩ := h.holds
  refine ⟨h.self, fun va hva => ?_, hq.owns.inj, fun o f ho => ⟨q, hq.listed, ?_⟩,
    h.bitmapSafe hbitmap⟩
  · exact translate_self (h.identity _ (by unfold pageOf; omega))
  · have hhead := (hq.owns.held o f ho).head
    refine ⟨hhead.1, hhead.2.1, ?_, fun hf => ?_⟩
    · rw [hhead.2.2]
      decide
    · cases hhead.unique (hq.inaccessible f (hhole f hf))

private theorem getFrame_of_pools {u v : Machine} (hpools : v.pools = u.pools)
    (h : ∃ g w, u.getFrame k = some (g, w)) : ∃ g w, v.getFrame k = some (g, w) := by
  obtain ⟨g, w, hget⟩ := h
  obtain ⟨p, p', hk, hone, -⟩ := getFrame_eq hget
  refine ⟨g, { v with pools := v.pools.set k p' }, ?_⟩
  rw [Machine.getFrame, hpools, hk, Option.bind_some, hone]
  rfl

theorem Good.provideTable_completes {pdi : Word} (h : Good k p s)
    (hrange : p.baseFrameNo.toNat + p.nframes.toNat ≤ 2 ^ 20) (hpdi : pdi.toNat < lastTable)
    (hspare : Spare k s) :
    ∃ t, P4.provideTable k pdi s = some t ∧ ∃ g w, t.getFrame k = some (g, w) := by
  obtain ⟨f, u, g, v, hget, hget'⟩ := hspare
  by_cases hp : Present (words s.mem (frameOf s.cr3) pdi.toNat)
  · exact ⟨s, provideTable_present h.self (by unfold lastTable at hpdi; omega) hp, f, u, hget⟩
  · obtain ⟨q, hq⟩ := h.holds
    obtain ⟨hf, hfresh, -⟩ := hq.getFrame hrange hget
    obtain ⟨t, ht, hregs, -⟩ :=
      provideTable_absent h.self hpdi hp hget hf (hfresh .directory <| congrArg some ·.symm)
    exact ⟨t, ht, getFrame_of_pools hregs.pools_eq ⟨g, v, hget'⟩⟩

/-- Providing a table fails only where a frame is missing. -/
theorem Good.exhausted_of_provideTable {pdi : Word} (h : Good k p s)
    (hrange : p.baseFrameNo.toNat + p.nframes.toNat ≤ 2 ^ 20) (hpdi : pdi.toNat < lastTable)
    (hnone : P4.provideTable k pdi s = none) : s.getFrame k = none := by
  by_contra hframe
  obtain ⟨⟨g, w⟩, hget⟩ := Option.ne_none_iff_exists'.mp hframe
  by_cases hp : Present (words s.mem (frameOf s.cr3) pdi.toNat)
  · rw [provideTable_present h.self (by unfold lastTable at hpdi; omega) hp] at hnone
    cases hnone
  · obtain ⟨q, hq⟩ := h.holds
    obtain ⟨hg, hfresh, -⟩ := hq.getFrame hrange hget
    obtain ⟨t, ht, -⟩ :=
      provideTable_absent h.self hpdi hp hget hg (hfresh .directory <| congrArg some ·.symm)
    cases hnone.symm.trans ht

theorem Good.exhausted_of_providePage {pdi pti : Word} (h : Good k p s) (hpdi : pdi.toNat < 1024)
    (hpti : pti.toNat < 1024) (hp : Present (words s.mem (frameOf s.cr3) pdi.toNat))
    (hnone : P4.providePage k pdi pti s = none) : s.getFrame k = none := by
  by_contra hframe
  obtain ⟨⟨g, w⟩, hget⟩ := Option.ne_none_iff_exists'.mp hframe
  by_cases hpte : Present (words s.mem (frameOf (words s.mem (frameOf s.cr3) pdi.toNat)) pti.toNat)
  · rw [providePage_present h.self hpdi hpti hp hpte] at hnone
    cases hnone
  · obtain ⟨t, ht, -⟩ := providePage_absent h.self hpdi hpti hp hpte hget
    cases hnone.symm.trans ht

theorem Good.handleFault_completes {a : Word} (h : Good k p s)
    (hrange : p.baseFrameNo.toNat + p.nframes.toNat ≤ 2 ^ 20) (hhi : pageOf a < 1024 * lastTable)
    (haccept : checkAddress s a = true) (hspare : Spare k s) :
    ∃ t, P4.handleFault checkAddress k a s = some t := by
  have hfirst := getFirst10Bits_toNat a
  have hmiddle := getMiddle10Bits_toNat a
  have hpdi : (getFirst10Bits a).toNat < lastTable := by omega
  have hpdi' : (getFirst10Bits a).toNat < 1024 := by unfold lastTable at hpdi; omega
  have hpti : (getMiddle10Bits a).toNat < 1024 := by omega
  obtain ⟨u, hu, g, w, hget⟩ := h.provideTable_completes hrange hpdi hspare
  obtain ⟨hgood, hcr3, hp, -⟩ := h.provideTable hrange hpdi hu
  rw [← hcr3] at hp
  obtain ⟨t, ht⟩ : ∃ t, P4.providePage k (getFirst10Bits a) (getMiddle10Bits a) u = some t :=
    Option.ne_none_iff_exists'.mp fun hnone => by
      have hempty := hgood.exhausted_of_providePage hpdi' hpti hp hnone
      rw [hget] at hempty
      cases hempty
  refine ⟨t, ?_⟩
  unfold P4.handleFault
  rw [haccept]
  show (P4.provideTable k (getFirst10Bits a) s >>= _) = _
  rw [hu]
  exact ht

theorem Good.completes (h : Good k p s)
    (hrange : p.baseFrameNo.toNat + p.nframes.toNat ≤ 2 ^ 20) : Completes checkAddress k s := by
  constructor
  · intro a _ hhi haccept hspare
    exact h.handleFault_completes hrange (by unfold pageOf lastTable; omega) haccept hspare
  · intro pageNo hlo hhi
    obtain ⟨t, ht, -⟩ := h.freePage hrange hlo (by unfold lastTable; omega)
    exact ⟨t, ht⟩

private theorem translate_congr {va : Word} (hcr3 : t.cr3 = s.cr3)
    (h : lookup (words t.mem) (frameOf s.cr3) (pageOf va) =
      lookup (words s.mem) (frameOf s.cr3) (pageOf va)) :
    translate t.mem t.cr3 va = translate s.mem s.cr3 va := by
  rw [Mmu.translate, Mmu.translate, hcr3, h]

theorem Good.step (h : Good k p s) (hrange : p.baseFrameNo.toNat + p.nframes.toNat ≤ 2 ^ 20)
    (hstep : Step checkAddress k s op t) : Good k p t ∧ ChangesOnePage s op t := by
  cases hstep with
  | @fault _ a hlo hhi haccept hrun =>
      obtain ⟨hgood, hcr3, hsome, hsame⟩ := h.handleFault hrange
        (show 1024 ≤ pageOf a by unfold pageOf; omega)
        (show pageOf a < 1024 * lastTable by unfold pageOf lastTable; omega) hrun
      refine ⟨hgood, ?_, fun va _ hva hother => translate_congr hcr3 (hsame _ ?_ ?_)⟩
      · rw [Mmu.translate, hcr3, Option.isSome_map]
        exact hsome
      · unfold pageOf lastTable
        omega
      · rintro ⟨hpage, hnone⟩
        rcases hother with hne | hmapped
        · exact hne hpage
        · rw [Mmu.translate, ← hpage, hnone] at hmapped
          cases hmapped
  | @free _ pageNo hlo hhi hrun =>
      obtain ⟨t', ht', hgood, hcr3, hnone, hsame⟩ :=
        h.freePage hrange hlo (by unfold lastTable; omega)
      cases hrun.symm.trans ht'
      refine ⟨hgood, fun va hpage => ?_, fun va _ hva hne => translate_congr hcr3 (hsame _ ?_ hne)⟩
      · rw [translate_eq_none, hcr3, hpage]
        exact hnone
      · unfold pageOf lastTable
        omega

/-- A pool that was only constructed and had one range made inaccessible. -/
theorem booted_pool {memory : PackedPairs.Bytes} {base n info nInfo holeFirst holeSize : Word}
    (hinfo : info ≠ 0) (hplace : info.toNat + nInfo.toNat ≤ 1024)
    (hnew : ContFramePool.construct memory base n info nInfo = some q)
    (hlo : base.toNat ≤ holeFirst.toNat)
    (hhi : holeFirst.toNat + holeSize.toNat ≤ base.toNat + (roundUp4 n).toNat)
    (hmark : q.markInaccessible holeFirst holeSize = some p)
    (hrange : base.toNat + (roundUp4 n).toNat ≤ 2 ^ 20) :
    p.baseFrameNo = base ∧ p.nframes = roundUp4 n ∧ p.Separated ∧ p.extent.BitmapOutside ∧
      ∀ f, holeFirst.toNat ≤ f → f < holeFirst.toNat + holeSize.toNat →
        p.Codes f .inaccessible := by
  obtain ⟨-, -, hext, -, hcodes⟩ := construct_outer hinfo hnew
  have hbase : q.baseFrameNo = base := congrArg Extent.baseFrameNo hext
  have hframes : q.nframes = roundUp4 n := congrArg Extent.nframes hext
  have hsub := toNat_sub_of_le hlo
  obtain ⟨hext', -, hcodes'⟩ := markInaccessible_spec
    (by rw [hbase, hframes]; omega) hmark
  have hbase' := (base_of_extent hext').trans hbase
  have hframes' := (nframes_of_extent hext').trans hframes
  have hbitmap : p.extent.BitmapOutside := by
    rw [hext']
    exact bitmapOutside_of_construct hinfo hplace hrange hnew
  rw [hbase, hsub] at hcodes'
  refine ⟨hbase', hframes', fun g _ hrest => ?_, hbitmap, fun f h1 h2 => ⟨?_, ?_, ?_⟩⟩
  · obtain ⟨h1, h2, hcode⟩ := hrest
    rw [hframes', hbase'] at h2
    rw [hbase'] at h1
    rw [hbase', hcodes'] at hcode
    split at hcode
    · cases hcode
    · rw [hcodes _ (by omega)] at hcode
      cases hcode
  · rw [hbase']
    omega
  · rw [hbase', hframes']
    omega
  · rw [hbase', hcodes', if_pos (by omega)]

/-- From boot on, every run of faults and frees keeps the paging structures apart in
frames of the pool, and every call changes its own page only. -/
theorem paging_invariant {memory : PackedPairs.Bytes}
    {base n info nInfo holeFirst holeSize pageDirectory : Word} {s₀ s₁ : Machine}
    {run : List (PageOp × Machine)} (hinfo : info ≠ 0)
    (hplace : info.toNat + nInfo.toNat ≤ 1024)
    (hnew : ContFramePool.construct memory base n info nInfo = some q)
    (hlo : base.toNat ≤ holeFirst.toNat)
    (hhi : holeFirst.toNat + holeSize.toNat ≤ base.toNat + (roundUp4 n).toNat)
    (hmark : q.markInaccessible holeFirst holeSize = some p)
    (hrange : base.toNat + (roundUp4 n).toNat ≤ 2 ^ 20) (hp : s₀.pools[k]? = some p)
    (hearlier : ∀ j r, j < k → s₀.pools[j]? = some r → ∀ f, p.Manages f → ¬ r.Manages f)
    (hboot : P4.construct k s₀ = some (pageDirectory, s₁))
    (hrun : IsRun (Step checkAddress k) (load s₁ pageDirectory) run) :
    EveryState (fun s => PagingInvariant k
          (fun f => holeFirst.toNat ≤ f ∧ f < holeFirst.toNat + holeSize.toNat) s ∧
        Completes checkAddress k s) (load s₁ pageDirectory) run ∧
      EveryTransition ChangesOnePage (load s₁ pageDirectory) run := by
  obtain ⟨hbase, hframes, hseparated, hbitmap, hhole⟩ :=
    booted_pool hinfo hplace hnew hlo hhi hmark hrange
  rw [← hbase, ← hframes] at hrange
  have hgood := Good.boot hp hseparated hrange hearlier hboot
  constructor
  · exact (everyState_of_step (fun _ _ _ hs hstep => (hs.step hrange hstep).1) hgood hrun).imp
      fun s hs => ⟨hs.invariant hbitmap fun f hf => hhole f hf.1 hf.2, hs.completes hrange⟩
  · exact everyTransition_of_step (fun _ _ _ hs hstep => hs.step hrange hstep) hgood hrun

end

def sampleBoot : Option Unit := do
  let q ← ContFramePool.construct (fun _ => 0) 1024 64 512 1
  let p ← q.markInaccessible 1040 8
  let r ← P4.construct 0 ⟨fun _ => 0, 0, [p]⟩
  let x ← (load r.2 r.1).getFrame 0
  let _ ← x.2.getFrame 0
  some ()

theorem sampleBoot_good : ∃ q p pageDirectory s₁,
    ContFramePool.construct (fun _ => 0) 1024 64 512 1 = some q ∧
      q.markInaccessible 1040 8 = some p ∧
      P4.construct 0 ⟨fun _ => 0, 0, [p]⟩ = some (pageDirectory, s₁) ∧
      p.baseFrameNo.toNat + p.nframes.toNat ≤ 2 ^ 20 ∧ Good 0 p (load s₁ pageDirectory) ∧
      Spare 0 (load s₁ pageDirectory) := by
  have h : sampleBoot = some () := by decide +kernel
  simp only [sampleBoot, Option.bind_eq_bind, Option.bind_eq_some_iff] at h
  obtain ⟨q, hq, p, hp, ⟨pageDirectory, s₁⟩, hboot, ⟨f, u⟩, hget, ⟨g, v⟩, hget', -⟩ := h
  obtain ⟨hbase, hframes, hseparated, -⟩ :=
    booted_pool (by decide) (by decide) hq (by decide) (by decide) hp (by decide)
  have hrange : p.baseFrameNo.toNat + p.nframes.toNat ≤ 2 ^ 20 := by
    rw [hbase, hframes]
    decide
  exact ⟨q, p, pageDirectory, s₁, hq, hp, hboot, hrange,
    Good.boot rfl hseparated hrange (fun j _ hj => absurd hj (Nat.not_lt_zero j)) hboot,
    f, u, g, v, hget, hget'⟩

theorem paging_invariant_sampleBoot : ∃ q p pageDirectory s₁ run,
    ContFramePool.construct (fun _ => 0) 1024 64 512 1 = some q ∧
      q.markInaccessible 1040 8 = some p ∧
      P4.construct 0 ⟨fun _ => 0, 0, [p]⟩ = some (pageDirectory, s₁) ∧
      run.map Prod.fst = [.fault 0x400000, .free 1024] ∧
      EveryState (fun s => PagingInvariant 0
            (fun f => (1040 : Word).toNat ≤ f ∧ f < (1040 : Word).toNat + (8 : Word).toNat) s ∧
          Completes (fun _ _ => true) 0 s) (load s₁ pageDirectory) run ∧
        EveryTransition ChangesOnePage (load s₁ pageDirectory) run := by
  obtain ⟨q, p, pageDirectory, s₁, hq, hp, hboot, hrange, hgood, hspare⟩ := sampleBoot_good
  obtain ⟨t, ht⟩ : ∃ t, P4.handleFault (fun _ _ => true) 0 0x400000 (load s₁ pageDirectory) =
      some t := hgood.handleFault_completes hrange (by decide) rfl hspare
  have hfault : Step (fun _ _ => true) 0 (load s₁ pageDirectory) (.fault 0x400000) t :=
    .fault (by decide) (by decide) rfl ht
  obtain ⟨t', ht', -⟩ := (hgood.step hrange hfault).1.freePage hrange
    (show 1024 ≤ (1024 : Word).toNat by decide) (by decide)
  have hrun : IsRun (Step (fun _ _ => true) 0) (load s₁ pageDirectory)
      [(.fault 0x400000, t), (.free 1024, t')] :=
    ⟨hfault, .free (by decide) (by decide) ht', trivial⟩
  exact ⟨q, p, pageDirectory, s₁, _, hq, hp, hboot, rfl, paging_invariant (by decide)
    (by decide) hq (by decide) (by decide) hp (by decide) rfl
    (fun j _ hj => absurd hj (Nat.not_lt_zero j)) hboot hrun⟩

end TeachingKernel.Paging.P4
