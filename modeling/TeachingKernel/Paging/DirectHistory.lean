import TeachingKernel.Lib.Runs
import TeachingKernel.Paging.Boot
import TeachingKernel.Paging.DirectHandlers

/-!
# Page faults of P3 over whole runs

From the boot of P3 on, whatever addresses fault and in whatever order, the tables
lie in kernel frames of their own and the pages in process frames of their own, and
a fault changes the mapping of its page only.
-/

namespace TeachingKernel.Paging.P3

open FramePool ContFramePool Mmu Runs

def Step (kernel process : Nat) (s : Machine) (a : Word) (t : Machine) : Prop :=
  handleFault kernel process s.cr3 a s = some t

/-- The paging structures of a state. `hole` are the inaccessible frames of the process
pool. -/
structure PagingInvariant (kernel process : Nat) (hole : Nat → Prop) (s : Machine) : Prop where
  identity : ∀ va : Word, va.toNat < 0x400000 → translate s.mem s.cr3 va = some va
  tables_distinct : ∀ o o' f,
    structural (frames s) o = some f → structural (frames s) o' = some f → o = o'
  tables_pooled : ∀ o f, structural (frames s) o = some f → ∃ p, s.pools[kernel]? = some p ∧
    p.baseFrameNo.toNat ≤ f ∧ f < p.baseFrameNo.toNat + p.nframes.toNat ∧
    code p.bitmap (f - p.baseFrameNo.toNat) ≠ .free
  tables_addressable : ∀ o f, structural (frames s) o = some f →
    ∀ pa, pageOf pa = f → translate s.mem s.cr3 pa = some pa
  pages_distinct : ∀ va va' pa pa' : Word, 0x400000 ≤ va.toNat → 0x400000 ≤ va'.toNat →
    translate s.mem s.cr3 va = some pa → translate s.mem s.cr3 va' = some pa' →
    pageOf va ≠ pageOf va' → pageOf pa ≠ pageOf pa'
  pages_pooled : ∀ va pa : Word, 0x400000 ≤ va.toNat → translate s.mem s.cr3 va = some pa →
    ∃ p, s.pools[process]? = some p ∧ p.baseFrameNo.toNat ≤ pageOf pa ∧
      pageOf pa < p.baseFrameNo.toNat + p.nframes.toNat ∧
      code p.bitmap (pageOf pa - p.baseFrameNo.toNat) ≠ .free ∧ ¬ hole (pageOf pa)
  kernel_bitmap : BitmapSafe kernel (frames s) s
  process_bitmap : BitmapSafe process (frames s) s

def Completes (kernel process : Nat) (s : Machine) : Prop :=
  (s.getFrame kernel).isSome → (s.getFrame process).isSome →
    ∀ a, ∃ t, handleFault kernel process s.cr3 a s = some t

/-- The page of `a` becomes present, every page that was present stays as it was, and no
other page becomes present. -/
structure ProvidesPage (s : Machine) (a : Word) (t : Machine) : Prop where
  present : (translate t.mem t.cr3 a).isSome
  kept : ∀ va, (translate s.mem s.cr3 va).isSome →
    translate t.mem t.cr3 va = translate s.mem s.cr3 va
  others : ∀ va, pageOf va ≠ pageOf a → translate t.mem t.cr3 va = translate s.mem s.cr3 va

section

variable {s t : Machine} {kernel process : Nat} {p pk pp : ContFramePool} {a : Word}

theorem Good.page_use {va pa : Word} (hva : 0x400000 ≤ va.toNat)
    (h : translate s.mem s.cr3 va = some pa) :
    mapped (frames s) (.page (pageOf va)) = some (pageOf pa) :=
  (frameUses_page (by unfold pageOf; omega) (pageOf_lt va)).trans (lookup_of_translate h)

theorem Good.invariant (h : Good kernel process pk pp s) (hplaced : Placed kernel process pk pp) :
    PagingInvariant kernel process (fun g => pp.Codes g .inaccessible) s := by
  obtain ⟨q, hq⟩ := h.tables
  obtain ⟨r, hr⟩ := h.pages
  have hlow := hplaced.kernel_low
  refine ⟨fun va hva => ?_, hq.owns.inj, fun o f ho => ?_, fun o f ho pa hpa => ?_,
    fun va va' pa pa' hva hva' hpa hpa' hne heq => ?_, fun va pa hva hpa => ?_,
    (h.bitmapSafe hplaced).1, (h.bitmapSafe hplaced).2⟩
  · exact translate_self (h.identity _ (by unfold pageOf; omega))
  · have hhead := hq.owns.held o f ho
    refine ⟨q, hq.listed, hhead.1, hhead.2.1, ?_⟩
    rw [hhead.2.2]
    decide
  · have hf := (hq.in_pool ho).2
    exact translate_self (h.identity _ (by omega))
  · have huse := Good.page_use hva hpa
    rw [heq] at huse
    exact hne (FrameUse.page.inj (hr.owns.inj _ _ _ huse (Good.page_use hva' hpa')))
  · have hhead := hr.owns.held _ _ (Good.page_use hva hpa)
    refine ⟨r, hr.listed, hhead.1, hhead.2.1, ?_, fun hhole => ?_⟩
    · rw [hhead.2.2]
      decide
    · cases hhead.unique (hr.kept _ (by decide) _ hhole)

theorem Good.step (h : Good kernel process pk pp s) (hplaced : Placed kernel process pk pp)
    (hstep : Step kernel process s a t) : Good kernel process pk pp t ∧ ProvidesPage s a t := by
  obtain ⟨hgood, hcr3, hsome, hsame⟩ := h.handleFault hplaced hstep
  have hkept : ∀ va, ¬ (pageOf va = pageOf a ∧
      lookup (words s.mem) (frameOf s.cr3) (pageOf va) = none) →
      translate t.mem t.cr3 va = translate s.mem s.cr3 va := by
    intro va hva
    rw [Mmu.translate, Mmu.translate, hcr3, hsame _ (pageOf_lt va) hva]
  refine ⟨hgood, ?_, fun va hva => hkept va ?_, fun va hne => hkept va fun hc => hne hc.1⟩
  · rw [Mmu.translate, hcr3, Option.isSome_map]
    exact hsome
  · rintro ⟨-, hnone⟩
    rw [translate_eq_none.mpr hnone] at hva
    cases hva

end

/-! ## Boot -/

section

variable {s t : Machine} {kernel process : Nat} {p pk pp : ContFramePool} {pageDirectory : Word}

theorem writeTables_spec {d f : Word} (hd : d.toNat < 2 ^ 20) (hf : f.toNat < 2 ^ 20) :
    SameRegisters s (writeTables (4096 * d) (4096 * f) s) ∧ ∀ g < 2 ^ 20, ∀ j < 1024,
      words (writeTables (4096 * d) (4096 * f) s).mem g j =
        if g = d.toNat ∧ 1 ≤ j ∧ j < 1024 then absentEntry
        else if g = d.toNat ∧ j = 0 then entryOf f
        else if g = f.toNat then entryOf (BitVec.ofNat 32 j) else words s.mem g j := by
  unfold writeTables
  dsimp only
  obtain ⟨hregs₁, hw₁⟩ := fillFirstTable_spec (s := s) hf
  generalize fillFirstTable (4096 * f) s = t₁ at hregs₁ hw₁ ⊢
  obtain ⟨hregs₂, hw₂⟩ := setFirstEntry_spec (s := t₁) (f := f) hd
  generalize setFirstEntry (4096 * d) (4096 * f) t₁ = t₂ at hregs₂ hw₂ ⊢
  obtain ⟨hregs₃, hw₃⟩ := emptyEntries_spec (s := t₂) 1 1024 hd (by decide) (by decide)
  refine ⟨hregs₁.trans (hregs₂.trans hregs₃), fun g hg j hj => ?_⟩
  rw [← hw₁ g hg j hj, ← hw₂ g hg j hj]
  exact hw₃ g hg j hj

structure FirstTables (t : Machine) (d f : Nat) : Prop where
  first : frameOf (words t.mem d 0) = f ∧ Present (words t.mem d 0)
  absent : ∀ j, 1 ≤ j → j < 1024 → ¬ Present (words t.mem d j)
  identity : ∀ j < 1024, frameOf (words t.mem f j) = j ∧ Present (words t.mem f j)

theorem writeTables_first {d f : Word} (hd : d.toNat < 2 ^ 20) (hf : f.toNat < 2 ^ 20)
    (hne : f.toNat ≠ d.toNat) :
    FirstTables (writeTables (4096 * d) (4096 * f) s) d.toNat f.toNat := by
  obtain ⟨-, hwords⟩ := writeTables_spec (s := s) hd hf
  generalize writeTables (4096 * d) (4096 * f) s = t at hwords ⊢
  refine ⟨?_, fun j h1 h2 => ?_, fun j hj => ?_⟩
  · rw [hwords _ hd 0 (by decide), if_neg (by omega), if_pos ⟨rfl, rfl⟩]
    exact ⟨frameOf_entryOf hf, present_entryOf hf⟩
  · rw [hwords _ hd j h2, if_pos ⟨rfl, h1, h2⟩]
    exact not_present_absentEntry
  · have hj32 : (BitVec.ofNat 32 j : Word).toNat = j := toNat_ofNat_of_lt (by omega)
    rw [hwords _ hf j hj, if_neg fun hc => hne hc.1, if_neg fun hc => hne hc.1, if_pos rfl]
    exact ⟨(frameOf_entryOf (by omega)).trans hj32, present_entryOf (by omega)⟩

theorem construct_frames (hplaced : Placed kernel process pk pp) (hk : s.pools[kernel]? = some pk)
    (hrun : construct kernel s = some (pageDirectory, t)) :
    ∃ d f p₁ p₂, d.toNat < 2 ^ 20 ∧ f.toNat < 2 ^ 20 ∧ f.toNat ≠ d.toNat ∧
      Holds kernel pk (fun o => if o = .directory then some d.toNat else none)
        { s with pools := s.pools.set kernel p₁ } p₁ ∧
      p₁.Codes f.toNat .free ∧ Recodes p₁ p₂ f.toNat .head ∧ pageDirectory = 4096 * d ∧
      t = writeTables (4096 * d) (4096 * f)
        { s with pools := (s.pools.set kernel p₁).set kernel p₂ } := by
  obtain ⟨⟨d, s₁⟩, hd, hrun⟩ := Option.bind_eq_some_iff.mp hrun
  obtain ⟨⟨f, s₂⟩, hf, hrun⟩ := Option.bind_eq_some_iff.mp hrun
  obtain ⟨hpd, ht⟩ := Prod.mk.inj (Option.some.inj hrun)
  have hlow := hplaced.kernel_low
  have hzero : Holds kernel pk (fun _ => none) s pk := Holds.none hk
  obtain ⟨hdlt, -, p₁, hfree, hrecodes, rfl⟩ := hzero.getFrame (by omega) hd
  have hone : Holds kernel pk (fun o => if o = .directory then some d.toNat else none) _ p₁ :=
    hzero.grant (t := { s with pools := s.pools.set kernel p₁ }) hfree hrecodes rfl fun _ => rfl
  obtain ⟨hflt, hfresh, p₂, hfree', hrecodes', rfl⟩ := hone.getFrame (by omega) hf
  have hne : f.toNat ≠ d.toNat := fun heq => hfresh .directory (congrArg some heq.symm)
  exact ⟨d, f, p₁, p₂, by omega, by omega, hne, hone, hfree', hrecodes', hpd.symm, ht.symm⟩

theorem Good.boot (hplaced : Placed kernel process pk pp) (hk : s.pools[kernel]? = some pk)
    (hp : s.pools[process]? = some pp) (hrun : construct kernel s = some (pageDirectory, t)) :
    Good kernel process pk pp (load t pageDirectory) := by
  obtain ⟨d, f, p₁, p₂, hd20, hf20, hne, hone, hfree', hrecodes', hpd, ht⟩ :=
    construct_frames hplaced hk hrun
  have hzero' : Holds process pp (fun _ => none) s pp := Holds.none hp
  have hone' := hzero'.other (t := { s with pools := s.pools.set kernel p₁ }) hplaced.apart rfl
    fun _ => rfl
  have hframe : frameOf pageDirectory = d.toNat := by rw [hpd, frameOf_frame hd20]
  obtain ⟨hregs, -⟩ := writeTables_spec (d := d) (f := f)
    (s := { s with pools := (s.pools.set kernel p₁).set kernel p₂ }) hd20 hf20
  have htables := writeTables_first (d := d) (f := f)
    (s := { s with pools := (s.pools.set kernel p₁).set kernel p₂ }) hd20 hf20 hne
  rw [← ht] at hregs htables
  have huses : ∀ o, frames (load t pageDirectory) o =
      if o = .table 0 then some f.toNat else if o = .directory then some d.toNat else none := by
    intro o
    rw [← hframe] at htables ⊢
    exact frameUses_first (by decide) htables.absent htables.first.2 htables.first.1 o
  refine ⟨?_, fun v hv => ?_, ⟨p₂, hone.grant (x := .table 0) hfree' hrecodes' hregs.pools_eq
      fun o => ?_⟩,
    ⟨pp, hone'.other hplaced.apart hregs.pools_eq fun o => ?_⟩⟩
  · show pageDirectory = 4096 * BitVec.ofNat 32 (frameOf pageDirectory)
    rw [hframe, BitVec.ofNat_toNat, BitVec.setWidth_eq]
    exact hpd
  · show lookup (words t.mem) (frameOf pageDirectory) v = some v
    rw [hframe]
    exact lookup_first htables.first.2 htables.first.1 htables.identity hv
  · cases o with
    | page v => simp [structural]
    | _ => exact huses _
  · cases o with
    | page v => exact (huses _).trans (by simp)
    | _ => rfl

/-- From boot on, every run of faults keeps the tables apart in the kernel pool and the
pages apart in the process pool, and every fault provides its page only. -/
theorem tables_and_pages_apart {s₀ s₁ : Machine} {run : List (Word × Machine)}
    (hplaced : Placed kernel process pk pp) (hk : s₀.pools[kernel]? = some pk)
    (hp : s₀.pools[process]? = some pp)
    (hboot : construct kernel s₀ = some (pageDirectory, s₁))
    (hrun : IsRun (Step kernel process) (load s₁ pageDirectory) run) :
    EveryState (fun s => PagingInvariant kernel process (fun g => pp.Codes g .inaccessible) s ∧
        Completes kernel process s) (load s₁ pageDirectory) run ∧
      EveryTransition ProvidesPage (load s₁ pageDirectory) run := by
  have hgood := Good.boot hplaced hk hp hboot
  constructor
  · exact (everyState_of_step (fun _ _ _ hs hstep => (hs.step hplaced hstep).1) hgood hrun).imp
      fun s hs => ⟨hs.invariant hplaced, fun h h' a => hs.handleFault_completes hplaced h h'⟩
  · exact everyTransition_of_step (fun _ _ _ hs hstep => hs.step hplaced hstep) hgood hrun

end

/-- Two pools of 64 frames, from 2 MB and from 4 MB on. The bitmap of the second one lies in
a frame taken from the first one, and eight of its frames are a hole. Booted, and one more
frame taken from each. -/
def sampleBoot : Option Unit := do
  let k ← ContFramePool.construct (fun _ => 0) 512 64 0 0
  let (f, pk) ← k.getFrames 1
  let q ← ContFramePool.construct (fun _ => 0) 1024 64 f 1
  let pp ← q.markInaccessible 1040 8
  let r ← P3.construct 0 ⟨fun _ => 0, 0, [pk, pp]⟩
  let _ ← (load r.2 r.1).getFrame 0
  let _ ← (load r.2 r.1).getFrame 1
  if pk.extent = ⟨512 * pageSize, 512, 64, 0, 1⟩ ∧ pp.extent = ⟨513 * pageSize, 1024, 64, 513, 1⟩ ∧
    code pk.bitmap 0 ≠ .free ∧ code pk.bitmap 1 ≠ .free then some ()
  else none

theorem frame_of_sampleBitmap {e : Extent} {f a : Word} (haddr : e.bitmapAddr = f * pageSize)
    (hsize : e.nframes = 64) (hf : f.toNat < 1024) (ha : e.BitmapAt a) : pageOf a = f.toNat := by
  obtain ⟨c, hc, rfl⟩ := ha
  rw [hsize, show (64 : Word).toNat = 64 from rfl] at hc
  have hc32 : (BitVec.ofNat 32 c : Word).toNat = c := toNat_ofNat_of_lt (by omega)
  rw [pageOf, Extent.byteAddr, haddr, BitVec.toNat_add, BitVec.toNat_mul, pageSize_toNat, hc32]
  omega

theorem placed_of_sampleExtents {pk pp : ContFramePool}
    (hkext : pk.extent = ⟨512 * pageSize, 512, 64, 0, 1⟩)
    (hpext : pp.extent = ⟨513 * pageSize, 1024, 64, 513, 1⟩) (hzero : code pk.bitmap 0 ≠ .free)
    (hone : code pk.bitmap 1 ≠ .free) : Placed 0 1 pk pp := by
  have hkbase : pk.baseFrameNo = 512 := congrArg Extent.baseFrameNo hkext
  have hksize : pk.nframes = 64 := congrArg Extent.nframes hkext
  have hpbase : pp.baseFrameNo = 1024 := congrArg Extent.baseFrameNo hpext
  have hpsize : pp.nframes = 64 := congrArg Extent.nframes hpext
  have hkframe : ∀ a, pk.extent.BitmapAt a → pageOf a = 512 := fun a ha =>
    frame_of_sampleBitmap (f := 512) (hkext ▸ rfl) (hkext ▸ rfl) (by decide) ha
  have hpframe : ∀ a, pp.extent.BitmapAt a → pageOf a = 513 := fun a ha =>
    frame_of_sampleBitmap (f := 513) (hpext ▸ rfl) (hpext ▸ rfl) (by decide) ha
  -- frames 512 and 513 are used in the first pool and no frames of the second one
  refine ⟨by decide, ?_, ?_, fun a ha => ?_, fun a ha ha' => ?_⟩
  · rw [hkbase, hksize]
    decide
  · rw [hpbase, hpsize]
    decide
  · rcases ha with ha | ha
    · rw [hkframe a ha]
      refine ⟨by decide, fun hc => hzero ?_, fun hc => ?_⟩
      · have hcode := hc.2.2
        rwa [hkbase] at hcode
      · have hlo := hc.1
        rw [hpbase] at hlo
        exact absurd hlo (by decide)
    · rw [hpframe a ha]
      refine ⟨by decide, fun hc => hone ?_, fun hc => ?_⟩
      · have hcode := hc.2.2
        rwa [hkbase] at hcode
      · have hlo := hc.1
        rw [hpbase] at hlo
        exact absurd hlo (by decide)
  · have := hkframe a ha
    have := hpframe a ha'
    omega

theorem sampleBoot_good : ∃ k f pk q pp pageDirectory s₁,
    ContFramePool.construct (fun _ => 0) 512 64 0 0 = some k ∧ k.getFrames 1 = some (f, pk) ∧
      ContFramePool.construct (fun _ => 0) 1024 64 f 1 = some q ∧
      q.markInaccessible 1040 8 = some pp ∧
      construct 0 ⟨fun _ => 0, 0, [pk, pp]⟩ = some (pageDirectory, s₁) ∧ Placed 0 1 pk pp ∧
      pp.baseFrameNo = 1024 ∧ Good 0 1 pk pp (load s₁ pageDirectory) ∧
      ((load s₁ pageDirectory).getFrame 0).isSome ∧
      ((load s₁ pageDirectory).getFrame 1).isSome := by
  have h : sampleBoot = some () := by decide +kernel
  simp only [sampleBoot, Option.bind_eq_bind, Option.bind_eq_some_iff] at h
  obtain ⟨k, hnew, ⟨f, pk⟩, hk, q, hq, pp, hp, ⟨pageDirectory, s₁⟩, hboot, fk, hget, fp, hget',
    h⟩ := h
  split at h
  · rename_i hpools
    obtain ⟨hkext, hpext, hzero, hone⟩ := hpools
    have hpbase : pp.baseFrameNo = 1024 := congrArg Extent.baseFrameNo hpext
    have hplaced := placed_of_sampleExtents hkext hpext hzero hone
    exact ⟨k, f, pk, q, pp, pageDirectory, s₁, hnew, hk, hq, hp, hboot, hplaced, hpbase,
      Good.boot hplaced rfl rfl hboot, by rw [hget]; rfl, by rw [hget']; rfl⟩
  · cases h

theorem tables_and_pages_apart_sampleBoot : ∃ k f pk q pp pageDirectory s₁ run,
    ContFramePool.construct (fun _ => 0) 512 64 0 0 = some k ∧ k.getFrames 1 = some (f, pk) ∧
      ContFramePool.construct (fun _ => 0) 1024 64 f 1 = some q ∧
      q.markInaccessible 1040 8 = some pp ∧
      construct 0 ⟨fun _ => 0, 0, [pk, pp]⟩ = some (pageDirectory, s₁) ∧
      run.map Prod.fst = [0x12345678#32] ∧
      EveryState (fun s => PagingInvariant 0 1 (fun g => pp.Codes g .inaccessible) s ∧
          Completes 0 1 s) (load s₁ pageDirectory) run ∧
        EveryTransition ProvidesPage (load s₁ pageDirectory) run := by
  obtain ⟨k, f, pk, q, pp, pageDirectory, s₁, hnew, hk, hq, hp, hboot, hplaced, -, hgood, hget,
    hget'⟩ := sampleBoot_good
  obtain ⟨t, ht⟩ := hgood.handleFault_completes (a := 0x12345678#32) hplaced hget hget'
  exact ⟨k, f, pk, q, pp, pageDirectory, s₁, [(0x12345678#32, t)], hnew, hk, hq, hp, hboot, rfl,
    tables_and_pages_apart hplaced rfl rfl hboot ⟨ht, trivial⟩⟩

end TeachingKernel.Paging.P3
