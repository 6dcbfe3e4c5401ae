import TeachingKernel.Paging.Direct

/-!
# The handler of P3

Two pools feed the handler: the kernel pool holds the directory and the tables, the
process pool holds the pages. Each pool hands out a frame once, so the tables lie in
frames of their own and no two pages share a frame.
-/

namespace TeachingKernel.Paging.P3

open FramePool ContFramePool Mmu

def frames (s : Machine) : FrameUse → Option Nat := frameUses 1024 (words s.mem) (frameOf s.cr3)

/-- The kernel pool lies in the first 4 MB, the process pool in physical memory. The
bitmaps lie in the first 4 MB, apart from each other and in frames that neither pool has
free: the kernel pool reserves the frames of its own, and `main` takes those of the process
pool from it. -/
structure Placed (kernel process : Nat) (pk pp : ContFramePool) : Prop where
  apart : kernel ≠ process
  kernel_low : pk.baseFrameNo.toNat + pk.nframes.toNat ≤ 1024
  process_range : pp.baseFrameNo.toNat + pp.nframes.toNat ≤ 2 ^ 20
  bitmaps : ∀ a, pk.extent.BitmapAt a ∨ pp.extent.BitmapAt a →
    pageOf a < 1024 ∧ ¬ pk.Codes (pageOf a) .free ∧ ¬ pp.Codes (pageOf a) .free
  bitmaps_apart : Extent.BitmapsApart pk.extent pp.extent

structure Holds (k : Nat) (p : ContFramePool) (uses : FrameUse → Option Nat) (s : Machine)
    (q : ContFramePool) : Prop where
  listed : s.pools[k]? = some q
  extent_eq : q.extent = p.extent
  kept : ∀ c, c ≠ .free → ∀ g, p.Codes g c → q.Codes g c
  owns : Exclusive (fun g => q.Codes g .head) uses
  fresh : ∀ o g, uses o = some g → p.Codes g .free

structure Good (kernel process : Nat) (pk pp : ContFramePool) (s : Machine) : Prop where
  aligned : s.cr3 = 4096 * BitVec.ofNat 32 (frameOf s.cr3)
  identity : Identity s
  tables : ∃ q, Holds kernel pk (structural (frames s)) s q
  pages : ∃ q, Holds process pp (mapped (frames s)) s q

/-- The pages that the two states map differently are among `changed`. -/
def SameMapping (s t : Machine) (changed : Nat → Prop) : Prop :=
  ∀ v < 2 ^ 20, ¬ changed v →
    lookup (words t.mem) (frameOf s.cr3) v = lookup (words s.mem) (frameOf s.cr3) v

section

variable {s t u : Machine} {p q q' : ContFramePool} {k : Nat} {f : Word} {x : FrameUse}
  {uses uses' : FrameUse → Option Nat}

theorem Holds.in_pool {g : Nat} (h : Holds k p uses s q) (hx : uses x = some g) :
    p.baseFrameNo.toNat ≤ g ∧ g < p.baseFrameNo.toNat + p.nframes.toNat := by
  have hhead := h.owns.held x g hx
  rw [← base_of_extent h.extent_eq, ← nframes_of_extent h.extent_eq]
  exact ⟨hhead.1, hhead.2.1⟩

theorem Holds.getFrame (h : Holds k p uses s q)
    (hrange : p.baseFrameNo.toNat + p.nframes.toNat ≤ 2 ^ 20) (hget : s.getFrame k = some (f, u)) :
    f.toNat < p.baseFrameNo.toNat + p.nframes.toNat ∧ (∀ o, uses o ≠ some f.toNat) ∧
      ∃ q', q.Codes f.toNat .free ∧ Recodes q q' f.toNat .head ∧
        u = { s with pools := s.pools.set k q' } := by
  obtain ⟨q₁, q', hk, hone, rfl⟩ := getFrame_eq hget
  cases Option.some.inj (hk.symm.trans h.listed)
  rw [← base_of_extent h.extent_eq, ← nframes_of_extent h.extent_eq] at hrange ⊢
  obtain ⟨hfree, hrecodes⟩ := ContFramePool.getFrames_one (by omega) hone
  have hhi := hfree.2.1
  refine ⟨by omega, h.owns.unused fun hhead => ?_, q', hfree, hrecodes, rfl⟩
  cases hhead.unique hfree

/-- A frame that is free was free at boot. -/
theorem Holds.free_at_boot {g : Nat} (h : Holds k p uses s q) (hg : q.Codes g .free) :
    p.Codes g .free := by
  have hlo := hg.1
  have hhi := hg.2.1
  rw [base_of_extent h.extent_eq] at hlo hhi
  rw [nframes_of_extent h.extent_eq] at hhi
  cases hc : code p.bitmap (g - p.baseFrameNo.toNat) with
  | free => exact ⟨hlo, hhi, hc⟩
  | head => cases (h.kept .head (by decide) g ⟨hlo, hhi, hc⟩).unique hg
  | rest => cases (h.kept .rest (by decide) g ⟨hlo, hhi, hc⟩).unique hg
  | inaccessible => cases (h.kept .inaccessible (by decide) g ⟨hlo, hhi, hc⟩).unique hg

theorem Holds.none (hk : s.pools[k]? = some p) : Holds k p (fun _ => Option.none) s p :=
  ⟨hk, rfl, fun _ _ _ hg => hg, Exclusive.none, fun _ _ ho => by cases ho⟩

theorem Holds.grant (h : Holds k p uses s q) (hfree : q.Codes f.toNat .free)
    (hq : Recodes q q' f.toNat .head) (hpools : t.pools = s.pools.set k q')
    (huses : ∀ o, uses' o = if o = x then some f.toNat else uses o) : Holds k p uses' t q' := by
  have hkept : ∀ c, c ≠ .free → ∀ g, q.Codes g c → q'.Codes g c := by
    intro c hc g hg
    refine (hq.codes_iff hfree.1 ?_).mpr hg
    rintro rfl
    exact hc (hg.unique hfree)
  refine ⟨?_, hq.extent_eq.trans h.extent_eq,
    fun c hc g hg => hkept c hc g (h.kept c hc g hg),
    h.owns.add (fun hhead => ?_) (hq.codes_self hfree) (hkept _ (by decide)) huses,
    fun o g ho => ?_⟩
  · rw [hpools, List.getElem?_set, if_pos rfl, if_pos (List.getElem?_eq_some_iff.mp h.listed).1]
  · cases hhead.unique hfree
  · rw [huses] at ho
    split at ho
    · cases ho
      exact h.free_at_boot hfree
    · exact h.fresh o g ho

structure TakesFrame (k : Nat) (p : ContFramePool) (uses : FrameUse → Option Nat) (s t : Machine)
    (f : Word) : Prop where
  lt : f.toNat < p.baseFrameNo.toNat + p.nframes.toNat
  fresh : ∀ o, uses o ≠ some f.toNat
  cr3_eq : t.cr3 = s.cr3
  granted : ∃ q q', Holds k p uses s q ∧ q.Codes f.toNat .free ∧ Recodes q q' f.toNat .head ∧
    t.pools = s.pools.set k q'

theorem unused_of_structural {g : Nat} (h : ∀ o, structural (frames s) o ≠ some g) :
    Unused 1024 (words s.mem) (frameOf s.cr3) g :=
  unused_of_fresh fun o ho heq => h o ((structural_of_ne ho).trans heq)

theorem Holds.of_pools (h : Holds k p uses s q) (hpools : t.pools = s.pools) :
    Holds k p uses t q := ⟨hpools ▸ h.listed, h.extent_eq, h.kept, h.owns, h.fresh⟩

theorem Holds.other {j : Nat} (h : Holds k p uses s q) (hne : j ≠ k)
    (hpools : t.pools = s.pools.set j q') (huses : ∀ o, uses' o = uses o) :
    Holds k p uses' t q := by
  refine ⟨?_, h.extent_eq, h.kept, funext huses ▸ h.owns, fun o g ho => h.fresh o g (huses o ▸ ho)⟩
  rw [hpools, List.getElem?_set, if_neg hne]
  exact h.listed

end

section

variable {s t u : Machine} {kernel process pdi : Nat} {pk pp : ContFramePool} {pti : Word}

theorem Good.directory_lt (h : Good kernel process pk pp s)
    (hplaced : Placed kernel process pk pp) :
    frameOf s.cr3 < 1024 := by
  obtain ⟨q, hq⟩ := h.tables
  have := (hq.in_pool (x := .directory) rfl).2
  have := hplaced.kernel_low
  omega

theorem Good.table_lt (h : Good kernel process pk pp s) (hplaced : Placed kernel process pk pp)
    (hpdi : pdi < 1024) (hp : Present (words s.mem (frameOf s.cr3) pdi)) :
    frameOf (words s.mem (frameOf s.cr3) pdi) < 1024 := by
  obtain ⟨q, hq⟩ := h.tables
  have := (hq.in_pool (x := .table pdi) (frameUses_table hpdi hp)).2
  have := hplaced.kernel_low
  omega

theorem Good.tree (h : Good kernel process pk pp s) :
    Tree 1024 (words s.mem) (frameOf s.cr3) := by
  obtain ⟨q, hq⟩ := h.tables
  refine tree_of_inj fun o o' f ho ho' hf hf' => hq.owns.inj o o' f ?_ ?_
  · rw [structural_of_ne ho]
    exact hf
  · rw [structural_of_ne ho']
    exact hf'

/-- A frame in use was free at boot in one of the pools, so it holds no bitmap. -/
theorem Good.bitmapSafe (h : Good kernel process pk pp s) (hplaced : Placed kernel process pk pp) :
    BitmapSafe kernel (frames s) s ∧ BitmapSafe process (frames s) s := by
  obtain ⟨q, hq⟩ := h.tables
  obtain ⟨r, hr⟩ := h.pages
  have hsafe : ∀ a, pk.extent.BitmapAt a ∨ pp.extent.BitmapAt a →
      translate s.mem s.cr3 a = some a ∧ ∀ o, frames s o ≠ some (pageOf a) := by
    intro a ha
    obtain ⟨hlow, hkernel, hprocess⟩ := hplaced.bitmaps a ha
    refine ⟨translate_self (h.identity _ hlow), fun o ho => ?_⟩
    cases o with
    | page v => exact hprocess (hr.fresh (.page v) _ ho)
    | table i => exact hkernel (hq.fresh (.table i) _ ho)
    | directory => exact hkernel (hq.fresh .directory _ ho)
  constructor
  · intro q' hq' a ha
    cases hq.listed.symm.trans hq'
    exact hsafe a (.inl (hq.extent_eq ▸ ha))
  · intro r' hr' a ha
    cases hr.listed.symm.trans hr'
    exact hsafe a (.inr (hr.extent_eq ▸ ha))

theorem Good.provideTable_cases (h : Good kernel process pk pp s)
    (hplaced : Placed kernel process pk pp) (hpdi : pdi < 1024)
    (hrun : provideTable kernel (slot (frameOf s.cr3) pdi) s = some t) :
    (Present (words s.mem (frameOf s.cr3) pdi) ∧ t = s) ∨
      ∃ f, ¬ Present (words s.mem (frameOf s.cr3) pdi) ∧
        TakesFrame kernel pk (structural (frames s)) s t f ∧
        AddsTable (words s.mem) (words t.mem) (frameOf s.cr3) pdi f.toNat (entryOf f) := by
  obtain ⟨q, hq⟩ := h.tables
  have hd := h.directory_lt hplaced
  have hlow := hplaced.kernel_low
  by_cases hp : Present (words s.mem (frameOf s.cr3) pdi)
  · rw [provideTable_present h.identity hd hpdi hp] at hrun
    cases hrun
    exact .inl ⟨hp, rfl⟩
  · cases hget : s.getFrame kernel with
    | none =>
        rw [provideTable_exhausted h.identity hd hpdi hp hget] at hrun
        cases hrun
    | some r =>
        obtain ⟨f, u⟩ := r
        obtain ⟨hlt, hfresh, q', hfree, hrecodes, rfl⟩ := hq.getFrame (by omega) hget
        have hunused := unused_of_structural hfresh
        obtain ⟨t', ht', hregs, hadds⟩ := provideTable_absent h.identity hd
          (h.tree.dir_apart 0 (by decide) h.identity.present) hpdi hp hget (by omega)
          (fun heq => hunused.table 0 (by decide) h.identity.present heq.symm) hunused.dir
        cases hrun.symm.trans ht'
        exact .inr ⟨f, hp,
          ⟨hlt, hfresh, hregs.cr3_eq, q, q', hq, hfree, hrecodes, hregs.pools_eq⟩, hadds⟩

theorem Good.providePage_cases (h : Good kernel process pk pp s)
    (hplaced : Placed kernel process pk pp) (hpdi : pdi < 1024) (hpti : pti.toNat < 1024)
    (hp : Present (words s.mem (frameOf s.cr3) pdi))
    (hrun : providePage process (slot (frameOf s.cr3) pdi) pti s = some t) :
    (Present (words s.mem (frameOf (words s.mem (frameOf s.cr3) pdi)) pti.toNat) ∧ t = s) ∨
      ∃ f, ¬ Present (words s.mem (frameOf (words s.mem (frameOf s.cr3) pdi)) pti.toNat) ∧
        TakesFrame process pp (mapped (frames s)) s t f ∧ SetsWord (words s.mem) (words t.mem)
          (frameOf (words s.mem (frameOf s.cr3) pdi)) pti.toNat (entryOf f) := by
  obtain ⟨q, hq⟩ := h.pages
  have hd := h.directory_lt hplaced
  have htable := h.table_lt hplaced hpdi hp
  by_cases hpage : Present (words s.mem (frameOf (words s.mem (frameOf s.cr3) pdi)) pti.toNat)
  · rw [providePage_present h.identity hd hpdi hpti htable hpage] at hrun
    cases hrun
    exact .inl ⟨hpage, rfl⟩
  · cases hget : s.getFrame process with
    | none =>
        rw [providePage_exhausted h.identity hd hpdi hpti htable hpage hget] at hrun
        cases hrun
    | some r =>
        obtain ⟨f, u⟩ := r
        obtain ⟨hlt, hfresh, q', hfree, hrecodes, rfl⟩ := hq.getFrame hplaced.process_range hget
        obtain ⟨t', ht', hregs, hset⟩ :=
          providePage_absent h.identity hd hpdi hpti htable hpage hget
        cases hrun.symm.trans ht'
        exact .inr ⟨f, hpage,
          ⟨hlt, hfresh, hregs.cr3_eq, q, q', hq, hfree, hrecodes, hregs.pools_eq⟩, hset⟩

theorem Good.provideTable (h : Good kernel process pk pp s) (hplaced : Placed kernel process pk pp)
    (hpdi : pdi < 1024)
    (hrun : provideTable kernel (slot (frameOf s.cr3) pdi) s = some t) :
    Good kernel process pk pp t ∧ t.cr3 = s.cr3 ∧ t.pools[process]? = s.pools[process]? ∧
      Present (words t.mem (frameOf s.cr3) pdi) ∧ SameMapping s t fun _ => False := by
  have hd20 := frameOf_lt s.cr3
  have hlow := hplaced.kernel_low
  rcases h.provideTable_cases hplaced hpdi hrun with
    ⟨hp, rfl⟩ | ⟨f, hp, ⟨hlt, hfresh, hcr3, q, q', hq, hfree, hrecodes, hpools⟩, hadds⟩
  · exact ⟨h, rfl, rfl, hp, fun _ _ _ => rfl⟩
  · have hunused := unused_of_structural hfresh
    have htree := h.tree
    have hpe := present_entryOf (f := f) (by omega)
    have hfe := frameOf_entryOf (f := f) (by omega)
    have huses : ∀ o, frames t o = if o = .table pdi then some f.toNat else frames s o := by
      intro o
      rw [frames, hcr3]
      exact htree.frameUses_addsTable (by decide) hd20 hpdi hunused hfe hpe hp hadds o
    have hsame : SameMapping s t fun _ => False := fun v hv _ =>
      htree.lookup_addsTable (by decide) hd20 hunused hfe hpe hp hadds (by omega)
    obtain ⟨r, hr⟩ := h.pages
    refine ⟨⟨by rw [hcr3]; exact h.aligned, fun v hv => ?_,
      ⟨q', hq.grant hfree hrecodes hpools (structural_add huses)⟩,
      ⟨r, hr.other hplaced.apart hpools (mapped_add_table huses)⟩⟩, hcr3, ?_, ?_, hsame⟩
    · rw [hcr3, hsame v (by omega) fun hc => hc]
      exact h.identity v hv
    · rw [hpools]
      exact List.getElem?_set_ne hplaced.apart
    · rw [hadds.dir_eq hd20 hunused.dir hpdi, if_pos rfl]
      exact hpe

/-- A frame of the process pool in an absent entry maps the page of the entry. -/
theorem Good.mapsPage {f : Word} (h : Good kernel process pk pp s)
    (hplaced : Placed kernel process pk pp) (hpdi : pdi < 1024) (hpti : pti.toNat < 1024)
    (hp : Present (words s.mem (frameOf s.cr3) pdi))
    (hpage : ¬ Present (words s.mem (frameOf (words s.mem (frameOf s.cr3) pdi)) pti.toNat))
    (htake : TakesFrame process pp (mapped (frames s)) s t f)
    (hset : SetsWord (words s.mem) (words t.mem) (frameOf (words s.mem (frameOf s.cr3) pdi))
      pti.toNat (entryOf f)) :
    Good kernel process pk pp t ∧ ∀ v < 2 ^ 20, lookup (words t.mem) (frameOf s.cr3) v =
      if v = 1024 * pdi + pti.toNat then some f.toNat
      else lookup (words s.mem) (frameOf s.cr3) v := by
  obtain ⟨hlt, hfresh, hcr3, q, q', hq, hfree, hrecodes, hpools⟩ := htake
  have hd20 := frameOf_lt s.cr3
  have hrange := hplaced.process_range
  -- under directory entry 0 every page is present
  have hpdi1 : 1 ≤ pdi := by
    by_contra hlt
    have hpage0 := h.identity (1024 * pdi + pti.toNat) (by omega)
    rw [lookup_entry hp hpti, if_neg hpage] at hpage0
    cases hpage0
  have hpe := present_entryOf (f := f) (by omega)
  have hfe := frameOf_entryOf (f := f) (by omega)
  have htree := h.tree
  have huses : ∀ o, frames t o =
      if o = .page (1024 * pdi + pti.toNat) then some f.toNat else frames s o := by
    intro o
    rw [frames, hcr3, htree.frameUses_setsWord (by decide) hd20 hpdi1 hpdi hp hpti hset o,
      if_pos hpe, hfe]
    rfl
  have hall : ∀ v < 2 ^ 20, lookup (words t.mem) (frameOf s.cr3) v =
      if v = 1024 * pdi + pti.toNat then some f.toNat
      else lookup (words s.mem) (frameOf s.cr3) v := by
    intro v hv
    rw [htree.lookup_setsWord (by decide) hd20 hpdi hp hpti hset (by omega), if_pos hpe, hfe]
  obtain ⟨r, hr⟩ := h.tables
  refine ⟨⟨by rw [hcr3]; exact h.aligned, fun v hv => ?_,
    ⟨r, hr.other hplaced.apart.symm hpools (structural_add_page huses)⟩,
    ⟨q', hq.grant hfree hrecodes hpools (mapped_add huses)⟩⟩, hall⟩
  rw [hcr3, hall v (by omega), if_neg (by omega)]
  exact h.identity v hv

theorem Good.providePage (h : Good kernel process pk pp s) (hplaced : Placed kernel process pk pp)
    (hpdi : pdi < 1024) (hpti : pti.toNat < 1024)
    (hp : Present (words s.mem (frameOf s.cr3) pdi))
    (hrun : providePage process (slot (frameOf s.cr3) pdi) pti s = some t) :
    Good kernel process pk pp t ∧ t.cr3 = s.cr3 ∧
      (lookup (words t.mem) (frameOf s.cr3) (1024 * pdi + pti.toNat)).isSome ∧
      SameMapping s t fun v => v = 1024 * pdi + pti.toNat ∧
        lookup (words s.mem) (frameOf s.cr3) v = none := by
  have hlookup := lookup_entry hp hpti
  rcases h.providePage_cases hplaced hpdi hpti hp hrun with
    ⟨hpage, rfl⟩ | ⟨f, hpage, htake, hset⟩
  · rw [if_pos hpage] at hlookup
    exact ⟨h, rfl, by rw [hlookup]; rfl, fun _ _ _ => rfl⟩
  · rw [if_neg hpage] at hlookup
    obtain ⟨hgood, hall⟩ := h.mapsPage hplaced hpdi hpti hp hpage htake hset
    refine ⟨hgood, htake.cr3_eq, ?_, fun v hv hne => ?_⟩
    · rw [hall _ (by omega), if_pos rfl]
      rfl
    · rw [hall v hv, if_neg]
      rintro rfl
      exact hne ⟨rfl, hlookup⟩

theorem Good.entry_addr {i : Word} (h : Good kernel process pk pp s) (hi : i.toNat < 1024) :
    s.cr3 + 4 * i = slot (frameOf s.cr3) i.toNat := by
  have hd := frameOf_lt s.cr3
  have hframe : (BitVec.ofNat 32 (frameOf s.cr3) : Word).toNat = frameOf s.cr3 :=
    toNat_ofNat_of_lt (by omega)
  have haddr := frame_addr_index (f := BitVec.ofNat 32 (frameOf s.cr3)) (by omega) hi
  rwa [← h.aligned, hframe] at haddr

theorem Good.handleFault_parts {a : Word} (h : Good kernel process pk pp s)
    (hplaced : Placed kernel process pk pp)
    (hrun : P3.handleFault kernel process s.cr3 a s = some t) :
    ∃ u pti, pti.toNat = pageOf a % 1024 ∧
      P3.provideTable kernel (slot (frameOf s.cr3) (pageOf a / 1024)) s = some u ∧
      Good kernel process pk pp u ∧ u.cr3 = s.cr3 ∧
      Present (words u.mem (frameOf s.cr3) (pageOf a / 1024)) ∧ SameMapping s u (fun _ => False) ∧
      P3.providePage process (slot (frameOf u.cr3) (pageOf a / 1024)) pti u = some t := by
  obtain ⟨u, hu, hrun⟩ := Option.bind_eq_some_iff.mp hrun
  have hfirst : (a >>> 22).toNat = pageOf a / 1024 := getFirst10Bits_toNat a
  have hpage := pageOf_lt a
  have hpdi : pageOf a / 1024 < 1024 := by omega
  rw [h.entry_addr (by omega), hfirst] at hu hrun
  obtain ⟨hgood, hcr3, -, hp, hsame⟩ := h.provideTable hplaced hpdi hu
  exact ⟨u, _, getMiddle10Bits_toNat a, hu, hgood, hcr3, hp, hsame, by rwa [hcr3]⟩

/-- `handle_fault` makes its page present and changes no other page. -/
theorem Good.handleFault {a : Word} (h : Good kernel process pk pp s)
    (hplaced : Placed kernel process pk pp)
    (hrun : handleFault kernel process s.cr3 a s = some t) :
    Good kernel process pk pp t ∧ t.cr3 = s.cr3 ∧
      (lookup (words t.mem) (frameOf s.cr3) (pageOf a)).isSome ∧
      SameMapping s t fun v => v = pageOf a ∧ lookup (words s.mem) (frameOf s.cr3) v = none := by
  obtain ⟨u, pti, hpti, -, hgood, hcr3, hp, hsame, hrun⟩ := h.handleFault_parts hplaced hrun
  have hpage := pageOf_lt a
  have hpageNo : 1024 * (pageOf a / 1024) + pti.toNat = pageOf a := by omega
  rw [← hcr3] at hp
  obtain ⟨hgood', hcr3', hsome, hsame'⟩ :=
    hgood.providePage hplaced (by omega) (by omega) hp hrun
  rw [hpageNo] at hsome hsame'
  rw [hcr3] at hsome
  refine ⟨hgood', hcr3'.trans hcr3, hsome, fun v hv hne => ?_⟩
  have hkept := hsame v hv fun hc => hc
  have hstep := hsame' v hv
  dsimp only at hne hstep
  rw [hcr3, hkept] at hstep
  exact hstep hne

theorem Good.provideTable_completes (h : Good kernel process pk pp s)
    (hplaced : Placed kernel process pk pp) (hpdi : pdi < 1024)
    (hkernel : (s.getFrame kernel).isSome) :
    ∃ t, P3.provideTable kernel (slot (frameOf s.cr3) pdi) s = some t := by
  have hd := h.directory_lt hplaced
  have hlow := hplaced.kernel_low
  by_cases hp : Present (words s.mem (frameOf s.cr3) pdi)
  · exact ⟨s, provideTable_present h.identity hd hpdi hp⟩
  · obtain ⟨⟨f, u⟩, hget⟩ := Option.isSome_iff_exists.mp hkernel
    obtain ⟨q, hq⟩ := h.tables
    obtain ⟨hlt, hfresh, -⟩ := hq.getFrame (by omega) hget
    have hunused := unused_of_structural hfresh
    obtain ⟨t, ht, -⟩ := provideTable_absent h.identity hd
      (h.tree.dir_apart 0 (by decide) h.identity.present) hpdi hp hget (by omega)
      (fun heq => hunused.table 0 (by decide) h.identity.present heq.symm) hunused.dir
    exact ⟨t, ht⟩

theorem Good.providePage_completes (h : Good kernel process pk pp s)
    (hplaced : Placed kernel process pk pp) (hpdi : pdi < 1024) (hpti : pti.toNat < 1024)
    (hp : Present (words s.mem (frameOf s.cr3) pdi)) (hprocess : (s.getFrame process).isSome) :
    ∃ t, P3.providePage process (slot (frameOf s.cr3) pdi) pti s = some t := by
  have hd := h.directory_lt hplaced
  have htable := h.table_lt hplaced hpdi hp
  by_cases hpage : Present (words s.mem (frameOf (words s.mem (frameOf s.cr3) pdi)) pti.toNat)
  · exact ⟨s, providePage_present h.identity hd hpdi hpti htable hpage⟩
  · obtain ⟨⟨f, u⟩, hget⟩ := Option.isSome_iff_exists.mp hprocess
    obtain ⟨t, ht, -⟩ := providePage_absent h.identity hd hpdi hpti htable hpage hget
    exact ⟨t, ht⟩

theorem getFrame_isSome_congr {k : Nat} (hpools : t.pools[k]? = s.pools[k]?) :
    (t.getFrame k).isSome = (s.getFrame k).isSome := by
  rw [Machine.getFrame, Machine.getFrame, hpools]
  cases s.pools[k]? with
  | none => rfl
  | some p => rw [Option.bind_some, Option.bind_some, Option.isSome_map, Option.isSome_map]

/-- While both pools can hand out a frame, the handler returns. -/
theorem Good.handleFault_completes {a : Word} (h : Good kernel process pk pp s)
    (hplaced : Placed kernel process pk pp) (hkernel : (s.getFrame kernel).isSome)
    (hprocess : (s.getFrame process).isSome) :
    ∃ t, P3.handleFault kernel process s.cr3 a s = some t := by
  have hfirst : (a >>> 22).toNat = pageOf a / 1024 := getFirst10Bits_toNat a
  have hmiddle : ((a >>> 12) &&& ~~~(0xFFFFFC00#32)).toNat = pageOf a % 1024 :=
    getMiddle10Bits_toNat a
  have hpage := pageOf_lt a
  have hpdi : pageOf a / 1024 < 1024 := by omega
  obtain ⟨u, hu⟩ := h.provideTable_completes hplaced hpdi hkernel
  obtain ⟨hgood, hcr3, hpools, hp, -⟩ := h.provideTable hplaced hpdi hu
  rw [← hcr3] at hp
  obtain ⟨t, ht⟩ := hgood.providePage_completes hplaced hpdi
    (show ((a >>> 12) &&& ~~~(0xFFFFFC00#32)).toNat < 1024 by omega) hp
    (by rwa [getFrame_isSome_congr hpools])
  refine ⟨t, ?_⟩
  unfold P3.handleFault
  dsimp only
  rw [h.entry_addr (by omega), hfirst, hu]
  rwa [hcr3] at ht

end

end TeachingKernel.Paging.P3
