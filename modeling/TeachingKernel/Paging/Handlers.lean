import TeachingKernel.Paging.Recursive

/-!
# The handlers of P4

Every frame that the process pool handed out is the directory, one page table, or
one present page. `handle_fault` and `free_page` keep it so, keep the directory
mapped to itself and the first 4 MB mapped to themselves, and change the mapping of
the one page they are called for.
-/

namespace TeachingKernel.Paging.P4

open FramePool ContFramePool Mmu

/-- The tables under the last directory entry are the window itself, so the range
that the handlers serve ends there. -/
def lastTable : Nat := 1023

def frames (s : Machine) : FrameUse → Option Nat :=
  frameUses lastTable (words s.mem) (frameOf s.cr3)

structure Holds (k : Nat) (p : ContFramePool) (s : Machine) (q : ContFramePool) : Prop where
  listed : s.pools[k]? = some q
  extent_eq : q.extent = p.extent
  separated : q.Separated
  inaccessible : ∀ g, p.Codes g .inaccessible → q.Codes g .inaccessible
  owns : Exclusive q.Granted (frames s)
  earlier : ∀ j r, j < k → s.pools[j]? = some r → ∀ f, p.Manages f → ¬ r.Manages f

structure Good (k : Nat) (p : ContFramePool) (s : Machine) : Prop where
  self : SelfMapped s
  identity : ∀ v < 1024, lookup (words s.mem) (frameOf s.cr3) v = some v
  holds : ∃ q, Holds k p s q

/-- The pages that the two states map differently are among `changed`. -/
def SameMapping (s t : Machine) (changed : Nat → Prop) : Prop :=
  ∀ v, v / 1024 < lastTable → ¬ changed v →
    lookup (words t.mem) (frameOf s.cr3) v = lookup (words s.mem) (frameOf s.cr3) v

section

variable {s t u : Machine} {p q q' : ContFramePool} {k : Nat} {f pdi pti : Word} {x : FrameUse}

theorem Holds.range (h : Holds k p s q)
    (hrange : p.baseFrameNo.toNat + p.nframes.toNat ≤ 2 ^ 20) :
    q.baseFrameNo.toNat + q.nframes.toNat ≤ 2 ^ 20 := by
  rw [base_of_extent h.extent_eq, nframes_of_extent h.extent_eq]
  exact hrange

theorem Holds.tree (h : Holds k p s q) : Tree lastTable (words s.mem) (frameOf s.cr3) :=
  tree_of_inj fun o o' f _ _ => h.owns.inj o o' f

theorem Holds.getFrame (h : Holds k p s q)
    (hrange : p.baseFrameNo.toNat + p.nframes.toNat ≤ 2 ^ 20) (hget : s.getFrame k = some (f, u)) :
    f.toNat < 2 ^ 20 ∧ (∀ o, frames s o ≠ some f.toNat) ∧
      ∃ q', Grants q q' f.toNat ∧ u = { s with pools := s.pools.set k q' } := by
  obtain ⟨q₁, q', hk, hone, rfl⟩ := getFrame_eq hget
  cases Option.some.inj (hk.symm.trans h.listed)
  have hq := h.range hrange
  have hgrants := h.separated.getFrames_one (by omega) hone
  obtain ⟨-, hhi, -⟩ := hgrants.granted.head
  rw [base_of_extent hgrants.extent_eq, nframes_of_extent hgrants.extent_eq] at hhi
  exact ⟨by omega, h.owns.unused hgrants.fresh, q', hgrants, rfl⟩

theorem Holds.grant (h : Holds k p s q) (hq : Grants q q' f.toNat)
    (hpools : t.pools = s.pools.set k q')
    (huses : ∀ o, frames t o = if o = x then some f.toNat else frames s o) : Holds k p t q' := by
  refine ⟨?_, hq.extent_eq.trans h.extent_eq, hq.separated,
    fun g hg => hq.inaccessible g (h.inaccessible g hg),
    h.owns.add hq.fresh hq.granted hq.kept huses, fun j r hj hr => ?_⟩
  · rw [hpools, List.getElem?_set, if_pos rfl, if_pos (List.getElem?_eq_some_iff.mp h.listed).1]
  · rw [hpools, List.getElem?_set, if_neg (by omega)] at hr
    exact h.earlier j r hj hr

theorem Holds.takeBack {g : Nat} (h : Holds k p s q) (hx : frames s x = some g)
    (hq : TakesBack q q' g) (hpools : t.pools = s.pools.set k q')
    (huses : ∀ o, frames t o = if o = x then none else frames s o) : Holds k p t q' := by
  refine ⟨?_, hq.extent_eq.trans h.extent_eq, hq.separated,
    fun g hg => hq.inaccessible g (h.inaccessible g hg), h.owns.remove hx hq.kept huses,
    fun j r hj hr => ?_⟩
  · rw [hpools, List.getElem?_set, if_pos rfl, if_pos (List.getElem?_eq_some_iff.mp h.listed).1]
  · rw [hpools, List.getElem?_set, if_neg (by omega)] at hr
    exact h.earlier j r hj hr

structure TakesFrame (k : Nat) (p : ContFramePool) (s t : Machine) (f : Word) : Prop where
  lt : f.toNat < 2 ^ 20
  fresh : ∀ o, frames s o ≠ some f.toNat
  cr3_eq : t.cr3 = s.cr3
  granted : ∃ q q', Holds k p s q ∧ Grants q q' f.toNat ∧ t.pools = s.pools.set k q'

theorem Good.provideTable_cases (h : Good k p s)
    (hrange : p.baseFrameNo.toNat + p.nframes.toNat ≤ 2 ^ 20) (hpdi : pdi.toNat < lastTable)
    (hrun : provideTable k pdi s = some t) :
    (Present (words s.mem (frameOf s.cr3) pdi.toNat) ∧ t = s) ∨
      ∃ f, ¬ Present (words s.mem (frameOf s.cr3) pdi.toNat) ∧ TakesFrame k p s t f ∧
        AddsTable (words s.mem) (words t.mem) (frameOf s.cr3) pdi.toNat f.toNat (entryOf f) := by
  obtain ⟨q, hq⟩ := h.holds
  have hpdi' : pdi.toNat < 1024 := by unfold lastTable at hpdi; omega
  by_cases hp : Present (words s.mem (frameOf s.cr3) pdi.toNat)
  · rw [provideTable_present h.self hpdi' hp] at hrun
    cases hrun
    exact .inl ⟨hp, rfl⟩
  · cases hget : s.getFrame k with
    | none =>
        rw [provideTable_exhausted h.self hpdi' hp hget] at hrun
        cases hrun
    | some r =>
        obtain ⟨f, u⟩ := r
        obtain ⟨hf, hfresh, q', hgrants, rfl⟩ := hq.getFrame hrange hget
        obtain ⟨t', ht', hregs, hadds⟩ := provideTable_absent h.self hpdi hp hget hf
          (hfresh .directory <| congrArg some ·.symm)
        cases hrun.symm.trans ht'
        exact .inr ⟨f, hp, ⟨hf, hfresh, hregs.cr3_eq, q, q', hq, hgrants, hregs.pools_eq⟩, hadds⟩

theorem Good.providePage_cases (h : Good k p s)
    (hrange : p.baseFrameNo.toNat + p.nframes.toNat ≤ 2 ^ 20) (hpdi : pdi.toNat < lastTable)
    (hpti : pti.toNat < 1024) (hp : Present (words s.mem (frameOf s.cr3) pdi.toNat))
    (hrun : providePage k pdi pti s = some t) :
    (Present (words s.mem (frameOf (words s.mem (frameOf s.cr3) pdi.toNat)) pti.toNat) ∧ t = s) ∨
      ∃ f, ¬ Present (words s.mem (frameOf (words s.mem (frameOf s.cr3) pdi.toNat)) pti.toNat) ∧
        TakesFrame k p s t f ∧ SetsWord (words s.mem) (words t.mem)
          (frameOf (words s.mem (frameOf s.cr3) pdi.toNat)) pti.toNat (entryOf f) := by
  obtain ⟨q, hq⟩ := h.holds
  have hpdi' : pdi.toNat < 1024 := by unfold lastTable at hpdi; omega
  by_cases hpage :
      Present (words s.mem (frameOf (words s.mem (frameOf s.cr3) pdi.toNat)) pti.toNat)
  · rw [providePage_present h.self hpdi' hpti hp hpage] at hrun
    cases hrun
    exact .inl ⟨hpage, rfl⟩
  · cases hget : s.getFrame k with
    | none =>
        rw [providePage_exhausted h.self hpdi' hpti hp hpage hget] at hrun
        cases hrun
    | some r =>
        obtain ⟨f, u⟩ := r
        obtain ⟨hf, hfresh, q', hgrants, rfl⟩ := hq.getFrame hrange hget
        obtain ⟨t', ht', hregs, hset⟩ := providePage_absent h.self hpdi' hpti hp hpage hget
        cases hrun.symm.trans ht'
        exact .inr ⟨f, hpage, ⟨hf, hfresh, hregs.cr3_eq, q, q', hq, hgrants, hregs.pools_eq⟩, hset⟩

theorem Good.provideTable (h : Good k p s)
    (hrange : p.baseFrameNo.toNat + p.nframes.toNat ≤ 2 ^ 20) (hpdi : pdi.toNat < lastTable)
    (hrun : provideTable k pdi s = some t) :
    Good k p t ∧ t.cr3 = s.cr3 ∧ Present (words t.mem (frameOf s.cr3) pdi.toNat) ∧
      SameMapping s t fun _ => False := by
  have hd := frameOf_lt s.cr3
  have hpdi' : pdi.toNat < 1024 := by unfold lastTable at hpdi; omega
  rcases h.provideTable_cases hrange hpdi hrun with
    ⟨hp, rfl⟩ | ⟨f, hp, ⟨hf, hfresh, hcr3, q, q', hq, hgrants, hpools⟩, hadds⟩
  · exact ⟨h, rfl, hp, fun _ _ _ => rfl⟩
  · have hunused := unused_of_fresh fun o _ => hfresh o
    have htree := hq.tree
    have hpe := present_entryOf hf
    have hfe := frameOf_entryOf hf
    have hsame : SameMapping s t fun _ => False := fun v hv _ =>
      htree.lookup_addsTable (by decide) hd hunused hfe hpe hp hadds hv
    have hdir : ∀ j < 1024, words t.mem (frameOf s.cr3) j =
        if j = pdi.toNat then entryOf f else words s.mem (frameOf s.cr3) j := fun j hj =>
      hadds.dir_eq hd hunused.dir hj
    refine ⟨⟨?_, ?_, q', ?_⟩, hcr3, ?_, hsame⟩
    · have hlast := hdir 1023 (by decide)
      rw [if_neg (by unfold lastTable at hpdi; omega)] at hlast
      refine ⟨?_, ?_⟩
      · rw [hcr3, hlast]
        exact h.self.present
      · rw [hcr3, hlast]
        exact h.self.frame_eq
    · intro v hv
      rw [hcr3, hsame v (by unfold lastTable; omega) (fun hc => hc), h.identity v hv]
    · exact hq.grant hgrants hpools fun o => by
        rw [frames, hcr3, htree.frameUses_addsTable (by decide) hd hpdi hunused hfe hpe hp hadds o]
        rfl
    · rw [hdir _ hpdi', if_pos rfl]
      exact hpe

/-- Setting the entry of a page above the first 4 MB keeps the paging structures. -/
theorem Good.setsPage {i j : Nat} {e : Word} (h : Good k p s) (h1 : 1 ≤ i) (hi : i < lastTable)
    (hp : Present (words s.mem (frameOf s.cr3) i)) (hj : j < 1024) (hcr3 : t.cr3 = s.cr3)
    (hset : SetsWord (words s.mem) (words t.mem) (frameOf (words s.mem (frameOf s.cr3) i)) j e)
    (hholds : Holds k p t q') :
    Good k p t ∧ ∀ v, v / 1024 < lastTable → lookup (words t.mem) (frameOf s.cr3) v =
      if v = 1024 * i + j then (if Present e then some (frameOf e) else none)
      else lookup (words s.mem) (frameOf s.cr3) v := by
  obtain ⟨q, hq⟩ := h.holds
  have htree := hq.tree
  have hd := frameOf_lt s.cr3
  have hlookup : ∀ v, v / 1024 < lastTable → _ := fun v hv =>
    htree.lookup_setsWord (by decide) hd hi hp hj hset hv
  refine ⟨⟨?_, fun v hv => ?_, q', hholds⟩, hlookup⟩
  · have hlast := hset.dir_eq hd (htree.dir_apart i hi hp) (j := 1023) (by decide)
    constructor
    · rw [hcr3, hlast]
      exact h.self.present
    · rw [hcr3, hlast]
      exact h.self.frame_eq
  · rw [hcr3, hlookup v (by unfold lastTable; omega), if_neg (by omega), h.identity v hv]

theorem Good.providePage (h : Good k p s)
    (hrange : p.baseFrameNo.toNat + p.nframes.toNat ≤ 2 ^ 20) (h1 : 1 ≤ pdi.toNat)
    (hpdi : pdi.toNat < lastTable) (hpti : pti.toNat < 1024)
    (hp : Present (words s.mem (frameOf s.cr3) pdi.toNat))
    (hrun : providePage k pdi pti s = some t) :
    Good k p t ∧ t.cr3 = s.cr3 ∧
      (lookup (words t.mem) (frameOf s.cr3) (1024 * pdi.toNat + pti.toNat)).isSome ∧
      SameMapping s t fun v => v = 1024 * pdi.toNat + pti.toNat ∧
        lookup (words s.mem) (frameOf s.cr3) v = none := by
  have hlookup := lookup_entry hp hpti
  rcases h.providePage_cases hrange hpdi hpti hp hrun with
    ⟨hpage, rfl⟩ | ⟨f, hpage, ⟨hf, hfresh, hcr3, q, q', hq, hgrants, hpools⟩, hset⟩
  · rw [if_pos hpage] at hlookup
    exact ⟨h, rfl, by rw [hlookup]; rfl, fun _ _ _ => rfl⟩
  · rw [if_neg hpage] at hlookup
    have hpe := present_entryOf hf
    have hholds := hq.grant (x := .page (1024 * pdi.toNat + pti.toNat)) hgrants hpools fun o => by
      rw [frames, hcr3, hq.tree.frameUses_setsWord (by decide) (frameOf_lt _) h1 hpdi hp hpti
        hset o, if_pos hpe, frameOf_entryOf hf]
      rfl
    obtain ⟨hgood, hall⟩ := h.setsPage h1 hpdi hp hpti hcr3 hset hholds
    refine ⟨hgood, hcr3, ?_, fun v hv hne => ?_⟩
    · rw [hall _ (by omega), if_pos rfl, if_pos hpe]
      rfl
    · rw [hall v hv, if_neg]
      rintro rfl
      exact hne ⟨rfl, hlookup⟩

theorem Good.handleFault_parts {checkAddress : Machine → Word → Bool} {a : Word} (h : Good k p s)
    (hrange : p.baseFrameNo.toNat + p.nframes.toNat ≤ 2 ^ 20) (hhi : pageOf a < 1024 * lastTable)
    (hrun : P4.handleFault checkAddress k a s = some t) :
    ∃ u pdi pti, pdi.toNat = pageOf a / 1024 ∧ pti.toNat = pageOf a % 1024 ∧
      P4.provideTable k pdi s = some u ∧ Good k p u ∧ u.cr3 = s.cr3 ∧
      Present (words u.mem (frameOf s.cr3) pdi.toNat) ∧ SameMapping s u (fun _ => False) ∧
      P4.providePage k pdi pti u = some t := by
  unfold P4.handleFault at hrun
  split at hrun
  · cases hrun
  · obtain ⟨u, hu, hrun⟩ := Option.bind_eq_some_iff.mp hrun
    have hfirst := getFirst10Bits_toNat a
    obtain ⟨hgood, hcr3, hp, hsame⟩ := h.provideTable hrange (by omega) hu
    exact ⟨u, _, _, hfirst, getMiddle10Bits_toNat a, hu, hgood, hcr3, hp, hsame, hrun⟩

/-- A handled fault makes the page of the address present and changes no other page
and no page that was present. -/
theorem Good.handleFault {checkAddress : Machine → Word → Bool} {a : Word} (h : Good k p s)
    (hrange : p.baseFrameNo.toNat + p.nframes.toNat ≤ 2 ^ 20) (hlo : 1024 ≤ pageOf a)
    (hhi : pageOf a < 1024 * lastTable) (hrun : handleFault checkAddress k a s = some t) :
    Good k p t ∧ t.cr3 = s.cr3 ∧ (lookup (words t.mem) (frameOf s.cr3) (pageOf a)).isSome ∧
      SameMapping s t fun v => v = pageOf a ∧
        lookup (words s.mem) (frameOf s.cr3) v = none := by
  obtain ⟨u, pdi, pti, hpdi, hpti, -, hgood, hcr3, hp, hsame, hrun⟩ :=
    h.handleFault_parts hrange hhi hrun
  have hpage : 1024 * pdi.toNat + pti.toNat = pageOf a := by omega
  rw [← hcr3] at hp
  obtain ⟨hgood', hcr3', hsome, hsame'⟩ :=
    hgood.providePage hrange (by omega) (by omega) (by omega) hp hrun
  rw [hpage] at hsome hsame'
  rw [hcr3] at hsome
  refine ⟨hgood', hcr3'.trans hcr3, hsome, fun v hv hne => ?_⟩
  have hkept := hsame v hv fun hc => hc
  have hstep := hsame' v hv
  dsimp only at hne hstep
  rw [hcr3, hkept] at hstep
  exact hstep hne

/-- `free_page` completes, makes its page absent and changes no other page. -/
theorem Good.freePage {pageNo : Word} (h : Good k p s)
    (hrange : p.baseFrameNo.toNat + p.nframes.toNat ≤ 2 ^ 20) (hlo : 1024 ≤ pageNo.toNat)
    (hhi : pageNo.toNat < 1024 * lastTable) :
    ∃ t, freePage pageNo s = some t ∧ Good k p t ∧ t.cr3 = s.cr3 ∧
      lookup (words t.mem) (frameOf s.cr3) pageNo.toNat = none ∧
      SameMapping s t fun v => v = pageNo.toNat := by
  have hno : pageNo.toNat < 2 ^ 20 := by unfold lastTable at hhi; omega
  cases hpage : lookup (words s.mem) (frameOf s.cr3) pageNo.toNat with
  | none => exact ⟨s, freePage_absent h.self hno hpage, h, rfl, hpage, fun _ _ _ => rfl⟩
  | some f =>
      obtain ⟨q, hq⟩ := h.holds
      have huse : frames s (.page pageNo.toNat) = some f := (frameUses_page hlo hhi).trans hpage
      have hf : (BitVec.ofNat 32 f).toNat = f := toNat_ofNat_of_lt (by
        have := lookup_lt hpage
        omega)
      have hgranted := hq.owns.held _ _ huse
      have hq20 := hq.range hrange
      obtain ⟨q', hrelease, htakes, -⟩ := hq.separated.releaseFrame_one (f := BitVec.ofNat 32 f)
        (by omega) (by rwa [hf])
      rw [hf] at htakes
      have hmanages : p.Manages (BitVec.ofNat 32 f) :=
        (manages_of_extent hq.extent_eq _).mp ((manages_iff (by omega) _).mpr (by
          rw [hf]
          exact ⟨hgranted.head.1, hgranted.head.2.1⟩))
      have hpools := releaseFrames_eq hq.listed ((manages_of_extent hq.extent_eq _).mpr hmanages)
        (fun j r hj hr => hq.earlier j r hj hr _ hmanages) hrelease
      obtain ⟨hp, t, hrun, hregs, hset⟩ := freePage_present h.self hno hpage hpools
      have hcr3 : t.cr3 = s.cr3 := hregs.cr3_eq
      have hpageNo : 1024 * (pageNo.toNat / 1024) + pageNo.toNat % 1024 = pageNo.toNat := by omega
      have htable : pageNo.toNat / 1024 < lastTable := by omega
      have hholds : Holds k p t q' := hq.takeBack huse htakes hregs.pools_eq fun o => by
        rw [frames, hcr3, hq.tree.frameUses_setsWord (by decide) (frameOf_lt _) (by omega) htable hp
          (by omega) hset o, hpageNo, if_neg not_present_absentEntry]
        rfl
      obtain ⟨hgood, hall⟩ := h.setsPage (by omega) htable hp (by omega) hcr3 hset hholds
      rw [hpageNo, if_neg not_present_absentEntry] at hall
      refine ⟨t, hrun, hgood, hcr3, ?_, fun v hv hne => ?_⟩
      · rw [hall _ htable, if_pos rfl]
      · rw [hall v hv, if_neg hne]

end

end TeachingKernel.Paging.P4
