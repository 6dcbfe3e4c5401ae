import TeachingKernel.FramePool.Ops
import TeachingKernel.Lib.Runs
import TeachingKernel.Lib.Spans

/-!
# Regions handed out by a pool

The ledger of a run lists the regions that `get_frames` returned and nobody
released, and the frames made inaccessible. The pool is sound when its bitmap is
the encoding of the ledger. The search of `get_frames` keeps counting across a
used frame, so a run stays sound exactly as long as every call finds its free
frames next to each other.
-/

namespace TeachingKernel.FramePool

open PackedPairs ContFramePool Runs

/-- Frame numbers throughout. The pool under observation is one of `pools`. -/
structure Ledger where
  pools : List ContFramePool
  live : List Span
  inaccessible : List Nat

namespace Ledger

def codeOf (s : Ledger) (f : Nat) : FrameCode :=
  if ∃ r ∈ s.live, r.first = f then .head
  else if ∃ r ∈ s.live, f ∈ r then .rest
  else if f ∈ s.inaccessible then .inaccessible
  else .free

end Ledger

namespace ContFramePool

def infoSpan (p : ContFramePool) : Span :=
  ⟨if p.infoFrameNo = 0 then p.baseFrameNo.toNat else p.infoFrameNo.toNat, p.nInfoFrames.toNat⟩

def span (p : ContFramePool) : Span := ⟨p.baseFrameNo.toNat, p.nframes.toNat⟩

/-- The frames of the pool that its bitmap codes as free. -/
def freeFrames (p : ContFramePool) : Finset Nat :=
  (Finset.range p.nframes.toNat).filter fun i => code p.bitmap i = .free

end ContFramePool

inductive PoolOp where
  | get (n : Word)
  | mark (b n : Word)
  | release (f : Word)

/-- One call on pool `k`. Regions are released by their first frame, and only
ranges of free frames are made inaccessible. -/
inductive PoolStep (k : Nat) : Ledger → PoolOp → Ledger → Prop
  | get {s : Ledger} {p p' : ContFramePool} {n f : Word} (hk : s.pools[k]? = some p)
      (hn : 0 < n.toNat) (hget : p.getFrames n = some (f, p')) :
      PoolStep k s (.get n)
        { s with pools := s.pools.set k p', live := ⟨f.toNat, n.toNat⟩ :: s.live }
  | mark {s : Ledger} {p p' : ContFramePool} {b n : Word} (hk : s.pools[k]? = some p)
      (hlo : p.baseFrameNo.toNat ≤ b.toNat)
      (hhi : b.toNat + n.toNat ≤ p.baseFrameNo.toNat + p.nframes.toNat)
      (hfree : ∀ f, b.toNat ≤ f → f < b.toNat + n.toNat →
        code p.bitmap (f - p.baseFrameNo.toNat) = .free)
      (hmark : p.markInaccessible b n = some p') :
      PoolStep k s (.mark b n)
        { s with
          pools := s.pools.set k p'
          inaccessible := (List.range n.toNat).map (b.toNat + ·) ++ s.inaccessible }
  | release {s : Ledger} {r : Span} {f : Word} {pools' : List ContFramePool} (hr : r ∈ s.live)
      (hf : f.toNat = r.first) (hrelease : releaseFrames s.pools f = some pools') :
      PoolStep k s (.release f) { s with pools := pools', live := s.live.erase r }

/-- The live regions are disjoint and apart from the frames that may not be
handed out, and the bitmap and the counter of the pool say exactly that. -/
structure Sound (p : ContFramePool) (s : Ledger) : Prop where
  disjoint : DisjointSpans s.live
  inside : ∀ r ∈ s.live, ∀ f ∈ r, f ∈ p.span
  apart : ∀ r ∈ s.live, ∀ f ∈ r, f ∉ s.inaccessible ∧ f ∉ p.infoSpan
  encodes : ∀ i < p.nframes.toNat, code p.bitmap i = s.codeOf (p.baseFrameNo.toNat + i)
  counts : p.nFreeFrames.toNat = p.freeFrames.card

structure Accounts (p : ContFramePool) (s : Ledger) : Prop where
  disjoint : DisjointSpans s.live
  inside : ∀ r ∈ s.live, ∀ f ∈ r, f ∈ p.span
  accessible : ∀ r ∈ s.live, ∀ f ∈ r, f ∉ s.inaccessible
  encodes : ∀ i < p.nframes.toNat, code p.bitmap i = s.codeOf (p.baseFrameNo.toNat + i)

theorem Sound.accounts {p : ContFramePool} {s : Ledger} (h : Sound p s) : Accounts p s :=
  ⟨h.disjoint, h.inside, fun r hr f hf => (h.apart r hr f hf).1, h.encodes⟩

theorem Accounts.sound {p : ContFramePool} {s : Ledger} (h : Accounts p s)
    (hclear : ∀ r ∈ s.live, ∀ f ∈ r, f ∉ p.infoSpan)
    (hcounts : p.nFreeFrames.toNat = p.freeFrames.card) : Sound p s :=
  ⟨h.disjoint, h.inside, fun r hr f hf => ⟨h.accessible r hr f hf, hclear r hr f hf⟩, h.encodes,
    hcounts⟩

def SoundAt (k : Nat) (s : Ledger) : Prop := ∃ p, s.pools[k]? = some p ∧ Sound p s

/-- Before `get_frames(n)` the free frames that its search counts lie next to
each other. The other calls need nothing. -/
def FindsContiguous (k : Nat) (s : Ledger) : PoolOp → Prop
  | .get n => ∀ p, s.pools[k]? = some p → Contiguous p.bitmap p.nframes.toNat n.toNat
  | _ => True

/-- What no call ever changes: the frame numbers of the pool do not wrap, its
bitmap lies outside it or in inaccessible frames, and no earlier pool claims one
of its frames. -/
structure Placed (k : Nat) (s : Ledger) (p : ContFramePool) : Prop where
  range : p.baseFrameNo.toNat + p.nframes.toNat < 2 ^ 32
  info : ∀ f ∈ p.span, f ∈ p.infoSpan → f ∈ s.inaccessible
  earlier : ∀ j q, j < k → s.pools[j]? = some q → ∀ f, p.Manages f → ¬ q.Manages f

def PlacedAt (k : Nat) (s : Ledger) : Prop := ∃ p, s.pools[k]? = some p ∧ Placed k s p

theorem span_of_extent {p q : ContFramePool} (h : q.extent = p.extent) : q.span = p.span := by
  rw [span, span, base_of_extent h, nframes_of_extent h]

theorem infoSpan_of_extent {p q : ContFramePool} (h : q.extent = p.extent) :
    q.infoSpan = p.infoSpan := by
  have hinfo : q.infoFrameNo = p.infoFrameNo := congrArg Extent.infoFrameNo h
  have hn : q.nInfoFrames = p.nInfoFrames := congrArg Extent.nInfoFrames h
  rw [infoSpan, infoSpan, base_of_extent h, hinfo, hn]

theorem PlacedAt.of_extents {k : Nat} {s t : Ledger} (h : PlacedAt k s)
    (hext : t.pools.map extent = s.pools.map extent)
    (hinacc : ∀ f ∈ s.inaccessible, f ∈ t.inaccessible) : PlacedAt k t := by
  obtain ⟨p, hk, hp⟩ := h
  obtain ⟨q, hq, heq⟩ := extent_of_getElem? hext hk
  refine ⟨q, hq, ?_, ?_, ?_⟩
  · rw [base_of_extent heq, nframes_of_extent heq]
    exact hp.range
  · intro f hspan hinfo
    rw [span_of_extent heq] at hspan
    rw [infoSpan_of_extent heq] at hinfo
    exact hinacc f (hp.info f hspan hinfo)
  · intro j r' hj hr' f hmanages
    obtain ⟨r, hr, hreq⟩ := extent_of_getElem? hext.symm hr'
    rw [manages_of_extent hreq.symm]
    exact hp.earlier j r hj hr f ((manages_of_extent heq f).mp hmanages)

theorem PlacedAt.step {k : Nat} {s t : Ledger} {op : PoolOp} (h : PlacedAt k s)
    (hstep : PoolStep k s op t) : PlacedAt k t := by
  cases hstep with
  | get hk hn hget =>
      obtain ⟨_, _, _, hext, _⟩ := getFrames_spec hn hget
      exact h.of_extents (map_extent_set hk hext) (fun _ hf => hf)
  | mark hk hlo hhi hfree hmark =>
      have hsub := toNat_sub_of_le hlo
      obtain ⟨hext, _⟩ := markInaccessible_spec (by omega) hmark
      exact h.of_extents (map_extent_set hk hext) (fun f hf => List.mem_append_right _ hf)
  | release hr hf hrelease =>
      exact h.of_extents (map_extent_releaseFrames hrelease) (fun _ hf => hf)

/-! ## Reading codes off the ledger -/

section

variable {s : Ledger} {f : Nat}

theorem codeOf_free_iff (h : DisjointSpans s.live) :
    s.codeOf f = .free ↔ (∀ r ∈ s.live, f ∉ r) ∧ f ∉ s.inaccessible := by
  unfold Ledger.codeOf
  by_cases hfirst : ∃ r ∈ s.live, r.first = f
  · obtain ⟨r, hr, rfl⟩ := hfirst
    have hmem := Span.first_mem (h.nonempty r hr)
    rw [if_pos ⟨r, hr, rfl⟩]
    exact ⟨fun hc => (by cases hc), fun hc => absurd hmem (hc.1 r hr)⟩
  · rw [if_neg hfirst]
    by_cases hin : ∃ r ∈ s.live, f ∈ r
    · rw [if_pos hin]
      obtain ⟨r, hr, hmem⟩ := hin
      exact ⟨fun hc => (by cases hc), fun hc => absurd hmem (hc.1 r hr)⟩
    · rw [if_neg hin]
      have hnone : ∀ r ∈ s.live, f ∉ r := fun r hr hmem => hin ⟨r, hr, hmem⟩
      by_cases hinacc : f ∈ s.inaccessible
      · rw [if_pos hinacc]
        exact ⟨fun hc => (by cases hc), fun hc => absurd hinacc hc.2⟩
      · rw [if_neg hinacc]
        exact ⟨fun _ => ⟨hnone, hinacc⟩, fun _ => rfl⟩

theorem codeOf_first {r : Span} (hr : r ∈ s.live) : s.codeOf r.first = .head := by
  rw [Ledger.codeOf, if_pos ⟨r, hr, rfl⟩]

theorem codeOf_rest (h : DisjointSpans s.live) {r : Span} (hr : r ∈ s.live) (hmem : f ∈ r)
    (hne : f ≠ r.first) : s.codeOf f = .rest := by
  rw [Ledger.codeOf, if_neg, if_pos ⟨r, hr, hmem⟩]
  rintro ⟨r', hr', rfl⟩
  have heq := h.eq_of_mem hr hr' hmem (Span.first_mem (h.nonempty r' hr'))
  exact hne (by rw [heq])

theorem codeOf_inaccessible (h : DisjointSpans s.live) (hnone : ∀ r ∈ s.live, f ∉ r)
    (hmem : f ∈ s.inaccessible) : s.codeOf f = .inaccessible := by
  have hfirst : ¬∃ r ∈ s.live, r.first = f := by
    rintro ⟨r, hr, rfl⟩
    exact hnone r hr (Span.first_mem (h.nonempty r hr))
  rw [Ledger.codeOf, if_neg hfirst, if_neg fun ⟨r, hr, hin⟩ => hnone r hr hin, if_pos hmem]

theorem codeOf_behind (h : DisjointSpans s.live) {r : Span} (hr : r ∈ s.live) :
    s.codeOf (r.first + r.size) ≠ .rest := by
  have hpos := h.nonempty r hr
  unfold Ledger.codeOf
  by_cases hfirst : ∃ r' ∈ s.live, r'.first = r.first + r.size
  · rw [if_pos hfirst]
    decide
  · rw [if_neg hfirst, if_neg]
    · split <;> decide
    · rintro ⟨r', hr', hmem⟩
      rw [Span.mem_iff] at hmem
      -- the last frame of `r` would lie in `r'` too
      have hne : r'.first ≠ r.first + r.size := fun heq => hfirst ⟨r', hr', heq⟩
      have hlast : r.first + r.size - 1 ∈ r := Span.mem_iff.mpr (by omega)
      have hlast' : r.first + r.size - 1 ∈ r' := Span.mem_iff.mpr (by omega)
      have heq := h.eq_of_mem hr hr' hlast hlast'
      subst heq
      omega

theorem codeOf_erase (h : DisjointSpans s.live) {r : Span} (hmem : f ∉ r)
    {pools' : List ContFramePool} :
    s.codeOf f = { s with pools := pools', live := s.live.erase r }.codeOf f := by
  have hfirst : (∃ r' ∈ s.live.erase r, r'.first = f) ↔ ∃ r' ∈ s.live, r'.first = f := by
    refine exists_congr fun r' => ?_
    rw [h.mem_erase_iff, and_assoc]
    refine and_iff_right_of_imp ?_
    rintro ⟨hr', rfl⟩ rfl
    exact hmem (Span.first_mem (h.nonempty _ hr'))
  have hin : (∃ r' ∈ s.live.erase r, f ∈ r') ↔ ∃ r' ∈ s.live, f ∈ r' := by
    refine exists_congr fun r' => ?_
    rw [h.mem_erase_iff, and_assoc]
    refine and_iff_right_of_imp ?_
    rintro ⟨_, hmem'⟩ rfl
    exact hmem hmem'
  simp only [Ledger.codeOf, hfirst, hin]

end

/-! ## One call -/

section

variable {k : Nat} {s : Ledger} {p p' : ContFramePool}

theorem frameNo_toNat (hrange : p.baseFrameNo.toNat + p.nframes.toNat < 2 ^ 32) {i : Nat}
    (hi : i < p.nframes.toNat) : (p.frameNo i).toNat = p.baseFrameNo.toNat + i := by
  have hof := toNat_ofNat_of_lt (n := i) (by omega)
  rw [frameNo, toNat_add_of_lt (by rw [hof]; omega), hof]

theorem mem_freeFrames {i : Nat} :
    i ∈ p.freeFrames ↔ i < p.nframes.toNat ∧ code p.bitmap i = .free := by
  rw [freeFrames, Finset.mem_filter, Finset.mem_range]

theorem card_freeFrames_from (lo : Nat)
    (h : ∀ i < p.nframes.toNat, code p.bitmap i = .free ↔ lo ≤ i) :
    p.freeFrames.card = p.nframes.toNat - lo := by
  have hset : p.freeFrames = Finset.Ico lo p.nframes.toNat := by
    ext i
    rw [mem_freeFrames, Finset.mem_Ico, and_comm]
    exact and_congr_left (h i)
  rw [hset, Nat.card_Ico]

theorem counts_of_taken (hcounts : p.nFreeFrames.toNat = p.freeFrames.card) (lo n : Nat)
    (hlo : lo + n ≤ p.nframes.toNat) (hfree : ∀ i, lo ≤ i → i < lo + n → code p.bitmap i = .free)
    (hext : p'.extent = p.extent) (hcount : p'.nFreeFrames = p.nFreeFrames - BitVec.ofNat 32 n)
    (htaken : ∀ i < p.nframes.toNat,
      code p'.bitmap i = .free ↔ code p.bitmap i = .free ∧ ¬(lo ≤ i ∧ i < lo + n)) :
    p'.nFreeFrames.toNat = p'.freeFrames.card := by
  have hset : p'.freeFrames = p.freeFrames \ Finset.Ico lo (lo + n) := by
    ext i
    rw [Finset.mem_sdiff, mem_freeFrames, mem_freeFrames, Finset.mem_Ico, nframes_of_extent hext,
      and_assoc]
    exact and_congr_right (htaken i)
  have hsub : Finset.Ico lo (lo + n) ⊆ p.freeFrames := fun i hi => by
    rw [Finset.mem_Ico] at hi
    exact mem_freeFrames.mpr ⟨by omega, hfree i hi.1 hi.2⟩
  have hcard := Finset.card_sdiff_of_subset hsub
  have hle := Finset.card_le_card hsub
  rw [Nat.card_Ico, Nat.add_sub_cancel_left] at hcard hle
  have hlt := p.nframes.isLt
  have hof := toNat_ofNat_of_lt (n := n) (by omega)
  rw [hset, hcard, hcount, toNat_sub_of_le (by omega), hof, hcounts]

theorem counts_of_freed (hcounts : p.nFreeFrames.toNat = p.freeFrames.card) (lo n : Nat)
    (hlo : lo + n ≤ p.nframes.toNat) (hused : ∀ i, lo ≤ i → i < lo + n → code p.bitmap i ≠ .free)
    (hext : p'.extent = p.extent) (hcount : p'.nFreeFrames = p.nFreeFrames + BitVec.ofNat 32 n)
    (hfreed : ∀ i < p.nframes.toNat,
      code p'.bitmap i = .free ↔ code p.bitmap i = .free ∨ (lo ≤ i ∧ i < lo + n)) :
    p'.nFreeFrames.toNat = p'.freeFrames.card := by
  have hset : p'.freeFrames = p.freeFrames ∪ Finset.Ico lo (lo + n) := by
    ext i
    rw [Finset.mem_union, mem_freeFrames, mem_freeFrames, Finset.mem_Ico, nframes_of_extent hext]
    constructor
    · rintro ⟨hi, hcode⟩
      exact ((hfreed i hi).mp hcode).imp_left fun h => ⟨hi, h⟩
    · rintro (⟨hi, hcode⟩ | hin)
      · exact ⟨hi, (hfreed i hi).mpr (.inl hcode)⟩
      · exact ⟨by omega, (hfreed i (by omega)).mpr (.inr hin)⟩
  have hdisjoint : Disjoint p.freeFrames (Finset.Ico lo (lo + n)) := by
    rw [Finset.disjoint_left]
    intro i hfree hin
    rw [Finset.mem_Ico] at hin
    exact hused i hin.1 hin.2 (mem_freeFrames.mp hfree).2
  have hcard := Finset.card_union_of_disjoint hdisjoint
  have hle : p'.freeFrames.card ≤ p'.nframes.toNat := by
    have h := Finset.card_le_card (Finset.filter_subset (fun i => code p'.bitmap i = .free)
      (Finset.range p'.nframes.toNat))
    rwa [Finset.card_range] at h
  have hlt := p'.nframes.isLt
  rw [hset, hcard, Nat.card_Ico, Nat.add_sub_cancel_left] at hle
  have hof := toNat_ofNat_of_lt (n := n) (by omega)
  rw [hset, hcard, Nat.card_Ico, Nat.add_sub_cancel_left, hcount,
    toNat_add_of_lt (by rw [hof]; omega), hof, hcounts]

theorem Accounts.window_free {r : Span} (hs : Accounts p s)
    (hdisjoint : DisjointSpans (r :: s.live)) (hapart : ∀ f ∈ r, f ∉ s.inaccessible) {i : Nat}
    (hi : i < p.nframes.toNat) (hmem : p.baseFrameNo.toNat + i ∈ r) :
    code p.bitmap i = .free := by
  rw [hs.encodes i hi, codeOf_free_iff hs.disjoint]
  refine ⟨fun r' hr' hmem' => ?_, hapart _ hmem⟩
  exact (List.pairwise_cons.mp hdisjoint.apart).1 r' hr' _ hmem hmem'

theorem Accounts.notMem_of_free (hs : Accounts p s) {f : Nat} (hlo : p.baseFrameNo.toNat ≤ f)
    (hhi : f < p.baseFrameNo.toNat + p.nframes.toNat)
    (hfree : code p.bitmap (f - p.baseFrameNo.toNat) = .free) :
    (∀ r ∈ s.live, f ∉ r) ∧ f ∉ s.inaccessible := by
  have hframe : p.baseFrameNo.toNat + (f - p.baseFrameNo.toNat) = f := by omega
  rwa [hs.encodes _ (by omega), codeOf_free_iff hs.disjoint, hframe] at hfree

theorem Accounts.of_free_window (hs : Accounts p s) {lo n : Nat} (hn : 0 < n)
    (hlo : lo + n ≤ p.nframes.toNat) (hfree : ∀ i, lo ≤ i → i < lo + n → code p.bitmap i = .free)
    (hext : p'.extent = p.extent)
    (hcodes : ∀ j, code p'.bitmap j =
      if j = lo then .head else if lo < j ∧ j < lo + n then .rest else code p.bitmap j)
    {pools' : List ContFramePool} :
    Accounts p' { s with pools := pools', live := ⟨p.baseFrameNo.toNat + lo, n⟩ :: s.live } := by
  have hbase := base_of_extent hext
  have hsize := nframes_of_extent hext
  have hfreeLedger : ∀ f ∈ (⟨p.baseFrameNo.toNat + lo, n⟩ : Span),
      (∀ r ∈ s.live, f ∉ r) ∧ f ∉ s.inaccessible := fun f hf => by
    rw [Span.mem_mk] at hf
    exact hs.notMem_of_free (by omega) (by omega) (hfree _ (by omega) (by omega))
  have hspan : ∀ f ∈ (⟨p.baseFrameNo.toNat + lo, n⟩ : Span), f ∈ p.span := fun f hf => by
    rw [Span.mem_mk] at hf
    rw [span, Span.mem_mk]
    omega
  have hdisjoint : DisjointSpans (⟨p.baseFrameNo.toNat + lo, n⟩ :: s.live) :=
    hs.disjoint.cons hn (fun r hr f hf => (hfreeLedger f hf).1 r hr)
  refine ⟨hdisjoint, ?_, ?_, ?_⟩
  · rw [span_of_extent hext]
    exact List.forall_mem_cons.mpr ⟨hspan, hs.inside⟩
  · exact List.forall_mem_cons.mpr ⟨fun f hf => (hfreeLedger f hf).2, hs.accessible⟩
  · intro i hi
    rw [hsize] at hi
    rw [hbase, hcodes]
    by_cases hhead : i = lo
    · rw [if_pos hhead, hhead]
      exact (codeOf_first (s := { s with live := _ :: s.live }) List.mem_cons_self).symm
    · rw [if_neg hhead]
      by_cases hin : lo < i ∧ i < lo + n
      · rw [if_pos hin]
        exact (codeOf_rest (s := { s with live := _ :: s.live }) hdisjoint List.mem_cons_self
          (Span.mem_mk.mpr (by omega)) (by dsimp only; omega)).symm
      · rw [if_neg hin, hs.encodes i hi]
        -- the new region neither starts at this frame nor holds it
        have hfirst : p.baseFrameNo.toNat + lo ≠ p.baseFrameNo.toNat + i := by omega
        have hmem : p.baseFrameNo.toNat + i ∉ (⟨p.baseFrameNo.toNat + lo, n⟩ : Span) := by
          rw [Span.mem_mk]
          omega
        simp only [Ledger.codeOf, List.exists_mem_cons_iff, hfirst, hmem, false_or]

/-- What `get_frames` does when the free frames it counts lie next to each other. -/
theorem getFrames_contiguous (hrange : p.baseFrameNo.toNat + p.nframes.toNat < 2 ^ 32) {n f : Word}
    (hn : 0 < n.toNat) (hget : p.getFrames n = some (f, p'))
    (hcontig : Contiguous p.bitmap p.nframes.toNat n.toNat) :
    ∃ lo, lo + n.toNat ≤ p.nframes.toNat ∧ f.toNat = p.baseFrameNo.toNat + lo ∧
      (∀ i, lo ≤ i → i < lo + n.toNat → code p.bitmap i = .free) ∧ p'.extent = p.extent ∧
      p'.nFreeFrames = p.nFreeFrames - n ∧
      ∀ j, code p'.bitmap j =
        if j = lo then .head else if lo < j ∧ j < lo + n.toNat then .rest else code p.bitmap j := by
  obtain ⟨e, he, rfl, hext, hcount, _, hcodes⟩ := getFrames_spec hn hget
  have hsize := he.size_le
  have hlt := he.lt
  have hfree := (window_free_iff he).mpr (hcontig e he)
  refine ⟨e + 1 - n.toNat, by omega, frameNo_toNat hrange (by omega),
    fun i hlo hi => hfree i hlo (by omega), hext, hcount, fun j => ?_⟩
  rw [hcodes j]
  have hiff : j ≤ e ↔ j < e + 1 - n.toNat + n.toNat := by omega
  simp only [hiff]

theorem Accounts.get (hrange : p.baseFrameNo.toNat + p.nframes.toNat < 2 ^ 32)
    (hs : Accounts p s) {n f : Word} (hn : 0 < n.toNat) (hget : p.getFrames n = some (f, p'))
    (hcontig : Contiguous p.bitmap p.nframes.toNat n.toNat) {pools' : List ContFramePool} :
    Accounts p' { s with pools := pools', live := ⟨f.toNat, n.toNat⟩ :: s.live } := by
  obtain ⟨lo, hlo, hf, hfree, hext, -, hcodes⟩ := getFrames_contiguous hrange hn hget hcontig
  rw [hf]
  exact hs.of_free_window hn hlo hfree hext hcodes

/-- A call of `get_frames` keeps the pool sound exactly when the free frames it
counted lie next to each other. -/
theorem Sound.get_iff (hp : Placed k s p) (hs : Sound p s) {n f : Word} (hn : 0 < n.toNat)
    (hget : p.getFrames n = some (f, p')) {pools' : List ContFramePool} :
    Sound p' { s with pools := pools', live := ⟨f.toNat, n.toNat⟩ :: s.live } ↔
      Contiguous p.bitmap p.nframes.toNat n.toNat := by
  have haccounts := hs.accounts
  constructor
  · intro ht e he j hj
    obtain ⟨e', he', rfl, hext, -⟩ := getFrames_spec hn hget
    cases he.unique he'
    have hsize := he.size_le
    have hlt := he.lt
    rw [frameNo_toNat hp.range (by omega)] at ht
    have hfree : ∀ i, e + 1 - n.toNat ≤ i → i ≤ e → code p.bitmap i = .free := by
      intro i hlo hi
      have hapart := ht.accounts.accessible _ List.mem_cons_self
      exact haccounts.window_free ht.disjoint hapart (by omega) (Span.mem_mk.mpr (by omega))
    exact (window_free_iff he).mp hfree j hj
  · intro hcontig
    obtain ⟨lo, hlo, hf, hfree, hext, hcount, hcodes⟩ :=
      getFrames_contiguous hp.range hn hget hcontig
    have ht : Accounts p' { s with pools := pools', live := ⟨f.toNat, n.toNat⟩ :: s.live } :=
      haccounts.get hp.range hn hget hcontig
    refine ht.sound (fun r hr g hg hinfo => ?_) ?_
    · have hspan := ht.inside r hr g hg
      rw [span_of_extent hext] at hspan
      rw [infoSpan_of_extent hext] at hinfo
      exact ht.accessible r hr g hg (hp.info g hspan hinfo)
    refine counts_of_taken hs.counts lo n.toNat hlo hfree hext ?_ (fun i _ => ?_)
    · rw [hcount, BitVec.ofNat_toNat, BitVec.setWidth_eq]
    · rw [hcodes]
      by_cases hhead : i = lo
      · rw [if_pos hhead]
        simp [hhead, hn]
      · rw [if_neg hhead]
        by_cases hin : lo < i ∧ i < lo + n.toNat
        · rw [if_pos hin]
          simp [hin, Nat.le_of_lt hin.1]
        · rw [if_neg hin]
          exact ⟨fun h => ⟨h, by omega⟩, And.left⟩

private theorem mem_range_append {b n f : Nat} {l : List Nat} :
    f ∈ (List.range n).map (b + ·) ++ l ↔ (b ≤ f ∧ f < b + n) ∨ f ∈ l := by
  rw [List.mem_append, List.mem_map]
  refine or_congr_left ⟨?_, fun h => ⟨f - b, List.mem_range.mpr (by omega), by omega⟩⟩
  rintro ⟨i, hi, rfl⟩
  have hi := List.mem_range.mp hi
  omega

theorem Accounts.mark (hs : Accounts p s) {b n : Word}
    (hlo : p.baseFrameNo.toNat ≤ b.toNat)
    (hhi : b.toNat + n.toNat ≤ p.baseFrameNo.toNat + p.nframes.toNat)
    (hfree : ∀ f, b.toNat ≤ f → f < b.toNat + n.toNat →
      code p.bitmap (f - p.baseFrameNo.toNat) = .free)
    (hmark : p.markInaccessible b n = some p') {pools' : List ContFramePool} :
    Accounts p' { s with
      pools := pools'
      inaccessible := (List.range n.toNat).map (b.toNat + ·) ++ s.inaccessible } := by
  have hsub := toNat_sub_of_le hlo
  obtain ⟨hext, -, hcodes⟩ := markInaccessible_spec (by omega) hmark
  rw [hsub] at hcodes
  have hbase := base_of_extent hext
  have hsize := nframes_of_extent hext
  have hnone : ∀ f, b.toNat ≤ f → f < b.toNat + n.toNat → ∀ r ∈ s.live, f ∉ r := fun f hf hlt =>
    (hs.notMem_of_free (by omega) (by omega) (hfree f hf hlt)).1
  refine ⟨hs.disjoint, ?_, ?_, ?_⟩
  · rw [span_of_extent hext]
    exact hs.inside
  · intro r hr f hf hmem
    rcases mem_range_append.mp hmem with hnew | hold
    · exact hnone f hnew.1 hnew.2 r hr hf
    · exact hs.accessible r hr f hf hold
  · intro i hi
    rw [hsize] at hi
    rw [hbase, hcodes]
    by_cases hin : b.toNat - p.baseFrameNo.toNat ≤ i ∧
        i < b.toNat - p.baseFrameNo.toNat + n.toNat
    · rw [if_pos hin]
      have hframe := hnone (p.baseFrameNo.toNat + i) (by omega) (by omega)
      refine (codeOf_inaccessible ?_ ?_ ?_).symm
      · exact hs.disjoint
      · exact hframe
      · exact mem_range_append.mpr (.inl (by omega))
    · rw [if_neg hin, hs.encodes i hi]
      have hiff : p.baseFrameNo.toNat + i ∈ (List.range n.toNat).map (b.toNat + ·) ++
          s.inaccessible ↔ p.baseFrameNo.toNat + i ∈ s.inaccessible := by
        rw [mem_range_append]
        exact or_iff_right (by omega)
      simp only [Ledger.codeOf, hiff]

theorem Sound.mark (hs : Sound p s) {b n : Word}
    (hlo : p.baseFrameNo.toNat ≤ b.toNat)
    (hhi : b.toNat + n.toNat ≤ p.baseFrameNo.toNat + p.nframes.toNat)
    (hfree : ∀ f, b.toNat ≤ f → f < b.toNat + n.toNat →
      code p.bitmap (f - p.baseFrameNo.toNat) = .free)
    (hmark : p.markInaccessible b n = some p') {pools' : List ContFramePool} :
    Sound p' { s with
      pools := pools'
      inaccessible := (List.range n.toNat).map (b.toNat + ·) ++ s.inaccessible } := by
  have hsub := toNat_sub_of_le hlo
  obtain ⟨hext, hcount, hcodes⟩ := markInaccessible_spec (by omega) hmark
  rw [hsub] at hcodes
  refine (hs.accounts.mark hlo hhi hfree hmark).sound ?_ ?_
  · rw [infoSpan_of_extent hext]
    exact fun r hr f hf => (hs.apart r hr f hf).2
  refine counts_of_taken hs.counts (b.toNat - p.baseFrameNo.toNat) n.toNat (by omega)
    (fun i hlo' hi => ?_) hext ?_ (fun i _ => ?_)
  · have hcode := hfree (p.baseFrameNo.toNat + i) (by omega) (by omega)
    rwa [Nat.add_sub_cancel_left] at hcode
  · rw [hcount, BitVec.ofNat_toNat, BitVec.setWidth_eq]
  · rw [hcodes]
    by_cases hin : b.toNat - p.baseFrameNo.toNat ≤ i ∧
        i < b.toNat - p.baseFrameNo.toNat + n.toNat
    · rw [if_pos hin]
      exact ⟨fun h => (by cases h), fun h => absurd hin h.2⟩
    · rw [if_neg hin]
      exact ⟨fun h => ⟨h, hin⟩, And.left⟩

structure Frees (p p' : ContFramePool) (r : Span) : Prop where
  extent_eq : p'.extent = p.extent
  count : p'.nFreeFrames = p.nFreeFrames + BitVec.ofNat 32 r.size
  codes : ∀ j < p.nframes.toNat, code p'.bitmap j =
    if p.baseFrameNo.toNat + j ∈ r then .free else code p.bitmap j

theorem Accounts.bounds (hs : Accounts p s) {r : Span} (hr : r ∈ s.live) :
    0 < r.size ∧ p.baseFrameNo.toNat ≤ r.first ∧
      r.first + r.size ≤ p.baseFrameNo.toNat + p.nframes.toNat := by
  have hpos := hs.disjoint.nonempty r hr
  have hfirst := hs.inside r hr _ (Span.first_mem hpos)
  have hlast := hs.inside r hr (r.first + r.size - 1) (Span.mem_iff.mpr (by omega))
  rw [span, Span.mem_mk] at hfirst hlast
  omega

theorem Accounts.releaseFrame (hrange : p.baseFrameNo.toNat + p.nframes.toNat < 2 ^ 32)
    (hs : Accounts p s) {r : Span} (hr : r ∈ s.live) {f : Word} (hf : f.toNat = r.first) :
    p.Manages f ∧ ∃ p', p.releaseFrame f = some p' ∧ Frees p p' r := by
  obtain ⟨hpos, hlo, hhi⟩ := hs.bounds hr
  have hsub : (f - p.baseFrameNo).toNat = r.first - p.baseFrameNo.toNat := by
    rw [toNat_sub_of_le (by omega), hf]
  generalize hi : r.first - p.baseFrameNo.toNat = i at hsub
  have hcodeOf : ∀ j, i ≤ j → j < i + r.size →
      code p.bitmap j = s.codeOf (p.baseFrameNo.toNat + j) :=
    fun j _ _ => hs.encodes j (by omega)
  have hhead : code p.bitmap i = .head := by
    rw [hcodeOf i (by omega) (by omega), show p.baseFrameNo.toNat + i = r.first by omega]
    exact codeOf_first hr
  have hrest : p.restAfter i = r.size - 1 := by
    refine restRun_eq _ (by omega) (by omega) (fun j hj hjr => ?_) (fun hlt => ?_)
    · rw [hcodeOf j (by omega) (by omega)]
      exact codeOf_rest hs.disjoint hr (Span.mem_iff.mpr (by omega)) (by omega)
    · rw [show i + 1 + (r.size - 1) = i + r.size by omega] at hlt ⊢
      rw [hs.encodes _ hlt, show p.baseFrameNo.toNat + (i + r.size) = r.first + r.size by omega]
      exact codeOf_behind hs.disjoint hr
  have hmanages : p.Manages f := (manages_iff hrange f).mpr (by omega)
  obtain ⟨p', heq, hext, hcount, hcodes⟩ := releaseFrame_eq hmanages (by rwa [hsub])
  rw [hsub, hrest] at hcount hcodes
  refine ⟨hmanages, p', heq, hext, ?_, fun j hj => ?_⟩
  · rw [hcount, show r.size - 1 + 1 = r.size by omega]
  · rw [hcodes]
    by_cases hin : i ≤ j ∧ j ≤ i + (r.size - 1)
    · rw [if_pos hin, if_pos (Span.mem_iff.mpr (by omega))]
    · rw [if_neg hin, if_neg]
      rw [Span.mem_iff]
      omega

theorem Accounts.of_frees (hs : Accounts p s) {r : Span} (hr : r ∈ s.live) (h : Frees p p' r)
    {pools' : List ContFramePool} :
    Accounts p' { s with pools := pools', live := s.live.erase r } := by
  refine ⟨hs.disjoint.erase r, ?_, ?_, ?_⟩
  · rw [span_of_extent h.extent_eq]
    exact fun r' hr' => hs.inside r' (List.mem_of_mem_erase hr')
  · exact fun r' hr' => hs.accessible r' (List.mem_of_mem_erase hr')
  · intro j hj
    rw [nframes_of_extent h.extent_eq] at hj
    rw [base_of_extent h.extent_eq, h.codes j hj]
    by_cases hmem : p.baseFrameNo.toNat + j ∈ r
    · rw [if_pos hmem]
      refine ((codeOf_free_iff (s := { s with live := s.live.erase r }) (hs.disjoint.erase r)).mpr
        ⟨fun r' hr' hmem' => ?_, hs.accessible r hr _ hmem⟩).symm
      obtain ⟨hne, hr'⟩ := hs.disjoint.mem_erase_iff.mp hr'
      exact hne (hs.disjoint.eq_of_mem hr' hr hmem' hmem)
    · rw [if_neg hmem, hs.encodes j hj]
      exact codeOf_erase hs.disjoint hmem

theorem Sound.release (hp : Placed k s p) (hs : Sound p s) (hk : s.pools[k]? = some p) {r : Span}
    (hr : r ∈ s.live) {f : Word} (hf : f.toNat = r.first) {pools' : List ContFramePool}
    (hrelease : releaseFrames s.pools f = some pools') :
    ∃ p', pools'[k]? = some p' ∧ Sound p' { s with pools := pools', live := s.live.erase r } := by
  have haccounts := hs.accounts
  obtain ⟨hmanages, p', heq, hfrees⟩ := haccounts.releaseFrame hp.range hr hf
  have hpools := releaseFrames_eq hk hmanages
    (fun j q hj hq => hp.earlier j q hj hq f hmanages) heq
  cases hrelease.symm.trans hpools
  refine ⟨p', List.getElem?_set_self (List.getElem?_eq_some_iff.mp hk).1,
    (haccounts.of_frees hr hfrees).sound ?_ ?_⟩
  · rw [infoSpan_of_extent hfrees.extent_eq]
    exact fun r' hr' f' hf' => (hs.apart r' (List.mem_of_mem_erase hr') f' hf').2
  obtain ⟨hpos, hlo, hhi⟩ := haccounts.bounds hr
  refine counts_of_freed hs.counts (r.first - p.baseFrameNo.toNat) r.size (by omega)
    (fun j hj hjr => ?_) hfrees.extent_eq hfrees.count (fun j hj => ?_)
  · rw [haccounts.encodes j (by omega), Ne, codeOf_free_iff haccounts.disjoint]
    exact fun h => h.1 r hr (Span.mem_iff.mpr (by omega))
  · rw [hfrees.codes j hj]
    by_cases hin : p.baseFrameNo.toNat + j ∈ r
    · rw [if_pos hin]
      rw [Span.mem_iff] at hin
      exact ⟨fun _ => .inr (by omega), fun _ => rfl⟩
    · rw [if_neg hin]
      rw [Span.mem_iff] at hin
      exact ⟨.inl, fun h => h.resolve_right (by omega)⟩

theorem soundAt_step_iff {op : PoolOp} {t : Ledger} (hp : PlacedAt k s) (hs : SoundAt k s)
    (hstep : PoolStep k s op t) : SoundAt k t ↔ FindsContiguous k s op := by
  obtain ⟨p, hk, hplaced⟩ := hp
  obtain ⟨p₁, hk₁, hsound⟩ := hs
  cases Option.some.inj (hk.symm.trans hk₁)
  cases hstep with
  | @get q p' n f hq hn hget =>
      cases Option.some.inj (hk.symm.trans hq)
      have hlt := (List.getElem?_eq_some_iff.mp hk).1
      have hset : (s.pools.set k p')[k]? = some p' := by
        rw [List.getElem?_set, if_pos rfl, if_pos hlt]
      constructor
      · rintro ⟨q, hq', ht⟩ p₂ hk₂
        cases Option.some.inj (hset.symm.trans hq')
        cases Option.some.inj (hk.symm.trans hk₂)
        exact (Sound.get_iff hplaced hsound hn hget).mp ht
      · intro hcontig
        exact ⟨p', hset, (Sound.get_iff hplaced hsound hn hget).mpr (hcontig p hk)⟩
  | @mark q p' b n hq hlo hhi hfree hmark =>
      cases Option.some.inj (hk.symm.trans hq)
      have hlt := (List.getElem?_eq_some_iff.mp hk).1
      refine ⟨fun _ => trivial, fun _ => ⟨p', ?_, Sound.mark hsound hlo hhi hfree hmark⟩⟩
      rw [List.getElem?_set, if_pos rfl, if_pos hlt]
  | release hr hf hrelease =>
      exact ⟨fun _ => trivial, fun _ => Sound.release hplaced hsound hk hr hf hrelease⟩

end

end TeachingKernel.FramePool
