import TeachingKernel.VMPool.Chart

/-!
# Placing a region

`VMPool::allocate` takes the first gap with room, or the space after the last
entry. On a list that is sorted and disjoint its unsigned subtractions are the
true distances, and the new entry keeps the list sorted and disjoint.
-/

namespace TeachingKernel.VM

open FirstFit

/-- Addresses from here on belong to the recursive window of the page directory. -/
def recursiveWindow : Nat := 0xFFC00000

namespace RegionInfo

def stop (r : RegionInfo) : Nat := r.startFrame.toNat + r.size.toNat

theorem start_le_stop (r : RegionInfo) : r.startFrame.toNat ≤ r.stop := Nat.le_add_right _ _

def span (r : RegionInfo) : Span := ⟨r.startFrame.toNat, r.size.toNat⟩

@[simp] theorem toRegion_span (r : RegionInfo) : r.span.toRegion = r := by
  rw [span, Span.toRegion, BitVec.ofNat_toNat, BitVec.ofNat_toNat, BitVec.setWidth_eq,
    BitVec.setWidth_eq]

end RegionInfo

structure Geometry (p : VMPool) : Prop where
  list_eq : p.allocatedList = p.baseAddress
  base_aligned : pageSize.toNat ∣ p.baseAddress.toNat
  size_aligned : pageSize.toNat ∣ p.size.toNat
  size_ge : pageSize.toNat ≤ p.size.toNat
  below_window : p.baseAddress.toNat + p.size.toNat ≤ recursiveWindow

instance (p : VMPool) : Decidable (Geometry p) :=
  decidable_of_iff (p.allocatedList = p.baseAddress ∧ pageSize.toNat ∣ p.baseAddress.toNat ∧
      pageSize.toNat ∣ p.size.toNat ∧ pageSize.toNat ≤ p.size.toNat ∧
      p.baseAddress.toNat + p.size.toNat ≤ recursiveWindow)
    ⟨fun ⟨h1, h2, h3, h4, h5⟩ => ⟨h1, h2, h3, h4, h5⟩,
      fun ⟨h1, h2, h3, h4, h5⟩ => ⟨h1, h2, h3, h4, h5⟩⟩

theorem Geometry.grow {p : VMPool} (h : Geometry p) (n : Word) :
    Geometry { p with numAllocated := n } := ⟨h.1, h.2, h.3, h.4, h.5⟩

/-- A list of regions inside `[base, base + size)`, each after the one before it, the
first of which is the reserved page. -/
structure Lined (base size : Word) (l : List RegionInfo) : Prop where
  head : l.head? = some ⟨base, pageSize⟩
  sorted : l.Pairwise fun a b => a.stop ≤ b.startFrame.toNat
  inside : ∀ r ∈ l, base.toNat ≤ r.startFrame.toNat ∧ r.stop ≤ base.toNat + size.toNat

/-- A sorted list of disjoint, page-aligned, non-empty regions inside
`[base, base + size)`, the first of which is the reserved page. -/
structure Laid (base size : Word) (l : List RegionInfo) : Prop where
  head : l.head? = some ⟨base, pageSize⟩
  sorted : l.Pairwise fun a b => a.stop ≤ b.startFrame.toNat
  aligned : ∀ r ∈ l, pageSize.toNat ∣ r.startFrame.toNat ∧ pageSize.toNat ∣ r.size.toNat
  nonempty : ∀ r ∈ l, 0 < r.size.toNat
  inside : ∀ r ∈ l, base.toNat ≤ r.startFrame.toNat ∧ r.stop ≤ base.toNat + size.toNat

instance (base size : Word) (l : List RegionInfo) : Decidable (Laid base size l) :=
  decidable_of_iff (l.head? = some ⟨base, pageSize⟩ ∧
      l.Pairwise (fun a b => a.stop ≤ b.startFrame.toNat) ∧
      (∀ r ∈ l, pageSize.toNat ∣ r.startFrame.toNat ∧ pageSize.toNat ∣ r.size.toNat) ∧
      (∀ r ∈ l, 0 < r.size.toNat) ∧
      ∀ r ∈ l, base.toNat ≤ r.startFrame.toNat ∧ r.stop ≤ base.toNat + size.toNat)
    ⟨fun ⟨h1, h2, h3, h4, h5⟩ => ⟨h1, h2, h3, h4, h5⟩,
      fun ⟨h1, h2, h3, h4, h5⟩ => ⟨h1, h2, h3, h4, h5⟩⟩

theorem Laid.lined {base size : Word} {l : List RegionInfo} (h : Laid base size l) :
    Lined base size l := ⟨h.head, h.sorted, h.inside⟩

theorem arranged_map_span {base size : Word} {l : List RegionInfo}
    (hhead : l.head?.map RegionInfo.startFrame = some base)
    (hsorted : l.Pairwise fun a b => a.stop ≤ b.startFrame.toNat)
    (hinside : ∀ r ∈ l, base.toNat ≤ r.startFrame.toNat ∧ r.stop ≤ base.toNat + size.toNat) :
    Arranged base.toNat (base.toNat + size.toNat) (l.map RegionInfo.span) := by
  refine ⟨?_, List.pairwise_map.mpr hsorted, List.forall_mem_map.mpr hinside⟩
  rw [List.head?_map, Option.map_map]
  have hmap := congrArg (Option.map BitVec.toNat) hhead
  rwa [Option.map_map] at hmap

theorem Lined.arranged {base size : Word} {l : List RegionInfo} (h : Lined base size l) :
    Arranged base.toNat (base.toNat + size.toNat) (l.map RegionInfo.span) :=
  arranged_map_span (by rw [h.head]; rfl) h.sorted h.inside

/-- `_size` rounded up to whole pages, without the wrap of machine arithmetic. -/
def roundUp (size : Word) : Nat := ((size.toNat - 1) / pageSize.toNat + 1) * pageSize.toNat

theorem le_roundUp (size : Word) : size.toNat ≤ roundUp size := by
  simp only [roundUp, pageSize_toNat]
  omega

theorem roundToPages_toNat {size : Word} (h1 : 1 ≤ size.toNat) :
    (roundToPages size).toNat = roundUp size % 2 ^ 32 := by
  have hsub : (size - 1).toNat = size.toNat - 1 := toNat_sub_one h1
  have hdiv : ((size - 1) / pageSize).toNat = (size.toNat - 1) / pageSize.toNat := by
    rw [BitVec.toNat_udiv, hsub]
  have hadd : ((size - 1) / pageSize + 1).toNat = (size.toNat - 1) / pageSize.toNat + 1 := by
    rw [toNat_add_one, hdiv]
    rw [hdiv, pageSize_toNat]
    have := size.isLt
    omega
  rw [roundToPages, BitVec.toNat_mul, hadd]
  rfl

theorem roundToPages_toNat_of_le {size : Word} (h1 : 1 ≤ size.toNat)
    (h2 : size.toNat ≤ 2 ^ 32 - pageSize.toNat) : (roundToPages size).toNat = roundUp size := by
  rw [roundToPages_toNat h1, Nat.mod_eq_of_lt]
  simp only [roundUp, pageSize_toNat] at h2 ⊢
  omega

/-- A request that rounds up to the whole address space is recorded with size 0. -/
theorem roundToPages_of_gt {size : Word} (h : 2 ^ 32 - pageSize.toNat < size.toNat) :
    roundToPages size = 0 ∧ roundUp size = 2 ^ 32 := by
  have hlt := size.isLt
  have hround : roundUp size = 2 ^ 32 := by
    simp only [roundUp, pageSize_toNat] at h ⊢
    omega
  refine ⟨?_, hround⟩
  apply BitVec.eq_of_toNat_eq
  rw [roundToPages_toNat (by omega), hround]
  rfl

namespace VMPool

variable {p p' : VMPool} {m m' : Memory} {size a : Word} {i : Nat}

def spans (p : VMPool) (m : Memory) : List Span := (p.entries m).map RegionInfo.span

/-- A list in order inside its pool is charted by its own addresses. -/
theorem charted_spans
    (h : Arranged p.baseAddress.toNat (p.baseAddress.toNat + p.size.toNat) (p.spans m)) :
    Charted p m (p.baseAddress.toNat + p.size.toNat) (p.spans m) := by
  refine ⟨?_, ?_, h, fun r hr => ?_⟩
  · rw [spans, List.map_map, List.map_congr_left fun r _ => r.toRegion_span, List.map_id']
  · rw [BitVec.ofNat_add, BitVec.ofNat_toNat, BitVec.ofNat_toNat, BitVec.setWidth_eq,
      BitVec.setWidth_eq]
  · have hsize := p.size.isLt
    have hlower := (h.inside r hr).1
    have hstop := r.first_le_stop
    omega

theorem getElem?_spans (hi : i < p.numAllocated.toNat) :
    (p.spans m)[i]? = some (p.entry m i).span := by
  rw [spans, List.getElem?_map, getElem?_entries, if_pos hi]
  rfl

theorem length_spans : (p.spans m).length = p.numAllocated.toNat := by
  rw [spans, List.length_map, length_entries]

private theorem entry_mem (hi : i < p.numAllocated.toNat) : p.entry m i ∈ p.entries m :=
  List.mem_map.mpr ⟨i, List.mem_range.mpr hi, rfl⟩

theorem lined_charted (h : Lined p.baseAddress p.size (p.entries m)) :
    Charted p m (p.baseAddress.toNat + p.size.toNat) (p.spans m) :=
  charted_spans h.arranged

theorem entry_sorted (h : Lined p.baseAddress p.size (p.entries m)) {j : Nat} (hij : i < j)
    (hj : j < p.numAllocated.toNat) : (p.entry m i).stop ≤ (p.entry m j).startFrame.toNat :=
  (lined_charted h).arranged.stop_le_first hij (getElem?_spans (Nat.lt_trans hij hj))
    (getElem?_spans hj)

theorem numAllocated_pos (h : Lined p.baseAddress p.size (p.entries m)) :
    0 < p.numAllocated.toNat := by
  have hne : p.entries m ≠ [] := by
    intro hnil
    simpa [hnil] using h.head
  simpa using List.length_pos_of_ne_nil hne

theorem entry_zero (h : Lined p.baseAddress p.size (p.entries m)) :
    p.entry m 0 = ⟨p.baseAddress, pageSize⟩ := by
  have hhead := h.head
  rw [List.head?_eq_getElem?, getElem?_entries, if_pos (numAllocated_pos h)] at hhead
  exact Option.some.inj hhead

theorem entryEnd_toNat (hwin : p.baseAddress.toNat + p.size.toNat ≤ recursiveWindow)
    (h : Lined p.baseAddress p.size (p.entries m)) (hi : i < p.numAllocated.toNat) :
    (p.entryEnd m i).toNat = (p.entry m i).stop := by
  have hin := h.inside _ (entry_mem hi)
  unfold recursiveWindow at hwin
  unfold RegionInfo.stop at hin ⊢
  exact toNat_add_of_lt (by omega)

/-- No subtraction wraps in the gap between two entries. -/
theorem gap_toNat (h : Lined p.baseAddress p.size (p.entries m))
    (hi : i + 1 < p.numAllocated.toNat) :
    ((p.gap m i).toNat : Int) =
      (p.entry m (i + 1)).startFrame.toNat - (p.entry m i).startFrame.toNat -
        (p.entry m i).size.toNat := by
  have hr := getElem?_spans (m := m) (Nat.lt_of_succ_lt hi)
  have hle := entry_sorted h (show i < i + 1 by omega) hi
  have hgap := (lined_charted h).gap_toNat hr (length_spans ▸ hi)
  rw [nextFirst_of_some (getElem?_spans hi)] at hgap
  change (p.gap m i).toNat = (p.entry m (i + 1)).startFrame.toNat - (p.entry m i).stop at hgap
  unfold RegionInfo.stop at hle hgap
  omega

theorem tailGap_toNat (h : Lined p.baseAddress p.size (p.entries m)) :
    ((p.tailGap m).toNat : Int) =
      p.baseAddress.toNat + p.size.toNat -
        (p.entry m (p.numAllocated.toNat - 1)).startFrame.toNat -
        (p.entry m (p.numAllocated.toNat - 1)).size.toNat := by
  have hpos := numAllocated_pos h
  have hr := getElem?_spans (m := m) (Nat.sub_one_lt_of_lt hpos)
  have hlast : (p.spans m)[p.numAllocated.toNat - 1 + 1]? = none :=
    List.getElem?_eq_none_iff.mpr (by rw [length_spans]; omega)
  have hle := (h.inside _ (entry_mem (Nat.sub_one_lt_of_lt hpos))).2
  have hgap := (lined_charted h).tailGap_toNat hr hlast
  rw [nextFirst_of_none hlast] at hgap
  change _ = _ - (p.entry m (p.numAllocated.toNat - 1)).stop at hgap
  unfold RegionInfo.stop at hle hgap
  omega

theorem findGap_some {k j : Nat} (h : p.findGap m size k i = some j) :
    i ≤ j ∧ j < i + k ∧ p.gap m j ≥ size := by
  induction k generalizing i with
  | zero => simp [findGap] at h
  | succ k ih =>
      rw [findGap] at h
      split at h
      · cases h
        exact ⟨Nat.le_refl _, by omega, by assumption⟩
      · obtain ⟨h1, h2, h3⟩ := ih h
        exact ⟨by omega, by omega, h3⟩

structure Inserted (p : VMPool) (m : Memory) (n : Word) (i : Nat) (a : Word) (p' : VMPool)
    (m' : Memory) : Prop where
  listed : i < p.numAllocated.toNat
  start_eq : a.toNat = (p.entry m i).stop
  pool_eq : p' = { p with numAllocated := p.numAllocated + 1 }
  entries_eq : p'.entries m' = (p.entries m).insertIdx (i + 1) ⟨a, n⟩
  before_next : i + 1 < p.numAllocated.toNat →
    a.toNat + n.toNat ≤ (p.entry m (i + 1)).startFrame.toNat
  inside : a.toNat + n.toNat ≤ p.baseAddress.toNat + p.size.toNat
  outside : ∀ y, ¬ InList p.allocatedList (p.numAllocated.toNat + 1) y → m' y = m y

/-- Whatever the request, a call that returns places it in the list. -/
theorem allocate_inserted (hwin : p.baseAddress.toNat + p.size.toNat ≤ recursiveWindow)
    (h : Lined p.baseAddress p.size (p.entries m))
    (hfew : 8 * (p.numAllocated.toNat + 1) ≤ 2 ^ 32)
    (hrun : p.allocate m size = .ok (a, p', m')) :
    ∃ i, Inserted p m (roundToPages size) i a p' m' := by
  have hcharted := lined_charted h
  obtain ⟨i, r, hfirst, rfl, hpool, -, hentries, hframe⟩ := hcharted.allocate_inv hfew hrun
  have hi := hcharted.lt_numAllocated hfirst.listed
  cases hfirst.listed.symm.trans (getElem?_spans hi)
  have hin := (h.inside _ (entry_mem hi)).2
  have hstart : (BitVec.ofNat 32 (p.entry m i).span.stop).toNat = (p.entry m i).stop := by
    unfold recursiveWindow at hwin
    exact toNat_ofNat_of_lt (Nat.lt_of_le_of_lt hin (by omega))
  refine ⟨i, hi, hstart, hpool, hentries, fun hnext => ?_, ?_, hframe⟩
  · have hroom := hfirst.room
    rw [nextFirst_of_some (getElem?_spans hnext)] at hroom
    rw [hstart]
    exact hroom
  · rw [hstart]
    exact Nat.le_trans hfirst.room (hcharted.arranged.nextFirst_le i)

/-- The call put the region `[a, a + roundUp size)` right after entry `i`. -/
structure PlacedAfter (p : VMPool) (m : Memory) (size : Word) (i : Nat) (a : Word) (p' : VMPool)
    (m' : Memory) : Prop where
  listed : i < p.numAllocated.toNat
  start_eq : a.toNat = (p.entry m i).stop
  pool_eq : p' = { p with numAllocated := p.numAllocated + 1 }
  entries_eq : p'.entries m' = (p.entries m).insertIdx (i + 1) ⟨a, roundToPages size⟩
  before_next : i + 1 < p.numAllocated.toNat →
    a.toNat + roundUp size ≤ (p.entry m (i + 1)).startFrame.toNat
  inside : a.toNat + roundUp size ≤ p.baseAddress.toNat + p.size.toNat
  outside : ∀ y, ¬ InList p.allocatedList (p.numAllocated.toNat + 1) y → m' y = m y

theorem allocate_spec (hg : Geometry p) (h : Laid p.baseAddress p.size (p.entries m))
    (hfew : p.numAllocated.toNat ≤ 512) (h1 : 1 ≤ size.toNat)
    (h2 : size.toNat ≤ 2 ^ 32 - pageSize.toNat) (hrun : p.allocate m size = .ok (a, p', m')) :
    ∃ i, PlacedAfter p m size i a p' m' := by
  obtain ⟨i, hp⟩ := allocate_inserted hg.below_window h.lined (by omega) hrun
  have hbefore := hp.before_next
  have hin := hp.inside
  rw [roundToPages_toNat_of_le h1 h2] at hbefore hin
  exact ⟨i, hp.listed, hp.start_eq, hp.pool_eq, hp.entries_eq, hbefore, hin, hp.outside⟩

end VMPool

theorem Lined.insert {base size : Word} {l : List RegionInfo} {x : RegionInfo} {i : Nat}
    (h : Lined base size l) (hi : i < l.length) (hstart : x.startFrame.toNat = l[i].stop)
    (hnext : ∀ hn : i + 1 < l.length, x.stop ≤ l[i + 1].startFrame.toNat)
    (hend : x.stop ≤ base.toNat + size.toNat) : Lined base size (l.insertIdx (i + 1) x) := by
  have hlisted : ∀ j (hj : j < l.length), (l.map RegionInfo.span)[j]? = some l[j].span := by
    intro j hj
    rw [List.getElem?_map, List.getElem?_eq_getElem hj]
    rfl
  have hspan : (⟨l[i].span.stop, x.size.toNat⟩ : Span) = x.span :=
    congrArg (Span.mk · x.size.toNat) hstart.symm
  have hstop : l[i].span.stop + x.size.toNat = x.stop :=
    congrArg (· + x.size.toNat) hstart.symm
  have hroom : x.stop ≤ nextFirst (base.toNat + size.toNat) (l.map RegionInfo.span) i := by
    by_cases hn : i + 1 < l.length
    · rw [nextFirst_of_some (hlisted _ hn)]
      exact hnext hn
    · rw [nextFirst_of_none (List.getElem?_eq_none_iff.mpr (by rw [List.length_map]; omega))]
      exact hend
  have hins := h.arranged.insert (hlisted i hi) (hstop ▸ hroom)
  rw [hspan, ← List.map_insertIdx] at hins
  refine ⟨?_, List.pairwise_map.mp hins.sorted, fun r hr => hins.inside _ (List.mem_map_of_mem hr)⟩
  have hhead := h.head
  cases l with
  | nil => exact absurd hi (Nat.not_lt_zero i)
  | cons r rest => exact hhead

theorem Laid.insert {base size : Word} {l : List RegionInfo} {x : RegionInfo} {i : Nat}
    (h : Laid base size l) (hi : i < l.length) (hstart : x.startFrame.toNat = l[i].stop)
    (hsize : pageSize.toNat ∣ x.size.toNat) (hpos : 0 < x.size.toNat)
    (hnext : ∀ hn : i + 1 < l.length, x.stop ≤ l[i + 1].startFrame.toNat)
    (hend : x.stop ≤ base.toNat + size.toNat) : Laid base size (l.insertIdx (i + 1) x) := by
  have hlined := h.lined.insert hi hstart hnext hend
  have hali := h.aligned _ (List.getElem_mem hi)
  refine ⟨hlined.head, hlined.sorted, fun r hr => ?_, fun r hr => ?_, hlined.inside⟩
  · rcases (List.mem_insertIdx (by omega)).mp hr with rfl | hr
    · refine ⟨?_, hsize⟩
      rw [hstart]
      exact Nat.dvd_add hali.1 hali.2
    · exact h.aligned r hr
  · rcases (List.mem_insertIdx (by omega)).mp hr with rfl | hr
    · exact hpos
    · exact h.nonempty r hr

/-- The list with the region in it is in order again. -/
theorem VMPool.Inserted.lined {p p' : VMPool} {m m' : Memory} {n a : Word} {i : Nat}
    (hp : Inserted p m n i a p' m') (h : Lined p.baseAddress p.size (p.entries m)) :
    Lined p.baseAddress p.size (p'.entries m') := by
  have hlen : i < (p.entries m).length := by simpa using hp.listed
  rw [hp.entries_eq]
  refine h.insert hlen (by simpa using hp.start_eq) (fun hn => ?_) hp.inside
  simpa [RegionInfo.stop] using hp.before_next (by simpa using hn)

namespace VMPool.PlacedAfter

variable {p p' : VMPool} {m m' : Memory} {size a : Word} {i : Nat}

theorem laid (hp : PlacedAfter p m size i a p' m')
    (h : Laid p.baseAddress p.size (p.entries m)) (h1 : 1 ≤ size.toNat)
    (h2 : size.toNat ≤ 2 ^ 32 - pageSize.toNat) :
    Laid p.baseAddress p.size (p'.entries m') := by
  have hround := roundToPages_toNat_of_le h1 h2
  have hlen : i < (p.entries m).length := by simpa using hp.listed
  rw [hp.entries_eq]
  refine h.insert hlen (by simpa using hp.start_eq) ?_ ?_ (fun hn => ?_) ?_
  · exact roundToPages_aligned size
  · have hle := le_roundUp size
    rw [hround]
    omega
  · simpa [RegionInfo.stop, hround] using hp.before_next (by simpa using hn)
  · simpa [RegionInfo.stop, hround] using hp.inside

theorem apart (hp : PlacedAfter p m size i a p' m')
    (h : Laid p.baseAddress p.size (p.entries m)) (h1 : 1 ≤ size.toNat) {r : RegionInfo}
    (hr : r ∈ p.entries m) : Span.Apart ⟨a.toNat, roundUp size⟩ r.span := by
  obtain ⟨j, hj, rfl⟩ := List.mem_iff_getElem.mp hr
  rw [length_entries] at hj
  have hpos := h.nonempty _ hr
  have hle := le_roundUp size
  rw [getElem_entries] at hpos ⊢
  rw [Span.apart_iff (show 0 < roundUp size by omega) hpos]
  rcases Nat.lt_trichotomy j i with hlt | rfl | hgt
  · right
    have hbefore := entry_sorted h.lined hlt hp.listed
    have hstart := hp.start_eq
    exact hstart ▸ Nat.le_trans hbefore (RegionInfo.start_le_stop _)
  · right
    exact Nat.le_of_eq hp.start_eq.symm
  · left
    have hnext := hp.before_next (by omega)
    rcases Nat.lt_or_eq_of_le (show i + 1 ≤ j from hgt) with hlt | rfl
    · have hbefore := entry_sorted h.lined hlt hj
      exact Nat.le_trans hnext (Nat.le_trans (RegionInfo.start_le_stop _) hbefore)
    · exact hnext

end VMPool.PlacedAfter

end TeachingKernel.VM
