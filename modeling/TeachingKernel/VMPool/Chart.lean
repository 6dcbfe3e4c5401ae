import TeachingKernel.Lib.FirstFit
import TeachingKernel.VMPool.List

/-!
# The search of `allocate`

A region is recorded by two words, and the pool may end beyond the last address. Where
the regions really stand is a list of spans, and as long as no room behind one of them is
as long as the address space, every unsigned comparison of `allocate` compares true
distances. So the call takes the first room that is large enough.
-/

namespace TeachingKernel

def Span.toRegion (r : Span) : VM.RegionInfo := ⟨BitVec.ofNat 32 r.first, BitVec.ofNat 32 r.size⟩

namespace VM

open FirstFit

namespace VMPool

/-- The body of `allocate` up to its test of `found`: the address to return if there is
one, and the list. -/
def allocateFound (p : VMPool) (m : Memory) (size : Word) :
    Except Stop (Option Word × VMPool × Memory) :=
  let size := roundToPages size
  match p.findGap m size (p.numAllocated - 1).toNat 0 with
  | some i => do
      let (p', m') ← p.insertItem m ⟨p.entryEnd m i, size⟩ (BitVec.ofNat 32 i + 1)
      .ok (some (p.entryEnd m i), p', m')
  | none =>
      if p.tailGap m ≥ size then do
        let last := (p.numAllocated - 1).toNat
        let (p', m') ← p.insertItem m ⟨p.entryEnd m last, size⟩ p.numAllocated
        .ok (some (p.entryEnd m last), p', m')
      else .ok (none, p, m)

def returnFound : Option Word × VMPool × Memory → Except Stop (Word × VMPool × Memory)
  | (some a, p, m) => .ok (a, p, m)
  | (none, _, _) => .error .assertion

variable {p : VMPool} {m : Memory} {size : Word} {hi i k : Nat} {l : List Span} {r q : Span}

theorem allocate_eq (p : VMPool) (m : Memory) (size : Word) :
    p.allocate m size = p.allocateFound m size >>= returnFound := by
  have hbind : ∀ (x : RegionInfo) (index a : Word),
      (p.insertItem m x index >>= fun s => Except.ok (a, s.1, s.2)) =
        (p.insertItem m x index >>= fun s => Except.ok (some a, s.1, s.2)) >>= returnFound := by
    intro x index a
    cases p.insertItem m x index <;> rfl
  unfold allocate allocateFound
  dsimp only
  cases p.findGap m (roundToPages size) (p.numAllocated - 1).toNat 0 with
  | some i => exact hbind _ _ _
  | none =>
      by_cases hroom : p.tailGap m ≥ roundToPages size
      · simp only [if_pos hroom]
        exact hbind _ _ _
      · simp only [if_neg hroom]
        rfl

theorem findGap_eq_none {k i : Nat} (h : ∀ j, i ≤ j → j < i + k → ¬ p.gap m j ≥ size) :
    p.findGap m size k i = none := by
  induction k generalizing i with
  | zero => rfl
  | succ k ih =>
      rw [findGap, if_neg (h i (Nat.le_refl _) (by omega))]
      exact ih fun j hj hk => h j (by omega) (by omega)

theorem findGap_eq_some {k i j : Nat} (hij : i ≤ j) (hjk : j < i + k) (hroom : p.gap m j ≥ size)
    (hearlier : ∀ t, i ≤ t → t < j → ¬ p.gap m t ≥ size) : p.findGap m size k i = some j := by
  induction k generalizing i with
  | zero => omega
  | succ k ih =>
      rw [findGap]
      rcases Nat.lt_or_eq_of_le hij with hlt | rfl
      · rw [if_neg (hearlier i (Nat.le_refl _) hlt)]
        exact ih hlt (by omega) fun t ht htj => hearlier t (by omega) htj
      · exact if_pos hroom

/-- The entries record the spans `l` of `[base, hi)`, and every room is shorter than the
address space. -/
structure Charted (p : VMPool) (m : Memory) (hi : Nat) (l : List Span) : Prop where
  entries_eq : p.entries m = l.map Span.toRegion
  end_eq : p.baseAddress + p.size = BitVec.ofNat 32 hi
  arranged : Arranged p.baseAddress.toNat hi l
  short : ∀ r ∈ l, hi < r.stop + 2 ^ 32

namespace Charted

theorem length_eq (h : Charted p m hi l) : l.length = p.numAllocated.toNat := by
  have hlen := congrArg List.length h.entries_eq
  rw [length_entries, List.length_map] at hlen
  exact hlen.symm

theorem lt_numAllocated (h : Charted p m hi l) (hr : l[i]? = some r) :
    i < p.numAllocated.toNat := h.length_eq ▸ (List.getElem?_eq_some_iff.mp hr).1

theorem entry_eq (h : Charted p m hi l) (hr : l[i]? = some r) : p.entry m i = r.toRegion := by
  have hread : (p.entries m)[i]? = (l.map Span.toRegion)[i]? := by rw [h.entries_eq]
  rw [getElem?_entries, if_pos (h.lt_numAllocated hr), List.getElem?_map, hr] at hread
  exact Option.some.inj hread

theorem entryEnd_eq (h : Charted p m hi l) (hr : l[i]? = some r) :
    p.entryEnd m i = BitVec.ofNat 32 r.stop := by
  rw [entryEnd, h.entry_eq hr, Span.stop, BitVec.ofNat_add]
  rfl

theorem room_lt (h : Charted p m hi l) (hr : l[i]? = some r) :
    nextFirst hi l i < r.stop + 2 ^ 32 :=
  Nat.lt_of_le_of_lt (h.arranged.nextFirst_le i) (h.short r (List.mem_of_getElem? hr))

theorem gap_toNat (h : Charted p m hi l) (hr : l[i]? = some r) (hnext : i + 1 < l.length) :
    (p.gap m i).toNat = nextFirst hi l i - r.stop := by
  obtain ⟨q, hq⟩ : ∃ q, l[i + 1]? = some q := ⟨_, List.getElem?_eq_getElem hnext⟩
  have hroom := h.room_lt hr
  have hle := h.arranged.stop_le_nextFirst hr
  rw [nextFirst_of_some hq, Span.stop] at hroom hle ⊢
  rw [gap, h.entry_eq hr, h.entry_eq hq]
  exact toNat_ofNat_sub_sub hle (by omega)

theorem tailGap_toNat (h : Charted p m hi l) (hr : l[i]? = some r) (hlast : l[i + 1]? = none) :
    (p.tailGap m).toNat = nextFirst hi l i - r.stop := by
  have hroom := h.room_lt hr
  have hle := h.arranged.stop_le_nextFirst hr
  have hlt := h.lt_numAllocated hr
  have hend := List.getElem?_eq_none_iff.mp hlast
  rw [h.length_eq] at hend
  have hindex : (p.numAllocated - 1).toNat = i := by
    rw [toNat_sub_one (by omega)]
    omega
  rw [nextFirst_of_none hlast, Span.stop] at hroom hle ⊢
  rw [tailGap, hindex, h.entry_eq hr, h.end_eq]
  exact toNat_ofNat_sub_sub hle (by omega)

theorem gap_ge_iff (h : Charted p m hi l) (hr : l[i]? = some r) (hnext : i + 1 < l.length) :
    p.gap m i ≥ size ↔ r.stop + size.toNat ≤ nextFirst hi l i := by
  have hle := h.arranged.stop_le_nextFirst hr
  rw [ge_iff_le, BitVec.le_def, h.gap_toNat hr hnext]
  omega

theorem tailGap_ge_iff (h : Charted p m hi l) (hr : l[i]? = some r) (hlast : l[i + 1]? = none) :
    p.tailGap m ≥ size ↔ r.stop + size.toNat ≤ nextFirst hi l i := by
  have hle := h.arranged.stop_le_nextFirst hr
  rw [ge_iff_le, BitVec.le_def, h.tailGap_toNat hr hlast]
  omega

/-- The gaps before entry `k` are all too small. -/
theorem findGap_none (h : Charted p m hi l) (hk : k < l.length)
    (hsmall : ∀ j q, j < k → l[j]? = some q → nextFirst hi l j < q.stop + size.toNat) :
    p.findGap m size k 0 = none := by
  refine findGap_eq_none fun j _ hj hroom => ?_
  obtain ⟨q, hq⟩ : ∃ q, l[j]? = some q := ⟨_, List.getElem?_eq_getElem (by omega)⟩
  have hlarge := (h.gap_ge_iff hq (by omega)).mp hroom
  exact Nat.not_lt.mpr hlarge (hsmall j q (by omega) hq)

/-- A record written behind entry `i`, where its room is large enough. -/
theorem insertItem (h : Charted p m hi l) (hfew : 8 * (p.numAllocated.toNat + 1) ≤ 2 ^ 32)
    (hr : l[i]? = some r) (hroom : r.stop + size.toNat ≤ nextFirst hi l i) {index : Word}
    (hindex : index.toNat = i + 1) :
    ∃ m', p.insertItem m ⟨p.entryEnd m i, size⟩ index =
        .ok ({ p with numAllocated := p.numAllocated + 1 }, m') ∧
      Charted { p with numAllocated := p.numAllocated + 1 } m' hi
        (l.insertIdx (i + 1) ⟨r.stop, size.toNat⟩) ∧
      ∀ y, ¬ InList p.allocatedList (p.numAllocated.toNat + 1) y → m' y = m y := by
  have hlt := h.lt_numAllocated hr
  obtain ⟨m', hins, hentries, hframe⟩ := insertItem_spec (p := p) (m := m)
    (x := ⟨p.entryEnd m i, size⟩) hfew (show 1 ≤ index.toNat by omega) (by omega)
  refine ⟨m', hins, ⟨?_, h.end_eq, h.arranged.insert hr hroom, fun q hq => ?_⟩, hframe⟩
  · rw [hentries, h.entries_eq, hindex, h.entryEnd_eq hr, List.map_insertIdx, Span.toRegion,
      BitVec.ofNat_toNat, BitVec.setWidth_eq]
  · rcases (List.mem_insertIdx (List.getElem?_eq_some_iff.mp hr).1).mp hq with rfl | hq
    · have hshort := h.short r (List.mem_of_getElem? hr)
      have hle : r.stop ≤ Span.stop ⟨r.stop, size.toNat⟩ := Span.first_le_stop ⟨r.stop, _⟩
      omega
    · exact h.short q hq

/-- The call takes the first room that is large enough. -/
theorem allocateFound_first (h : Charted p m hi l)
    (hfew : 8 * (p.numAllocated.toNat + 1) ≤ 2 ^ 32)
    (hfirst : IsFirst hi l (roundToPages size).toNat i r) :
    ∃ m', p.allocateFound m size =
        .ok (some (BitVec.ofNat 32 r.stop), { p with numAllocated := p.numAllocated + 1 }, m') ∧
      Charted { p with numAllocated := p.numAllocated + 1 } m' hi
        (l.insertIdx (i + 1) ⟨r.stop, (roundToPages size).toNat⟩) ∧
      ∀ y, ¬ InList p.allocatedList (p.numAllocated.toNat + 1) y → m' y = m y := by
  obtain ⟨hr, hroom, hearlier⟩ := hfirst
  have hlt := h.lt_numAllocated hr
  have hlen := h.length_eq
  have hlast : (p.numAllocated - 1).toNat = p.numAllocated.toNat - 1 := toNat_sub_one (by omega)
  by_cases hnext : i + 1 < l.length
  · have hfind : p.findGap m (roundToPages size) (p.numAllocated - 1).toNat 0 = some i := by
      refine findGap_eq_some (Nat.zero_le i) (by omega) ((h.gap_ge_iff hr hnext).mpr hroom)
        fun j _ hj hlarge => ?_
      obtain ⟨q, hq⟩ : ∃ q, l[j]? = some q := ⟨_, List.getElem?_eq_getElem (by omega)⟩
      exact Nat.not_lt.mpr ((h.gap_ge_iff hq (by omega)).mp hlarge) (hearlier j q hj hq)
    have hindex : (BitVec.ofNat 32 i + 1).toNat = i + 1 := by
      have hi : (BitVec.ofNat 32 i).toNat = i := toNat_ofNat_of_lt (by omega)
      rw [toNat_add_one (by omega), hi]
    obtain ⟨m', hins, hcharted, hframe⟩ := h.insertItem hfew hr hroom hindex
    refine ⟨m', ?_, hcharted, hframe⟩
    rw [allocateFound, ← h.entryEnd_eq hr]
    simp only [hfind, hins]
    rfl
  · have hend : l[i + 1]? = none := List.getElem?_eq_none_iff.mpr (Nat.not_lt.mp hnext)
    have hi : (p.numAllocated - 1).toNat = i := by omega
    have hfind : p.findGap m (roundToPages size) i 0 = none :=
      h.findGap_none (by omega) fun j q hj hq => hearlier j q (by omega) hq
    obtain ⟨m', hins, hcharted, hframe⟩ := h.insertItem hfew hr hroom
      (show p.numAllocated.toNat = i + 1 by omega)
    refine ⟨m', ?_, hcharted, hframe⟩
    rw [allocateFound, ← h.entryEnd_eq hr]
    simp only [hi, hfind, if_pos ((h.tailGap_ge_iff hr hend).mpr hroom), hins]
    rfl

/-- Without a room that is large enough the call fails and has changed nothing. -/
theorem allocateFound_full (h : Charted p m hi l) (hfull : Full hi l (roundToPages size).toNat) :
    p.allocateFound m size = .ok (none, p, m) := by
  obtain ⟨r, rest, hl, -⟩ := h.arranged.head_first
  have hlen := h.length_eq
  have hpos : 0 < l.length := by rw [hl]; exact Nat.succ_pos _
  have hlast : (p.numAllocated - 1).toNat = l.length - 1 := by
    rw [toNat_sub_one (by omega), hlen]
  obtain ⟨q, hq⟩ : ∃ q, l[l.length - 1]? = some q := ⟨_, List.getElem?_eq_getElem (by omega)⟩
  have hend : l[l.length - 1 + 1]? = none := List.getElem?_eq_none_iff.mpr (by omega)
  have hfind : p.findGap m (roundToPages size) (p.numAllocated - 1).toNat 0 = none :=
    h.findGap_none (by omega) fun j q _ hq => hfull j q hq
  have htail : ¬ p.tailGap m ≥ roundToPages size := fun hroom =>
    Nat.not_lt.mpr ((h.tailGap_ge_iff hq hend).mp hroom) (hfull _ q hq)
  rw [allocateFound]
  simp only [hfind, if_neg htail]

/-- Whatever the request, a call that returns has placed it in the first room with enough
space. -/
theorem allocate_inv (h : Charted p m hi l) (hfew : 8 * (p.numAllocated.toNat + 1) ≤ 2 ^ 32)
    {a : Word} {p' : VMPool} {m' : Memory} (hrun : p.allocate m size = .ok (a, p', m')) :
    ∃ i r, IsFirst hi l (roundToPages size).toNat i r ∧ a = BitVec.ofNat 32 r.stop ∧
      p' = { p with numAllocated := p.numAllocated + 1 } ∧
      Charted p' m' hi (l.insertIdx (i + 1) ⟨r.stop, (roundToPages size).toNat⟩) ∧
      p'.entries m' = (p.entries m).insertIdx (i + 1) ⟨a, roundToPages size⟩ ∧
      ∀ y, ¬ InList p.allocatedList (p.numAllocated.toNat + 1) y → m' y = m y := by
  rw [allocate_eq] at hrun
  rcases exists_isFirst_or_full hi l (roundToPages size).toNat with ⟨i, r, hfirst⟩ | hfull
  · obtain ⟨m₁, hcall, hcharted, hframe⟩ := h.allocateFound_first hfew hfirst
    rw [hcall] at hrun
    cases hrun
    refine ⟨i, r, hfirst, rfl, rfl, hcharted, ?_, hframe⟩
    rw [hcharted.entries_eq, h.entries_eq, List.map_insertIdx, Span.toRegion, BitVec.ofNat_toNat,
      BitVec.setWidth_eq]
  · rw [h.allocateFound_full hfull] at hrun
    cases hrun

theorem starts_nodup (h : Charted p m hi l) (hhi : hi ≤ p.baseAddress.toNat + 2 ^ 32)
    (hpos : ∀ r ∈ l, 0 < r.size) : ((p.entries m).map RegionInfo.startFrame).Nodup := by
  rw [h.entries_eq, List.map_map, List.Nodup, List.pairwise_map]
  refine h.arranged.sorted.imp_of_mem fun {a b} ha hb hab heq => ?_
  have hlower := (h.arranged.inside a ha).1
  have hupper := (h.arranged.inside b hb).2
  have hasize := hpos a ha
  have hbsize := hpos b hb
  have hmod : a.first % 2 ^ 32 = b.first % 2 ^ 32 := by
    have hword : (BitVec.ofNat 32 a.first).toNat = (BitVec.ofNat 32 b.first).toNat :=
      congrArg BitVec.toNat heq
    rwa [BitVec.toNat_ofNat, BitVec.toNat_ofNat] at hword
  rw [Span.stop] at hab hupper
  omega

end Charted

/-- The bytes of a pool: a size that is recorded as 0 is that of the whole address space. -/
def capacity (size : Word) : Nat := if size = 0 then 2 ^ 32 else size.toNat

theorem capacity_bounds {size : Word} (h : pageSize.toNat ∣ size.toNat) :
    pageSize.toNat ≤ capacity size ∧ capacity size ≤ 2 ^ 32 := by
  unfold capacity
  by_cases hzero : size = 0
  · rw [if_pos hzero]
    decide
  · rw [if_neg hzero]
    have hpos : size.toNat ≠ 0 := fun heq => hzero (BitVec.eq_of_toNat_eq heq)
    exact ⟨Nat.le_of_dvd (Nat.pos_of_ne_zero hpos) h, Nat.le_of_lt size.isLt⟩

theorem roundToPages_aligned (size : Word) : pageSize.toNat ∣ (roundToPages size).toNat := by
  rw [roundToPages, BitVec.toNat_mul, pageSize_toNat]
  omega

/-- What the constructor makes of the object and the memory of the pool. -/
theorem construct_eq {stale base : Word} {m₀ : Memory}
    (h : construct stale base size m₀ = .ok (p, m)) :
    p = ⟨base, roundToPages size, 1, base⟩ ∧ m = writeRegion m₀ base 0 ⟨base, pageSize⟩ := by
  rw [construct] at h
  split at h
  · cases h
    exact ⟨rfl, rfl⟩
  · cases h

theorem charted_of_construct {stale base : Word} {m₀ : Memory}
    (h : construct stale base size m₀ = .ok (p, m)) :
    p.baseAddress = base ∧ p.numAllocated = 1 ∧
      Charted p m (base.toNat + capacity (roundToPages size)) [⟨base.toNat, pageSize.toNat⟩] := by
  obtain ⟨rfl, rfl⟩ := construct_eq h
  have hbounds := capacity_bounds (roundToPages_aligned size)
  refine ⟨rfl, rfl, ?_, ?_, ⟨rfl, List.pairwise_singleton _ _, ?_⟩, ?_⟩
  · rw [entries, List.map_singleton, Span.toRegion, BitVec.ofNat_toNat]
    simp [entry]
    rfl
  · rw [capacity]
    by_cases hzero : roundToPages size = 0
    · rw [if_pos hzero, BitVec.ofNat_add]
      simp [hzero]
    · rw [if_neg hzero, BitVec.ofNat_add]
      simp
  · intro r hr
    cases List.mem_singleton.mp hr
    exact ⟨Nat.le_refl _, Nat.add_le_add_left hbounds.1 _⟩
  · intro r hr
    cases List.mem_singleton.mp hr
    change base.toNat + capacity (roundToPages size) < base.toNat + 4096 + 2 ^ 32
    omega

end VMPool

end VM

end TeachingKernel
