import TeachingKernel.Paging.Legitimate
import TeachingKernel.Paging.MappedPages

/-!
# Region lists in mapped pages

`allocate` of a pool whose list lies in one mapped page, with every access to the
list going through the translation. It does to the page what `VMPool.allocate` does
to a memory that shows the same list, and it writes nothing else.
-/

namespace TeachingKernel.Paging

open FramePool VM Mmu

def Machine.storeRegion (s : Machine) (list : Word) (i : Nat) (x : RegionInfo) :
    Option Machine := do
  let s ← s.store (entryAddr list i) x.startFrame
  s.store (entryAddr list i + 4) x.size

namespace P4

def shiftUp (list : Word) : Nat → Word → Word → Machine → Option Machine
  | 0, _, _, _ => none
  | fuel + 1, i, index, s =>
      if i ≥ index then do
        let r ← s.loadRegion list i.toNat
        let s ← s.storeRegion list (i + 1).toNat r
        shiftUp list fuel (i - 1) index s
      else some s

def insertItem (p : VMPool) (s : Machine) (x : RegionInfo) (index : Word) :
    Option (VMPool × Machine) := do
  let s ← shiftUp p.allocatedList (p.numAllocated.toNat + 1) (p.numAllocated - 1) index s
  let s ← s.storeRegion p.allocatedList index.toNat x
  some ({ p with numAllocated := p.numAllocated + 1 }, s)

def findGap (p : VMPool) (s : Machine) (size : Word) : Nat → Nat → Option (Option Nat)
  | 0, _ => some none
  | k + 1, i => do
      let next ← s.loadRegion p.allocatedList (i + 1)
      let r ← s.loadRegion p.allocatedList i
      if next.startFrame - r.startFrame - r.size ≥ size then some (some i)
      else findGap p s size k (i + 1)

def allocate (p : VMPool) (s : Machine) (size : Word) : Option (Word × VMPool × Machine) := do
  let size := roundToPages size
  match ← findGap p s size (p.numAllocated - 1).toNat 0 with
  | some i =>
      let r ← s.loadRegion p.allocatedList i
      let retAddress := r.startFrame + r.size
      let (p', s') ← insertItem p s ⟨retAddress, size⟩ (BitVec.ofNat 32 i + 1)
      some (retAddress, p', s')
  | none =>
      let last ← s.loadRegion p.allocatedList (p.numAllocated - 1).toNat
      if p.baseAddress + p.size - last.startFrame - last.size ≥ size then
        let retAddress := last.startFrame + last.size
        let (p', s') ← insertItem p s ⟨retAddress, size⟩ p.numAllocated
        some (retAddress, p', s')
      else none

def ShowsList (s : Machine) (list : Word) (m : Memory) : Prop :=
  ∀ i < 512, s.loadRegion list i = some (readRegion m list i)

/-- A list page: aligned, above the first 4 MB, and mapped to frame `f`. -/
structure ListPage (s : Machine) (list : Word) (f : Nat) : Prop where
  aligned : pageSize.toNat ∣ list.toNat
  user : UserPage (pageOf list)
  mapped : lookup (words s.mem) (frameOf s.cr3) (pageOf list) = some f

section

variable {s t : Machine} {list a : Word} {f i v k : Nat} {m m' : Memory} {x : RegionInfo}
  {q : ContFramePool} {p p' : VMPool} {size : Word}

/-! ## Records of a list page -/

theorem entryAddr_toNat (haligned : pageSize.toNat ∣ list.toNat) (hi : i < 512) :
    (entryAddr list i).toNat = list.toNat + 8 * i ∧
      (entryAddr list i + 4).toNat = list.toNat + 8 * i + 4 := by
  have hlist := list.isLt
  rw [pageSize_toNat] at haligned
  have hoff : (BitVec.ofNat 32 (8 * i) : Word).toNat = 8 * i := toNat_ofNat_of_lt (by omega)
  have hfirst : (entryAddr list i).toNat = list.toNat + 8 * i := by
    rw [entryAddr, toNat_add_of_lt (by omega), hoff]
  refine ⟨hfirst, ?_⟩
  rw [toNat_add_of_lt (by simp; omega), hfirst]
  rfl

theorem ListPage.translate_entry (h : ListPage s list f) (hi : i < 512) :
    translate s.mem s.cr3 (entryAddr list i) = some (slot f (2 * i)) ∧
      translate s.mem s.cr3 (entryAddr list i + 4) = some (slot f (2 * i + 1)) := by
  obtain ⟨hfirst, hsecond⟩ := entryAddr_toNat h.aligned hi
  have haligned := h.aligned
  rw [pageSize_toNat] at haligned
  have hpage : pageOf (entryAddr list i) = pageOf list := by
    unfold pageOf
    omega
  have hpage' : pageOf (entryAddr list i + 4) = pageOf list := by
    unfold pageOf
    omega
  constructor
  · rw [translate_of_lookup (hpage ▸ h.mapped), slot, hfirst]
    congr 2
    omega
  · rw [translate_of_lookup (hpage' ▸ h.mapped), slot, hsecond]
    congr 2
    omega

theorem ListPage.loadRegion (h : ListPage s list f) (hi : i < 512) :
    s.loadRegion list i = some ⟨words s.mem f (2 * i), words s.mem f (2 * i + 1)⟩ := by
  obtain ⟨hfirst, hsecond⟩ := h.translate_entry hi
  rw [Machine.loadRegion, Machine.load, Machine.load, hfirst, hsecond]
  rfl

theorem KeepsPage.listPage (h : KeepsPage s t (pageOf list)) (hl : ListPage s list f) :
    ListPage t list f := ⟨hl.aligned, hl.user, (h f hl.mapped).1⟩

theorem KeepsPage.showsList (h : KeepsPage s t (pageOf list)) (hl : ListPage s list f)
    (hs : ShowsList s list m) : ShowsList t list m := by
  intro i hi
  have hwords := (h f hl.mapped).2
  rw [← hs i hi, (h.listPage hl).loadRegion hi, hl.loadRegion hi, hwords _ (by omega),
    hwords _ (by omega)]

theorem ListPage.exists_shows (h : ListPage s list f) : ∃ m, ShowsList s list m := by
  have hbuild : ∀ n ≤ 512, ∃ m, ∀ i < n, s.loadRegion list i = some (readRegion m list i) := by
    intro n
    induction n with
    | zero => exact fun _ => ⟨fun _ => 0, fun i hi => absurd hi (Nat.not_lt_zero i)⟩
    | succ n ih =>
        intro hn
        obtain ⟨m, hm⟩ := ih (by omega)
        refine ⟨writeRegion m list n ⟨words s.mem f (2 * n), words s.mem f (2 * n + 1)⟩,
          fun i hi => ?_⟩
        rcases Nat.lt_or_eq_of_le (Nat.le_of_lt_succ hi) with hlt | rfl
        · rw [readRegion_writeRegion_ne (n := 512) (by decide) (by omega) (by omega) (by omega)]
          exact hm i hlt
        · rw [readRegion_writeRegion_same]
          exact h.loadRegion (by omega)
  exact hbuild 512 (Nat.le_refl _)

theorem ListPage.storeRegion (hg : Good k q s) (h : ListPage s list f) (hi : i < 512) :
    ∃ t, s.storeRegion list i x = some t ∧ WritesFrame s t f ∧
      words t.mem f (2 * i) = x.startFrame ∧ words t.mem f (2 * i + 1) = x.size ∧
      ∀ j < 1024, j ≠ 2 * i → j ≠ 2 * i + 1 → words t.mem f j = words s.mem f j := by
  have hf : f < 2 ^ 20 := lookup_lt h.mapped
  have hfirst := (h.translate_entry hi).1
  have hw : WritesFrame s (setWord s f (2 * i) x.startFrame) f :=
    writesFrame_setWord hf (by omega)
  have hlookup := (hg.writesPage h.user h.mapped hw).2.1
  have hl : ListPage (setWord s f (2 * i) x.startFrame) list f :=
    ⟨h.aligned, h.user, (hlookup _ (by have := h.user.2; omega)).trans h.mapped⟩
  have hsecond := (hl.translate_entry hi).2
  have hset := setsWord_setWord (s := s) (v := x.startFrame) hf (show 2 * i < 1024 by omega)
  have hset' := setsWord_setWord (s := setWord s f (2 * i) x.startFrame) (v := x.size) hf
    (show 2 * i + 1 < 1024 by omega)
  refine ⟨setWord (setWord s f (2 * i) x.startFrame) f (2 * i + 1) x.size, ?_,
    hw.trans (writesFrame_setWord hf (by omega)), ?_, ?_, fun j hj h1 h2 => ?_⟩
  · have hstore : s.store (entryAddr list i) x.startFrame =
        some (setWord s f (2 * i) x.startFrame) := by
      rw [Machine.store, hfirst]
      rfl
    have hstore' : (setWord s f (2 * i) x.startFrame).store (entryAddr list i + 4) x.size =
        some (setWord (setWord s f (2 * i) x.startFrame) f (2 * i + 1) x.size) := by
      rw [Machine.store, hsecond]
      rfl
    rw [Machine.storeRegion, hstore]
    exact hstore'
  · rw [hset' f hf _ (by omega), if_neg (by omega), hset f hf _ (by omega), if_pos ⟨rfl, rfl⟩]
  · rw [hset' f hf _ (by omega), if_pos ⟨rfl, rfl⟩]
  · rw [hset' f hf j hj, if_neg (by omega), hset f hf j hj, if_neg (by omega)]

/-- The machine `t` after writes into the list page of `s`, when `m` shows the list. -/
structure Wrote (k : Nat) (q : ContFramePool) (s t : Machine) (list : Word) (f : Nat) (m : Memory) :
    Prop where
  good : Good k q t
  page : ListPage t list f
  writes : WritesFrame s t f
  shows_list : ShowsList t list m

theorem Wrote.trans {u : Machine} (h : Wrote k q s t list f m) (h' : Wrote k q t u list f m') :
    Wrote k q s u list f m' := ⟨h'.good, h'.page, h.writes.trans h'.writes, h'.shows_list⟩

theorem storeRegion_wrote (hg : Good k q s) (h : ListPage s list f) (hs : ShowsList s list m)
    (hi : i < 512) (hrun : s.storeRegion list i x = some t) :
    Wrote k q s t list f (writeRegion m list i x) := by
  obtain ⟨t', ht', hw, hfirst, hsecond, hother⟩ := h.storeRegion (x := x) hg hi
  cases hrun.symm.trans ht'
  obtain ⟨hgood, hlookup, -⟩ := hg.writesPage h.user h.mapped hw
  have hl : ListPage t list f := ⟨h.aligned, h.user, by
    rw [hw.regs.cr3_eq, hlookup _ (by have := h.user.2; omega), h.mapped]⟩
  refine ⟨hgood, hl, hw, fun j hj => ?_⟩
  rw [hl.loadRegion hj]
  by_cases hji : j = i
  · subst hji
    rw [hfirst, hsecond, readRegion_writeRegion_same]
  · rw [readRegion_writeRegion_ne (n := 512) (by decide) hi hj (fun hc => hji hc.symm), ← hs j hj,
      h.loadRegion hj, hother _ (by omega) (by omega) (by omega),
      hother _ (by omega) (by omega) (by omega)]

/-! ## The calls -/

theorem shiftUp_wrote {fuel : Nat} {i index : Word} (hg : Good k q s) (h : ListPage s list f)
    (hs : ShowsList s list m) (hindex : 1 ≤ index.toNat)
    (hi : index ≤ i → i.toNat + 1 < 512) (hrun : shiftUp list fuel i index s = some t) :
    ∃ m', VMPool.shiftUp list fuel i index m = .ok m' ∧ Wrote k q s t list f m' := by
  induction fuel generalizing s i m with
  | zero => cases hrun
  | succ fuel ih =>
      rw [shiftUp] at hrun
      rw [VMPool.shiftUp]
      by_cases hge : i ≥ index
      · rw [if_pos hge] at hrun ⊢
        have hlt := hi hge
        have hge' : index.toNat ≤ i.toNat := hge
        have hnext : (i + 1).toNat = i.toNat + 1 := toNat_add_one (by omega)
        have hprev : (i - 1).toNat = i.toNat - 1 := toNat_sub_one (by omega)
        obtain ⟨r, hr, hrun⟩ := Option.bind_eq_some_iff.mp hrun
        cases hr.symm.trans (hs _ (by omega))
        obtain ⟨u, hu, hrun⟩ := Option.bind_eq_some_iff.mp hrun
        have hw := storeRegion_wrote hg h hs (by omega) hu
        obtain ⟨m', hm', hw'⟩ := ih hw.good hw.page hw.shows_list (by omega) hrun
        exact ⟨m', hm', hw.trans hw'⟩
      · rw [if_neg hge] at hrun ⊢
        cases hrun
        exact ⟨m, rfl, hg, h, WritesFrame.refl _ f, hs⟩

theorem insertItem_wrote {index : Word} (hg : Good k q s) (h : ListPage s p.allocatedList f)
    (hs : ShowsList s p.allocatedList m) (hpos : 1 ≤ p.numAllocated.toNat)
    (hfew : p.numAllocated.toNat < 512) (hindex : 1 ≤ index.toNat)
    (hle : index.toNat ≤ p.numAllocated.toNat) (hrun : insertItem p s x index = some (p', t)) :
    ∃ m', p.insertItem m x index = .ok (p', m') ∧ Wrote k q s t p.allocatedList f m' := by
  have hstart : (p.numAllocated - 1).toNat = p.numAllocated.toNat - 1 := toNat_sub_one hpos
  obtain ⟨u, hu, hrun⟩ := Option.bind_eq_some_iff.mp hrun
  obtain ⟨v, hv, hrun⟩ := Option.bind_eq_some_iff.mp hrun
  cases hrun
  obtain ⟨m₁, hm₁, hw⟩ := shiftUp_wrote hg h hs hindex (fun _ => by omega) hu
  have hw' := storeRegion_wrote hw.good hw.page hw.shows_list (by omega) hv
  refine ⟨_, ?_, hw.trans hw'⟩
  rw [VMPool.insertItem, hm₁]
  rfl

theorem findGap_eq (hs : ShowsList s p.allocatedList m) {j : Nat} (hj : i + j < 512) :
    findGap p s size j i = some (p.findGap m size j i) := by
  induction j generalizing i with
  | zero => rfl
  | succ j ih =>
      rw [findGap, VMPool.findGap, hs _ (by omega), hs _ (by omega)]
      show (if _ then _ else _) = _
      by_cases hroom : p.gap m i ≥ size
      · have hroom' : (readRegion m p.allocatedList (i + 1)).startFrame -
            (readRegion m p.allocatedList i).startFrame - (readRegion m p.allocatedList i).size ≥
              size := hroom
        rw [if_pos hroom, if_pos hroom']
      · have hroom' : ¬ (readRegion m p.allocatedList (i + 1)).startFrame -
            (readRegion m p.allocatedList i).startFrame - (readRegion m p.allocatedList i).size ≥
              size := hroom
        rw [if_neg hroom, if_neg hroom', ih (by omega)]

/-- `allocate` on the machine does what `allocate` does on a memory that shows the list. -/
theorem allocate_wrote (hg : Good k q s) (h : ListPage s p.allocatedList f)
    (hs : ShowsList s p.allocatedList m) (hpos : 1 ≤ p.numAllocated.toNat)
    (hfew : p.numAllocated.toNat < 512) (hrun : allocate p s size = some (a, p', t)) :
    ∃ m', p.allocate m size = .ok (a, p', m') ∧ Wrote k q s t p.allocatedList f m' := by
  have hlast : (p.numAllocated - 1).toNat = p.numAllocated.toNat - 1 := toNat_sub_one hpos
  have hgap : findGap p s (roundToPages size) (p.numAllocated - 1).toNat 0 =
      some (p.findGap m (roundToPages size) (p.numAllocated - 1).toNat 0) :=
    findGap_eq hs (by omega)
  rw [VMPool.allocate]
  obtain ⟨place, hplace, hrun⟩ := Option.bind_eq_some_iff.mp hrun
  cases hplace.symm.trans hgap
  cases hfind : p.findGap m (roundToPages size) (p.numAllocated - 1).toNat 0 with
  | some i =>
      rw [hfind] at hrun
      obtain ⟨-, hi, -⟩ := VMPool.findGap_some hfind
      have hindex : (BitVec.ofNat 32 i + 1).toNat = i + 1 := by
        have hi : (BitVec.ofNat 32 i).toNat = i := toNat_ofNat_of_lt (by omega)
        rw [toNat_add_one (by omega), hi]
      obtain ⟨r, hr, hrun⟩ := Option.bind_eq_some_iff.mp hrun
      cases hr.symm.trans (hs i (by omega))
      obtain ⟨⟨p₁, u⟩, hu, hrun⟩ := Option.bind_eq_some_iff.mp hrun
      cases hrun
      obtain ⟨m', hm', hw⟩ := insertItem_wrote hg h hs hpos hfew (by omega) (by omega) hu
      refine ⟨m', ?_, hw⟩
      show (p.insertItem m ⟨p.entryEnd m i, roundToPages size⟩ _ >>= _) = _
      rw [show p.insertItem m ⟨p.entryEnd m i, roundToPages size⟩ (BitVec.ofNat 32 i + 1) =
        .ok (p', m') from hm']
      rfl
  | none =>
      rw [hfind] at hrun
      obtain ⟨last, hr, hrun⟩ := Option.bind_eq_some_iff.mp hrun
      cases hr.symm.trans (hs _ (by omega))
      have htail : p.baseAddress + p.size -
          (readRegion m p.allocatedList (p.numAllocated - 1).toNat).startFrame -
          (readRegion m p.allocatedList (p.numAllocated - 1).toNat).size = p.tailGap m := rfl
      dsimp only at hrun
      rw [htail] at hrun
      by_cases hroom : p.tailGap m ≥ roundToPages size
      · rw [if_pos hroom] at hrun
        obtain ⟨⟨p₁, u⟩, hu, hrun⟩ := Option.bind_eq_some_iff.mp hrun
        cases hrun
        obtain ⟨m', hm', hw⟩ := insertItem_wrote hg h hs hpos hfew hpos (Nat.le_refl _) hu
        refine ⟨m', ?_, hw⟩
        dsimp only
        rw [if_pos hroom]
        show (p.insertItem m ⟨p.entryEnd m _, roundToPages size⟩ _ >>= _) = _
        rw [show p.insertItem m ⟨p.entryEnd m (p.numAllocated - 1).toNat, roundToPages size⟩
          p.numAllocated = .ok (_, m') from hm']
        rfl
      · rw [if_neg hroom] at hrun
        cases hrun

end

end P4

end TeachingKernel.Paging
