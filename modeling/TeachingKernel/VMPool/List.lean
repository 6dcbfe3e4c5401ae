import Mathlib.Data.List.InsertIdx
import TeachingKernel.VMPool.Model

/-!
# The region list as a list

The entries `allocated_list[0 .. num_allocated)`, read out of memory, and what
the two shifting loops do to them: `insert_item` is insertion at an index and
`remove_item` removal at an index. Both write inside the array only.
-/

namespace TeachingKernel.VM

open ForLoop

def InList (list : Word) (n : Nat) (x : Word) : Prop := (x - list).toNat < 8 * n

instance (list : Word) (n : Nat) (x : Word) : Decidable (InList list n x) :=
  inferInstanceAs (Decidable (_ < _))

section Records

variable {m : Memory} {list x : Word} {r : RegionInfo} {i j n : Nat}

private theorem toNat_sub_entryAddr (hi : 8 * i < 2 ^ 32) (x : Word) :
    (x - entryAddr list i).toNat = ((x - list).toNat + 2 ^ 32 - 8 * i) % 2 ^ 32 := by
  rw [entryAddr, toNat_sub_add, toNat_ofNat_of_lt hi]

private theorem toNat_sub_second (x : Word) :
    (x - (entryAddr list i + 4)).toNat = ((x - entryAddr list i).toNat + 2 ^ 32 - 4) % 2 ^ 32 :=
  toNat_sub_add x _ 4

private theorem entry_fields_apart (a : Word) : Memory.Apart (a + 4) a := by
  have h : (a - (a + 4)).toNat = _ := toNat_sub_add a a 4
  rw [BitVec.sub_self] at h
  constructor
  · rw [BitVec.add_comm, BitVec.add_sub_cancel]
    decide
  · rw [h]
    decide

theorem writeRegion_apply (hn : 8 * n ≤ 2 ^ 32) (hi : i < n) (hx : ¬ InList list n x) :
    writeRegion m list i r x = m x := by
  unfold InList at hx
  have hoff : (x - entryAddr list i).toNat = _ := toNat_sub_entryAddr (by omega) x
  have hx32 := (x - list).isLt
  have h4 : (x - (entryAddr list i + 4)).toNat = _ := toNat_sub_second x
  rw [writeRegion, Memory.writeWord_apply_of_le (by omega),
    Memory.writeWord_apply_of_le (by omega)]

@[simp] theorem readRegion_writeRegion_same : readRegion (writeRegion m list i r) list i = r := by
  rw [readRegion, writeRegion, Memory.readWord_writeWord_same,
    Memory.readWord_writeWord_apart (entry_fields_apart _), Memory.readWord_writeWord_same]

theorem readRegion_congr {m' : Memory}
    (h : ∀ x : Word, (x - entryAddr list i).toNat < 8 → m' x = m x) :
    readRegion m' list i = readRegion m list i := by
  have h4 : ∀ x : Word, (x - (entryAddr list i + 4)).toNat < 4 → m' x = m x := by
    intro x hx
    apply h
    rw [toNat_sub_second] at hx
    have := (x - entryAddr list i).isLt
    omega
  rw [readRegion, readRegion, Memory.readWord_congr fun x hx => h x (by omega),
    Memory.readWord_congr h4]

theorem readRegion_writeRegion_ne (hn : 8 * n ≤ 2 ^ 32) (hi : i < n) (hj : j < n) (hne : i ≠ j) :
    readRegion (writeRegion m list i r) list j = readRegion m list j := by
  apply readRegion_congr
  intro x hx
  rw [toNat_sub_entryAddr (by omega)] at hx
  have hxi : (x - entryAddr list i).toNat = _ := toNat_sub_entryAddr (by omega) x
  have hx32 := (x - list).isLt
  have h4 : (x - (entryAddr list i + 4)).toNat = _ := toNat_sub_second x
  rw [writeRegion, Memory.writeWord_apply_of_le (by omega),
    Memory.writeWord_apply_of_le (by omega)]

theorem readRegion_congr_of_inList {m' : Memory} (hn : 8 * n ≤ 2 ^ 32) (hi : i < n)
    (h : ∀ x, InList list n x → m' x = m x) : readRegion m' list i = readRegion m list i := by
  apply readRegion_congr
  intro x hx
  apply h
  rw [toNat_sub_entryAddr (by omega)] at hx
  have hx32 := (x - list).isLt
  unfold InList
  omega

end Records

namespace VMPool

variable {p p' : VMPool} {m m' : Memory} {x : RegionInfo} {index : Word}

def entries (p : VMPool) (m : Memory) : List RegionInfo :=
  (List.range p.numAllocated.toNat).map (p.entry m)

@[simp] theorem length_entries : (p.entries m).length = p.numAllocated.toNat := by simp [entries]

theorem getElem?_entries (i : Nat) :
    (p.entries m)[i]? = if i < p.numAllocated.toNat then some (p.entry m i) else none := by
  split <;> simp_all [entries]

@[simp] theorem getElem_entries {i : Nat} (h : i < (p.entries m).length) :
    (p.entries m)[i] = p.entry m i := by
  simp [entries]

theorem entries_congr (hn : 8 * p.numAllocated.toNat ≤ 2 ^ 32)
    (h : ∀ x, InList p.allocatedList p.numAllocated.toNat x → m' x = m x) :
    p.entries m' = p.entries m := by
  apply List.map_congr_left
  intro i hi
  exact readRegion_congr_of_inList hn (List.mem_range.mp hi) h

/-- The state of the shifting loop when the entries from `k + 1` on have moved. -/
private structure Shifted (list : Word) (n k : Nat) (m t : Memory) : Prop where
  kept : ∀ j < k, readRegion t list j = readRegion m list j
  moved : ∀ j, k ≤ j → j < n → readRegion t list (j + 1) = readRegion m list j
  outside : ∀ y, ¬ InList list (n + 1) y → t y = m y

private theorem shiftUp_spec {list : Word} {n : Nat} (hn : 8 * (n + 1) ≤ 2 ^ 32)
    (hindex : 1 ≤ index.toNat) (hle : index.toNat ≤ n) (fuel k : Nat) (i : Word) (t : Memory)
    (hk : i.toNat + 1 = k) (hkn : k ≤ n) (hki : index.toNat ≤ k) (hfuel : k - index.toNat < fuel)
    (ht : Shifted list n k m t) :
    ∃ u, shiftUp list fuel i index t = .ok u ∧ Shifted list n index.toNat m u := by
  induction fuel generalizing k i t with
  | zero => omega
  | succ fuel ih =>
      rw [shiftUp]
      by_cases hge : index ≤ i
      · have hge' : index.toNat ≤ i.toNat := hge
        have hi1 : (i - 1).toNat = i.toNat - 1 := toNat_sub_one (by omega)
        have hip : (i + 1).toNat = k := (toNat_add_one (by omega)).trans hk
        rw [if_pos hge, hip]
        have hget : readRegion t list i.toNat = readRegion m list i.toNat := ht.kept _ (by omega)
        refine ih (k - 1) (i - 1) _ (by omega) (by omega) (by omega) (by omega) ⟨?_, ?_, ?_⟩
        · intro j hj
          rw [readRegion_writeRegion_ne hn (by omega) (by omega) (by omega)]
          exact ht.kept j (by omega)
        · intro j hj hjn
          rcases Nat.lt_or_ge j k with hlt | hge
          · obtain rfl : j = i.toNat := by omega
            rw [hk, readRegion_writeRegion_same, hget]
          · rw [readRegion_writeRegion_ne hn (by omega) (by omega) (by omega)]
            exact ht.moved j hge hjn
        · intro y hy
          rw [writeRegion_apply hn (by omega) hy]
          exact ht.outside y hy
      · have hlt : i.toNat < index.toNat := Nat.lt_of_not_le hge
        obtain rfl : k = index.toNat := by omega
        rw [if_neg hge]
        exact ⟨t, rfl, ht⟩

/-- A longer array that holds `x` at the index and the later entries one place higher. -/
private theorem entries_eq_insertIdx {i : Nat} {u : Memory}
    (hcount : (p.numAllocated + 1).toNat = p.numAllocated.toNat + 1)
    (hle : i ≤ p.numAllocated.toNat)
    (hread : ∀ j ≤ p.numAllocated.toNat, readRegion u p.allocatedList j =
      if j < i then p.entry m j else if j = i then x else p.entry m (j - 1)) :
    ({ p with numAllocated := p.numAllocated + 1 } : VMPool).entries u =
      (p.entries m).insertIdx i x := by
  apply List.ext_getElem?
  intro j
  rw [List.getElem?_insertIdx, getElem?_entries, getElem?_entries, getElem?_entries,
    length_entries, hcount]
  by_cases hj : j < p.numAllocated.toNat + 1
  · rw [if_pos hj, entry, hread j (by omega)]
    rcases Nat.lt_trichotomy j i with hlt | rfl | hgt
    · rw [if_pos hlt, if_pos hlt, if_pos (by omega)]
    · simp [hle]
    · rw [if_neg (by omega), if_neg (by omega), if_neg (by omega), if_neg (by omega),
        if_pos (by omega)]
  · rw [if_neg hj, if_neg (by omega), if_neg (by omega), if_neg (by omega)]

/-- `insert_item` completes, inserts at the index, and writes inside the longer
array only. -/
theorem insertItem_spec (hn : 8 * (p.numAllocated.toNat + 1) ≤ 2 ^ 32) (hindex : 1 ≤ index.toNat)
    (hle : index.toNat ≤ p.numAllocated.toNat) :
    ∃ m', p.insertItem m x index = .ok ({ p with numAllocated := p.numAllocated + 1 }, m') ∧
      ({ p with numAllocated := p.numAllocated + 1 } : VMPool).entries m' =
        (p.entries m).insertIdx index.toNat x ∧
      ∀ y, ¬ InList p.allocatedList (p.numAllocated.toNat + 1) y → m' y = m y := by
  have hstart : (p.numAllocated - 1).toNat + 1 = p.numAllocated.toNat := by
    rw [toNat_sub_one (by omega)]
    omega
  have hcount : (p.numAllocated + 1).toNat = p.numAllocated.toNat + 1 := toNat_add_one (by omega)
  obtain ⟨u, hu, hshift⟩ := shiftUp_spec hn hindex hle (p.numAllocated.toNat + 1)
    p.numAllocated.toNat (p.numAllocated - 1) m hstart (Nat.le_refl _) hle (by omega)
    ⟨fun _ _ => rfl, fun j hj hjn => by omega, fun _ _ => rfl⟩
  refine ⟨writeRegion u p.allocatedList index.toNat x, ?_, ?_, ?_⟩
  · rw [insertItem, hu]
    rfl
  · refine entries_eq_insertIdx hcount hle fun j hj => ?_
    rcases Nat.lt_trichotomy j index.toNat with hlt | rfl | hgt
    · rw [readRegion_writeRegion_ne hn (by omega) (by omega) (by omega), if_pos hlt]
      exact hshift.kept j hlt
    · rw [readRegion_writeRegion_same, if_neg (by omega), if_pos rfl]
    · rw [readRegion_writeRegion_ne hn (by omega) (by omega) (by omega), if_neg (by omega),
        if_neg (by omega)]
      have h := hshift.moved (j - 1) (by omega) (by omega)
      rwa [Nat.sub_add_cancel (by omega)] at h
  · intro y hy
    rw [writeRegion_apply hn (by omega) hy]
    exact hshift.outside y hy

private structure ShiftedDown (list : Word) (n index k : Nat) (m t : Memory) : Prop where
  kept : ∀ j < n, j < index ∨ k ≤ j → readRegion t list j = readRegion m list j
  moved : ∀ j, index ≤ j → j < k → j + 1 < n → readRegion t list j = readRegion m list (j + 1)
  outside : ∀ y, ¬ InList list n y → t y = m y

private theorem shiftDown_step {list : Word} {n k i : Nat} {t : Memory} (hn : 8 * n ≤ 2 ^ 32)
    (hki : i ≤ k) (hkn : k < n) (ht : ShiftedDown list n i k m t) :
    ShiftedDown list n i (k + 1) m (writeRegion t list k (readRegion t list (k + 1))) := by
  refine ⟨fun j hj hout => ?_, fun j hij hjk hjn => ?_, fun y hy => ?_⟩
  · rw [readRegion_writeRegion_ne hn hkn hj (by omega)]
    exact ht.kept j hj (by omega)
  · rcases Nat.lt_or_eq_of_le (Nat.le_of_lt_succ hjk) with hlt | rfl
    · rw [readRegion_writeRegion_ne hn hkn (by omega) (by omega)]
      exact ht.moved j hij hlt hjn
    · rw [readRegion_writeRegion_same]
      exact ht.kept (j + 1) hjn (Or.inr (Nat.le_succ j))
  · rw [writeRegion_apply hn hkn hy]
    exact ht.outside y hy

/-- `remove_item` removes the entry at the index and writes inside the array only.
What its last iteration reads behind the array is overwritten by the clean-up. -/
theorem removeItem_spec (hn : 8 * p.numAllocated.toNat ≤ 2 ^ 32)
    (hindex : index.toNat < p.numAllocated.toNat) :
    (p.removeItem m index).1 = { p with numAllocated := p.numAllocated - 1 } ∧
      (p.removeItem m index).1.entries (p.removeItem m index).2 =
        (p.entries m).eraseIdx index.toNat ∧
      ∀ y, ¬ InList p.allocatedList p.numAllocated.toNat y → (p.removeItem m index).2 y = m y := by
  have hcount : (p.numAllocated - 1).toNat = p.numAllocated.toNat - 1 := toNat_sub_one (by omega)
  have hloop := forRange_invariant
    (P := fun k t => ShiftedDown p.allocatedList p.numAllocated.toNat index.toNat k m t)
    (f := fun i m => writeRegion m p.allocatedList i (readRegion m p.allocatedList (i + 1)))
    (s := m) (Nat.le_of_lt hindex)
    ⟨fun _ _ _ => rfl, fun j hij hjk _ => by omega, fun _ _ => rfl⟩
    (fun k t hik hkn ht => shiftDown_step hn hik hkn ht)
  refine ⟨rfl, ?_, fun y hy => ?_⟩
  · apply List.ext_getElem?
    intro j
    rw [List.getElem?_eraseIdx, getElem?_entries, getElem?_entries, getElem?_entries]
    change (if j < (p.numAllocated - 1).toNat then _ else _) = _
    rw [hcount]
    by_cases hj : j < p.numAllocated.toNat - 1
    · have hread : (p.removeItem m index).1.entry (p.removeItem m index).2 j =
          if j < index.toNat then p.entry m j else p.entry m (j + 1) := by
        change readRegion (writeRegion _ _ (p.numAllocated - 1).toNat _) p.allocatedList j = _
        rw [hcount, readRegion_writeRegion_ne hn (by omega) (by omega) (by omega)]
        by_cases hlt : j < index.toNat
        · rw [if_pos hlt]
          exact hloop.kept j (by omega) (Or.inl hlt)
        · rw [if_neg hlt]
          exact hloop.moved j (by omega) (by omega) (by omega)
      rw [if_pos hj, hread, if_pos (show j < p.numAllocated.toNat by omega),
        if_pos (show j + 1 < p.numAllocated.toNat by omega)]
      by_cases hlt : j < index.toNat
      · rw [if_pos hlt, if_pos hlt]
      · rw [if_neg hlt, if_neg hlt]
    · rw [if_neg hj, if_neg (by omega), if_neg (by omega)]
  · change writeRegion _ _ (p.numAllocated - 1).toNat _ y = _
    rw [hcount, writeRegion_apply hn (by omega) hy]
    exact hloop.outside y hy

/-- An insertion at an index from 1 on completes and keeps the order of the other
entries, and `remove_item` at the index undoes it. On any list `remove_item` leaves
out the one entry. -/
theorem insertItem_then_removeItem :
    (∀ (p : VMPool) (m : Memory) (x : RegionInfo) (index : Word),
      8 * (p.numAllocated.toNat + 1) ≤ 2 ^ 32 → 1 ≤ index.toNat →
      index.toNat ≤ p.numAllocated.toNat →
      ∃ p' m', p.insertItem m x index = .ok (p', m') ∧
        p'.entries m' = (p.entries m).insertIdx index.toNat x ∧
        (p'.removeItem m' index).1 = p ∧
        p.entries (p'.removeItem m' index).2 = p.entries m) ∧
    ∀ (p : VMPool) (m : Memory) (i : Word), 8 * p.numAllocated.toNat ≤ 2 ^ 32 →
      i.toNat < p.numAllocated.toNat →
      (p.removeItem m i).1.entries (p.removeItem m i).2 = (p.entries m).eraseIdx i.toNat := by
  constructor
  · intro p m x index hn hindex hle
    obtain ⟨m', hinsert, hentries, -⟩ := insertItem_spec (m := m) (x := x) hn hindex hle
    have hcount : (p.numAllocated + 1).toNat = p.numAllocated.toNat + 1 := toNat_add_one (by omega)
    have hlt : index.toNat < (p.numAllocated + 1).toNat := by
      rw [hcount]
      omega
    obtain ⟨hpool, hremoved, -⟩ := removeItem_spec
      (p := { p with numAllocated := p.numAllocated + 1 }) (m := m') (by rw [hcount]; exact hn) hlt
    have hback : ({ p with numAllocated := p.numAllocated + 1 - 1 } : VMPool) = p := by
      rw [BitVec.add_sub_cancel]
    rw [hpool, hback, hentries, List.eraseIdx_insertIdx_self] at hremoved
    exact ⟨_, m', hinsert, hentries, hpool.trans hback, hremoved⟩
  · intro p m i hn hi
    exact (removeItem_spec hn hi).2.1

def threeListed : VMPool := ⟨0x1000, 0x8000, 3, 0x1000⟩

def threeListedMemory : Memory :=
  writeRegion (writeRegion (writeRegion (fun _ => 0) 0x1000 0 ⟨0x1000, 0x1000⟩)
    0x1000 1 ⟨0x3000, 0x1000⟩) 0x1000 2 ⟨0x6000, 0x2000⟩

theorem insertItem_then_removeItem_second :
    (∃ p' m', threeListed.insertItem threeListedMemory ⟨0x2000, 0x1000⟩ 1 = .ok (p', m') ∧
      p'.entries m' =
        [⟨0x1000, 0x1000⟩, ⟨0x2000, 0x1000⟩, ⟨0x3000, 0x1000⟩, ⟨0x6000, 0x2000⟩] ∧
      (p'.removeItem m' 1).1 = threeListed ∧
      threeListed.entries (p'.removeItem m' 1).2 =
        [⟨0x1000, 0x1000⟩, ⟨0x3000, 0x1000⟩, ⟨0x6000, 0x2000⟩]) ∧
    (threeListed.removeItem threeListedMemory 1).1.entries
      (threeListed.removeItem threeListedMemory 1).2 = [⟨0x1000, 0x1000⟩, ⟨0x6000, 0x2000⟩] := by
  have hentries : threeListed.entries threeListedMemory =
      [⟨0x1000, 0x1000⟩, ⟨0x3000, 0x1000⟩, ⟨0x6000, 0x2000⟩] := by
    decide +kernel
  constructor
  · obtain ⟨p', m', hinsert, hinserted, hpool, hback⟩ := insertItem_then_removeItem.1
      threeListed threeListedMemory ⟨0x2000, 0x1000⟩ 1 (by decide) (by decide) (by decide)
    rw [hentries] at hinserted hback
    exact ⟨p', m', hinsert, hinserted, hpool, hback⟩
  · have hremoved := insertItem_then_removeItem.2 threeListed threeListedMemory 1 (by decide)
      (by decide)
    rw [hentries] at hremoved
    exact hremoved

end VMPool

end TeachingKernel.VM
