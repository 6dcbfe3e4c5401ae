import Mathlib.Data.Set.Insert
import TeachingKernel.Lib.PageTree

/-!
# What a page-table tree makes present

The abstract content of a tree of tables: which directory entries have a table and
which pages are present. Demand paging inserts a page and its table. A tree realizes
such a content if its entries show it and carry no other information than frame
numbers and the fixed bits; two trees that realize one content differ in frame
numbers only.
-/

namespace TeachingKernel.Mmu

structure PageSets where
  tables : Set ℕ
  pages : Set ℕ

def PageSets.first : PageSets := ⟨{0}, {v | v < 1024}⟩

/-- The content after page `v` was asked for. -/
def PageSets.demand (m : PageSets) (v : ℕ) : PageSets :=
  ⟨insert (v / 1024) m.tables, insert v m.pages⟩

def flags (e : Word) : Nat := e.toNat % 4096

/-- Supervisor and writable: the bits above the present bit are fixed. -/
def Plain (e : Word) : Prop := flags e = 2 + e.toNat % 2

theorem plain_absentEntry : Plain absentEntry := rfl

theorem plain_entryOf {f : Word} (hf : f.toNat < 2 ^ 20) : Plain (entryOf f) := by
  rw [Plain, flags, entryOf_toNat hf]
  omega

theorem Plain.flags_congr {e e' : Word} (h : Plain e) (h' : Plain e')
    (hp : Present e ↔ Present e') : flags e = flags e' := by
  have hbit : e.toNat % 2 = e'.toNat % 2 := by
    unfold Present at hp
    omega
  rw [h, h', hbit]

/-- The entry of page `v` in the table that its directory entry points to. -/
def tableEntry (w : Nat → Nat → Word) (d v : Nat) : Word := w (frameOf (w d (v / 1024))) (v % 1024)

/-- The first `top` tables under directory `d` show the content `m`, and the first
table maps its pages to the frames of the same number. -/
structure Realizes (top : Nat) (w : Nat → Nat → Word) (d : Nat) (m : PageSets) : Prop where
  tables_iff : ∀ i < top, Present (w d i) ↔ i ∈ m.tables
  pages_iff : ∀ v, v / 1024 < top → ((lookup w d v).isSome ↔ v ∈ m.pages)
  plain_directory : ∀ i < top, Plain (w d i)
  plain_table : ∀ v, v / 1024 < top → Present (w d (v / 1024)) → Plain (tableEntry w d v)
  identity : ∀ v < 1024, tableEntry w d v = entryOf (BitVec.ofNat 32 v)

section

variable {top d i k v : Nat} {w w' : Nat → Nat → Word} {m : PageSets} {f : Word}

theorem present_of_lookup (h : (lookup w d v).isSome) :
    Present (w d (v / 1024)) ∧ Present (tableEntry w d v) := by
  have hp : Present (w d (v / 1024)) := by
    by_contra hp
    rw [lookup_of_absent hp] at h
    cases h
  refine ⟨hp, ?_⟩
  rw [lookup_of_present hp] at h
  split at h
  · assumption
  · cases h

theorem lookup_isSome_iff (hp : Present (w d (v / 1024))) :
    (lookup w d v).isSome ↔ Present (tableEntry w d v) := by
  refine ⟨fun h => (present_of_lookup h).2, fun h => ?_⟩
  unfold tableEntry at h
  rw [lookup_of_present hp, if_pos h]
  rfl

theorem realizes_first {g : Nat} (hfirst : w d 0 = entryOf f)
    (hf : f.toNat < 2 ^ 20) (hg : f.toNat = g)
    (hrest : ∀ i, 1 ≤ i → i < top → w d i = absentEntry)
    (htable : ∀ j < 1024, w g j = entryOf (BitVec.ofNat 32 j)) :
    Realizes top w d PageSets.first := by
  have hpresent : Present (w d 0) := by
    rw [hfirst]
    exact present_entryOf hf
  have hframe : frameOf (w d 0) = g := by rw [hfirst, frameOf_entryOf hf, hg]
  have hentry : ∀ v, v < 1024 → tableEntry w d v = entryOf (BitVec.ofNat 32 v) := by
    intro v hv
    rw [tableEntry, show v / 1024 = 0 by omega, show v % 1024 = v by omega, hframe, htable v hv]
  have hlow : ∀ v, v < 1024 → (BitVec.ofNat 32 v : Word).toNat < 2 ^ 20 := by
    intro v hv
    have := toNat_ofNat_of_lt (n := v) (by omega)
    omega
  refine ⟨fun i hi => ?_, fun v hv => ?_, fun i hi => ?_, fun v hv hp => ?_, hentry⟩
  · rcases Nat.eq_zero_or_pos i with rfl | hpos
    · exact iff_of_true hpresent rfl
    · rw [hrest i hpos hi]
      exact iff_of_false not_present_absentEntry fun hc => absurd hc (by
        show i ≠ 0
        omega)
  · rcases Nat.lt_or_ge v 1024 with hlt | hge
    · rw [lookup_isSome_iff (by rwa [show v / 1024 = 0 by omega]), hentry v hlt]
      exact iff_of_true (present_entryOf (hlow v hlt)) hlt
    · have habsent : ¬ Present (w d (v / 1024)) := by
        rw [hrest _ (by omega) hv]
        exact not_present_absentEntry
      rw [lookup_of_absent habsent]
      exact iff_of_false (by decide) fun hc => absurd hc (Nat.not_lt.mpr hge)
  · rcases Nat.eq_zero_or_pos i with rfl | hpos
    · rw [hfirst]
      exact plain_entryOf hf
    · rw [hrest i hpos hi]
      exact plain_absentEntry
  · have hlt : v < 1024 := by
      by_contra hge
      rw [hrest _ (by omega) hv] at hp
      exact not_present_absentEntry hp
    rw [hentry v hlt]
    exact plain_entryOf (hlow v hlt)

theorem Realizes.mem_pages (hm : Realizes top w d m) (hi : i < top) (hk : k < 1024)
    (hp : Present (w d i)) (hpage : Present (w (frameOf (w d i)) k)) :
    1024 * i + k ∈ m.pages := by
  rw [← hm.pages_iff _ (by omega), lookup_entry hp hk, if_pos hpage]
  rfl

/-! ## What the two changes of a tree realize -/

private theorem AddsTable.entry_eq (ht : Tree top w d) (htop : top ≤ 1024) (hd : d < 2 ^ 20)
    (hunused : Unused top w d f.toNat) (hf : f.toNat < 2 ^ 20)
    (h : AddsTable w w' d i f.toNat (entryOf f)) (hv : v / 1024 < top)
    (hp : v / 1024 = i ∨ Present (w d (v / 1024))) :
    tableEntry w' d v = if v / 1024 = i then absentEntry else tableEntry w d v := by
  have hmod : v % 1024 < 1024 := Nat.mod_lt v (by decide)
  rw [tableEntry, h.dir_eq hd hunused.dir (show v / 1024 < 1024 by omega)]
  by_cases hvi : v / 1024 = i
  · rw [if_pos hvi, if_pos hvi, frameOf_entryOf hf, h _ hf _ hmod,
      if_neg fun hc => hunused.dir hc.1, if_pos rfl]
  · have hold := hp.resolve_left hvi
    have hapart := ht.dir_apart _ hv hold
    rw [if_neg hvi, if_neg hvi, h _ (frameOf_lt _) _ hmod, if_neg fun hc => hapart hc.1,
      if_neg (hunused.table _ hv hold), tableEntry]

theorem Realizes.addsTable (hm : Realizes top w d m) (ht : Tree top w d) (htop : top ≤ 1024)
    (hd : d < 2 ^ 20) (hunused : Unused top w d f.toNat) (hf : f.toNat < 2 ^ 20)
    (h1 : 1 ≤ i) (hi : i < top) (hfirst : Present (w d 0)) (habsent : ¬ Present (w d i))
    (h : AddsTable w w' d i f.toNat (entryOf f)) :
    Realizes top w' d { m with tables := insert i m.tables } := by
  have hdir : ∀ j < top, w' d j = if j = i then entryOf f else w d j := fun j hj =>
    h.dir_eq hd hunused.dir (by omega)
  refine ⟨fun j hj => ?_, fun v hv => ?_, fun j hj => ?_, fun v hv hp => ?_, fun v hv => ?_⟩
  · rw [hdir j hj, Set.mem_insert_iff]
    split
    · exact iff_of_true (present_entryOf hf) (.inl ‹_›)
    · rw [hm.tables_iff j hj]
      exact (or_iff_right ‹_›).symm
  · rw [ht.lookup_addsTable htop hd hunused (frameOf_entryOf hf) (present_entryOf hf) habsent h hv]
    exact hm.pages_iff v hv
  · rw [hdir j hj]
    split
    · exact plain_entryOf hf
    · exact hm.plain_directory j hj
  · rw [hdir _ hv] at hp
    rw [AddsTable.entry_eq ht htop hd hunused hf h hv]
    · split
      · exact plain_absentEntry
      · rw [if_neg ‹_›] at hp
        exact hm.plain_table v hv hp
    · by_cases hvi : v / 1024 = i
      · exact .inl hvi
      · rw [if_neg hvi] at hp
        exact .inr hp
  · have hzero : v / 1024 = 0 := by omega
    rw [AddsTable.entry_eq ht htop hd hunused hf h (by omega) (.inr (by rwa [hzero])),
      if_neg (by omega)]
    exact hm.identity v hv

private theorem SetsWord.entry_eq (ht : Tree top w d) (htop : top ≤ 1024) (hd : d < 2 ^ 20)
    (hi : i < top) (hpresent : Present (w d i)) (hk : k < 1024)
    (h : SetsWord w w' (frameOf (w d i)) k (entryOf f)) (hv : v / 1024 < top)
    (hp : Present (w d (v / 1024))) :
    tableEntry w' d v = if v = 1024 * i + k then entryOf f else tableEntry w d v := by
  have hmod : v % 1024 < 1024 := Nat.mod_lt v (by decide)
  rw [tableEntry, h.dir_eq hd (ht.dir_apart i hi hpresent) (show v / 1024 < 1024 by omega),
    h _ (frameOf_lt _) _ hmod]
  by_cases hpage : v = 1024 * i + k
  · have hdiv : v / 1024 = i := by omega
    have hrem : v % 1024 = k := by omega
    rw [if_pos hpage, hdiv, if_pos ⟨rfl, hrem⟩]
  · rw [if_neg hpage, if_neg, tableEntry]
    rintro ⟨hframe, hrem⟩
    have := ht.tables_inj _ hv i hi hp hpresent hframe
    omega

/-- An entry set in a table above the first makes its page present. -/
theorem Realizes.setsWord (hm : Realizes top w d m) (ht : Tree top w d) (htop : top ≤ 1024)
    (hd : d < 2 ^ 20) (hf : f.toNat < 2 ^ 20) (h1 : 1 ≤ i) (hi : i < top)
    (hfirst : Present (w d 0)) (hpresent : Present (w d i)) (hk : k < 1024)
    (h : SetsWord w w' (frameOf (w d i)) k (entryOf f)) :
    Realizes top w' d { m with pages := insert (1024 * i + k) m.pages } := by
  have hdir : ∀ j < top, w' d j = w d j := fun j hj =>
    h.dir_eq hd (ht.dir_apart i hi hpresent) (by omega)
  refine ⟨fun j hj => ?_, fun v hv => ?_, fun j hj => ?_, fun v hv hp => ?_, fun v hv => ?_⟩
  · rw [hdir j hj]
    exact hm.tables_iff j hj
  · rw [ht.lookup_setsWord htop hd hi hpresent hk h hv, if_pos (present_entryOf hf),
      Set.mem_insert_iff]
    split
    · exact iff_of_true rfl (.inl ‹_›)
    · rw [hm.pages_iff v hv]
      exact (or_iff_right ‹_›).symm
  · rw [hdir j hj]
    exact hm.plain_directory j hj
  · rw [hdir _ hv] at hp
    rw [SetsWord.entry_eq ht htop hd hi hpresent hk h hv hp]
    split
    · exact plain_entryOf hf
    · exact hm.plain_table v hv hp
  · have hzero : v / 1024 = 0 := by omega
    rw [SetsWord.entry_eq ht htop hd hi hpresent hk h (by omega) (by rwa [hzero]),
      if_neg (by omega)]
    exact hm.identity v hv

end

end TeachingKernel.Mmu
