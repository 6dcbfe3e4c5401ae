import TeachingKernel.Lib.Mmu

/-!
# Changing a page-table tree

The two changes a page-table manager makes to a tree of tables: one entry of a
present table, and a new empty table under an absent entry of the directory. The
tables under the first `top` entries of the directory lie in frames of their own.
-/

namespace TeachingKernel.Mmu

/-- The directory and the tables under its first `top` entries occupy distinct
frames. -/
structure Tree (top : Nat) (w : Nat → Nat → Word) (d : Nat) : Prop where
  tables_inj : ∀ i < top, ∀ j < top, Present (w d i) → Present (w d j) →
    frameOf (w d i) = frameOf (w d j) → i = j
  dir_apart : ∀ i < top, Present (w d i) → frameOf (w d i) ≠ d

def SetsWord (w w' : Nat → Nat → Word) (f k : Nat) (e : Word) : Prop :=
  ∀ g < 2 ^ 20, ∀ j < 1024, w' g j = if g = f ∧ j = k then e else w g j

def AddsTable (w w' : Nat → Nat → Word) (d i f : Nat) (e : Word) : Prop :=
  ∀ g < 2 ^ 20, ∀ j < 1024,
    w' g j = if g = d ∧ j = i then e else if g = f then absentEntry else w g j

section

variable {top d i k f v : Nat} {w w' w'' : Nat → Nat → Word} {e e' : Word}

theorem Tree.mono {top' : Nat} (ht : Tree top w d) (hle : top' ≤ top) : Tree top' w d :=
  ⟨fun i hi j hj => ht.tables_inj i (by omega) j (by omega), fun i hi => ht.dir_apart i (by omega)⟩

theorem SetsWord.dir_eq (h : SetsWord w w' f k e) (hd : d < 2 ^ 20) (hf : f ≠ d) {j : Nat}
    (hj : j < 1024) : w' d j = w d j := by
  rw [h d hd j hj, if_neg fun hc => hf hc.1.symm]

theorem SetsWord.written (h : SetsWord w w' f k e) (hf : f < 2 ^ 20) (hk : k < 1024) :
    w' f k = e := by
  rw [h f hf k hk, if_pos ⟨rfl, rfl⟩]

theorem SetsWord.trans (h : SetsWord w w' f k e) (h' : SetsWord w' w'' f k e') :
    SetsWord w w'' f k e' := by
  intro g hg j hj
  rw [h' g hg j hj, h g hg j hj]
  by_cases hat : g = f ∧ j = k
  · rw [if_pos hat, if_pos hat]
  · rw [if_neg hat, if_neg hat, if_neg hat]

/-- An absent entry outside the directory is as good as another. -/
theorem SetsWord.lookup_absent (h : SetsWord w w' f k e) (hd : d < 2 ^ 20) (hf : f ≠ d)
    (hold : ¬ Present (w f k)) (hnew : ¬ Present e) (hv : v < 2 ^ 20) :
    lookup w' d v = lookup w d v := by
  have hdir : w' d (v / 1024) = w d (v / 1024) := h.dir_eq hd hf (by omega)
  by_cases hp : Present (w d (v / 1024))
  · have hentry := h (frameOf (w d (v / 1024))) (frameOf_lt _) (v % 1024) (by omega)
    rw [lookup_of_present (by rwa [hdir]), lookup_of_present hp, hdir, hentry]
    by_cases hat : frameOf (w d (v / 1024)) = f ∧ v % 1024 = k
    · rw [if_pos hat, if_neg hnew, hat.1, hat.2, if_neg hold]
    · rw [if_neg hat]
  · rw [lookup_of_absent hp, lookup_of_absent (by rwa [hdir])]

/-- An entry written into the table under directory entry `i` maps one page and
leaves the others alone. -/
theorem Tree.lookup_setsWord (ht : Tree top w d) (htop : top ≤ 1024) (hd : d < 2 ^ 20)
    (hi : i < top) (hpresent : Present (w d i)) (hk : k < 1024)
    (h : SetsWord w w' (frameOf (w d i)) k e) (hv : v / 1024 < top) :
    lookup w' d v = if v = 1024 * i + k then (if Present e then some (frameOf e) else none)
      else lookup w d v := by
  have hdir : ∀ j < top, w' d j = w d j := fun j hj =>
    h.dir_eq hd (ht.dir_apart i hi hpresent) (by omega)
  have hmod : v % 1024 < 1024 := Nat.mod_lt v (by decide)
  by_cases hpage : v = 1024 * i + k
  · have hdiv : v / 1024 = i := by omega
    have hrem : v % 1024 = k := by omega
    have hread : w' (frameOf (w d i)) k = e := h.written (frameOf_lt _) hk
    rw [if_pos hpage, lookup_of_present (by rwa [hdir _ hv, hdiv]), hdir _ hv, hdiv, hrem, hread]
  · rw [if_neg hpage]
    refine lookup_congr (hdir _ hv) fun hp => ?_
    rw [h _ (frameOf_lt _) _ hmod, if_neg]
    rintro ⟨hframe, hrem⟩
    have := ht.tables_inj _ hv i hi hp hpresent hframe
    omega

/-- A frame that neither holds the directory nor a table. -/
structure Unused (top : Nat) (w : Nat → Nat → Word) (d f : Nat) : Prop where
  dir : f ≠ d
  table : ∀ i < top, Present (w d i) → frameOf (w d i) ≠ f

theorem Unused.mono {top' : Nat} (h : Unused top w d f) (hle : top' ≤ top) : Unused top' w d f :=
  ⟨h.dir, fun i hi => h.table i (by omega)⟩

theorem AddsTable.dir_eq (h : AddsTable w w' d i f e) (hd : d < 2 ^ 20) (hf : f ≠ d) {j : Nat}
    (hj : j < 1024) : w' d j = if j = i then e else w d j := by
  rw [h d hd j hj, if_neg (fun hc : d = f => hf hc.symm)]
  by_cases hji : j = i
  · rw [if_pos ⟨rfl, hji⟩, if_pos hji]
  · rw [if_neg fun hc => hji hc.2, if_neg hji]

/-- An empty table under an absent entry of the directory maps nothing new. -/
theorem Tree.lookup_addsTable (ht : Tree top w d) (htop : top ≤ 1024) (hd : d < 2 ^ 20)
    (hf : Unused top w d f) (hfe : frameOf e = f) (hpe : Present e)
    (habsent : ¬ Present (w d i)) (h : AddsTable w w' d i f e) (hv : v / 1024 < top) :
    lookup w' d v = lookup w d v := by
  have hmod : v % 1024 < 1024 := Nat.mod_lt v (by decide)
  have hdir := h.dir_eq hd hf.dir (show v / 1024 < 1024 by omega)
  by_cases hvi : v / 1024 = i
  · rw [if_pos hvi] at hdir
    have hempty : w' f (v % 1024) = absentEntry := by
      rw [h f (hfe ▸ frameOf_lt e) _ hmod, if_neg fun hc => hf.dir hc.1, if_pos rfl]
    rw [lookup_of_present (by rwa [hdir]), hdir, hfe, hempty, if_neg not_present_absentEntry,
      lookup_of_absent (by rwa [hvi])]
  · rw [if_neg hvi] at hdir
    refine lookup_congr hdir fun hp => ?_
    have hapart := ht.dir_apart _ hv hp
    rw [h _ (frameOf_lt _) _ hmod, if_neg fun hc => hapart hc.1, if_neg (hf.table _ hv hp)]

end

end TeachingKernel.Mmu
