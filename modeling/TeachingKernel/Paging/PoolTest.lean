import TeachingKernel.Paging.Coherence
import TeachingKernel.Paging.PoolCalls
import TeachingKernel.Paging.Supply

/-!
# The memory test of P4

`main` allocates integer arrays from a pool, fills each of them and reads it back. The
pages are provided while the arrays are filled. No run of the test fails, and with room
and frames enough the test comes to its end.
-/

namespace TeachingKernel.Paging.P4

open ForLoop FramePool ContFramePool VM Mmu Runs

/-- Why the test does not come to its end: a call of `TestFailed`, or a failed assertion. -/
inductive Halt where
  | testFailed
  | stopped

def orStop {α : Type} : Option α → Except Halt α
  | some x => .ok x
  | none => .error .stopped

def assign (process : Nat) (a v : Word) (y : System) : Option System := do
  let s ← demand y.vmPools process a y.machine
  let s ← s.store a v
  some { y with machine := s }

def fetch (process : Nat) (a : Word) (y : System) : Option (Word × System) := do
  let s ← demand y.vmPools process a y.machine
  let v ← s.load a
  some (v, { y with machine := s })

def operatorNew (currentPool : Nat) (size : Word) (y : System) : Option (Word × System) := do
  let p ← y.vmPools[currentPool]?
  let (a, p, s) ← allocate p y.machine size
  some (a, ⟨s, y.vmPools.set currentPool p⟩)

def operatorDelete (currentPool : Nat) (a : Word) (y : System) : Option System := do
  let p ← y.vmPools[currentPool]?
  let (p, s) ← release p y.machine a
  some ⟨s, y.vmPools.set currentPool p⟩

def intAddr (arr : Word) (j : Nat) : Word := arr + 4 * BitVec.ofNat 32 j

/-- `for (j = 0; j < n; j++) arr[j] = j` -/
def writeInts (process : Nat) (arr : Word) (n : Nat) (y : System) : Option System :=
  forRange? 0 n (fun j => assign process (intAddr arr j) (BitVec.ofNat 32 j)) y

/-- `for (j = n - 1; j >= 0; j--) if (arr[j] != j) TestFailed()` -/
def checkInts (process : Nat) (arr : Word) : Nat → System → Except Halt System
  | 0, y => .ok y
  | j + 1, y => do
      let (v, y) ← orStop (fetch process (intAddr arr j) y)
      if v ≠ BitVec.ofNat 32 j then .error .testFailed else checkInts process arr j y

def testArray (process pool n : Nat) (y : System) : Except Halt System := do
  let (arr, y) ← orStop (operatorNew pool (BitVec.ofNat 32 (4 * n)) y)
  let legitimate ← orStop (y.vmPools[pool]?.bind fun p => isLegitimate p y.machine arr)
  if legitimate = false then .error .testFailed
  else
    let y ← orStop (writeInts process arr n y)
    let y ← checkInts process arr n y
    orStop (operatorDelete pool arr y)

/-- The iterations `i .. i + k - 1`, the array of each having `size2 * i` integers. -/
def testArrays (process pool size2 : Nat) : Nat → Nat → System → Except Halt System
  | 0, _, y => .ok y
  | k + 1, i, y => do
      let y ← testArray process pool (size2 * i) y
      testArrays process pool size2 k (i + 1) y

def generateVMPoolMemoryReferences (process pool size1 size2 : Nat) (y : System) :
    Except Halt System :=
  testArrays process pool size2 (size1 - 1) 1 y

def intPages (n : Nat) : Nat := (n + 1023) / 1024

def testPages (size2 : Nat) : Nat → Nat → Nat
  | 0, _ => 0
  | k + 1, i => intPages (size2 * i) + testPages size2 k (i + 1)

/-- There is room for `pages` more pages of regions behind the regions of the pool, and
frames for them and their tables. -/
structure Supplied (k pool pages : Nat) (y : System) : Prop where
  frames : Spares k (2 * pages) y.machine
  room : ∃ p l limit, y.vmPools[pool]? = some p ∧ Lists y.machine p l ∧
    (∀ r ∈ l, r.stop ≤ limit) ∧
    limit + pageSize.toNat * pages ≤ p.baseAddress.toNat + p.size.toNat

structure Ready (k : Nat) (q : ContFramePool) (pool c : Nat) (y : System) : Prop where
  good : SystemGood k q y
  pages : ListsPages y
  fits : ∃ p, y.vmPools[pool]? = some p ∧ p.numAllocated.toNat + c ≤ 512

section

variable {k pool n c j : Nat} {q : ContFramePool} {y z : System} {p p' : VMPool} {a arr v w : Word}
  {s t : Machine} {l : List RegionInfo} {r : RegionInfo}

/-! ## Single accesses -/

theorem SystemGood.writesPage {f : Nat} (h : SystemGood k q y) (ha : UserPage (pageOf a))
    (hfree : ∀ p ∈ y.vmPools, pageOf a ≠ pageOf p.allocatedList)
    (hf : lookup (words y.machine.mem) (frameOf y.machine.cr3) (pageOf a) = some f)
    (hw : WritesFrame y.machine t f) :
    SystemGood k q ⟨t, y.vmPools⟩ ∧
      ∀ p ∈ y.vmPools, KeepsPage y.machine t (pageOf p.allocatedList) := by
  obtain ⟨hgood, -, hkeep⟩ := h.paging.writesPage ha hf hw
  have hlists : ∀ p ∈ y.vmPools, KeepsPage y.machine t (pageOf p.allocatedList) := fun p hp =>
    hkeep _ (h.pools p hp).user fun hc => hfree p hp hc.symm
  exact ⟨⟨hgood, fun p hp => (h.pools p hp).keep (hlists p hp), h.apart, h.room⟩, hlists⟩

/-- The word at `a` may be read and written. -/
structure Usable (y : System) (a : Word) : Prop where
  legitimate : checkAddress y.vmPools y.machine a = some true
  free : ∀ p ∈ y.vmPools, pageOf a ≠ pageOf p.allocatedList
  aligned : a.toNat % 4 = 0

structure Keeps (y z : System) : Prop where
  pools : z.vmPools = y.vmPools
  lists : ∀ p ∈ y.vmPools, KeepsPage y.machine z.machine (pageOf p.allocatedList)

theorem SystemGood.assign (h : SystemGood k q y)
    (hrange : q.baseFrameNo.toNat + q.nframes.toNat ≤ 2 ^ 20) (ha : Usable y a)
    (hrun : assign k a v y = some z) :
    SystemGood k q z ∧ Keeps y z ∧ z.machine.load a = some v ∧
      ∀ a' w, UserPage (pageOf a') → a'.toNat % 4 = 0 → a' ≠ a → y.machine.load a' = some w →
        z.machine.load a' = some w := by
  obtain ⟨s, hs, hrun⟩ := Option.bind_eq_some_iff.mp hrun
  obtain ⟨t, ht, hrun⟩ := Option.bind_eq_some_iff.mp hrun
  cases hrun
  have huser := h.userPage ha.legitimate
  obtain ⟨-, -, hkeep⟩ := h.paging.demand hrange huser hs
  have hgood := h.touch hrange ha.legitimate hs
  obtain ⟨f, hf, hw, hself, hother⟩ := hgood.paging.store_word huser ha.aligned ht
  obtain ⟨hgood', hlists⟩ := hgood.writesPage huser ha.free hf hw
  refine ⟨hgood', ⟨rfl, fun p hp => (hkeep _ (h.pools p hp).user).trans (hlists p hp)⟩, hself,
    fun a' w ha' halign hne hload => hother a' w ha' halign hne ((hkeep _ ha').load halign hload)⟩

/-- An assignment returns if its page is there, or two frames are left. -/
theorem SystemGood.assign_returns (h : SystemGood k q y)
    (hrange : q.baseFrameNo.toNat + q.nframes.toNat ≤ 2 ^ 20) (ha : Usable y a)
    (hpage : (y.machine.load a).isSome ∨ Spares k 2 y.machine) :
    ∃ z, P4.assign k a v y = some z := by
  have huser := h.userPage ha.legitimate
  obtain ⟨s, hs⟩ : ∃ s, P4.demand y.vmPools k a y.machine = some s := by
    rcases hpage with hmapped | hspares
    · exact ⟨_, demand_mapped hmapped⟩
    · exact h.paging.demand_returns hrange huser ha.legitimate hspares
  obtain ⟨-, hmapped, -⟩ := h.paging.demand hrange huser hs
  obtain ⟨f, hf⟩ := Option.isSome_iff_exists.mp hmapped
  refine ⟨{ y with machine := setWord s f (a.toNat % 4096 / 4) v }, ?_⟩
  simp only [P4.assign, hs, store_of_lookup hf ha.aligned, Option.bind_eq_bind, Option.bind_some]

theorem assign_spares {m : Nat} (h : Spares k (m + 2) y.machine)
    (hrun : assign k a v y = some z) : Spares k m z.machine := by
  obtain ⟨s, hs, hrun⟩ := Option.bind_eq_some_iff.mp hrun
  obtain ⟨t, ht, hrun⟩ := Option.bind_eq_some_iff.mp hrun
  cases hrun
  exact (demand_spares h hs).of_pools (store_pools ht)

theorem assign_spares_mapped {m : Nat} (h : Spares k m y.machine)
    (hmapped : (y.machine.load a).isSome) (hrun : assign k a v y = some z) :
    Spares k m z.machine := by
  obtain ⟨s, hs, hrun⟩ := Option.bind_eq_some_iff.mp hrun
  cases (demand_mapped hmapped).symm.trans hs
  obtain ⟨t, ht, hrun⟩ := Option.bind_eq_some_iff.mp hrun
  cases hrun
  exact h.of_pools (store_pools ht)

theorem fetch_of_load (h : y.machine.load a = some v) : fetch k a y = some (v, y) := by
  have hmapped : (y.machine.load a).isSome := by rw [h]; rfl
  simp only [fetch, demand_mapped hmapped, h, Option.bind_eq_bind, Option.bind_some]

/-! ## One array -/

/-- The `n` integers at `arr` are a region of the pool, behind the page of its list. -/
structure ArrayIn (y : System) (pool : Nat) (p : VMPool) (l : List RegionInfo) (arr : Word)
    (n : Nat) : Prop where
  pool : y.vmPools[pool]? = some p
  lists : Lists y.machine p l
  region : ∃ r ∈ l, r.startFrame = arr ∧ 4 * n ≤ r.size.toNat
  behind : p.baseAddress.toNat + pageSize.toNat ≤ arr.toNat
  aligned : pageSize.toNat ∣ arr.toNat

theorem Keeps.refl (y : System) : Keeps y y := ⟨rfl, fun _ _ => KeepsPage.refl _ _⟩

theorem Keeps.trans {u : System} (h : Keeps y z) (h' : Keeps z u) : Keeps y u :=
  ⟨h'.pools.trans h.pools, fun p hp => (h.lists p hp).trans (h'.lists p (h.pools ▸ hp))⟩

theorem ArrayIn.keep (h : ArrayIn y pool p l arr n) (hg : SystemGood k q y) (hkeep : Keeps y z) :
    ArrayIn z pool p l arr n := by
  have hmem := List.mem_of_getElem? h.pool
  exact ⟨hkeep.pools ▸ h.pool, h.lists.keep (hg.pools p hmem) (hkeep.lists p hmem), h.region,
    h.behind, h.aligned⟩

theorem ArrayIn.intAddr_toNat (h : ArrayIn y pool p l arr n) (hg : SystemGood k q y) (hj : j < n) :
    (intAddr arr j).toNat = arr.toNat + 4 * j ∧
      ∃ r ∈ l, (intAddr arr j).toNat ∈ r.span ∧
        r.stop ≤ p.baseAddress.toNat + p.size.toNat := by
  obtain ⟨r, hr, rfl, hsize⟩ := h.region
  have hp := hg.pools p (List.mem_of_getElem? h.pool)
  have hstop := ((h.lists.lined hp).inside r hr).2
  have hwin := hp.geometry.below_window
  unfold recursiveWindow at hwin
  have hroom : r.startFrame.toNat + r.size.toNat = r.stop := rfl
  have hoff : (4 * BitVec.ofNat 32 j : Word).toNat = 4 * j := by
    rw [BitVec.toNat_mul, toNat_ofNat_of_lt (by omega)]
    simp
    omega
  have haddr : (intAddr r.startFrame j).toNat = r.startFrame.toNat + 4 * j := by
    rw [intAddr, toNat_add_of_lt (by omega), hoff]
  refine ⟨haddr, r, hr, ?_, hstop⟩
  rw [RegionInfo.span, Span.mem_mk]
  omega

theorem SystemGood.no_listPage (h : SystemGood k q y) (hpool : y.vmPools[pool]? = some p)
    (hlo : p.baseAddress.toNat + pageSize.toNat ≤ a.toNat)
    (hhi : a.toNat < p.baseAddress.toNat + p.size.toNat) :
    ∀ p' ∈ y.vmPools, pageOf a ≠ pageOf p'.allocatedList := by
  intro p' hp' hpage
  obtain ⟨i, hi⟩ := List.mem_iff_getElem?.mp hp'
  have hgeo := (h.pools p' hp').geometry
  have hali := hgeo.base_aligned
  have hge := hgeo.size_ge
  rw [hgeo.list_eq] at hpage
  rw [pageSize_toNat] at hlo hali hge
  unfold pageOf at hpage
  by_cases hip : i = pool
  · subst hip
    cases hi.symm.trans hpool
    omega
  · refine h.apart_of_ne hip hi hpool a.toNat ⟨?_, ?_⟩ ⟨?_, hhi⟩
    · dsimp only [poolSpan]
      omega
    · dsimp only [poolSpan]
      omega
    · dsimp only [poolSpan]
      omega

theorem ArrayIn.usable (h : ArrayIn y pool p l arr n) (hg : SystemGood k q y) (hj : j < n) :
    Usable y (intAddr arr j) := by
  obtain ⟨haddr, r, hr, hin, hstop⟩ := h.intAddr_toNat hg hj
  have hbehind := h.behind
  have haligned := h.aligned
  have hbelow : (intAddr arr j).toNat < r.stop := hin.2
  refine ⟨(hg.legitimate h.pool h.lists hr hin).2, ?_, ?_⟩
  · exact hg.no_listPage h.pool (by omega) (by omega)
  · rw [pageSize_toNat] at haligned
    omega

structure Filled (k : Nat) (q : ContFramePool) (y : System) (arr : Word) (j : Nat) (u : System) :
    Prop where
  good : SystemGood k q u
  keeps : Keeps y u
  filled : ∀ i < j, u.machine.load (intAddr arr i) = some (BitVec.ofNat 32 i)

theorem Filled.step {u : System} (h : Filled k q y arr j u) (harr : ArrayIn u pool p l arr n)
    (hrange : q.baseFrameNo.toNat + q.nframes.toNat ≤ 2 ^ 20) (hj : j < n)
    (hrun : assign k (intAddr arr j) (BitVec.ofNat 32 j) u = some z) :
    Filled k q y arr (j + 1) z := by
  obtain ⟨hgood, hkeeps, hself, hother⟩ := h.good.assign hrange (harr.usable h.good hj) hrun
  refine ⟨hgood, h.keeps.trans hkeeps, fun i hi => ?_⟩
  rcases Nat.lt_or_eq_of_le (Nat.le_of_lt_succ hi) with hlt | rfl
  · have husable := harr.usable h.good (show i < n by omega)
    have hi' := (harr.intAddr_toNat h.good (show i < n by omega)).1
    have hj' := (harr.intAddr_toNat h.good hj).1
    refine hother _ _ (h.good.userPage husable.legitimate) husable.aligned (fun hc => ?_)
      (h.filled i hlt)
    rw [hc] at hi'
    omega
  · exact hself

theorem writeInts_filled (hg : SystemGood k q y) (harr : ArrayIn y pool p l arr n)
    (hrange : q.baseFrameNo.toNat + q.nframes.toNat ≤ 2 ^ 20)
    (hrun : writeInts k arr n y = some z) : Filled k q y arr n z := by
  have hzero : Filled k q y arr 0 y := ⟨hg, Keeps.refl y, fun i hi => absurd hi (Nat.not_lt_zero i)⟩
  exact forRange?_invariant (P := Filled k q y arr) (Nat.zero_le n) hzero
    (fun j u v _ hj hu hbody => hu.step (harr.keep hg hu.keeps) hrange hj hbody) hrun

/-- The page of an integer is there, unless it is the first one of the page. -/
theorem Filled.mapped {u : System} (h : Filled k q y arr j u) (harr : ArrayIn u pool p l arr n)
    (hj : j < n) (hin : j % 1024 ≠ 0) : (u.machine.load (intAddr arr j)).isSome := by
  have hprev := h.filled (j - 1) (by omega)
  have haddr := (harr.intAddr_toNat h.good (show j - 1 < n by omega)).1
  have haddr' := (harr.intAddr_toNat h.good hj).1
  have haligned := harr.aligned
  rw [pageSize_toNat] at haligned
  have hpage : pageOf (intAddr arr j) = pageOf (intAddr arr (j - 1)) := by
    unfold pageOf
    omega
  have hsome : (u.machine.load (intAddr arr (j - 1))).isSome := by rw [hprev]; rfl
  rw [load_isSome] at hsome ⊢
  rwa [hpage]

/-- With two frames for every page the loop returns. -/
theorem writeInts_returns {m : Nat} (hg : SystemGood k q y) (harr : ArrayIn y pool p l arr n)
    (hrange : q.baseFrameNo.toNat + q.nframes.toNat ≤ 2 ^ 20)
    (hspares : Spares k (m + 2 * intPages n) y.machine) :
    ∃ z, writeInts k arr n y = some z ∧ Spares k m z.machine := by
  have hzero : Filled k q y arr 0 y := ⟨hg, Keeps.refl y, fun i hi => absurd hi (Nat.not_lt_zero i)⟩
  obtain ⟨z, hz, -, hleft⟩ := forRange?_completes
    (P := fun j u => Filled k q y arr j u ∧ Spares k (m + 2 * (intPages n - intPages j)) u.machine)
    (Nat.zero_le n) ⟨hzero, hspares⟩ fun j u _ hj hu => by
      obtain ⟨hu, hleft⟩ := hu
      have harr' := harr.keep hg hu.keeps
      have husable := harr'.usable hu.good hj
      by_cases hin : j % 1024 = 0
      · have hnext : intPages n - intPages j = intPages n - intPages (j + 1) + 1 := by
          unfold intPages
          omega
        rw [hnext, Nat.mul_add, ← Nat.add_assoc] at hleft
        obtain ⟨v, hv⟩ := hu.good.assign_returns (v := BitVec.ofNat 32 j) hrange husable
          (.inr (hleft.mono (by omega)))
        exact ⟨v, hv, hu.step harr' hrange hj hv, assign_spares hleft hv⟩
      · have hnext : intPages (j + 1) = intPages j := by
          unfold intPages
          omega
        have hmapped := hu.mapped harr' hj hin
        obtain ⟨v, hv⟩ := hu.good.assign_returns (v := BitVec.ofNat 32 j) hrange husable
          (.inl hmapped)
        exact ⟨v, hv, hu.step harr' hrange hj hv, hnext ▸ assign_spares_mapped hleft hmapped hv⟩
  refine ⟨z, hz, ?_⟩
  rwa [Nat.sub_self, Nat.mul_zero, Nat.add_zero] at hleft

/-- What was written is read back. -/
theorem checkInts_eq (h : ∀ i < j, y.machine.load (intAddr arr i) = some (BitVec.ofNat 32 i)) :
    checkInts k arr j y = .ok y := by
  induction j with
  | zero => rfl
  | succ j ih =>
      rw [checkInts, fetch_of_load (h j (Nat.lt_succ_self j))]
      show (if BitVec.ofNat 32 j ≠ BitVec.ofNat 32 j then _ else checkInts k arr j y) = _
      rw [if_neg (not_not_intro rfl)]
      exact ih fun i hi => h i (Nat.lt_succ_of_lt hi)

/-- The size of the region for `n` integers. -/
theorem roundToPages_ints (hn : 1 ≤ n) (hsize : 4 * n ≤ 2 ^ 32 - pageSize.toNat) :
    (roundToPages (BitVec.ofNat 32 (4 * n))).toNat = pageSize.toNat * intPages n := by
  have hmax := pageSize_toNat
  have hfour : (BitVec.ofNat 32 (4 * n) : Word).toNat = 4 * n := toNat_ofNat_of_lt (by omega)
  rw [roundToPages_toNat_of_le (by omega) (by omega), roundUp, hfour, pageSize_toNat, intPages]
  omega

theorem SystemGood.array (h : SystemGood k q y) (hpool : y.vmPools[pool]? = some p)
    (hl : Lists y.machine p l) (hpaged : Paged p.baseAddress l) (hn : 1 ≤ n)
    (hsize : 4 * n ≤ 2 ^ 32 - pageSize.toNat)
    (hrun : P4.allocate p y.machine (BitVec.ofNat 32 (4 * n)) = some (arr, p', t))
    (hfew : p'.numAllocated.toNat ≤ 512) :
    ∃ i r, l[i]? = some r ∧ arr.toNat = r.stop ∧
      ArrayIn ⟨t, y.vmPools.set pool p'⟩ pool p'
        (l.insertIdx (i + 1) ⟨arr, roundToPages (BitVec.ofNat 32 (4 * n))⟩) arr n := by
  have hp := h.pools p (List.mem_of_getElem? hpool)
  have hround := roundToPages_ints hn hsize
  obtain ⟨i, r, hr, ha, hl', -⟩ := hl.allocate h.paging hp hrun hfew
  obtain ⟨hi, -⟩ := List.getElem?_eq_some_iff.mp hr
  have hmem := List.mem_of_getElem? hr
  have hali := hpaged.aligned r hmem
  have hstop := hpaged.stop_ge (hl.lined hp) hmem
  refine ⟨i, r, hr, ha, List.getElem?_set_self (List.getElem?_eq_some_iff.mp hpool).1, hl',
    ⟨_, (List.mem_insertIdx (by omega)).mpr (.inl rfl), rfl, ?_⟩, ?_, ?_⟩
  · rw [hround, pageSize_toNat, intPages]
    omega
  · rw [allocate_pool hrun, ha]
    exact hstop
  · rw [ha]
    exact Nat.dvd_add hali.1 hali.2

theorem ArrayIn.legitimate (h : ArrayIn y pool p l arr n) (hg : SystemGood k q y) (hn : 1 ≤ n) :
    isLegitimate p y.machine arr = some true := by
  obtain ⟨r, hr, rfl, hsize⟩ := h.region
  refine (hg.legitimate h.pool h.lists hr ?_).1
  rw [RegionInfo.span, Span.mem_mk]
  omega

theorem testArray_eq {y₁ : System} (hpool : y.vmPools[pool]? = some p)
    (hnew : P4.allocate p y.machine (BitVec.ofNat 32 (4 * n)) = some (arr, p', t))
    (hy₁ : y₁ = ⟨t, y.vmPools.set pool p'⟩) (hg : SystemGood k q y₁)
    (harr : ArrayIn y₁ pool p' l arr n) (hn : 1 ≤ n)
    (hrange : q.baseFrameNo.toNat + q.nframes.toNat ≤ 2 ^ 20) :
    testArray k pool n y =
      match writeInts k arr n y₁ with
      | none => .error .stopped
      | some z => .ok z := by
  have hlegit := harr.legitimate hg hn
  have hlook := harr.pool
  have hpure : testArray k pool n y = (orStop (writeInts k arr n y₁) >>= fun z =>
      checkInts k arr n z >>= fun z => orStop (operatorDelete pool arr z)) := by
    subst hy₁
    simp only [testArray, operatorNew, hpool, hnew, orStop, hlook, hlegit,
      Option.bind_some, bind, Except.bind]
    rfl
  rw [hpure]
  cases hwrite : writeInts k arr n y₁ with
  | none => rfl
  | some z =>
      have hz := writeInts_filled hg harr hrange hwrite
      have hfinal := harr.keep hg hz.keeps
      have hp := hz.good.pools p' (List.mem_of_getElem? hfinal.pool)
      obtain ⟨m, hs, -⟩ := hfinal.lists
      have hdelete : operatorDelete pool arr z = some z := by
        obtain ⟨hi, heq⟩ := List.getElem?_eq_some_iff.mp hfinal.pool
        simp only [operatorDelete, hfinal.pool, release_returns hs hp.few, Option.bind_eq_bind,
          Option.bind_some]
        rw [← heq, List.set_getElem_self]
      show (checkInts k arr n z >>= fun z => orStop (operatorDelete pool arr z)) = _
      rw [checkInts_eq hz.filled]
      show orStop (operatorDelete pool arr z) = _
      rw [hdelete]
      rfl

/-- What a piece of the test does that uses `c` entries of the list and `pages` pages: it
returns and leaves the rest for what follows, or it runs out of supplies. -/
def Passes (k : Nat) (q : ContFramePool) (pool c pages : Nat) (y : System)
    (outcome : Except Halt System) : Prop :=
  (outcome = .error .stopped ∧ ¬ Supplied k pool pages y) ∨
    ∃ z, outcome = .ok z ∧ Ready k q pool c z ∧
      ∀ m, Supplied k pool (m + pages) y → Supplied k pool m z

theorem Ready.testArray (h : Ready k q pool (c + 1) y)
    (hrange : q.baseFrameNo.toNat + q.nframes.toNat ≤ 2 ^ 20) (hn : 1 ≤ n)
    (hsize : 4 * n ≤ 2 ^ 32 - pageSize.toNat) :
    Passes k q pool c (intPages n) y (testArray k pool n y) := by
  obtain ⟨p, hpool, hfits⟩ := h.fits
  have hmem := List.mem_of_getElem? hpool
  have hp := h.good.pools p hmem
  obtain ⟨l, hl, hpaged⟩ := h.pages p hmem
  have hround := roundToPages_ints hn hsize
  have hroom : ∀ {m}, Supplied k pool m y → ∃ limit, (∀ r ∈ l, r.stop ≤ limit) ∧
      limit + pageSize.toNat * m ≤ p.baseAddress.toNat + p.size.toNat := by
    rintro m ⟨-, p₁, l₁, limit, hp₁, hl₁, hlimit, hroom⟩
    cases Option.some.inj (hpool.symm.trans hp₁)
    rw [hl₁.unique hl hp.few] at hlimit
    exact ⟨limit, hlimit, hroom⟩
  cases hnew : P4.allocate p y.machine (BitVec.ofNat 32 (4 * n)) with
  | none =>
      refine .inl ⟨?_, fun hsupplied => ?_⟩
      · simp only [P4.testArray, operatorNew, hpool, hnew, orStop,
          Option.bind_some, Option.bind_none, bind, Except.bind]
      · obtain ⟨limit, hlimit, hroom⟩ := hroom hsupplied
        have hneeds : limit + (roundToPages (BitVec.ofNat 32 (4 * n))).toNat ≤
            p.baseAddress.toNat + p.size.toNat := by
          rw [hround]
          exact hroom
        obtain ⟨a, p', t, hsome⟩ := hl.allocate_returns h.good.paging hp (by omega) hlimit hneeds
        cases hnew.symm.trans hsome
  | some result =>
      obtain ⟨arr, p', t⟩ := result
      have hnum : p'.numAllocated.toNat = p.numAllocated.toNat + 1 := by
        rw [allocate_pool hnew]
        exact toNat_add_one (by omega)
      have hg₁ := h.good.allocate hpool hnew (by omega)
      have hpages₁ := h.pages.step h.good hrange (.allocate hpool hnew (by omega))
      obtain ⟨i, r, hr, ha, harr⟩ := h.good.array hpool hl hpaged hn hsize hnew (by omega)
      rw [testArray_eq hpool hnew rfl hg₁ harr hn hrange]
      cases hwrite : writeInts k arr n ⟨t, y.vmPools.set pool p'⟩ with
      | none =>
          refine .inl ⟨rfl, fun hsupplied => ?_⟩
          have hspares : Spares k (0 + 2 * intPages n) t := by
            rw [Nat.zero_add]
            exact hsupplied.frames.of_pools (hl.allocate_frames h.good.paging hp hnew (by omega))
          obtain ⟨z, hz, -⟩ := writeInts_returns hg₁ harr hrange hspares
          cases hwrite.symm.trans hz
      | some z =>
          have hz := writeInts_filled hg₁ harr hrange hwrite
          have hfinal := harr.keep hg₁ hz.keeps
          refine .inr ⟨z, rfl, ⟨hz.good, hpages₁.keep hg₁ hz.keeps.pools hz.keeps.lists, p',
            hfinal.pool, by omega⟩, fun m hsupplied => ⟨?_, ?_⟩⟩
          · have hspares : Spares k (2 * m + 2 * intPages n) t := by
              rw [← Nat.mul_add]
              exact hsupplied.frames.of_pools (hl.allocate_frames h.good.paging hp hnew (by omega))
            obtain ⟨z', hz', hleft⟩ := writeInts_returns hg₁ harr hrange hspares
            cases hwrite.symm.trans hz'
            exact hleft
          · obtain ⟨limit, hlimit, hroom⟩ := hroom hsupplied
            refine ⟨p', _, limit + pageSize.toNat * intPages n, hfinal.pool, hfinal.lists,
              fun x hx => ?_, ?_⟩
            · have hle := hlimit r (List.mem_of_getElem? hr)
              obtain ⟨hi, -⟩ := List.getElem?_eq_some_iff.mp hr
              rcases (List.mem_insertIdx (by omega)).mp hx with rfl | hx
              · rw [RegionInfo.stop, hround]
                dsimp only
                omega
              · exact Nat.le_trans (hlimit x hx) (Nat.le_add_right _ _)
            · rw [allocate_pool hnew]
              rw [Nat.mul_add] at hroom
              dsimp only
              omega

/-! ## The whole test -/

theorem Supplied.mono {m pages : Nat} (h : Supplied k pool (m + pages) y) :
    Supplied k pool pages y := by
  obtain ⟨p, l, limit, hp, hl, hlimit, hroom⟩ := h.room
  rw [Nat.mul_add] at hroom
  exact ⟨h.frames.mono (by omega), p, l, limit, hp, hl, hlimit, by omega⟩

theorem Ready.testArrays {size2 m i c : Nat} (h : Ready k q pool (c + m) y)
    (hrange : q.baseFrameNo.toNat + q.nframes.toNat ≤ 2 ^ 20) (hsize2 : 1 ≤ size2) (hi : 1 ≤ i)
    (hsize : 4 * (size2 * (i + m - 1)) ≤ 2 ^ 32 - pageSize.toNat) :
    Passes k q pool c (testPages size2 m i) y (testArrays k pool size2 m i y) := by
  induction m generalizing i y with
  | zero => exact .inr ⟨y, rfl, h, fun m hm => hm⟩
  | succ m ih =>
      have hle : size2 * i ≤ size2 * (i + (m + 1) - 1) := Nat.mul_le_mul_left _ (by omega)
      have hpos : 1 ≤ size2 * i := Nat.mul_pos hsize2 hi
      rcases Ready.testArray (n := size2 * i) (c := c + m) h hrange hpos (by omega) with
        ⟨hstop, hnot⟩ | ⟨z, hz, hready, hsupply⟩
      · refine .inl ⟨?_, fun hs => hnot ?_⟩
        · rw [P4.testArrays, hstop]
          rfl
        · rw [testPages, Nat.add_comm] at hs
          exact hs.mono
      · have hrest : P4.testArrays k pool size2 (m + 1) i y =
            P4.testArrays k pool size2 m (i + 1) z := by
          rw [P4.testArrays, hz]
          rfl
        have hsucc : i + 1 + m - 1 = i + (m + 1) - 1 := by omega
        rw [hrest, testPages]
        rcases ih (i := i + 1) hready (by omega) (by rwa [hsucc]) with
          ⟨hstop, hnot⟩ | ⟨u, hu, hready', hsupply'⟩
        · refine .inl ⟨hstop, fun hs => hnot (hsupply _ ?_)⟩
          rwa [Nat.add_comm] at hs
        · refine .inr ⟨u, hu, hready', fun x hx => hsupply' _ (hsupply _ ?_)⟩
          rwa [Nat.add_comm (intPages _), ← Nat.add_assoc] at hx

/-- No piece of the test fails. -/
theorem Passes.not_testFailed {c pages : Nat} {outcome : Except Halt System}
    (h : Passes k q pool c pages y outcome) : outcome ≠ .error .testFailed := by
  rcases h with ⟨rfl, -⟩ | ⟨z, rfl, -⟩
  · exact fun hc => by cases hc
  · exact fun hc => by cases hc

theorem Passes.good {c pages : Nat} {outcome : Except Halt System}
    (h : Passes k q pool c pages y outcome) (hz : outcome = .ok z) : SystemGood k q z := by
  rcases h with ⟨rfl, -⟩ | ⟨z', rfl, hready, -⟩
  · cases hz
  · cases hz
    exact hready.good

theorem Passes.ok {c pages : Nat} {outcome : Except Halt System}
    (h : Passes k q pool c pages y outcome) (hs : Supplied k pool pages y) :
    ∃ z, outcome = .ok z := by
  rcases h with ⟨-, hnot⟩ | ⟨z, hz, -⟩
  · exact absurd hs hnot
  · exact ⟨z, hz⟩

/-! ## From boot on -/

/-- Every step keeps what the test starts from. -/
theorem MemoryStep.keeps {op : MemoryOp} (h : SystemGood k q y ∧ ListsPages y)
    (hrange : q.baseFrameNo.toNat + q.nframes.toNat ≤ 2 ^ 20) (hstep : MemoryStep k y op z) :
    SystemGood k q z ∧ ListsPages z := by
  obtain ⟨hg, hl⟩ := h
  refine ⟨hg.memoryStep hrange hstep, ?_⟩
  cases hstep with
  | call hstep => exact hl.step hg hrange hstep
  | release hpool hrun =>
      obtain ⟨rfl, rfl⟩ := release_eq hrun
      obtain ⟨hi, rfl⟩ := List.getElem?_eq_some_iff.mp hpool
      rw [List.set_getElem_self]
      exact hl
  | load hlegit _ hrun _ => exact hl.step hg hrange (.touch hlegit hrun)

/-- From boot on, whatever happened to the pools before, a test whose arrays fit the 512
entries of the list never fails. With room and frames enough it comes to its end. -/
theorem memory_test {memory : PackedPairs.Bytes} {p₀ : ContFramePool} {size1 size2 : Nat}
    {base n info nInfo holeFirst holeSize pageDirectory : Word} {s₀ s₁ : Machine}
    {run : List (MemoryOp × System)} (hinfo : info ≠ 0)
    (hplace : info.toNat + nInfo.toNat ≤ 1024)
    (hnew : ContFramePool.construct memory base n info nInfo = some p₀)
    (hlo : base.toNat ≤ holeFirst.toNat)
    (hhi : holeFirst.toNat + holeSize.toNat ≤ base.toNat + (roundUp4 n).toNat)
    (hmark : p₀.markInaccessible holeFirst holeSize = some q)
    (hrange : base.toNat + (roundUp4 n).toNat ≤ 2 ^ 20) (hq : s₀.pools[k]? = some q)
    (hearlier : ∀ j r, j < k → s₀.pools[j]? = some r → ∀ f, q.Manages f → ¬ r.Manages f)
    (hboot : P4.construct k s₀ = some (pageDirectory, s₁))
    (hrun : IsRun (MemoryStep k) ⟨load s₁ pageDirectory, []⟩ run)
    (hpool : (last ⟨load s₁ pageDirectory, []⟩ run).vmPools[pool]? = some p)
    (hfits : p.numAllocated.toNat + (size1 - 1) ≤ 512) (hsize2 : 1 ≤ size2)
    (hsize : 4 * (size2 * (size1 - 1)) ≤ 2 ^ 32 - pageSize.toNat) :
    let test := generateVMPoolMemoryReferences k pool size1 size2
      (last ⟨load s₁ pageDirectory, []⟩ run)
    test ≠ .error .testFailed ∧
      (∀ y, test = .ok y → BitmapSafe k (frames y.machine) y.machine) ∧
      (Supplied k pool (testPages size2 (size1 - 1) 1) (last ⟨load s₁ pageDirectory, []⟩ run) →
        ∃ y, test = .ok y) := by
  obtain ⟨hbase, hframes, hseparated, hbitmap, -⟩ :=
    booted_pool hinfo hplace hnew hlo hhi hmark hrange
  rw [← hbase, ← hframes] at hrange
  have hstart : SystemGood k q ⟨load s₁ pageDirectory, []⟩ ∧
      ListsPages ⟨load s₁ pageDirectory, []⟩ :=
    ⟨⟨Good.boot hq hseparated hrange hearlier hboot, fun p hp => (by cases hp), .nil,
      Nat.zero_le maxPools⟩, fun p hp => by cases hp⟩
  have hkeeps : ∀ y op z, SystemGood k q y ∧ ListsPages y → MemoryStep k y op z →
      SystemGood k q z ∧ ListsPages z := fun y op z hy hstep => hstep.keeps hy hrange
  obtain ⟨hgood, hpages⟩ := last_of_everyState (everyState_of_step hkeeps hstart hrun)
  have hpasses : Passes k q pool 0 (testPages size2 (size1 - 1) 1)
      (last ⟨load s₁ pageDirectory, []⟩ run)
      (generateVMPoolMemoryReferences k pool size1 size2
        (last ⟨load s₁ pageDirectory, []⟩ run)) := by
    cases size1 with
    | zero => exact .inr ⟨_, rfl, ⟨hgood, hpages, p, hpool, by omega⟩, fun m hm => hm⟩
    | succ m =>
        have hready : Ready k q pool (0 + m) (last ⟨load s₁ pageDirectory, []⟩ run) :=
          ⟨hgood, hpages, p, hpool, by omega⟩
        exact hready.testArrays hrange hsize2 (Nat.le_refl 1) (by
          rwa [Nat.add_sub_cancel_left])
  exact ⟨hpasses.not_testFailed, fun y hy => (hpasses.good hy).paging.bitmapSafe hbitmap,
    hpasses.ok⟩

end

/-- The test of `code_pool` in `main`, with the frame pool and the hole of `main`. -/
theorem memory_test_codePool : ∃ p₀ q pageDirectory s₁ z y,
    ContFramePool.construct (fun _ => 0) 1024 7168 513 1 = some p₀ ∧
      p₀.markInaccessible 3840 256 = some q ∧
      P4.construct 0 ⟨fun _ => 0, 0, [q]⟩ = some (pageDirectory, s₁) ∧
      constructPool 0 0 0x20000000 0x10000000 ⟨load s₁ pageDirectory, []⟩ = some z ∧
      generateVMPoolMemoryReferences 0 0 50 100 z = .ok y := by
  obtain ⟨p₀, q, pageDirectory, s₁, z, hp₀, hq, hboot, hz, hrange, hstart, hspares⟩ :=
    sampleCodePool
  have hroom : ([] : List VMPool).length < maxPools := by decide
  obtain ⟨-, hpools, hlists, -⟩ := hstart.construct_keeps hrange hroom admissible_codePool hz
  have hpool : z.vmPools[0]? = some ⟨0x20000000, roundToPages 0x10000000, 1, 0x20000000⟩ := by
    rw [hpools]
    rfl
  have hrun : IsRun (MemoryStep 0) ⟨load s₁ pageDirectory, []⟩
      [(.call (.construct 0 0x20000000 0x10000000), z)] :=
    ⟨.call (.construct hroom admissible_codePool hz), trivial⟩
  have hsupplied : Supplied 0 0 (testPages 100 49 1) z :=
    ⟨hspares.mono (by decide), _, _, 0x20001000, hpool, hlists, by decide, by decide⟩
  obtain ⟨-, -, htest⟩ : generateVMPoolMemoryReferences 0 0 50 100 z ≠ .error .testFailed ∧
      (∀ y, generateVMPoolMemoryReferences 0 0 50 100 z = .ok y →
        BitmapSafe 0 (frames y.machine) y.machine) ∧
      (Supplied 0 0 (testPages 100 49 1) z →
        ∃ y, generateVMPoolMemoryReferences 0 0 50 100 z = .ok y) :=
    memory_test (by decide) (by decide) hp₀ (by decide) (by decide) hq (by decide) rfl
      (fun j _ hj => absurd hj (Nat.not_lt_zero j)) hboot hrun hpool (by decide) (by decide)
      (by decide)
  obtain ⟨y, hy⟩ := htest hsupplied
  exact ⟨p₀, q, pageDirectory, s₁, z, y, hp₀, hq, hboot, hz, hy⟩

end TeachingKernel.Paging.P4
