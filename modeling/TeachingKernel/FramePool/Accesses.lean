import TeachingKernel.FramePool.Marking
import TeachingKernel.Lib.WordLoop

/-!
# Which bytes of the bitmap are accessed

The operations of P3 and P4 once more, with the 32-bit indices of their loops and a
list of the bytes of the bitmap that they read or write. The results are those of the
model in `FramePool.Model`. Only `mark_inaccessible` can leave the bitmap: the sum in
its assertion may wrap around.
-/

namespace TeachingKernel.FramePool

open ForLoop PackedPairs WhileLoop WordLoop

/-- The search loop of `get_frames`, with the bytes of the bitmap it has read. -/
structure Scan where
  i : Word
  count : Word
  success : Bool
  touched : List Nat

def Scan.next (bm : Bytes) (n : Word) (s : Scan) : Scan :=
  let touched := s.i.toNat / 4 :: s.touched
  if bm (s.i.toNat / 4) = 0#8 then ⟨s.i + 3 + 1, 0, false, touched⟩
  else if first bm s.i.toNat && second bm s.i.toNat then
    if s.count + 1 = n then ⟨s.i, s.count + 1, true, touched⟩
    else ⟨s.i + 1, s.count + 1, false, touched⟩
  else ⟨s.i + 1, s.count, false, touched⟩

def Scan.goesOn (nframes : Word) (s : Scan) : Bool := !s.success && decide (s.i < nframes)

def freeBody (i : Nat) (s : Bytes × Word) : Option (Bytes × Word) :=
  if first s.1 i || second s.1 i then none else some (setBits s.1 i (bothMask i), s.2 + 1)

namespace ContFramePool

/-- The accessed bytes and the result, where `none` is a failed assertion. -/
abbrev Trace (α : Type) := List Nat × Option α

def getFramesTrace (fuel : Nat) (p : ContFramePool) (n : Word) :
    Option (Trace (Word × ContFramePool)) :=
  if p.nFreeFrames > 0 then
    (whileLoop (Scan.goesOn p.nframes) (Scan.next p.bitmap n) fuel ⟨0, 0, false, []⟩).bind fun s =>
      if s.success then
        let frameNo := p.baseFrameNo + s.i - s.count + 1
        let start := frameNo - p.baseFrameNo
        let i := start.toNat
        let bm := clearBits (setBits p.bitmap i (firstMask i)) i (secondMask i)
        (sweep (start + 1) (start + n) (fun i bm => some (clearBits bm i (bothMask i))) fuel bm).map
          fun t => (t.visited.map (· / 4) ++ i / 4 :: s.touched,
            some (frameNo, { p with nFreeFrames := p.nFreeFrames - n, bitmap := t.cells }))
      else some (s.touched, none)
  else some ([], none)

def markInaccessibleTrace (fuel : Nat) (p : ContFramePool) (b n : Word) :
    Option (Trace ContFramePool) :=
  if b ≥ p.baseFrameNo ∧ b + n ≤ p.baseFrameNo + p.nframes then
    (sweep (b - p.baseFrameNo) (b - p.baseFrameNo + n) markBody fuel (p.bitmap, p.nFreeFrames)).map
      fun t => (t.visited.map (· / 4),
        if t.running then some { p with bitmap := t.cells.1, nFreeFrames := t.cells.2 } else none)
  else some ([], none)

def releaseFrameTrace (fuel : Nat) (p : ContFramePool) (f : Word) :
    Option (Trace ContFramePool) :=
  if f ≥ p.baseFrameNo ∧ f < p.baseFrameNo + p.nframes then
    let i := f - p.baseFrameNo
    if first p.bitmap i.toNat && !second p.bitmap i.toNat then
      (sweep (i + 1) p.nframes freeBody fuel
        (setBits p.bitmap i.toNat (bothMask i.toNat), p.nFreeFrames + 1)).map
        fun t => (t.visited.map (· / 4) ++ [i.toNat / 4],
          some { p with bitmap := t.cells.1, nFreeFrames := t.cells.2 })
    else some ([i.toNat / 4], none)
  else some ([], none)

/-- No byte outside the bitmap is accessed. -/
def InBitmap (p : ContFramePool) (touched : List Nat) : Prop :=
  ∀ k ∈ touched, k < p.nframes.toNat / 4

end ContFramePool

open ContFramePool

/-- The static `release_frames` looks at the extents of the pools until one manages the
frame, and then at the bitmap of that pool. -/
def releaseFramesTrace (fuel : Nat) : List ContFramePool → Word → Option (List Nat)
  | [], _ => some []
  | p :: pools, f =>
      if p.Manages f then (p.releaseFrameTrace fuel f).map Prod.fst
      else releaseFramesTrace fuel pools f

/-! ## The search -/

theorem Scan.goesOn_running (nframes i count : Word) (touched : List Nat) :
    Scan.goesOn nframes ⟨i, count, false, touched⟩ = decide (i.toNat < nframes.toNat) := by
  simp only [Scan.goesOn, Bool.not_false, Bool.true_and, BitVec.lt_def]

/-- One iteration reads the byte of frame `i`, and ends the search or goes on as the model
does. -/
theorem Scan.next_cases (bm : Bytes) {nframes i count : Word} (n : Word) (touched : List Nat)
    (hsize : nframes.toNat + 4 ≤ 2 ^ 32) (hlt : i.toNat < nframes.toNat)
    (hcount : count.toNat ≤ i.toNat) :
    (Scan.next bm n ⟨i, count, false, touched⟩ = ⟨i, n, true, i.toNat / 4 :: touched⟩ ∧
      ∀ fuel, search bm nframes.toNat n.toNat (fuel + 1) i.toNat count.toNat = some i.toNat) ∨
    ∃ i' count' : Word,
      Scan.next bm n ⟨i, count, false, touched⟩ = ⟨i', count', false, i.toNat / 4 :: touched⟩ ∧
      i.toNat < i'.toNat ∧ i'.toNat ≤ nframes.toNat + 3 ∧ count'.toNat ≤ i'.toNat ∧
      ∀ fuel, search bm nframes.toNat n.toNat (fuel + 1) i.toNat count.toNat =
        search bm nframes.toNat n.toNat fuel i'.toNat count'.toNat := by
  have hnext : (i + 1).toNat = i.toNat + 1 := toNat_add_one (by omega)
  have hstep : (count + 1).toNat = count.toNat + 1 := toNat_add_one (by omega)
  simp only [Scan.next, search, if_pos hlt]
  by_cases hzero : bm (i.toNat / 4) = 0#8
  · have hskip : (i + 3 + 1).toNat = i.toNat + 3 + 1 := by
      have h3 : (i + 3).toNat = i.toNat + 3 :=
        toNat_add_of_lt (b := 3) (show i.toNat + 3 < 2 ^ 32 by omega)
      rw [toNat_add_one (by omega), h3]
    refine .inr ⟨i + 3 + 1, 0, if_pos hzero, by omega, by omega, by simp, fun fuel => ?_⟩
    rw [if_pos hzero, hskip]
    rfl
  · simp only [if_neg hzero]
    by_cases hfree : (first bm i.toNat && second bm i.toNat) = true
    · have hfull : count + 1 = n ↔ count.toNat + 1 = n.toNat := by
        rw [← BitVec.toNat_inj, hstep]
      simp only [if_pos hfree, hfull]
      by_cases hdone : count.toNat + 1 = n.toNat
      · refine .inl ⟨?_, fun _ => if_pos hdone⟩
        rw [if_pos hdone, hfull.mpr hdone]
      · refine .inr ⟨i + 1, count + 1, if_neg hdone, by omega, by omega, by omega, fun fuel => ?_⟩
        rw [if_neg hdone, hnext, hstep]
    · refine .inr ⟨i + 1, count, if_neg hfree, by omega, by omega, by omega, fun fuel => ?_⟩
      rw [if_neg hfree, hnext]

/-- The search ends, reads bytes of the bitmap only, and finds what the model finds. -/
theorem scan_spec (bm : Bytes) {nframes : Word} (n : Word)
    (hsize : nframes.toNat + 4 ≤ 2 ^ 32) (fuel : Nat) (i count : Word) (touched : List Nat)
    (hi : i.toNat ≤ nframes.toNat + 3)
    (hcount : count.toNat ≤ i.toNat) (hfuel : nframes.toNat ≤ i.toNat + fuel) :
    ∃ t, whileLoop (Scan.goesOn nframes) (Scan.next bm n) (fuel + 1) ⟨i, count, false, touched⟩ =
        some t ∧
      (∀ k ∈ t.touched, k ∈ touched ∨ ∃ j < nframes.toNat, k = j / 4) ∧
      (t.success = true → t.count = n ∧
        search bm nframes.toNat n.toNat fuel i.toNat count.toNat = some t.i.toNat) ∧
      (t.success = false →
        search bm nframes.toNat n.toNat fuel i.toNat count.toNat = none) := by
  have hgoes := Scan.goesOn_running nframes
  induction fuel generalizing i count touched with
  | zero =>
      have hstop : Scan.goesOn nframes ⟨i, count, false, touched⟩ = false := by
        rw [hgoes, decide_eq_false_iff_not]
        omega
      exact ⟨_, whileLoop_stop 0 hstop, fun k hk => Or.inl hk, fun h => Bool.noConfusion h,
        fun _ => rfl⟩
  | succ fuel ih =>
      by_cases hlt : i.toNat < nframes.toNat
      · -- one more byte is read
        have hread : ∀ ks : List Nat, (∀ k ∈ ks, k ∈ i.toNat / 4 :: touched ∨
            ∃ j < nframes.toNat, k = j / 4) →
          ∀ k ∈ ks, k ∈ touched ∨ ∃ j < nframes.toNat, k = j / 4 := by
          intro ks h k hk
          rcases h k hk with hmem | hj
          · rcases List.mem_cons.mp hmem with rfl | hmem
            · exact Or.inr ⟨_, hlt, rfl⟩
            · exact Or.inl hmem
          · exact Or.inr hj
        rw [whileLoop_next _ ((hgoes ..).trans (decide_eq_true hlt))]
        rcases Scan.next_cases bm n touched hsize hlt hcount with
          ⟨hnext, hsearch⟩ | ⟨i', count', hnext, hi', hend', hcount', hsearch⟩
        · have hstop : Scan.goesOn nframes ⟨i, n, true, i.toNat / 4 :: touched⟩ = false := rfl
          rw [hnext, hsearch]
          exact ⟨_, whileLoop_stop _ hstop, hread _ fun k hk => Or.inl hk,
            fun _ => ⟨rfl, rfl⟩, fun h => Bool.noConfusion h⟩
        · obtain ⟨t, ht, htouched, hresult⟩ :=
            ih i' count' (i.toNat / 4 :: touched) hend' hcount' (by omega)
          rw [hnext, hsearch]
          exact ⟨t, ht, hread _ htouched, hresult⟩
      · have hstop : Scan.goesOn nframes ⟨i, count, false, touched⟩ = false :=
          (hgoes ..).trans (decide_eq_false hlt)
        refine ⟨_, whileLoop_stop _ hstop, fun k hk => Or.inl hk, fun h => Bool.noConfusion h,
          fun _ => ?_⟩
        rw [search, if_neg hlt]

/-! ## The freeing loop -/

theorem freeRest_eq {nframes fuel lo j : Nat} {s u : Bytes × Word} (hlo : lo ≤ j)
    (hfuel : nframes ≤ lo + fuel) (hu : forRange? lo j freeBody s = some u)
    (hend : j ≤ nframes) (hstop : j < nframes → freeBody j u = none) :
    freeRest nframes fuel lo s.1 s.2 = u := by
  induction fuel generalizing lo s with
  | zero =>
      obtain rfl : lo = j := by omega
      rw [forRange?_of_le (Nat.le_refl _), Option.some.injEq] at hu
      rw [freeRest, hu]
  | succ fuel ih =>
      rw [freeRest]
      rcases Nat.lt_or_eq_of_le hlo with hlt | rfl
      · rw [forRange?_first hlt] at hu
        obtain ⟨v, hv, hrest⟩ := Option.bind_eq_some_iff.mp hu
        unfold freeBody at hv
        by_cases hbreak : (first s.1 lo || second s.1 lo) = true
        · rw [if_pos hbreak] at hv
          cases hv
        · rw [if_neg hbreak, Option.some.injEq] at hv
          rw [if_pos (by omega), if_neg hbreak]
          subst hv
          exact ih (by omega) (by omega) hrest
      · rw [forRange?_of_le (Nat.le_refl _), Option.some.injEq] at hu
        subst hu
        by_cases hlt : lo < nframes
        · have hnone := hstop hlt
          unfold freeBody at hnone
          by_cases hbreak : (first s.1 lo || second s.1 lo) = true
          · rw [if_pos hlt, if_pos hbreak]
          · rw [if_neg hbreak] at hnone
            cases hnone
        · rw [if_neg hlt]

/-! ## The three operations -/

namespace ContFramePool

variable {p : ContFramePool}

theorem inBitmap_of_frames {l : List Nat} (halign : p.nframes.toNat % 4 = 0)
    (h : ∀ k ∈ l, ∃ j < p.nframes.toNat, k = j / 4) : p.InBitmap l := by
  intro k hk
  obtain ⟨j, hj, rfl⟩ := h k hk
  omega

theorem nframes_add_four_le (hrange : p.baseFrameNo.toNat + p.nframes.toNat < 2 ^ 32)
    (halign : p.nframes.toNat % 4 = 0) : p.nframes.toNat + 4 ≤ 2 ^ 32 := by
  have hsize : p.nframes.toNat < 2 ^ 32 := Nat.lt_of_le_of_lt (Nat.le_add_left _ _) hrange
  omega

theorem window_of_search {i n : Word}
    (h : search p.bitmap p.nframes.toNat n.toNat p.nframes.toNat 0 0 = some i.toNat) :
    let start := p.baseFrameNo + i - n + 1 - p.baseFrameNo
    (start + n).toNat = i.toNat + 1 ∧ start.toNat < p.nframes.toNat ∧
      i.toNat < p.nframes.toNat := by
  have hc := search_some h
  have hsize := hc.size_le
  have hlt := hc.lt
  have hpos := hc.size_pos
  have hbase := p.baseFrameNo.isLt
  have hstart : (p.baseFrameNo + i - n + 1 - p.baseFrameNo).toNat = i.toNat + 1 - n.toNat := by
    simp only [BitVec.toNat_add, BitVec.toNat_sub, show (1 : Word).toNat = 1 from rfl]
    omega
  refine ⟨?_, by omega, hlt⟩
  rw [toNat_add_of_lt (by omega)]
  omega

theorem getFramesTrace_spec (hrange : p.baseFrameNo.toNat + p.nframes.toNat < 2 ^ 32)
    (halign : p.nframes.toNat % 4 = 0) (n : Word) :
    ∃ l, (∀ fuel, 2 ^ 32 < fuel → getFramesTrace fuel p n = some (l, p.getFrames n)) ∧
      p.InBitmap l := by
  unfold getFramesTrace getFrames
  by_cases hfree : p.nFreeFrames > 0
  · obtain ⟨s, hs, htouched, hfound, hnone⟩ := scan_spec p.bitmap n
      (nframes_add_four_le hrange halign) p.nframes.toNat 0 0 [] (by simp) (by simp)
      (by omega)
    have hread : ∀ k ∈ s.touched, ∃ j < p.nframes.toNat, k = j / 4 := fun k hk =>
      (htouched k hk).resolve_left List.not_mem_nil
    have hrun : ∀ fuel, 2 ^ 32 < fuel → whileLoop (Scan.goesOn p.nframes) (Scan.next p.bitmap n)
        fuel ⟨0, 0, false, []⟩ = some s := fun fuel hfuel =>
      whileLoop_mono (by omega) hs
    rw [if_pos hfree]
    cases hsuccess : s.success with
    | false =>
        refine ⟨s.touched, fun fuel hfuel => ?_, inBitmap_of_frames halign hread⟩
        have hsearch : search p.bitmap p.nframes.toNat n.toNat p.nframes.toNat 0 0 = none :=
          hnone hsuccess
        rw [if_pos hfree, hrun fuel hfuel, hsearch]
        simp only [Option.bind_some, hsuccess, Bool.false_eq_true, if_false]
    | true =>
        obtain ⟨hcount, hsearch⟩ := hfound hsuccess
        have hsearch : search p.bitmap p.nframes.toNat n.toNat p.nframes.toNat 0 0 =
            some s.i.toNat := hsearch
        obtain ⟨hend, hstart, hlast⟩ := window_of_search hsearch
        generalize hdef : p.baseFrameNo + s.i - n + 1 - p.baseFrameNo = start at hend hstart
        obtain ⟨t, ht, hvisited, hcells⟩ := sweep_some (start + 1) (start + n)
          (fun i bm => clearBits bm i (bothMask i))
          (clearBits (setBits p.bitmap start.toNat (firstMask start.toNat)) start.toNat
            (secondMask start.toNat))
        refine ⟨t.visited.map (· / 4) ++ start.toNat / 4 :: s.touched, fun fuel hfuel => ?_, ?_⟩
        · rw [if_pos hfree, hrun fuel hfuel, hsearch]
          simp only [Option.bind_some, hsuccess, if_true, hcount, hdef]
          rw [ht fuel (by omega), Option.map_some]
          simp only [BitVec.ofNat_toNat, BitVec.setWidth_eq, hdef, markAllocated, hcells]
        · refine inBitmap_of_frames halign fun k hk => ?_
          rcases List.mem_append.mp hk with hk | hk
          · obtain ⟨j, hj, rfl⟩ := List.mem_map.mp hk
            have hj := hvisited j hj
            exact ⟨j, by omega, rfl⟩
          · rcases List.mem_cons.mp hk with rfl | hk
            · exact ⟨start.toNat, hstart, rfl⟩
            · exact hread k hk
  · exact ⟨[], fun fuel _ => by rw [if_neg hfree, if_neg hfree], fun k hk => by cases hk⟩

theorem releaseFrameTrace_spec (hrange : p.baseFrameNo.toNat + p.nframes.toNat < 2 ^ 32)
    (halign : p.nframes.toNat % 4 = 0) (f : Word) :
    ∃ l, (∀ fuel, 2 ^ 32 < fuel → releaseFrameTrace fuel p f = some (l, p.releaseFrame f)) ∧
      p.InBitmap l := by
  unfold releaseFrameTrace releaseFrame
  by_cases hassert : f ≥ p.baseFrameNo ∧ f < p.baseFrameNo + p.nframes
  · have hin := (manages_iff hrange f).mp hassert
    have hi : (f - p.baseFrameNo).toNat < p.nframes.toNat := by
      rw [toNat_sub_of_le hin.1]
      omega
    rw [if_pos hassert]
    by_cases hhead : (first p.bitmap (f - p.baseFrameNo).toNat &&
        !second p.bitmap (f - p.baseFrameNo).toNat) = true
    · have hnext : (f - p.baseFrameNo + 1).toNat = (f - p.baseFrameNo).toNat + 1 :=
        toNat_add_one (by omega)
      obtain ⟨t, ht, hvisited, hdone, hleft⟩ := sweep_spec (f - p.baseFrameNo + 1) p.nframes
        freeBody
        (setBits p.bitmap (f - p.baseFrameNo).toNat (bothMask (f - p.baseFrameNo).toNat),
          p.nFreeFrames + 1)
      rw [hnext] at hdone hleft
      have hcells : freeRest p.nframes.toNat p.nframes.toNat ((f - p.baseFrameNo).toNat + 1)
          (setBits p.bitmap (f - p.baseFrameNo).toNat (bothMask (f - p.baseFrameNo).toNat))
          (p.nFreeFrames + 1) = t.cells := by
        cases hr : t.running with
        | true => exact freeRest_eq (by omega) (by omega) (hdone hr) (Nat.le_refl _) (by omega)
        | false =>
            obtain ⟨j, hlo, hhi, hu, hbody⟩ := hleft hr
            exact freeRest_eq hlo (by omega) hu (Nat.le_of_lt hhi) fun _ => hbody
      refine ⟨t.visited.map (· / 4) ++ [(f - p.baseFrameNo).toNat / 4], fun fuel hfuel => ?_, ?_⟩
      · rw [if_pos hassert, if_pos hhead, if_pos hhead, ht fuel (by omega), Option.map_some]
        simp only [hcells]
      · refine inBitmap_of_frames halign fun k hk => ?_
        rcases List.mem_append.mp hk with hk | hk
        · obtain ⟨j, hj, rfl⟩ := List.mem_map.mp hk
          exact ⟨j, ((hvisited j).mp hj).2.1, rfl⟩
        · exact ⟨_, hi, List.mem_singleton.mp hk⟩
    · refine ⟨[(f - p.baseFrameNo).toNat / 4], fun fuel _ => ?_,
        inBitmap_of_frames halign fun k hk => ⟨_, hi, List.mem_singleton.mp hk⟩⟩
      rw [if_pos hassert, if_neg hhead, if_neg hhead]
  · exact ⟨[], fun fuel _ => by rw [if_neg hassert, if_neg hassert], fun k hk => by cases hk⟩

/-- The sum in the assertion wraps around to a frame number below the pool, and no frame
from the start of the range to the end of the pool stops the loop. -/
def Overruns (p : ContFramePool) (b n : Word) : Prop :=
  p.baseFrameNo.toNat ≤ b.toNat ∧ 2 ^ 32 ≤ b.toNat + n.toNat ∧
    b.toNat + n.toNat - 2 ^ 32 < p.baseFrameNo.toNat ∧
    ∀ i, (b - p.baseFrameNo).toNat ≤ i → i < p.nframes.toNat → LastOfByteSet p.bitmap i

/-- The marking loop, which a frame in a byte with its lowest bit clear stops. -/
theorem sweep_markBody (p : ContFramePool) (lo hi : Word) :
    ∃ t, (∀ fuel, hi.toNat - lo.toNat + 1 < fuel →
        sweep lo hi markBody fuel (p.bitmap, p.nFreeFrames) = some t) ∧
      (∀ j, j ∈ t.visited ↔ lo.toNat ≤ j ∧ j < hi.toNat ∧
        ∀ i, lo.toNat ≤ i → i < j → LastOfByteSet p.bitmap i) ∧
      (if t.running then some { p with bitmap := t.cells.1, nFreeFrames := t.cells.2 } else none) =
        (forRange? lo.toNat hi.toNat markBody (p.bitmap, p.nFreeFrames)).map
          fun s => { p with bitmap := s.1, nFreeFrames := s.2 } := by
  obtain ⟨t, ht, hvisited, hdone, hleft⟩ := sweep_spec lo hi markBody (p.bitmap, p.nFreeFrames)
  refine ⟨t, ht, fun j => ?_, ?_⟩
  · rw [hvisited]
    exact and_congr_right fun hj => and_congr_right fun _ => markLoop_isSome_iff hj _
  · cases hr : t.running with
    | true => rw [hdone hr, if_pos rfl, Option.map_some]
    | false =>
        obtain ⟨j, hlo, hhi, hu, hbody⟩ := hleft hr
        rw [forRange?_eq_none hlo hhi hu hbody, if_neg Bool.false_ne_true, Option.map_none]

/-- `mark_inaccessible` ends, and stays in the bitmap unless the call overruns it. -/
theorem markInaccessibleTrace_spec (hrange : p.baseFrameNo.toNat + p.nframes.toNat < 2 ^ 32)
    (halign : p.nframes.toNat % 4 = 0) (b n : Word) :
    ∃ l, (∀ fuel, 2 ^ 32 < fuel →
        markInaccessibleTrace fuel p b n = some (l, p.markInaccessible b n)) ∧
      (p.InBitmap l ↔ ¬ p.Overruns b n) := by
  have hbase := p.baseFrameNo.isLt
  have hsum : (b + n).toNat = (b.toNat + n.toNat) % 2 ^ 32 := BitVec.toNat_add b n
  unfold markInaccessibleTrace markInaccessible
  by_cases hassert : b ≥ p.baseFrameNo ∧ b + n ≤ p.baseFrameNo + p.nframes
  · obtain ⟨t, ht, hvisited, hresult⟩ := sweep_markBody p (b - p.baseFrameNo)
      (b - p.baseFrameNo + n)
    have hbytes : p.InBitmap (t.visited.map (· / 4)) ↔ ∀ j ∈ t.visited, j < p.nframes.toNat := by
      simp only [InBitmap, List.forall_mem_map]
      exact forall₂_congr fun j _ => by omega
    refine ⟨t.visited.map (· / 4), fun fuel hfuel => ?_, ?_⟩
    · rw [if_pos hassert, if_pos hassert, ht fuel (by omega), Option.map_some, hresult]
      rfl
    · obtain ⟨hge, hle⟩ := hassert
      have hge : p.baseFrameNo.toNat ≤ b.toNat := hge
      rw [BitVec.le_def, toNat_add_of_lt hrange, hsum] at hle
      have hlo : (b - p.baseFrameNo).toNat = b.toNat - p.baseFrameNo.toNat := toNat_sub_of_le hge
      have hhi : (b - p.baseFrameNo + n).toNat =
          (b.toNat - p.baseFrameNo.toNat + n.toNat) % 2 ^ 32 := by rw [BitVec.toNat_add, hlo]
      rw [hbytes]
      constructor
      · -- the first frame behind the pool is reached
        rintro hin ⟨-, hwrap, hbelow, hset⟩
        have hout := hin (max (b - p.baseFrameNo).toNat p.nframes.toNat)
          ((hvisited _).mpr ⟨Nat.le_max_left _ _, by omega, fun i hi hj => hset i hi (by omega)⟩)
        omega
      · intro hover j hj
        obtain ⟨hjlo, hjhi, hset⟩ := (hvisited j).mp hj
        by_contra hout
        refine hover ⟨hge, by omega, by omega, fun i hi hiN => hset i hi (by omega)⟩
  · refine ⟨[], fun fuel _ => by rw [if_neg hassert, if_neg hassert], fun _ hover => ?_,
      fun _ k hk => by cases hk⟩
    obtain ⟨hge, hwrap, hbelow, -⟩ := hover
    exact hassert ⟨hge, by rw [BitVec.le_def, toNat_add_of_lt hrange, hsum]; omega⟩

theorem nframes_of_construct {memory : Bytes} {base n info nInfo : Word}
    (h : construct memory base n info nInfo = some p) : p.nframes = roundUp4 n := by
  by_cases hinfo : info = 0
  · subst hinfo
    exact congrArg Extent.nframes (construct_inner h).1
  · exact congrArg Extent.nframes (construct_outer hinfo h).2.2.1

theorem nframes_mod_four {memory : Bytes} {base n info nInfo : Word}
    (h : construct memory base n info nInfo = some p) : p.nframes.toNat % 4 = 0 := by
  rw [nframes_of_construct h, roundUp4_toNat]
  omega

/-- A constructed pool with any bitmap and any free counter. All calls end; those of
`get_frames` and `release_frames` access bytes of the bitmap only, and a call of
`mark_inaccessible` does so if and only if it does not overrun the pool. -/
theorem accesses_inBitmap {memory : Bytes} {base n info nInfo : Word} {q : ContFramePool}
    (hq : construct memory base n info nInfo = some q)
    (hrange : q.baseFrameNo.toNat + q.nframes.toNat < 2 ^ 32) (bm : Bytes) (free : Word) :
    let p := { q with bitmap := bm, nFreeFrames := free }
    (∀ k, ∃ l, (∀ fuel, 2 ^ 32 < fuel → getFramesTrace fuel p k = some (l, p.getFrames k)) ∧
      p.InBitmap l) ∧
    (∀ before after f, (∀ r ∈ before, ¬ r.Manages f) → p.Manages f →
      ∃ l, (∀ fuel, 2 ^ 32 < fuel → releaseFramesTrace fuel (before ++ p :: after) f = some l) ∧
        p.InBitmap l) ∧
    (∀ f, ∃ l, (∀ fuel, 2 ^ 32 < fuel → releaseFrameTrace fuel p f = some (l, p.releaseFrame f)) ∧
      p.InBitmap l) ∧
    ∀ b k, ∃ l, (∀ fuel, 2 ^ 32 < fuel →
        markInaccessibleTrace fuel p b k = some (l, p.markInaccessible b k)) ∧
      (p.InBitmap l ↔ ¬ p.Overruns b k) := by
  intro p
  have halign : q.nframes.toNat % 4 = 0 := nframes_mod_four hq
  refine ⟨getFramesTrace_spec hrange halign, fun before after f hbefore hmanages => ?_,
    releaseFrameTrace_spec hrange halign, markInaccessibleTrace_spec hrange halign⟩
  obtain ⟨l, hl, hin⟩ := releaseFrameTrace_spec (p := p) hrange halign f
  refine ⟨l, fun fuel hfuel => ?_, hin⟩
  induction before with
  | nil => rw [List.nil_append, releaseFramesTrace, if_pos hmanages, hl fuel hfuel, Option.map_some]
  | cons r before ih =>
      rw [List.cons_append, releaseFramesTrace, if_neg (hbefore r List.mem_cons_self)]
      exact ih fun r hr => hbefore r (List.mem_cons_of_mem _ hr)

/-- The kernel pool of P4: 512 frames from frame 512 on. -/
theorem extent_kernel_pool {memory : Bytes} (h : construct memory 512 512 0 0 = some p) :
    p.baseFrameNo = 512 ∧ p.nframes = roundUp4 512 ∧
      p.baseFrameNo.toNat + p.nframes.toNat < 2 ^ 32 := by
  have hext := (construct_inner h).1
  have hbase : p.baseFrameNo = 512 := congrArg Extent.baseFrameNo hext
  have hsize : p.nframes = roundUp4 512 := congrArg Extent.nframes hext
  refine ⟨hbase, hsize, ?_⟩
  rw [hbase, hsize]
  decide

theorem overruns_kernel_pool {memory : Bytes} (h : construct memory 512 512 0 0 = some p) :
    p.Overruns 512 (-512) := by
  obtain ⟨hbase, hsize, -⟩ := extent_kernel_pool h
  have hcodes := (construct_inner h).2.2
  have hcount : (roundUp4 512).toNat = 512 := by decide
  refine ⟨by rw [hbase], by decide, by rw [hbase]; decide, fun i _ hi => ?_⟩
  rw [hsize, hcount] at hi
  have hcode := hcodes (4 * (i / 4) + 3) (by rw [hcount]; omega)
  by_cases hinfo : 4 * (i / 4) + 3 < (neededInfoFrames (roundUp4 512)).toNat
  · rw [if_pos hinfo] at hcode
    exact Or.inr hcode
  · rw [if_neg hinfo] at hcode
    exact Or.inl hcode

theorem not_inBitmap_kernel_pool :
    ∃ p l, construct (fun _ => 0) 512 512 0 0 = some p ∧
      (∀ fuel, 2 ^ 32 < fuel → ∃ r, markInaccessibleTrace fuel p 512 (-512) = some (l, r)) ∧
      ¬ p.InBitmap l := by
  obtain ⟨p, hp⟩ : ∃ p, construct (fun _ => 0) 512 512 0 0 = some p := ⟨_, rfl⟩
  have hrange := (extent_kernel_pool hp).2.2
  obtain ⟨l, hl, hin⟩ := markInaccessibleTrace_spec hrange (nframes_mod_four hp) 512 (-512)
  exact ⟨p, l, hp, fun fuel hfuel => ⟨_, hl fuel hfuel⟩,
    fun h => hin.mp h (overruns_kernel_pool hp)⟩

/-- A free frame of the kernel pool is made inaccessible, inside the bitmap. -/
theorem accesses_inBitmap_kernel_pool :
    ∃ p q l, construct (fun _ => 0) 512 512 0 0 = some p ∧ p.markInaccessible 513 1 = some q ∧
      (∀ fuel, 2 ^ 32 < fuel → markInaccessibleTrace fuel p 513 1 = some (l, some q)) ∧
      p.InBitmap l := by
  have h : ((construct (fun _ => 0) 512 512 0 0).bind fun p =>
      p.markInaccessible 513 1).isSome := by
    decide +kernel
  obtain ⟨q, h⟩ := Option.isSome_iff_exists.mp h
  obtain ⟨p, hp, hq⟩ := Option.bind_eq_some_iff.mp h
  have hrange := (extent_kernel_pool hp).2.2
  obtain ⟨l, hl, hin⟩ := (accesses_inBitmap hp hrange p.bitmap p.nFreeFrames).2.2.2 513 1
  rw [show p.markInaccessible 513 1 = some q from hq] at hl
  exact ⟨p, q, l, hp, hq, hl, hin.mpr fun hover => absurd hover.2.1 (by decide)⟩

end ContFramePool

end TeachingKernel.FramePool
