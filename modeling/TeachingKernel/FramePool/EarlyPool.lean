import TeachingKernel.FramePool.Protection
import TeachingKernel.FramePool.Regions

/-!
# The frame pool of P2

An earlier `ContFramePool`. A pool without info frames of its own codes its
first four frames as one allocated sequence, whatever the number of info frames
is, and does not count them; `release_frames` accepts the first of them.
-/

namespace TeachingKernel.FramePool.P2

open ForLoop PackedPairs ContFramePool Runs

/-- `(_n_frames-1) / (FRAME_SIZE * 4.0) + 1`, cut off. The division by a power of two
is exact in floating point, so this is what the integer division gives. -/
def neededInfoFrames (n : Word) : Word := ContFramePool.neededInfoFrames n

/-- `for(j; j < 4*i + j < n_info_frames && j < 4; j++)`: the first comparison
yields 0 or 1, which the second one compares. -/
def markInner (nInfo i : Nat) : Nat → Nat → Bytes → Bytes
  | 0, _, bm => bm
  | fuel + 1, j, bm =>
      if (if j < 4 * i + j then 1 else 0) < nInfo ∧ j < 4 then
        markInner nInfo i fuel (j + 1)
          (Function.update bm 0 (bm 0 &&& ~~~(3#8 <<< (7 - 2 * j - 1))))
      else bm

def markInfo (nInfo : Nat) (bm : Bytes) : Bytes :=
  forRange 0 ((nInfo + 3) / 4) (fun i bm => markInner nInfo i 4 1 bm) bm

def construct (memory : Bytes) (base n info nInfo : Word) : Option ContFramePool :=
  let nframes := roundUp4 n
  if info = 0 then
    some {
      bitmapAddr := base * pageSize
      bitmap := markInfo nInfo.toNat (Function.update (fillFree nframes.toNat memory) 0 0xBF#8)
      nFreeFrames := n
      baseFrameNo := base
      nframes := nframes
      infoFrameNo := info
      nInfoFrames := nInfo }
  else if nInfo * pageSize * 4 ≥ nframes then
    some {
      bitmapAddr := info * pageSize
      bitmap := fillFree nframes.toNat memory
      nFreeFrames := n
      baseFrameNo := base
      nframes := nframes
      infoFrameNo := info
      nInfoFrames := nInfo }
  else none

def getFrames (p : ContFramePool) (n : Word) : Option (Word × ContFramePool) :=
  if p.nFreeFrames > 0 then
    match search p.bitmap p.nframes.toNat n.toNat p.nframes.toNat 0 0 with
    | none => some (0, p)
    | some i =>
        let frameNo := p.baseFrameNo + BitVec.ofNat 32 i - n + 1
        let start := frameNo - p.baseFrameNo
        some (frameNo, { p with
          nFreeFrames := p.nFreeFrames - n
          bitmap := markAllocated p.bitmap start n })
  else none

/-- A call on pool `j`, or on the pool that the static `release_frames` finds. -/
inductive CallStep : List ContFramePool → PoolCall → List ContFramePool → Prop
  | get {pools : List ContFramePool} {p p' : ContFramePool} {j : Nat} {n f : Word}
      (hj : pools[j]? = some p) (hget : getFrames p n = some (f, p')) :
      CallStep pools (.get j n f) (pools.set j p')
  | release {pools pools' : List ContFramePool} {f : Word}
      (hrelease : releaseFrames pools f = some pools') :
      CallStep pools (.release f) pools'

/-! ## What the pool promises about its info frames -/

/-- Exactly the info frames are not free. -/
def Marked (p : ContFramePool) : Prop :=
  ∀ i < p.nframes.toNat, code p.bitmap i ≠ .free ↔ i < p.nInfoFrames.toNat

def Counted (p : ContFramePool) : Prop := p.nFreeFrames.toNat = p.freeFrames.card

/-- No later call frees an info frame or hands one out. -/
def Kept (p : ContFramePool) : Prop :=
  ∀ (pools : List ContFramePool) (k : Nat) (run : List (PoolCall × List ContFramePool)),
    pools[k]? = some p → IsRun CallStep pools run →
      EveryState (fun s => ∀ q : ContFramePool, s[k]? = some q →
        ∀ i < p.nInfoFrames.toNat, code q.bitmap i ≠ .free) pools run ∧
      EveryTransition
        (fun _ call _ => AnswersApart k p.nInfoFrames.toNat p.baseFrameNo call) pools run

/-! ## What the constructor does -/

theorem markInner_byte {nInfo i : Nat} (bm : Bytes) (hbyte : bm 0 = 0xBF#8 ∨ bm 0 = 0x80#8)
    (hguard : (if 0 < i then 1 else 0) < nInfo) :
    markInner nInfo i 4 1 bm 0 = 0x80#8 ∧ ∀ c, c ≠ 0 → markInner nInfo i 4 1 bm c = bm c := by
  have hj : ∀ j, (if j < 4 * i + j then 1 else 0) < nInfo := fun j => by
    simpa [show j < 4 * i + j ↔ 0 < i by omega] using hguard
  simp only [markInner, hj, true_and, Nat.reduceAdd, Nat.reduceLT, ↓reduceIte, and_false,
    Function.update_self, Function.update_idem]
  refine ⟨?_, fun c hc => Function.update_of_ne hc _ _⟩
  rcases hbyte with h | h <;> rw [h] <;> decide

theorem markInfo_byte {nInfo : Nat} (hpos : 0 < nInfo) (bm : Bytes) (hbyte : bm 0 = 0xBF#8) :
    markInfo nInfo bm 0 = 0x80#8 ∧ ∀ c, c ≠ 0 → markInfo nInfo bm c = bm c := by
  have hloop := forRange_invariant (a := 0) (b := (nInfo + 3) / 4) (s := bm)
    (f := fun i bm => markInner nInfo i 4 1 bm)
    (P := fun i b => (b 0 = if i = 0 then 0xBF#8 else 0x80#8) ∧ ∀ c, c ≠ 0 → b c = bm c)
    (Nat.zero_le _) ⟨hbyte, fun _ _ => rfl⟩ ?_
  · rw [if_neg (by omega)] at hloop
    exact hloop
  · rintro i b - hi ⟨h0, hrest⟩
    have hguard : (if 0 < i then 1 else 0) < nInfo := by
      by_cases hi0 : 0 < i
      · rw [if_pos hi0]
        omega
      · rwa [if_neg hi0]
    have h0' : b 0 = 0xBF#8 ∨ b 0 = 0x80#8 := by
      by_cases hi0 : i = 0
      · exact .inl (by rw [h0, if_pos hi0])
      · exact .inr (by rw [h0, if_neg hi0])
    obtain ⟨hself, hother⟩ := markInner_byte b h0' hguard
    rw [if_neg (by omega)]
    exact ⟨hself, fun c hc => (hother c hc).trans (hrest c hc)⟩

theorem code_of_firstByte {bm : Bytes} (h : bm 0 = 0x80#8) {i : Nat} (hi : i < 4) :
    code bm i = if i = 0 then .head else .rest := by
  have hdiv : i / 4 = 0 := by omega
  have hcases : ∀ r : Fin 4,
      code (fun _ => 0x80#8) r.val = if r.val = 0 then .head else .rest := by decide
  have hbyte : code bm i = code (fun _ => 0x80#8) i := by
    rw [code, code, first, first, second, second, hdiv, h]
  rw [hbyte]
  exact hcases ⟨i, hi⟩

theorem construct_own {memory : Bytes} {base n nInfo : Word} {p : ContFramePool}
    (hpos : 0 < nInfo.toNat) (h : construct memory base n 0 nInfo = some p) :
    p.extent = ⟨base * pageSize, base, roundUp4 n, 0, nInfo⟩ ∧ p.nFreeFrames = n ∧
      ∀ i < (roundUp4 n).toNat, code p.bitmap i =
        if i = 0 then .head else if i < 4 then .rest else .free := by
  simp only [construct, ↓reduceIte, Option.some.injEq] at h
  subst h
  obtain ⟨h0, hrest⟩ := markInfo_byte hpos
    (Function.update (fillFree (roundUp4 n).toNat memory) 0 0xBF#8) (Function.update_self _ _ _)
  refine ⟨rfl, rfl, fun i hi => ?_⟩
  by_cases hlow : i < 4
  · rw [code_of_firstByte h0 hlow]
    by_cases hzero : i = 0
    · rw [if_pos hzero, if_pos hzero]
    · rw [if_neg hzero, if_neg hzero, if_pos hlow]
  · have hbyte := (hrest (i / 4) (by omega)).trans (Function.update_of_ne (by omega) _ _)
    have hfree := code_fillFree memory hi
    rw [if_neg (by omega), if_neg hlow, ← hfree]
    simp only [code, first, second, hbyte]

/-! ## No pool keeps the promise -/

section

variable {memory : Bytes} {base n nInfo : Word} {p : ContFramePool}

theorem card_freeFrames (hpos : 0 < nInfo.toNat) (h : construct memory base n 0 nInfo = some p) :
    p.freeFrames.card = (roundUp4 n).toNat - 4 := by
  obtain ⟨hext, -, hcodes⟩ := construct_own hpos h
  have hsize : p.nframes = roundUp4 n := congrArg Extent.nframes hext
  rw [card_freeFrames_from 4 fun i hi => ?_, hsize]
  rw [hcodes i (by rwa [← hsize])]
  by_cases hzero : i = 0
  · simp [hzero]
  · by_cases hlow : i < 4
    · simp [hzero, hlow]
    · simp [hzero, hlow, Nat.le_of_not_lt hlow]

theorem not_counted (hn : 0 < n.toNat) (hpos : 0 < nInfo.toNat)
    (h : construct memory base n 0 nInfo = some p) : ¬ Counted p := by
  rw [Counted, card_freeFrames hpos h, (construct_own hpos h).2.1]
  have hsize := n.isLt
  rw [roundUp4_toNat]
  omega

/-- Frames 0 to 3 are marked, which are the info frames only where there are four. -/
theorem marked_iff (hsize : 4 ≤ (roundUp4 n).toNat) (hpos : 0 < nInfo.toNat)
    (hroom : nInfo.toNat ≤ (roundUp4 n).toNat)
    (h : construct memory base n 0 nInfo = some p) : Marked p ↔ nInfo.toNat = 4 := by
  obtain ⟨hext, -, hcodes⟩ := construct_own hpos h
  have hnf : p.nframes.toNat = (roundUp4 n).toNat :=
    congrArg BitVec.toNat (congrArg Extent.nframes hext)
  have hnInfo : p.nInfoFrames = nInfo := congrArg Extent.nInfoFrames hext
  have hused : ∀ i < p.nframes.toNat, code p.bitmap i ≠ .free ↔ i < 4 := by
    intro i hi
    rw [hcodes i (by omega)]
    by_cases hzero : i = 0
    · simp [hzero]
    · by_cases hlow : i < 4
      · simp [hzero, hlow]
      · simp [hzero, hlow]
  rw [Marked, hnInfo]
  constructor
  · intro hmarked
    by_contra hne
    -- frame 3 is marked although it is free, or frame 4 is left free
    have hthree := (hused 3 (by omega)).symm.trans (hmarked 3 (by omega))
    by_cases hmore : 4 < nInfo.toNat
    · have hfour := (hused 4 (by omega)).symm.trans (hmarked 4 (by omega))
      omega
    · omega
  · intro heq i hi
    rw [heq, hused i hi]

theorem first_released (hn : 0 < (roundUp4 n).toNat)
    (hrange : base.toNat + (roundUp4 n).toNat < 2 ^ 32) (hpos : 0 < nInfo.toNat)
    (h : construct memory base n 0 nInfo = some p) :
    ∃ p', releaseFrames [p] base = some [p'] ∧ code p'.bitmap 0 = .free := by
  obtain ⟨hext, -, hcodes⟩ := construct_own hpos h
  have hsize : p.nframes = roundUp4 n := congrArg Extent.nframes hext
  have hbase : p.baseFrameNo = base := congrArg Extent.baseFrameNo hext
  have hmanages : p.Manages base := by
    rw [manages_iff (by rwa [hbase, hsize]), hbase, hsize]
    omega
  have hzero : (base - p.baseFrameNo).toNat = 0 := by
    rw [hbase, BitVec.sub_self]
    rfl
  obtain ⟨p', hp', -, -, hfreed⟩ :=
    releaseFrame_eq hmanages (by rw [hzero, hcodes 0 hn, if_pos rfl])
  have hcall : releaseFrames [p] base = some [p'] := releaseFrames_eq (k := 0) rfl hmanages
    (fun j _ hj => absurd hj (Nat.not_lt_zero j)) hp'
  refine ⟨p', hcall, ?_⟩
  rw [hfreed, if_pos (by omega)]

theorem not_kept (hn : 0 < (roundUp4 n).toNat)
    (hrange : base.toNat + (roundUp4 n).toNat < 2 ^ 32) (hpos : 0 < nInfo.toNat)
    (h : construct memory base n 0 nInfo = some p) : ¬ Kept p := by
  intro hkept
  obtain ⟨p', hcall, hfree⟩ := first_released hn hrange hpos h
  have hnInfo : p.nInfoFrames = nInfo := congrArg Extent.nInfoFrames (construct_own hpos h).1
  have hrun : IsRun CallStep [p] [(.release base, [p'])] := ⟨.release hcall, trivial⟩
  have hlast := last_of_everyState (hkept [p] 0 _ rfl hrun).1
  exact hlast p' rfl 0 (by rwa [hnInfo]) hfree

end

/-- A pool of P2 that keeps its bitmap itself never protects it: the counter is
wrong from the start, the wrong frames are marked unless there are four info
frames, and a release of the first frame frees an info frame. -/
theorem own_bitmap_never_protected {memory : Bytes} {base n : Word} {p : ContFramePool}
    (hn : 4 ≤ n.toNat) (h : construct memory base n 0 (neededInfoFrames n) = some p) :
    ¬ (Marked p ∧ Counted p ∧ Kept p) ∧ ¬ Counted p ∧
      (n.toNat + 3 < 2 ^ 32 → (Marked p ↔ 49152 < n.toNat ∧ n.toNat ≤ 65536)) ∧
      (base.toNat + n.toNat + 3 < 2 ^ 32 → ¬ Kept p) := by
  have hneeded : (neededInfoFrames n).toNat = (n.toNat - 1) / 16384 + 1 :=
    neededInfoFrames_toNat (by omega)
  have hround := roundUp4_toNat n
  have hcounted := not_counted (by omega) (by omega) h
  refine ⟨fun hall => hcounted hall.2.1, hcounted, fun hsize => ?_, fun hrange => ?_⟩
  · rw [marked_iff (by omega) (by omega) (by omega) h]
    omega
  · exact not_kept (by omega) (by omega) (by omega) h

/-- A pool of four frames with one info frame codes all four as used, counts four
free frames, and frees its info frame on request. -/
theorem four_frames_unprotected : ∃ p p', construct (fun _ => 0#8) 512 4 0 (neededInfoFrames 4) =
      some p ∧ (∀ i < 4, code p.bitmap i ≠ .free) ∧ p.nFreeFrames = 4 ∧
    releaseFrames [p] 512 = some [p'] ∧ code p'.bitmap 0 = .free := by
  have h : ((construct (fun _ => 0#8) 512 4 0 (neededInfoFrames 4)).map fun p =>
      ((List.range 4).all fun i => code p.bitmap i ≠ .free, p.nFreeFrames)) = some (true, 4) := by
    decide +kernel
  obtain ⟨p, hp, heq⟩ := Option.map_eq_some_iff.mp h
  obtain ⟨hused, hcount⟩ := Prod.mk.inj heq
  obtain ⟨p', hcall, hfree⟩ := first_released (by decide) (by decide) (by decide) hp
  refine ⟨p, p', hp, fun i hi => ?_, hcount, hcall, hfree⟩
  exact of_decide_eq_true (List.all_eq_true.mp hused i (List.mem_range.mpr hi))

theorem own_bitmap_never_protected_four : ∃ p,
    construct (fun _ => 0#8) 512 4 0 (neededInfoFrames 4) = some p ∧
    ¬ (Marked p ∧ Counted p ∧ Kept p) :=
  ⟨_, rfl, (own_bitmap_never_protected (by decide) rfl).1⟩

end TeachingKernel.FramePool.P2
