import TeachingKernel.FramePool.Regions

/-!
# Histories of a pool

From the constructor on, for any number of calls: the pool accounts for its
regions exactly as long as each `get_frames` finds its frames next to each other.
-/

namespace TeachingKernel.FramePool

open PackedPairs ContFramePool Runs

namespace Ledger

/-- Right after construction only the frames of an own bitmap are taken. -/
def start (pools : List ContFramePool) (p : ContFramePool) : Ledger where
  pools := pools
  live := []
  inaccessible :=
    if p.infoFrameNo = 0 then (List.range p.nInfoFrames.toNat).map (p.baseFrameNo.toNat + ·) else []

def exec (k : Nat) (s : Ledger) : PoolOp → Option Ledger
  | .get n =>
      s.pools[k]?.bind fun p =>
        if 0 < n.toNat then
          (p.getFrames n).map fun a =>
            { s with pools := s.pools.set k a.2, live := ⟨a.1.toNat, n.toNat⟩ :: s.live }
        else none
  | .mark b n =>
      s.pools[k]?.bind fun p =>
        if p.baseFrameNo.toNat ≤ b.toNat ∧
            b.toNat + n.toNat ≤ p.baseFrameNo.toNat + p.nframes.toNat ∧
            ∀ i ∈ List.range n.toNat,
              code p.bitmap (b.toNat + i - p.baseFrameNo.toNat) = .free then
          (p.markInaccessible b n).map fun p' =>
            { s with
              pools := s.pools.set k p'
              inaccessible := (List.range n.toNat).map (b.toNat + ·) ++ s.inaccessible }
        else none
  | .release f =>
      (s.live.find? (·.first = f.toNat)).bind fun r =>
        (releaseFrames s.pools f).map fun pools' =>
          { s with pools := pools', live := s.live.erase r }

theorem step_of_exec {k : Nat} {s t : Ledger} {op : PoolOp} (h : exec k s op = some t) :
    PoolStep k s op t := by
  cases op with
  | get n =>
      obtain ⟨p, hk, h⟩ := Option.bind_eq_some_iff.mp h
      by_cases hn : 0 < n.toNat
      · rw [if_pos hn] at h
        obtain ⟨⟨f, p'⟩, hget, rfl⟩ := Option.map_eq_some_iff.mp h
        exact .get hk hn hget
      · rw [if_neg hn] at h
        cases h
  | mark b n =>
      obtain ⟨p, hk, h⟩ := Option.bind_eq_some_iff.mp h
      split at h
      · rename_i hguard
        obtain ⟨hlo, hhi, hfree⟩ := hguard
        obtain ⟨p', hmark, rfl⟩ := Option.map_eq_some_iff.mp h
        refine .mark hk hlo hhi (fun f hf hlt => ?_) hmark
        have hcode := hfree (f - b.toNat) (List.mem_range.mpr (by omega))
        rwa [show b.toNat + (f - b.toNat) = f by omega] at hcode
      · cases h
  | release f =>
      obtain ⟨r, hr, h⟩ := Option.bind_eq_some_iff.mp h
      obtain ⟨pools', hrelease, rfl⟩ := Option.map_eq_some_iff.mp h
      have hfirst := List.find?_some hr
      exact .release (List.mem_of_find?_eq_some hr) (of_decide_eq_true hfirst).symm hrelease

end Ledger

/-! ## Right after construction -/

section

variable {memory : Bytes} {base n info nInfo : Word} {p : ContFramePool}
  {pools : List ContFramePool} {k : Nat}

theorem extent_of_construct (h : construct memory base n info nInfo = some p) :
    p.baseFrameNo = base ∧ p.nframes = roundUp4 n ∧ p.infoFrameNo = info := by
  by_cases hinfo : info = 0
  · subst hinfo
    have hext := (construct_inner h).1
    exact ⟨congrArg Extent.baseFrameNo hext, congrArg Extent.nframes hext,
      congrArg Extent.infoFrameNo hext⟩
  · have hext := (construct_outer hinfo h).2.2.1
    exact ⟨congrArg Extent.baseFrameNo hext, congrArg Extent.nframes hext,
      congrArg Extent.infoFrameNo hext⟩

theorem placed_start (hfour : n.toNat % 4 = 0) (hrange : base.toNat + n.toNat < 2 ^ 32)
    (hinfoRange : info.toNat + nInfo.toNat < 2 ^ 32)
    (h : construct memory base n info nInfo = some p)
    (hearlier : ∀ j q, j < k → pools[j]? = some q → ∀ f, p.Manages f → ¬ q.Manages f) :
    Placed k (Ledger.start pools p) p := by
  obtain ⟨hb, hn, hi⟩ := extent_of_construct h
  rw [roundUp4_of_dvd hfour] at hn
  refine ⟨by rwa [hb, hn], fun f hspan hmem => ?_, hearlier⟩
  rw [span, Span.mem_mk, hb, hn] at hspan
  rw [infoSpan, Span.mem_mk] at hmem
  by_cases hinfo : info = 0
  · rw [if_pos (hi.trans hinfo)] at hmem
    rw [Ledger.start, if_pos (hi.trans hinfo)]
    exact List.mem_map.mpr ⟨f - p.baseFrameNo.toNat, List.mem_range.mpr (by omega), by omega⟩
  · -- the assertion of the constructor keeps the two ranges apart
    obtain ⟨hapart, _, hext, _⟩ := construct_outer hinfo h
    have hnInfo : p.nInfoFrames = nInfo := congrArg Extent.nInfoFrames hext
    rw [roundUp4_of_dvd hfour, BitVec.lt_def, ge_iff_le, BitVec.le_def, toNat_add_of_lt hinfoRange,
      toNat_add_of_lt hrange] at hapart
    rw [if_neg (hi ▸ hinfo), hi, hnInfo] at hmem
    omega

theorem accounts_start (h : construct memory base n info nInfo = some p) :
    Accounts p (Ledger.start pools p) := by
  obtain ⟨hb, hn, hi⟩ := extent_of_construct h
  refine ⟨.nil, by simp [Ledger.start], by simp [Ledger.start], fun i hi' => ?_⟩
  have hcodeOf : ∀ f, (Ledger.start pools p).codeOf f =
      if f ∈ (Ledger.start pools p).inaccessible then .inaccessible else .free := fun f => by
    simp [Ledger.codeOf, Ledger.start]
  rw [hn] at hi'
  by_cases hinfo : info = 0
  · subst hinfo
    obtain ⟨hext, -, hcodes⟩ := construct_inner h
    have hnInfo : p.nInfoFrames = neededInfoFrames (roundUp4 n) := congrArg Extent.nInfoFrames hext
    rw [hcodes i hi', hcodeOf, Ledger.start, if_pos hi, hnInfo]
    simp
  · obtain ⟨-, -, -, -, hcodes⟩ := construct_outer hinfo h
    rw [hcodes i hi', hcodeOf, Ledger.start]
    simp only [hi, hinfo, ↓reduceIte, List.not_mem_nil]

/-- A new pool that keeps its bitmap itself has the frames behind it free. -/
theorem card_freeFrames_inner (h : construct memory base n 0 nInfo = some p) :
    p.freeFrames.card = (roundUp4 n).toNat - (neededInfoFrames (roundUp4 n)).toNat := by
  obtain ⟨hext, -, hcodes⟩ := construct_inner h
  have hsize : p.nframes = roundUp4 n := congrArg Extent.nframes hext
  rw [card_freeFrames_from (neededInfoFrames (roundUp4 n)).toNat fun i hi => ?_, hsize]
  rw [hcodes i (by rwa [← hsize])]
  by_cases hlow : i < (neededInfoFrames (roundUp4 n)).toNat
  · simp [hlow]
  · simp [hlow, Nat.le_of_not_lt hlow]

theorem card_freeFrames_outer (hinfo : info ≠ 0)
    (h : construct memory base n info nInfo = some p) :
    p.freeFrames.card = (roundUp4 n).toNat := by
  obtain ⟨-, -, hext, -, hcodes⟩ := construct_outer hinfo h
  have hsize : p.nframes = roundUp4 n := congrArg Extent.nframes hext
  rw [card_freeFrames_from 0 fun i hi => ?_, hsize, Nat.sub_zero]
  exact ⟨fun _ => Nat.zero_le i, fun _ => hcodes i (by rwa [← hsize])⟩

theorem sound_start (hfour : n.toNat % 4 = 0) (hpos : info = 0 → 0 < n.toNat)
    (h : construct memory base n info nInfo = some p) : Sound p (Ledger.start pools p) := by
  refine (accounts_start h).sound (by simp [Ledger.start]) ?_
  by_cases hinfo : info = 0
  · subst hinfo
    have hcount := (construct_inner h).2.1
    rw [roundUp4_of_dvd hfour] at hcount
    rw [card_freeFrames_inner h, roundUp4_of_dvd hfour, hcount,
      toNat_sub_of_le (neededInfoFrames_le (hpos rfl))]
  · rw [card_freeFrames_outer hinfo h, (construct_outer hinfo h).2.2.2.1, roundUp4_of_dvd hfour]

/-- A pool accounts for its regions along a run exactly when every `get_frames`
of the run finds its free frames next to each other. -/
theorem regions_sound_iff_contiguous {run : List (PoolOp × Ledger)} (hfour : n.toNat % 4 = 0)
    (hpos : info = 0 → 0 < n.toNat) (hrange : base.toNat + n.toNat < 2 ^ 32)
    (hinfoRange : info.toNat + nInfo.toNat < 2 ^ 32)
    (hconstruct : construct memory base n info nInfo = some p) (hk : pools[k]? = some p)
    (hearlier : ∀ j q, j < k → pools[j]? = some q → ∀ f, p.Manages f → ¬ q.Manages f)
    (hrun : IsRun (PoolStep k) (Ledger.start pools p) run) :
    EveryState (SoundAt k) (Ledger.start pools p) run ↔
      EveryStep (FindsContiguous k) (Ledger.start pools p) run :=
  everyState_iff_everyStep (C := FindsContiguous k) (W := PlacedAt k)
    (fun _ _ _ hW hstep => hW.step hstep)
    (fun _ _ _ hW hs hstep => soundAt_step_iff hW hs hstep)
    ⟨p, hk, placed_start hfour hrange hinfoRange hconstruct hearlier⟩
    ⟨p, hk, sound_start hfour hpos hconstruct⟩ hrun

end

/-! ## A run that goes wrong -/

def samplePool : Option ContFramePool := construct (fun _ => 0#8) 16 8 4 1

def splitCalls : List PoolOp := [.get 2, .get 1, .release 16, .get 3]

private theorem splitCalls_run : ∃ p run, samplePool = some p ∧
    IsRun (PoolStep 0) (Ledger.start [p] p) run ∧
    (last (Ledger.start [p] p) run).live = [⟨17, 3⟩, ⟨18, 1⟩] := by
  have h : (samplePool.bind fun p => (runOf (Ledger.exec 0) (Ledger.start [p] p) splitCalls).map
      fun run => (last (Ledger.start [p] p) run).live) = some [⟨17, 3⟩, ⟨18, 1⟩] := by
    decide +kernel
  obtain ⟨p, hp, h⟩ := Option.bind_eq_some_iff.mp h
  obtain ⟨run, hrun, hlive⟩ := Option.map_eq_some_iff.mp h
  exact ⟨p, run, hp, isRun_of_runOf (fun _ _ _ => Ledger.step_of_exec) hrun, hlive⟩

/-- Three frames are taken from frame 17 on, although frame 18 is in use. -/
theorem splitCalls_unsound : ∃ p run, construct (fun _ => 0#8) 16 8 4 1 = some p ∧
    IsRun (PoolStep 0) (Ledger.start [p] p) run ∧
    ¬ EveryState (SoundAt 0) (Ledger.start [p] p) run := by
  obtain ⟨p, run, hp, hrun, hlive⟩ := splitCalls_run
  refine ⟨p, run, hp, hrun, fun hsound => ?_⟩
  obtain ⟨q, _, hq⟩ := last_of_everyState hsound
  have hapart := hq.disjoint.apart
  rw [hlive, List.pairwise_cons] at hapart
  exact hapart.1 ⟨18, 1⟩ (by simp) 18 (by simp) (by simp)

theorem regions_sound_iff_contiguous_splitCalls : ∃ p run,
    construct (fun _ => 0#8) 16 8 4 1 = some p ∧ run ≠ [] ∧
    (EveryState (SoundAt 0) (Ledger.start [p] p) run ↔
      EveryStep (FindsContiguous 0) (Ledger.start [p] p) run) := by
  obtain ⟨p, run, hp, hrun, hlive⟩ := splitCalls_run
  refine ⟨p, run, hp, ?_, regions_sound_iff_contiguous (by decide) (by decide) (by decide)
    (by decide) hp rfl (fun j q hj => absurd hj (Nat.not_lt_zero j)) hrun⟩
  rintro rfl
  cases hlive

end TeachingKernel.FramePool
