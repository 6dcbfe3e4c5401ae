import TeachingKernel.FramePool.Ops
import TeachingKernel.Lib.Runs

/-!
# A pool that stores its bitmap in its own frames

Such a pool codes its first frames 01. No call, on this pool or on another one
and with whatever arguments, hands these frames out or frees them: the window of
`get_frames` ends `n` free frames behind the last of them, `mark_inaccessible`
only writes 01, and the freeing loop passes nothing but 00.
-/

namespace TeachingKernel.FramePool

open ForLoop PackedPairs ContFramePool Runs

inductive PoolCall where
  | get (j : Nat) (n f : Word)
  | mark (j : Nat) (b n : Word)
  | release (f : Word)

/-- One call that passes its assertions, on pool `j` or on the pool that the
static `release_frames` finds. -/
inductive CallStep : List ContFramePool → PoolCall → List ContFramePool → Prop
  | get {pools : List ContFramePool} {p p' : ContFramePool} {j : Nat} {n f : Word}
      (hj : pools[j]? = some p) (hget : p.getFrames n = some (f, p')) :
      CallStep pools (.get j n f) (pools.set j p')
  | mark {pools : List ContFramePool} {p p' : ContFramePool} {j : Nat} {b n : Word}
      (hj : pools[j]? = some p) (hmark : p.markInaccessible b n = some p') :
      CallStep pools (.mark j b n) (pools.set j p')
  | release {pools pools' : List ContFramePool} {f : Word}
      (hrelease : releaseFrames pools f = some pools') :
      CallStep pools (.release f) pools'

namespace ContFramePool

/-- The first `m` frames of the pool are coded 01. -/
def Reserves (p : ContFramePool) (m : Nat) : Prop := ∀ i < m, code p.bitmap i = .inaccessible

variable {p p' : ContFramePool} {m : Nat}

theorem pos_of_getFrames {n f : Word} (h : p.getFrames n = some (f, p')) : 0 < n.toNat := by
  rw [Nat.pos_iff_ne_zero]
  intro hzero
  unfold getFrames at h
  by_cases hfree : p.nFreeFrames > 0
  · rw [if_pos hfree, hzero] at h
    cases hs : search p.bitmap p.nframes.toNat 0 p.nframes.toNat 0 0 with
    | none => simp [hs] at h
    | some e =>
        have hdone := search_some hs
        exact absurd (Finset.card_eq_zero.mp hdone.card)
          (Finset.ne_empty_of_mem (self_mem_stretch hdone.free))
  · rw [if_neg hfree] at h
    cases h

theorem Reserves.window_behind (h : p.Reserves m) {nframes n e : Nat}
    (hdone : Completes p.bitmap nframes n e) : m ≤ e + 1 - n ∧ m ≤ e := by
  have hsub : stretch p.bitmap (e + 1) ⊆ Finset.Ico m (e + 1) := fun i hi => by
    obtain ⟨hlt, hfree, -⟩ := mem_stretch.mp hi
    rw [Finset.mem_Ico]
    refine ⟨?_, hlt⟩
    by_contra hlow
    rw [h i (by omega)] at hfree
    cases hfree
  have hcard := Finset.card_le_card hsub
  rw [hdone.card, Nat.card_Ico] at hcard
  have hend := Finset.mem_Ico.mp (hsub (self_mem_stretch hdone.free))
  omega

theorem Reserves.getFrames (h : p.Reserves m) {n f : Word} (hget : p.getFrames n = some (f, p')) :
    p'.Reserves m := by
  obtain ⟨e, hdone, -, -, -, -, hcodes⟩ := getFrames_spec (pos_of_getFrames hget) hget
  have hbehind := h.window_behind hdone
  intro i hi
  rw [hcodes, if_neg (by omega), if_neg (by omega)]
  exact h i hi

theorem codes_markInaccessible {b n : Word} (h : p.markInaccessible b n = some p') :
    p'.extent = p.extent ∧
      ∀ j, code p.bitmap j = .inaccessible → code p'.bitmap j = .inaccessible := by
  unfold markInaccessible at h
  by_cases hassert : b ≥ p.baseFrameNo ∧ b + n ≤ p.baseFrameNo + p.nframes
  · rw [if_pos hassert] at h
    obtain ⟨s, hloop, rfl⟩ := Option.map_eq_some_iff.mp h
    refine ⟨rfl, fun j hj => ?_⟩
    refine forRange?_keeps (Q := fun s => code s.1 j = .inaccessible) hj ?_ hloop
    intro i u v hu hbody
    by_cases hguard : u.1 (i / 4) &&& guardMask i ≠ 0#8
    · rw [if_pos hguard] at hbody
      cases hbody
      rw [code_setInaccessible]
      by_cases hji : j = i
      · rw [if_pos hji]
      · rw [if_neg hji]
        exact hu
    · rw [if_neg hguard] at hbody
      cases hbody
  · rw [if_neg hassert] at h
    cases h

theorem codes_releaseFrame {f : Word} (h : p.releaseFrame f = some p') :
    p'.extent = p.extent ∧
      ∀ j, code p.bitmap j = .inaccessible → code p'.bitmap j = .inaccessible := by
  obtain ⟨hmanages, hhead⟩ := head_of_releaseFrame h
  obtain ⟨q, hq, hext, -, hcodes⟩ := releaseFrame_eq hmanages hhead
  cases h.symm.trans hq
  refine ⟨hext, fun j hj => ?_⟩
  rw [hcodes]
  by_cases hin : (f - p.baseFrameNo).toNat ≤ j ∧
      j ≤ (f - p.baseFrameNo).toNat + p.restAfter (f - p.baseFrameNo).toNat
  · -- the freed frames were coded 10 and 00
    by_cases hfirst : j = (f - p.baseFrameNo).toNat
    · rw [hfirst, hhead] at hj
      cases hj
    · have hlo : (f - p.baseFrameNo).toNat + 1 ≤ j := by omega
      have hlt : j < (f - p.baseFrameNo).toNat + 1 + p.restAfter (f - p.baseFrameNo).toNat := by
        omega
      rw [rest_of_lt_restRun hlo hlt] at hj
      cases hj
  · rw [if_neg hin]
    exact hj

end ContFramePool

/-- Every pool is either left as it is or releases the frame itself. -/
theorem getElem?_releaseFrames {pools pools' : List ContFramePool} {f : Word}
    (h : releaseFrames pools f = some pools') {k : Nat} {p : ContFramePool}
    (hk : pools[k]? = some p) :
    ∃ p', pools'[k]? = some p' ∧ (p' = p ∨ p.releaseFrame f = some p') := by
  induction pools generalizing pools' k with
  | nil => simp at hk
  | cons q pools ih =>
      unfold releaseFrames at h
      by_cases hq : q.Manages f
      · rw [if_pos hq] at h
        obtain ⟨q', hrelease, rfl⟩ := Option.map_eq_some_iff.mp h
        cases k with
        | zero =>
            cases hk
            exact ⟨q', rfl, .inr hrelease⟩
        | succ k => exact ⟨p, hk, .inl rfl⟩
      · rw [if_neg hq] at h
        obtain ⟨qs, hrest, rfl⟩ := Option.map_eq_some_iff.mp h
        cases k with
        | zero => exact ⟨p, hk, .inl rfl⟩
        | succ k => exact ih hrest hk

/-! ## Runs -/

def ReservedAt (k m : Nat) (e : Extent) (pools : List ContFramePool) : Prop :=
  ∃ p, pools[k]? = some p ∧ p.extent = e ∧ p.Reserves m

/-- A region answered by pool `k` shares no frame with the `m` frames from `base` on. -/
def AnswersApart (k m : Nat) (base : Word) : PoolCall → Prop
  | .get j n f => j = k → ∀ i < n.toNat, ∀ i' < m, f + BitVec.ofNat 32 i ≠ base + BitVec.ofNat 32 i'
  | _ => True

theorem ReservedAt.set {k m j : Nat} {e : Extent} {pools : List ContFramePool}
    {p p' : ContFramePool} (h : ReservedAt k m e pools) (hj : pools[j]? = some p)
    (hext : p'.extent = p.extent) (hkeep : p.Reserves m → p'.Reserves m) :
    ReservedAt k m e (pools.set j p') := by
  obtain ⟨q, hk, hq, hreserves⟩ := h
  by_cases hjk : j = k
  · subst hjk
    cases hj.symm.trans hk
    exact ⟨p', List.getElem?_set_self (List.getElem?_eq_some_iff.mp hk).1, hext.trans hq,
      hkeep hreserves⟩
  · exact ⟨q, (List.getElem?_set_ne hjk).trans hk, hq, hreserves⟩

theorem ReservedAt.step {k m : Nat} {e : Extent} {pools pools' : List ContFramePool}
    {call : PoolCall} (h : ReservedAt k m e pools) (hstep : CallStep pools call pools') :
    ReservedAt k m e pools' ∧ AnswersApart k m e.baseFrameNo call := by
  cases hstep with
  | @get p p' j n f hj hget =>
      obtain ⟨i, hdone, hf, hext, -, -, -⟩ := getFrames_spec (pos_of_getFrames hget) hget
      refine ⟨h.set hj hext fun hr => hr.getFrames hget, ?_⟩
      rintro rfl d hd d' hd' heq
      obtain ⟨q, hk, hq, hreserves⟩ := h
      cases hj.symm.trans hk
      have hbehind := hreserves.window_behind hdone
      have hlt := hdone.lt
      have hsize := p.nframes.isLt
      have hcount := hdone.size_le
      -- both frames counted from the first frame of the pool
      have hbase : e.baseFrameNo = p.baseFrameNo := (congrArg Extent.baseFrameNo hq).symm
      rw [hf, hbase, frameNo, BitVec.add_assoc, ← BitVec.ofNat_add,
        BitVec.add_right_inj] at heq
      have hnat := congrArg BitVec.toNat heq
      rw [toNat_ofNat_of_lt (by omega), toNat_ofNat_of_lt (by omega)] at hnat
      omega
  | @mark p p' j b n hj hmark =>
      obtain ⟨hext, hkeep⟩ := codes_markInaccessible hmark
      exact ⟨h.set hj hext fun hr i hi => hkeep i (hr i hi), trivial⟩
  | release hrelease =>
      obtain ⟨p, hk, hp, hreserves⟩ := h
      obtain ⟨p', hk', hp'⟩ := getElem?_releaseFrames hrelease hk
      refine ⟨⟨p', hk', ?_⟩, trivial⟩
      rcases hp' with rfl | hp'
      · exact ⟨hp, hreserves⟩
      · obtain ⟨hext, hkeep⟩ := codes_releaseFrame hp'
        exact ⟨hext.trans hp, fun i hi => hkeep i (hreserves i hi)⟩

section

variable {memory : Bytes} {base n nInfo : Word} {p : ContFramePool}

theorem bitmap_byte_in_frame (base : Word) (c : Nat) :
    base * pageSize + BitVec.ofNat 32 c =
      (base + BitVec.ofNat 32 (c / 4096)) * pageSize + BitVec.ofNat 32 (c % 4096) := by
  have hc : BitVec.ofNat 32 (c / 4096) * pageSize + BitVec.ofNat 32 (c % 4096) =
      BitVec.ofNat 32 c := by
    have hpage : pageSize = BitVec.ofNat 32 4096 := rfl
    rw [hpage, ← BitVec.ofNat_mul, ← BitVec.ofNat_add, Nat.div_add_mod']
  rw [BitVec.add_mul, BitVec.add_assoc, hc]

theorem reserves_of_construct
    (hroom : (neededInfoFrames (roundUp4 n)).toNat ≤ (roundUp4 n).toNat)
    (h : construct memory base n 0 nInfo = some p) :
    p.Reserves (neededInfoFrames p.nframes).toNat := by
  obtain ⟨hext, -, hcodes⟩ := construct_inner h
  have hsize : p.nframes = roundUp4 n := congrArg Extent.nframes hext
  rw [hsize]
  intro i hi
  rw [hcodes i (by omega), if_pos hi]

/-- The frames that store the bitmap stay 01 along every run, no answer of
`get_frames` contains one of them, and they hold every byte of the bitmap. -/
theorem own_bitmap_protected {pools : List ContFramePool} {k : Nat}
    {run : List (PoolCall × List ContFramePool)}
    (hroom : (neededInfoFrames (roundUp4 n)).toNat ≤ (roundUp4 n).toNat)
    (hconstruct : construct memory base n 0 nInfo = some p) (hk : pools[k]? = some p)
    (hrun : IsRun CallStep pools run) :
    EveryState (ReservedAt k (neededInfoFrames p.nframes).toNat p.extent) pools run ∧
      EveryTransition (fun _ call _ => AnswersApart k (neededInfoFrames p.nframes).toNat base call)
        pools run ∧
      ∀ c < p.nframes.toNat / 4, ∃ i < (neededInfoFrames p.nframes).toNat, ∃ o < 4096,
        p.bitmapAddr + BitVec.ofNat 32 c =
          (base + BitVec.ofNat 32 i) * pageSize + BitVec.ofNat 32 o := by
  obtain ⟨hext, -, -⟩ := construct_inner hconstruct
  have haddr : p.bitmapAddr = base * pageSize := congrArg Extent.bitmapAddr hext
  have hbase : p.extent.baseFrameNo = base := congrArg Extent.baseFrameNo hext
  have hstart : ReservedAt k (neededInfoFrames p.nframes).toNat p.extent pools :=
    ⟨p, hk, rfl, reserves_of_construct hroom hconstruct⟩
  have hstep := fun s call t (h : ReservedAt k (neededInfoFrames p.nframes).toNat p.extent s)
    (hs : CallStep s call t) => h.step hs
  rw [hbase] at hstep
  refine ⟨everyState_of_step (fun s call t h hs => (hstep s call t h hs).1) hstart hrun,
    everyTransition_of_step hstep hstart hrun, fun c hc => ?_⟩
  refine ⟨c / 4096, ?_, c % 4096, Nat.mod_lt _ (by decide), ?_⟩
  · rw [neededInfoFrames_toNat (by omega)]
    omega
  · rw [haddr]
    exact bitmap_byte_in_frame base c

/-- Two frames are taken from a pool of sixteen and given back. -/
theorem own_bitmap_protected_sixteen : ∃ p p' pools' f,
    construct (fun _ => 0#8) 512 16 0 0 = some p ∧ p.getFrames 2 = some (f, p') ∧
    releaseFrames [p'] f = some pools' ∧
    ReservedAt 0 (neededInfoFrames p.nframes).toNat p.extent pools' := by
  have h : ((construct (fun _ => 0#8) 512 16 0 0).bind fun p =>
      (p.getFrames 2).bind fun a => releaseFrames [a.2] a.1).isSome = true := by decide +kernel
  obtain ⟨pools', h⟩ := Option.isSome_iff_exists.mp h
  obtain ⟨p, hp, h⟩ := Option.bind_eq_some_iff.mp h
  obtain ⟨⟨f, p'⟩, hget, hrelease⟩ := Option.bind_eq_some_iff.mp h
  have hrun : IsRun CallStep [p] [(.get 0 2 f, [p']), (.release f, pools')] :=
    ⟨.get rfl hget, .release hrelease, trivial⟩
  exact ⟨p, p', pools', f, hp, hget, hrelease,
    last_of_everyState (own_bitmap_protected (by decide) hp rfl hrun).1⟩

end

end TeachingKernel.FramePool
