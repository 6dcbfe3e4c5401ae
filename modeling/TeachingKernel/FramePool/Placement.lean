import TeachingKernel.FramePool.Accesses
import TeachingKernel.FramePool.Bitmaps
import TeachingKernel.Lib.Spans

/-!
# A pool whose bitmap lies in frames of another pool

`main` takes the info frames of the process pool from the kernel pool. The
constructor asserts that these frames end before the pool begins, with a strict
comparison, so it also refuses frames that end exactly where the pool begins. The
bytes that its calls access lie in these frames, as long as they stay in the bitmap.
-/

namespace TeachingKernel.FramePool

open PackedPairs ContFramePool

inductive BitmapCall where
  | get (n : Word)
  | mark (b n : Word)
  | release (f : Word)

namespace BitmapCall

def touched (fuel : Nat) (p : ContFramePool) : BitmapCall → Option (List Nat)
  | .get n => (getFramesTrace fuel p n).map Prod.fst
  | .mark b n => (markInaccessibleTrace fuel p b n).map Prod.fst
  | .release f => (releaseFrameTrace fuel p f).map Prod.fst

def Overruns (p : ContFramePool) : BitmapCall → Prop
  | .mark b n => p.Overruns b n
  | _ => False

theorem touched_inBitmap {p : ContFramePool}
    (hrange : p.baseFrameNo.toNat + p.nframes.toNat < 2 ^ 32) (halign : p.nframes.toNat % 4 = 0)
    (call : BitmapCall) (hover : ¬ call.Overruns p) :
    ∃ l, (∀ fuel, 2 ^ 32 < fuel → call.touched fuel p = some l) ∧ p.InBitmap l := by
  cases call with
  | get n =>
      obtain ⟨l, hl, hin⟩ := getFramesTrace_spec hrange halign n
      exact ⟨l, fun fuel hfuel => by rw [touched, hl fuel hfuel, Option.map_some], hin⟩
  | mark b n =>
      obtain ⟨l, hl, hin⟩ := markInaccessibleTrace_spec hrange halign b n
      exact ⟨l, fun fuel hfuel => by rw [touched, hl fuel hfuel, Option.map_some], hin.mpr hover⟩
  | release f =>
      obtain ⟨l, hl, hin⟩ := releaseFrameTrace_spec hrange halign f
      exact ⟨l, fun fuel hfuel => by rw [touched, hl fuel hfuel, Option.map_some], hin⟩

end BitmapCall

namespace ContFramePool

/-- The bytes that the constructor fills, and those that a call accesses whatever the
bitmap codes by then, lie in the `n` frames from `f` on. Calls of `mark_inaccessible`
that overrun the pool are left out. -/
structure AccessesWithin (p : ContFramePool) (f n : Word) : Prop where
  filled : ∀ c, 4 * c < p.nframes.toNat → InFrames f n (p.extent.byteAddr c)
  called : ∀ (bm : Bytes) (free : Word) (call : BitmapCall),
    ¬ call.Overruns { p with bitmap := bm, nFreeFrames := free } →
      ∃ l, (∀ fuel, 2 ^ 32 < fuel →
          call.touched fuel { p with bitmap := bm, nFreeFrames := free } = some l) ∧
        ∀ c ∈ l, InFrames f n (p.extent.byteAddr c)

end ContFramePool

section

variable {memory : Bytes} {base n info nInfo f : Word}

/-- The assertions of the constructor, for an info region without wrap-around. -/
theorem construct_outer_iff (hinfo : info ≠ 0) (hfour : n.toNat % 4 = 0)
    (hrange : base.toNat + n.toNat ≤ 2 ^ 20) (hregion : info.toNat + nInfo.toNat < 2 ^ 32) :
    (∃ p, construct memory base n info nInfo = some p) ↔
      (info.toNat + nInfo.toNat < base.toNat ∨ base.toNat + n.toNat ≤ info.toNat) ∧
        n ≤ nInfo * pageSize * 4 := by
  have hassert : (info + nInfo < base ∨ info ≥ base + n) ↔
      info.toNat + nInfo.toNat < base.toNat ∨ base.toNat + n.toNat ≤ info.toNat := by
    rw [BitVec.lt_def, ge_iff_le, BitVec.le_def, toNat_add_of_lt hregion,
      toNat_add_of_lt (by omega)]
  unfold construct
  rw [if_neg hinfo, roundUp4_of_dvd hfour, ← hassert]
  by_cases hapart : info + nInfo < base ∨ info ≥ base + n
  · rw [if_pos hapart]
    by_cases hroom : nInfo * pageSize * 4 ≥ n
    · rw [if_pos hroom]
      exact ⟨fun _ => ⟨hapart, hroom⟩, fun _ => ⟨_, rfl⟩⟩
    · rw [if_neg hroom]
      exact ⟨fun ⟨_, h⟩ => (by cases h), fun h => absurd h.2 hroom⟩
  · rw [if_neg hapart]
    exact ⟨fun ⟨_, h⟩ => (by cases h), fun h => absurd h.1 hapart⟩

theorem capacity_toNat (h : nInfo.toNat < 2 ^ 18) :
    (nInfo * pageSize * 4).toNat = nInfo.toNat * 16384 := by
  rw [BitVec.mul_assoc, BitVec.toNat_mul, show (pageSize * 4 : Word).toNat = 16384 from rfl]
  omega

/-- The needed info frames hold the whole bitmap. -/
theorem capacity_neededInfoFrames (hpos : 0 < n.toNat) (hrange : base.toNat + n.toNat ≤ 2 ^ 20) :
    n ≤ neededInfoFrames n * pageSize * 4 := by
  have hneeded := neededInfoFrames_toNat hpos
  rw [BitVec.le_def, capacity_toNat (by omega)]
  omega

theorem accessesWithin_of_construct {p : ContFramePool} (hinfo : f ≠ 0) (hfour : n.toNat % 4 = 0)
    (hpos : 0 < n.toNat) (hrange : base.toNat + n.toNat ≤ 2 ^ 20)
    (h : construct memory base n f (neededInfoFrames n) = some p) :
    p.AccessesWithin f (neededInfoFrames n) := by
  obtain ⟨-, -, hext, -, -⟩ := construct_outer hinfo h
  have hbase : p.baseFrameNo = base := congrArg Extent.baseFrameNo hext
  have hsize : p.nframes = n := (congrArg Extent.nframes hext).trans (roundUp4_of_dvd hfour)
  have hneeded := neededInfoFrames_toNat hpos
  have hin : ∀ c, 4 * c < p.nframes.toNat → InFrames f (neededInfoFrames n) (p.extent.byteAddr c) :=
    fun c hc => inFrames_of_outer hinfo (by omega) h ⟨c, hc, rfl⟩
  refine ⟨hin, fun bm free call hover => ?_⟩
  obtain ⟨l, hl, hbitmap⟩ := call.touched_inBitmap
    (p := { p with bitmap := bm, nFreeFrames := free })
    (show p.baseFrameNo.toNat + p.nframes.toNat < 2 ^ 32 by rw [hbase, hsize]; omega)
    (show p.nframes.toNat % 4 = 0 by rwa [hsize]) hover
  refine ⟨l, hl, fun c hc => hin c ?_⟩
  have hlt : c < p.nframes.toNat / 4 := hbitmap c hc
  omega

theorem not_accessesWithin_of_zero {p : ContFramePool} (hfour : n.toNat % 4 = 0)
    (hpos : 0 < n.toNat) (hrange : base.toNat + n.toNat ≤ 2 ^ 20)
    (hbelow : (neededInfoFrames n).toNat ≤ base.toNat)
    (h : construct memory base n 0 (neededInfoFrames n) = some p) :
    ¬ p.AccessesWithin 0 (neededInfoFrames n) := by
  obtain ⟨hext, -, -⟩ := construct_inner h
  have haddr : p.bitmapAddr = base * pageSize := congrArg Extent.bitmapAddr hext
  have hsize : p.nframes = n := (congrArg Extent.nframes hext).trans (roundUp4_of_dvd hfour)
  intro hwithin
  have hneeded := neededInfoFrames_toNat hpos
  obtain ⟨d, hd, o, ho, heq⟩ := hwithin.filled 0 (by rwa [hsize])
  have hnat := congrArg BitVec.toNat heq
  rw [Extent.byteAddr, show p.extent.bitmapAddr = _ from haddr,
    show (0 : Word) + BitVec.ofNat 32 d = BitVec.ofNat 32 d from BitVec.zero_add _,
    BitVec.toNat_add, BitVec.toNat_add, BitVec.toNat_mul, BitVec.toNat_mul, pageSize_toNat,
    toNat_ofNat_of_lt (n := d) (by omega), toNat_ofNat_of_lt (n := o) (by omega),
    toNat_ofNat_of_lt (n := 0) (by omega)] at hnat
  omega

/-- Info frames that overlap the pool, or are too few for its bitmap, are refused
unless frame 0 is named. -/
private theorem construct_none_iff {info nInfo : Word} (hfour : n.toNat % 4 = 0)
    (hrange : base.toNat + n.toNat ≤ 2 ^ 20) (hregion : info.toNat + nInfo.toNat < 2 ^ 32)
    (hbad : ¬ Span.Apart ⟨info.toNat, nInfo.toNat⟩ ⟨base.toNat, n.toNat⟩ ∨
      nInfo.toNat * 16384 < n.toNat) : construct memory base n info nInfo = none ↔ info ≠ 0 := by
  constructor
  · rintro hnone rfl
    simp [construct] at hnone
  · intro hinfo
    by_contra hsome
    have hok := (construct_outer_iff hinfo hfour hrange hregion).mp
      (Option.ne_none_iff_exists'.mp hsome)
    rcases hbad with hover | hsmall
    · refine hover fun x hx hx' => ?_
      rw [Span.mem_mk] at hx hx'
      omega
    · have hroom := hok.2
      rw [BitVec.le_def, capacity_toNat (by omega)] at hroom
      omega

/-- The two pools at boot: `K` is the kernel pool, built for `d` frames, and the
process pool is given info frames of `K`. It comes up and accesses bytes of these
frames only, exactly when they neither start at frame 0 nor end where the process
pool begins. Info frames that overlap the pool or are too few are refused, unless
frame 0 is named. -/
theorem process_pool_accepted_iff {K K' : ContFramePool} {d : Word} (hfour : n.toNat % 4 = 0)
    (hpos : 0 < n.toNat) (hrange : base.toNat + n.toNat ≤ 2 ^ 20)
    (hK : K.baseFrameNo.toNat + K.nframes.toNat < 2 ^ 32) (hd : d.toNat ≤ K.nframes.toNat)
    (hapart : Span.Apart ⟨K.baseFrameNo.toNat, d.toNat⟩ ⟨base.toNat, n.toNat⟩)
    (hget : K.getFrames (neededInfoFrames n) = some (f, K'))
    (hin : f.toNat + (neededInfoFrames n).toNat ≤ K.baseFrameNo.toNat + d.toNat) :
    ((∃ p, construct memory base n f (neededInfoFrames n) = some p ∧
        p.AccessesWithin f (neededInfoFrames n)) ↔
      f ≠ 0 ∧ f + neededInfoFrames n ≠ base) ∧
    ∀ info nInfo : Word, info.toNat + nInfo.toNat < 2 ^ 32 →
      ¬ Span.Apart ⟨info.toNat, nInfo.toNat⟩ ⟨base.toNat, n.toNat⟩ ∨
        nInfo.toNat * 16384 < n.toNat →
      (construct memory base n info nInfo = none ↔ info ≠ 0) := by
  have hneeded := neededInfoFrames_toNat hpos
  have hkernel := K.nframes.isLt
  obtain ⟨e, hdone, hf, -⟩ := getFrames_spec (pos_of_getFrames hget) hget
  have hsize := hdone.size_le
  have hlt := hdone.lt
  have hstart : f.toNat = K.baseFrameNo.toNat + (e + 1 - (neededInfoFrames n).toNat) := by
    have hof := toNat_ofNat_of_lt (n := e + 1 - (neededInfoFrames n).toNat) (by omega)
    rw [hf, frameNo, toNat_add_of_lt (by rw [hof]; omega), hof]
  have hsides := (Span.apart_iff (by dsimp only; omega) (by dsimp only; omega)).mp hapart
  dsimp only at hsides
  refine ⟨⟨?_, ?_⟩, fun info nInfo hregion hbad =>
    construct_none_iff hfour hrange hregion hbad⟩
  · rintro ⟨p, hp, hwithin⟩
    have hne : f ≠ 0 := by
      rintro rfl
      have hzero : (0 : Word).toNat = 0 := rfl
      exact not_accessesWithin_of_zero hfour hpos hrange (by omega) hp hwithin
    refine ⟨hne, fun htouch => ?_⟩
    have hsum : f.toNat + (neededInfoFrames n).toNat = base.toNat := by
      rw [← htouch, toNat_add_of_lt (by omega)]
    have hassert := ((construct_outer_iff hne hfour hrange (by omega)).mp ⟨p, hp⟩).1
    omega
  · rintro ⟨hne, htouch⟩
    have hgap : f.toNat + (neededInfoFrames n).toNat ≠ base.toNat := fun hsum =>
      htouch (BitVec.eq_of_toNat_eq (by rw [toNat_add_of_lt (by omega), hsum]))
    obtain ⟨p, hp⟩ : ∃ p, construct memory base n f (neededInfoFrames n) = some p :=
      (construct_outer_iff hne hfour hrange (by omega)).mpr
        ⟨by omega, capacity_neededInfoFrames hpos hrange⟩
    exact ⟨p, hp, accessesWithin_of_construct hne hfour hpos hrange hp⟩

def fullKernelPool : Option ContFramePool :=
  (construct (fun _ => 0#8) 4 4 100 1).bind fun p => (p.getFrames 3).map Prod.snd

/-- The kernel pool hands out frame 7, right before the process pool on frames 8 to 11. -/
theorem touching_info_frame_refused : ∃ K K', fullKernelPool = some K ∧
    K.baseFrameNo.toNat + K.nframes.toNat = 8 ∧
    K.getFrames (neededInfoFrames 4) = some (7, K') ∧
    construct (fun _ => 0#8) 8 4 7 (neededInfoFrames 4) = none := by
  have h : (fullKernelPool.bind fun K => (K.getFrames (neededInfoFrames 4)).map fun a =>
      (K.baseFrameNo.toNat + K.nframes.toNat, a.1)) = some (8, 7) := by decide +kernel
  obtain ⟨K, hK, h⟩ := Option.bind_eq_some_iff.mp h
  obtain ⟨⟨f, K'⟩, hget, heq⟩ := Option.map_eq_some_iff.mp h
  obtain ⟨hend, hf⟩ := Prod.mk.injEq .. ▸ heq
  exact ⟨K, K', hK, hend, hf ▸ hget, by decide +kernel⟩

theorem process_pool_accepted_iff_gap : ∃ K K' p, fullKernelPool = some K ∧
    K.getFrames (neededInfoFrames 4) = some (7, K') ∧
    construct (fun _ => 0#8) 9 4 7 (neededInfoFrames 4) = some p ∧
    p.AccessesWithin 7 (neededInfoFrames 4) := by
  have h : (fullKernelPool.bind fun K => (K.getFrames (neededInfoFrames 4)).map fun a =>
      (K.baseFrameNo, K.nframes, a.1)) = some (4, 4, 7) := by decide +kernel
  obtain ⟨K, hK, h⟩ := Option.bind_eq_some_iff.mp h
  obtain ⟨⟨f, K'⟩, hget, heq⟩ := Option.map_eq_some_iff.mp h
  simp only [Prod.mk.injEq] at heq
  obtain ⟨hbase, hsize, rfl⟩ := heq
  have hapart : Span.Apart ⟨K.baseFrameNo.toNat, (4 : Word).toNat⟩
      ⟨(9 : Word).toNat, (4 : Word).toNat⟩ := by
    rw [hbase, Span.apart_iff (by decide) (by decide)]
    decide
  obtain ⟨p, hp, hwithin⟩ := (process_pool_accepted_iff (by decide) (by decide) (by decide)
    (by rw [hbase, hsize]; decide) (by rw [hsize]) hapart hget (by rw [hbase]; decide)).1.mpr
    (by decide)
  exact ⟨K, K', p, hK, hget, hp, hwithin⟩

end

end TeachingKernel.FramePool
