import TeachingKernel.FramePool.Bitmaps
import TeachingKernel.FramePool.ReleaseOrder
import TeachingKernel.Lib.ByteMemory

/-!
# Pools in one memory

The pools as the code has them: `bitmap` is a pointer, and the bitmaps of all pools are
bytes of one memory. While no two bitmaps share a byte, a release is the one of the
model on what the pools find there, so heads are released in any order. Pools that were
given the same info frame disturb each other.
-/

namespace TeachingKernel.FramePool

open PackedPairs ContFramePool

namespace ContFramePool

/-- The pool with nothing behind the end of its bitmap. -/
def clip (p : ContFramePool) : ContFramePool :=
  { p with bitmap := fun c => if 4 * c < p.nframes.toNat then p.bitmap c else 0 }

/-- The call sees and changes bytes of the bitmap only. -/
structure Local (op : ContFramePool → Option ContFramePool) : Prop where
  clip_eq : ∀ p, op p.clip = (op p).map clip
  extent_eq : ∀ p q, op p = some q → q.extent = p.extent
  kept : ∀ p q, op p = some q → ∀ c, ¬ 4 * c < p.nframes.toNat → q.bitmap c = p.bitmap c

section

variable {p q : ContFramePool}

theorem code_clip {i : Nat} (hi : 4 * (i / 4) < p.nframes.toNat) :
    code p.clip.bitmap i = code p.bitmap i := by
  have hbyte : p.clip.bitmap (i / 4) = p.bitmap (i / 4) := if_pos hi
  rw [code, code, first, first, second, second, hbyte]

theorem code_clip_of_le {i : Nat} (hi : ¬ 4 * (i / 4) < p.nframes.toNat) :
    code p.clip.bitmap i = .rest :=
  byte_eq_zero_iff_codes.mp (if_neg hi : p.clip.bitmap (i / 4) = 0) i rfl

theorem restAfter_clip (i : Nat) : p.clip.restAfter i = p.restAfter i := by
  have h : ∀ fuel j, restRun p.clip.bitmap p.nframes.toNat fuel j =
      restRun p.bitmap p.nframes.toNat fuel j := by
    intro fuel
    induction fuel with
    | zero => exact fun _ => rfl
    | succ fuel ih =>
        intro j
        rw [restRun, restRun, ih]
        by_cases hj : j < p.nframes.toNat
        · rw [code_clip (by omega)]
        · rw [if_neg fun hc => hj hc.1, if_neg fun hc => hj hc.1]
  exact h _ _

theorem code_clip_of_manages {f : Word} (h : p.Manages f) :
    code p.clip.bitmap (f - p.baseFrameNo).toNat = code p.bitmap (f - p.baseFrameNo).toNat := by
  have hlt := h.sub_lt
  exact code_clip (by omega)

theorem Frees.lt_nframes {f : Word} (hmanages : p.Manages f) {x : Nat}
    (hx : p.Frees (f - p.baseFrameNo).toNat x) : x < p.nframes.toNat := by
  have hlt := hmanages.sub_lt
  have hstart : (f - p.baseFrameNo).toNat + 1 ≤ p.nframes.toNat := by omega
  have hfits : _ + restRun p.bitmap p.nframes.toNat p.nframes.toNat _ ≤ _ := restRun_le hstart
  have hhi := hx.2
  unfold restAfter at hhi
  omega

/-- Behind the end of the bitmap nothing is looked at or changed. -/
theorem Released.clip_eq {f : Word} {r : ContFramePool} (hmanages : p.Manages f)
    (hq : Released p (f - p.baseFrameNo).toNat q)
    (hr : Released p.clip (f - p.baseFrameNo).toNat r) : r = q.clip := by
  have hfrees : ∀ x, p.clip.Frees (f - p.baseFrameNo).toNat x ↔
      p.Frees (f - p.baseFrameNo).toNat x := fun x => by
    rw [Frees, Frees, restAfter_clip]
  have hsize := nframes_of_extent hq.extent_eq
  refine eq_of_extent (hr.extent_eq.trans hq.extent_eq.symm) (bitmap_ext fun x => ?_) ?_
  · by_cases hx : p.Frees (f - p.baseFrameNo).toNat x
    · have hlt := hx.lt_nframes hmanages
      rw [hr.freed x ((hfrees x).mpr hx), code_clip (by rw [hsize]; omega), hq.freed x hx]
    · refine (hr.kept x fun hc => hx ((hfrees x).mp hc)).trans ?_
      by_cases hin : 4 * (x / 4) < p.nframes.toNat
      · rw [code_clip hin, code_clip (by rwa [hsize]), hq.kept x hx]
      · rw [code_clip_of_le hin, code_clip_of_le (by rwa [hsize])]
  · refine hr.counted.trans ?_
    show p.nFreeFrames + BitVec.ofNat 32 (p.clip.restAfter (f - p.baseFrameNo).toNat + 1) = _
    rw [restAfter_clip]
    exact hq.counted.symm

theorem releaseFrame_local (f : Word) : Local (releaseFrame · f) where
  clip_eq p := by
    cases hrun : p.releaseFrame f with
    | none =>
        rw [Option.map_none, ← Option.not_isSome_iff_eq_none]
        intro hsome
        obtain ⟨q, hq⟩ := Option.isSome_iff_exists.mp hsome
        have hmanages : p.Manages f := (head_of_releaseFrame hq).1
        have hhead := (code_clip_of_manages hmanages).symm.trans (head_of_releaseFrame hq).2
        obtain ⟨r, hr, -⟩ := releaseFrame_released hmanages hhead
        cases hrun.symm.trans hr
    | some q =>
        obtain ⟨hmanages, hhead⟩ := head_of_releaseFrame hrun
        obtain ⟨r, hr, hreleased⟩ := releaseFrame_released (p := p.clip) hmanages
          ((code_clip_of_manages hmanages).trans hhead)
        rw [Option.map_some, ← (released_of_releaseFrame hrun).2.clip_eq hmanages hreleased]
        exact hr
  extent_eq p q hrun := (released_of_releaseFrame hrun).2.extent_eq
  kept p q hrun c hc := by
    obtain ⟨hmanages, hreleased⟩ := released_of_releaseFrame hrun
    refine byte_ext fun i hi => hreleased.kept i fun hx => ?_
    have hlt := hx.lt_nframes hmanages
    omega

end

end ContFramePool

/-! ## Objects -/

/-- An object of the class without what its pointer `bitmap` points to. -/
structure PoolObject where
  extent : Extent
  nFreeFrames : Word

namespace PoolObject

def fetch (m : Memory) (o : PoolObject) : ContFramePool where
  bitmapAddr := o.extent.bitmapAddr
  bitmap := fun c => m (o.extent.byteAddr c)
  nFreeFrames := o.nFreeFrames
  baseFrameNo := o.extent.baseFrameNo
  nframes := o.extent.nframes
  infoFrameNo := o.extent.infoFrameNo
  nInfoFrames := o.extent.nInfoFrames

/-- The memory after a call that leaves the pool as `q`. -/
def memoryOf (q : ContFramePool) : Memory := fun a => q.bitmap (a - q.bitmapAddr).toNat

def call (op : ContFramePool → Option ContFramePool) (m : Memory) (o : PoolObject) :
    Option (Memory × PoolObject) :=
  (op (o.fetch m)).map fun q => (memoryOf q, { o with nFreeFrames := q.nFreeFrames })

/-- The pool with its bitmap and nothing else of the memory. -/
def view (m : Memory) (o : PoolObject) : ContFramePool := (o.fetch m).clip

end PoolObject

/-- The static `release_frames` on objects. -/
def releaseFramesIn (m : Memory) : List PoolObject → Word → Option (Memory × List PoolObject)
  | [], _ => some (m, [])
  | o :: objects, f =>
      if (o.fetch m).Manages f then
        (o.call (releaseFrame · f) m).map fun r => (r.1, r.2 :: objects)
      else (releaseFramesIn m objects f).map fun r => (r.1, o :: r.2)

def views (s : Memory × List PoolObject) : List ContFramePool :=
  s.2.map (PoolObject.view s.1)

namespace PoolObject

section

variable {m m' : Memory} {o : PoolObject} {op : ContFramePool → Option ContFramePool}

theorem view_congr (h : ∀ a, o.extent.BitmapAt a → m' a = m a) : o.view m' = o.view m := by
  have hbitmap : (o.view m').bitmap = (o.view m).bitmap := by
    funext c
    show (if 4 * c < o.extent.nframes.toNat then m' _ else 0) =
      if 4 * c < o.extent.nframes.toNat then m _ else 0
    by_cases hc : 4 * c < o.extent.nframes.toNat
    · rw [if_pos hc, if_pos hc]
      exact h _ ⟨c, hc, rfl⟩
    · rw [if_neg hc, if_neg hc]
  exact eq_of_extent rfl hbitmap rfl

/-- A call that stays in the bitmap is the call on what the object sees. -/
theorem call_view (hop : Local op) {r : Memory × PoolObject} (h : o.call op m = some r) :
    op (o.view m) = some (r.2.view r.1) ∧ r.2.extent = o.extent ∧
      ∀ a, ¬ o.extent.BitmapAt a → r.1 a = m a := by
  obtain ⟨q, hq, rfl⟩ := Option.map_eq_some_iff.mp h
  have hext := hop.extent_eq _ q hq
  have haddr : q.bitmapAddr = o.extent.bitmapAddr := congrArg Extent.bitmapAddr hext
  have hsize : q.nframes = o.extent.nframes := congrArg Extent.nframes hext
  refine ⟨?_, rfl, fun a ha => ?_⟩
  · rw [view, hop.clip_eq, hq, Option.map_some]
    refine congrArg some (eq_of_extent hext (funext fun c => ?_) rfl)
    show (if 4 * c < q.nframes.toNat then q.bitmap c else 0) =
      if 4 * c < o.extent.nframes.toNat then memoryOf q _ else 0
    rw [hsize]
    split
    · rw [memoryOf, haddr, Extent.byteAddr_sub ‹_›]
    · rfl
  · rw [Extent.bitmapAt_iff] at ha
    have hkept := hop.kept _ q hq (a - o.extent.bitmapAddr).toNat ha
    show q.bitmap (a - q.bitmapAddr).toNat = m a
    rw [haddr, hkept]
    exact congrArg m (o.extent.byteAddr_toNat_sub a)

theorem call_none (hop : Local op) (h : o.call op m = none) : op (o.view m) = none := by
  rw [view, hop.clip_eq, Option.map_eq_none_iff.mp h]
  rfl

end

end PoolObject

open PoolObject

section

variable {m : Memory} {objects : List PoolObject} {s t : Memory × List PoolObject} {f : Word}

theorem releaseFramesIn_kept (h : releaseFramesIn m objects f = some t) :
    t.2.map PoolObject.extent = objects.map PoolObject.extent ∧
      ∀ a, (∀ o ∈ objects, ¬ o.extent.BitmapAt a) → t.1 a = m a := by
  induction objects generalizing t with
  | nil =>
      cases h
      exact ⟨rfl, fun _ _ => rfl⟩
  | cons o objects ih =>
      rw [releaseFramesIn] at h
      split at h
      · obtain ⟨r, hr, rfl⟩ := Option.map_eq_some_iff.mp h
        obtain ⟨-, hext, hkept⟩ := call_view (releaseFrame_local f) hr
        exact ⟨by rw [List.map_cons, List.map_cons, hext], fun a ha => hkept a (ha o (by simp))⟩
      · obtain ⟨r, hr, rfl⟩ := Option.map_eq_some_iff.mp h
        obtain ⟨hext, hkept⟩ := ih hr
        exact ⟨by rw [List.map_cons, List.map_cons, hext],
          fun a ha => hkept a fun o' ho' => ha o' (List.mem_cons_of_mem _ ho')⟩

/-- While the bitmaps are apart, a release in memory is the release of the model. -/
theorem releaseFrames_views
    (hapart : (objects.map PoolObject.extent).Pairwise Extent.BitmapsApart) :
    releaseFrames (views (m, objects)) f = (releaseFramesIn m objects f).map views := by
  induction objects with
  | nil => rfl
  | cons o objects ih =>
      obtain ⟨hothers, hrest⟩ := List.pairwise_cons.mp hapart
      rw [List.forall_mem_map] at hothers
      rw [releaseFramesIn]
      show (if (o.view m).Manages f then _ else _) = _
      by_cases hmanages : (o.fetch m).Manages f
      · rw [if_pos hmanages, if_pos (show (o.view m).Manages f from hmanages)]
        cases hcall : o.call (releaseFrame · f) m with
        | none => rw [call_none (releaseFrame_local f) hcall]; rfl
        | some r =>
            obtain ⟨hrun, hext, hkept⟩ := call_view (releaseFrame_local f) hcall
            rw [hrun]
            refine congrArg some (congrArg _ (List.map_congr_left fun o' ho' => ?_))
            exact (view_congr fun a ha => hkept a fun hc => hothers o' ho' a hc ha).symm
      · rw [if_neg hmanages, if_neg (show ¬ (o.view m).Manages f from hmanages)]
        show (releaseFrames (views (m, objects)) f).map _ = _
        rw [ih hrest, Option.map_map, Option.map_map]
        cases hrun : releaseFramesIn m objects f with
        | none => rfl
        | some r =>
            obtain ⟨-, hkept⟩ := releaseFramesIn_kept hrun
            have hview : o.view r.1 = o.view m :=
              view_congr fun a ha => hkept a fun o' ho' hc => hothers o' ho' a ha hc
            show some (o.view m :: views r) = some (views (r.1, o :: r.2))
            rw [← hview]
            rfl

def releaseAll (s : Memory × List PoolObject) (frames : List Word) :
    Option (Memory × List PoolObject) :=
  frames.foldlM (fun s f => releaseFramesIn s.1 s.2 f) s

theorem releaseAll_cons {frames : List Word} :
    releaseAll s (f :: frames) =
      (releaseFramesIn s.1 s.2 f).bind fun t => releaseAll t frames := rfl

theorem releaseAll_kept {frames : List Word} (h : releaseAll s frames = some t) :
    t.2.map PoolObject.extent = s.2.map PoolObject.extent ∧
      ∀ a, (∀ e ∈ s.2.map PoolObject.extent, ¬ e.BitmapAt a) → t.1 a = s.1 a := by
  induction frames generalizing s with
  | nil =>
      cases h
      exact ⟨rfl, fun _ _ => rfl⟩
  | cons f frames ih =>
      rw [releaseAll_cons] at h
      obtain ⟨u, hu, h⟩ := Option.bind_eq_some_iff.mp h
      obtain ⟨hext, hkept⟩ := releaseFramesIn_kept hu
      obtain ⟨hext', hkept'⟩ := ih h
      refine ⟨hext'.trans hext, fun a ha => ?_⟩
      rw [hkept' a (hext ▸ ha), hkept a fun o ho => ha _ (List.mem_map_of_mem ho)]

theorem releaseAll_views {frames : List Word}
    (hapart : (s.2.map PoolObject.extent).Pairwise Extent.BitmapsApart) :
    frames.foldlM releaseFrames (views s) = (releaseAll s frames).map views := by
  induction frames generalizing s with
  | nil => rfl
  | cons f frames ih =>
      rw [List.foldlM_cons, releaseAll_cons]
      show (releaseFrames (views (s.1, s.2)) f).bind _ = _
      rw [releaseFrames_views hapart]
      cases hrun : releaseFramesIn s.1 s.2 f with
      | none => rfl
      | some u => exact ih ((releaseFramesIn_kept hrun).1 ▸ hapart)

/-- The bitmaps and counters determine the objects, and the memory but for other bytes. -/
theorem eq_of_views (hviews : views s = views t)
    (hrest : ∀ a, (∀ e ∈ s.2.map PoolObject.extent, ¬ e.BitmapAt a) → s.1 a = t.1 a) : s = t := by
  obtain ⟨m, objects⟩ := s
  obtain ⟨m', objects'⟩ := t
  have hobjects : objects = objects' := by
    have hmap := congrArg (List.map fun p => PoolObject.mk p.extent p.nFreeFrames) hviews
    simp only [views, List.map_map] at hmap
    exact (List.map_id objects).symm.trans (hmap.trans (List.map_id objects'))
  subst hobjects
  refine congrArg (·, objects) (funext fun a => ?_)
  by_cases ha : ∀ e ∈ objects.map PoolObject.extent, ¬ e.BitmapAt a
  · exact hrest a ha
  · simp only [List.forall_mem_map, not_forall, not_not] at ha
    obtain ⟨o, ho, c, hc, rfl⟩ := ha
    have hbitmap := congrArg (fun p => p.bitmap c) (List.map_inj_left.mp hviews o ho)
    have hin : ∀ m : Memory, (o.view m).bitmap c = m (o.extent.byteAddr c) := fun m => if_pos hc
    exact (hin m).symm.trans (hbitmap.trans (hin m'))

/-- Pools whose bitmaps lie apart release heads in any two orders with success, and with
the same bitmaps and counters at the end. -/
theorem releases_commute (frames frames' : List Word)
    (hapart : (s.2.map PoolObject.extent).Pairwise Extent.BitmapsApart)
    (hdisjoint : DisjointPools (views s)) (hnodup : frames.Nodup)
    (hheads : ∀ f ∈ frames, IsHead (views s) f) (hperm : frames.Perm frames') :
    ∃ t, releaseAll s frames = some t ∧ releaseAll s frames' = some t := by
  obtain ⟨pools, hrun, hrun'⟩ := foldlM_releaseFrames_perm hdisjoint hnodup hheads hperm
  rw [releaseAll_views hapart] at hrun hrun'
  obtain ⟨t, ht, rfl⟩ := Option.map_eq_some_iff.mp hrun
  obtain ⟨u, hu, hviews⟩ := Option.map_eq_some_iff.mp hrun'
  obtain ⟨hext, hkept⟩ := releaseAll_kept ht
  obtain ⟨-, hkept'⟩ := releaseAll_kept hu
  refine ⟨t, ht, hu.trans (congrArg some (eq_of_views hviews.symm fun a ha => ?_).symm)⟩
  rw [hext] at ha
  rw [hkept a ha, hkept' a ha]

end

def eightFrames (base info : Word) : PoolObject := ⟨⟨info * pageSize, base, 8, info, 1⟩, 0⟩

def headsMemory : Memory := fun _ => 0xAA#8

theorem disjoint_eightFrames (info info' : Word) :
    DisjointPools (views (headsMemory, [eightFrames 512 info, eightFrames 1024 info'])) := by
  have hmanages : ∀ (base info f : Word), base.toNat ≤ 1024 →
      ((eightFrames base info).view headsMemory).Manages f →
      base.toNat ≤ f.toNat ∧ f.toNat < base.toNat + 8 := by
    intro base info f hbase hf
    exact (manages_iff (Nat.lt_of_le_of_lt (Nat.add_le_add_right hbase 8) (by decide)) f).mp hf
  have hcase : ∀ (i : Nat) (r : ContFramePool) (f : Word),
      (views (headsMemory, [eightFrames 512 info, eightFrames 1024 info']))[i]? = some r →
      r.Manages f → i = 0 ∧ f.toNat < 520 ∨ i = 1 ∧ 1024 ≤ f.toNat := by
    intro i r f hi hr
    rcases i with - | - | i
    · cases hi
      exact .inl ⟨rfl, (hmanages 512 info f (by decide) hr).2⟩
    · cases hi
      exact .inr ⟨rfl, (hmanages 1024 info' f (by decide) hr).1⟩
    · cases hi
  intro j k q p f hj hk hq hp
  rcases hcase j q f hj hq with ⟨rfl, hj⟩ | ⟨rfl, hj⟩ <;>
    rcases hcase k p f hk hp with ⟨rfl, hk⟩ | ⟨rfl, hk⟩ <;> first | rfl | omega

theorem releases_commute_eightFrames : ∃ t,
    releaseAll (headsMemory, [eightFrames 512 100, eightFrames 1024 101]) [512, 1024, 513] =
        some t ∧
      releaseAll (headsMemory, [eightFrames 512 100, eightFrames 1024 101]) [513, 512, 1024] =
        some t := by
  refine releases_commute _ _ (by
      rw [List.map_cons, List.map_cons, List.map_nil, List.pairwise_pair]
      intro a ha ha'
      rw [Extent.bitmapAt_iff, BitVec.toNat_sub] at ha ha'
      change 4 * ((2 ^ 32 - 409600 + a.toNat) % 2 ^ 32) < 8 at ha
      change 4 * ((2 ^ 32 - 413696 + a.toNat) % 2 ^ 32) < 8 at ha'
      omega)
    (disjoint_eightFrames 100 101) (by decide) (fun f hf => ?_) (by decide)
  have hcases : f = 512 ∨ f = 1024 ∨ f = 513 := by simpa using hf
  rcases hcases with rfl | rfl | rfl
  · exact ⟨0, _, rfl, by decide, by decide⟩
  · exact ⟨1, _, rfl, by decide, by decide⟩
  · exact ⟨0, _, rfl, by decide, by decide⟩

/-- Two pools with the same info frame: the release of the one frees the head of the other. -/
theorem shared_head_not_released :
    DisjointPools (views (headsMemory, [eightFrames 512 100, eightFrames 1024 100])) ∧
      (∀ f ∈ [512, 1024],
        IsHead (views (headsMemory, [eightFrames 512 100, eightFrames 1024 100])) f) ∧
      (releaseAll (headsMemory, [eightFrames 512 100, eightFrames 1024 100]) [512]).isSome ∧
      releaseAll (headsMemory, [eightFrames 512 100, eightFrames 1024 100]) [512, 1024] = none := by
  refine ⟨disjoint_eightFrames 100 100, fun f hf => ?_, by decide +kernel, ?_⟩
  · have hcases : f = 512 ∨ f = 1024 := by simpa using hf
    rcases hcases with rfl | rfl
    · exact ⟨0, _, rfl, by decide, by decide⟩
    · exact ⟨1, _, rfl, by decide, by decide⟩
  · rw [← Option.isNone_iff_eq_none]
    decide +kernel

end TeachingKernel.FramePool
