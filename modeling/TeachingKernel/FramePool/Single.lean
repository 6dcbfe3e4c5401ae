import TeachingKernel.FramePool.Ops

/-!
# Single frames

What `get_frames(1)` and the release of such a frame do to the codes of a pool,
for callers that take frames one at a time. The search of `get_frames` cannot go
wrong here, since one frame is always a run of frames.
-/

namespace TeachingKernel.FramePool.ContFramePool

open PackedPairs

section

variable {p p' : ContFramePool} {f : Word} {g i : Nat}

/-- Frame number `g` lies in the pool, and the pool codes it so. -/
def Codes (p : ContFramePool) (g : Nat) (c : FrameCode) : Prop :=
  p.baseFrameNo.toNat ≤ g ∧ g < p.baseFrameNo.toNat + p.nframes.toNat ∧
    code p.bitmap (g - p.baseFrameNo.toNat) = c

theorem Codes.unique {c c' : FrameCode} (h : p.Codes g c) (h' : p.Codes g c') : c = c' :=
  h.2.2.symm.trans h'.2.2

/-- `p'` is `p` with frame number `f` coded `c`. -/
structure Recodes (p p' : ContFramePool) (f : Nat) (c : FrameCode) : Prop where
  extent_eq : p'.extent = p.extent
  codes : ∀ j, code p'.bitmap j = if j = f - p.baseFrameNo.toNat then c else code p.bitmap j

theorem Recodes.codes_iff {c c' : FrameCode} {f : Nat} (h : Recodes p p' f c)
    (hf : p.baseFrameNo.toNat ≤ f) (hne : g ≠ f) : p'.Codes g c' ↔ p.Codes g c' := by
  rw [Codes, Codes, base_of_extent h.extent_eq, nframes_of_extent h.extent_eq, h.codes]
  constructor
  · rintro ⟨hlo, hhi, hcode⟩
    rw [if_neg (by omega)] at hcode
    exact ⟨hlo, hhi, hcode⟩
  · rintro ⟨hlo, hhi, hcode⟩
    rw [if_neg (by omega)]
    exact ⟨hlo, hhi, hcode⟩

theorem Recodes.codes_self {c c' : FrameCode} {f : Nat} (h : Recodes p p' f c)
    (hf : p.Codes f c') : p'.Codes f c := by
  rw [Codes, base_of_extent h.extent_eq, nframes_of_extent h.extent_eq, h.codes, if_pos rfl]
  exact ⟨hf.1, hf.2.1, rfl⟩

theorem getFrames_one (hrange : p.baseFrameNo.toNat + p.nframes.toNat < 2 ^ 32)
    (h : p.getFrames 1 = some (f, p')) :
    p.Codes f.toNat .free ∧ Recodes p p' f.toNat .head := by
  obtain ⟨e, hdone, hf, hext, -, -, hcodes⟩ := getFrames_spec (by decide) h
  have hlt := hdone.lt
  have hone : (1 : Word).toNat = 1 := rfl
  have hnum : f.toNat = p.baseFrameNo.toNat + e := by
    rw [hf, hone, Nat.add_sub_cancel, frameNo, toNat_add_of_lt, toNat_ofNat_of_lt (by omega)]
    rw [toNat_ofNat_of_lt (by omega)]
    omega
  have hidx : f.toNat - p.baseFrameNo.toNat = e := by omega
  refine ⟨⟨by omega, by omega, ?_⟩, hext, fun j => ?_⟩
  · rw [hidx]
    exact hdone.free
  · rw [hcodes, hidx, hone, Nat.add_sub_cancel]
    by_cases hj : j = e
    · rw [if_pos hj, if_pos hj]
    · rw [if_neg hj, if_neg hj, if_neg (by omega)]

/-- No frame behind `g` belongs to the same sequence. -/
def Alone (p : ContFramePool) (g : Nat) : Prop := ¬ p.Codes (g + 1) .rest

theorem releaseFrame_one (hrange : p.baseFrameNo.toNat + p.nframes.toNat < 2 ^ 32)
    (hhead : p.Codes f.toNat .head) (halone : p.Alone f.toNat) :
    ∃ p', p.releaseFrame f = some p' ∧ Recodes p p' f.toNat .free := by
  obtain ⟨hlo, hhi, hcode⟩ := hhead
  have hsub : (f - p.baseFrameNo).toNat = f.toNat - p.baseFrameNo.toNat := toNat_sub_of_le hlo
  have hmanages : p.Manages f := (manages_iff hrange f).mpr ⟨hlo, hhi⟩
  obtain ⟨p', hp', hext, -, hcodes⟩ := releaseFrame_eq hmanages (by rwa [hsub])
  have hnone : p.restAfter (f - p.baseFrameNo).toNat = 0 := by
    rw [hsub]
    refine restRun_eq _ (by omega) (by omega) (fun j _ _ => by omega) (fun hlt hrest => ?_)
    refine halone ⟨by omega, by omega, ?_⟩
    rwa [show f.toNat + 1 - p.baseFrameNo.toNat = f.toNat - p.baseFrameNo.toNat + 1 by omega]
  refine ⟨p', hp', hext, fun j => ?_⟩
  rw [hcodes, hnone, hsub]
  by_cases hj : j = f.toNat - p.baseFrameNo.toNat
  · rw [if_pos (by omega), if_pos hj]
  · rw [if_neg (by omega), if_neg hj]

def Separated (p : ContFramePool) : Prop :=
  ∀ g, p.Codes g .free ∨ p.Codes g .inaccessible → p.Alone g

/-- A single frame handed out and not released. -/
structure Granted (p : ContFramePool) (g : Nat) : Prop where
  head : p.Codes g .head
  alone : p.Alone g

theorem Recodes.alone {c : FrameCode} {f : Nat} (h : Recodes p p' f c) (hc : c ≠ .rest)
    (hf : p.Codes f .free ∨ p.Codes f .head) (hg : p.Alone g) : p'.Alone g := by
  have hlo : p.baseFrameNo.toNat ≤ f := hf.elim And.left And.left
  intro hrest
  by_cases hgf : g + 1 = f
  · subst hgf
    have hself : p'.Codes (g + 1) c := hf.elim h.codes_self h.codes_self
    exact hc (hself.unique hrest)
  · exact hg ((h.codes_iff hlo hgf).mp hrest)

theorem Separated.recodes {c : FrameCode} {f : Nat} (h : p.Separated) (hr : Recodes p p' f c)
    (hc : c ≠ .rest) (hf : p.Codes f .free ∨ p.Codes f .head) (halone : p.Alone f) :
    p'.Separated := by
  have hlo : p.baseFrameNo.toNat ≤ f := hf.elim And.left And.left
  intro g hg
  refine hr.alone hc hf ?_
  by_cases hgf : g = f
  · exact hgf ▸ halone
  · exact h g (hg.imp (hr.codes_iff hlo hgf).mp (hr.codes_iff hlo hgf).mp)

structure Grants (p p' : ContFramePool) (f : Nat) : Prop where
  extent_eq : p'.extent = p.extent
  fresh : ¬ p.Granted f
  granted : p'.Granted f
  kept : ∀ g, p.Granted g → p'.Granted g
  separated : p'.Separated
  inaccessible : ∀ g, p.Codes g .inaccessible → p'.Codes g .inaccessible

structure TakesBack (p p' : ContFramePool) (f : Nat) : Prop where
  extent_eq : p'.extent = p.extent
  kept : ∀ g, g ≠ f → p.Granted g → p'.Granted g
  separated : p'.Separated
  inaccessible : ∀ g, p.Codes g .inaccessible → p'.Codes g .inaccessible

theorem Separated.getFrames_one (hs : p.Separated)
    (hrange : p.baseFrameNo.toNat + p.nframes.toNat < 2 ^ 32) (h : p.getFrames 1 = some (f, p')) :
    Grants p p' f.toNat := by
  obtain ⟨hfree, hr⟩ := ContFramePool.getFrames_one hrange h
  have halone := hs _ (.inl hfree)
  have hkeep : ∀ g, p.Codes g .inaccessible → g ≠ f.toNat := by
    rintro _ hg rfl
    cases hg.unique hfree
  refine ⟨hr.extent_eq, fun hg => (by cases hg.head.unique hfree),
    ⟨hr.codes_self hfree, hr.alone (by decide) (.inl hfree) halone⟩, fun g hg => ?_,
    hs.recodes hr (by decide) (.inl hfree) halone,
    fun g hg => (hr.codes_iff hfree.1 (hkeep g hg)).mpr hg⟩
  have hne : g ≠ f.toNat := by
    rintro rfl
    cases hg.head.unique hfree
  exact ⟨(hr.codes_iff hfree.1 hne).mpr hg.head, hr.alone (by decide) (.inl hfree) hg.alone⟩

theorem Separated.releaseFrame_one (hs : p.Separated)
    (hrange : p.baseFrameNo.toNat + p.nframes.toNat < 2 ^ 32) (hf : p.Granted f.toNat) :
    ∃ p', p.releaseFrame f = some p' ∧ TakesBack p p' f.toNat ∧ p'.Codes f.toNat .free := by
  obtain ⟨p', hp', hr⟩ := ContFramePool.releaseFrame_one hrange hf.head hf.alone
  have hkeep : ∀ g, p.Codes g .inaccessible → g ≠ f.toNat := by
    rintro _ hg rfl
    cases hg.unique hf.head
  refine ⟨p', hp', ⟨hr.extent_eq, fun g hne hg => ?_,
    hs.recodes hr (by decide) (.inr hf.head) hf.alone,
    fun g hg => (hr.codes_iff hf.head.1 (hkeep g hg)).mpr hg⟩, hr.codes_self hf.head⟩
  exact ⟨(hr.codes_iff hf.head.1 hne).mpr hg.head, hr.alone (by decide) (.inr hf.head) hg.alone⟩

end

end TeachingKernel.FramePool.ContFramePool
