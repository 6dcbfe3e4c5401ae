import Mathlib.Order.Interval.Finset.Nat
import TeachingKernel.FramePool.Codes

/-!
# What the search loop of `get_frames` finds

The loop counts free frames and starts over only at an all-zero byte, so its
count at frame `i` is the number of free frames in the stretch of non-zero bytes
that ends there. The window it answers is free exactly when the frames it
counted lie next to each other.
-/

namespace TeachingKernel.FramePool

open PackedPairs ContFramePool

/-- The free frames before frame `i` that no all-zero byte separates from it. -/
def stretch (bm : Bytes) (i : Nat) : Finset Nat :=
  (Finset.range i).filter fun k =>
    code bm k = .free ∧ ∀ c < i, k / 4 ≤ c → 4 * c < i → bm c ≠ 0#8

theorem mem_stretch {bm : Bytes} {i k : Nat} :
    k ∈ stretch bm i ↔
      k < i ∧ code bm k = .free ∧ ∀ c, k / 4 ≤ c → 4 * c < i → bm c ≠ 0#8 := by
  simp only [stretch, Finset.mem_filter, Finset.mem_range]
  constructor
  · rintro ⟨hk, hfree, hbytes⟩
    exact ⟨hk, hfree, fun c hkc hci => hbytes c (by omega) hkc hci⟩
  · rintro ⟨hk, hfree, hbytes⟩
    exact ⟨hk, hfree, fun c _ hkc hci => hbytes c hkc hci⟩

theorem stretch_skip {bm : Bytes} {i : Nat} (halign : i % 4 = 0) (hzero : bm (i / 4) = 0#8) :
    stretch bm (i + 3 + 1) = ∅ := by
  apply Finset.eq_empty_of_forall_notMem
  intro k hk
  obtain ⟨hlt, hfree, hbytes⟩ := mem_stretch.mp hk
  by_cases hki : k < i
  · exact hbytes (i / 4) (by omega) (by omega) hzero
  · have hrest := byte_eq_zero_iff_codes.mp hzero k (by omega)
    rw [hrest] at hfree
    cases hfree

theorem mem_stretch_succ {bm : Bytes} {i k : Nat} (hbyte : bm (i / 4) ≠ 0#8) (hk : k < i) :
    k ∈ stretch bm (i + 1) ↔ k ∈ stretch bm i := by
  rw [mem_stretch, mem_stretch]
  constructor
  · rintro ⟨_, hfree, hbytes⟩
    exact ⟨hk, hfree, fun c hkc hci => hbytes c hkc (by omega)⟩
  · rintro ⟨_, hfree, hbytes⟩
    refine ⟨by omega, hfree, fun c hkc hci => ?_⟩
    by_cases hc : 4 * c < i
    · exact hbytes c hkc hc
    · rwa [show c = i / 4 by omega]

theorem self_mem_stretch {bm : Bytes} {i : Nat} (hfree : code bm i = .free) :
    i ∈ stretch bm (i + 1) := by
  have hbyte : bm (i / 4) ≠ 0#8 := not_zero_of_code (by rw [hfree]; decide)
  refine mem_stretch.mpr ⟨by omega, hfree, fun c hic hci => ?_⟩
  rwa [show c = i / 4 by omega]

theorem stretch_free {bm : Bytes} {i : Nat} (hfree : code bm i = .free) :
    stretch bm (i + 1) = insert i (stretch bm i) := by
  have hbyte : bm (i / 4) ≠ 0#8 := not_zero_of_code (by rw [hfree]; decide)
  ext k
  rw [Finset.mem_insert]
  by_cases hk : k < i
  · rw [mem_stretch_succ hbyte hk]
    exact ⟨Or.inr, fun h => h.resolve_left (by omega)⟩
  · by_cases hki : k = i
    · subst hki
      exact ⟨fun _ => .inl rfl, fun _ => self_mem_stretch hfree⟩
    · have hnot : ∀ i', i' ≤ i + 1 → k ∉ stretch bm i' := fun i' hi' hmem => by
        have := (mem_stretch.mp hmem).1
        omega
      simp only [hki, hnot i (by omega), hnot (i + 1) (by omega), or_self]

theorem stretch_used {bm : Bytes} {i : Nat} (hbyte : bm (i / 4) ≠ 0#8)
    (hused : code bm i ≠ .free) : stretch bm (i + 1) = stretch bm i := by
  ext k
  by_cases hk : k < i
  · exact mem_stretch_succ hbyte hk
  · constructor
    · intro hmem
      obtain ⟨hlt, hfree, _⟩ := mem_stretch.mp hmem
      rw [show k = i by omega] at hfree
      exact absurd hfree hused
    · intro hmem
      exact absurd (mem_stretch.mp hmem).1 hk

theorem card_stretch_free {bm : Bytes} {i : Nat} (hfree : code bm i = .free) :
    (stretch bm (i + 1)).card = (stretch bm i).card + 1 := by
  rw [stretch_free hfree, Finset.card_insert_of_notMem]
  intro hmem
  exact absurd (mem_stretch.mp hmem).1 (Nat.lt_irrefl i)

theorem card_stretch_le (bm : Bytes) (i : Nat) : (stretch bm i).card ≤ i := by
  have h := Finset.card_le_card (Finset.filter_subset (s := Finset.range i) fun k =>
    code bm k = .free ∧ ∀ c < i, k / 4 ≤ c → 4 * c < i → bm c ≠ 0#8)
  rwa [Finset.card_range] at h

/-! ## The loop -/

/-- Frame `e` is the first one that completes `n` free frames of one stretch. -/
structure Completes (bm : Bytes) (nframes n e : Nat) : Prop where
  lt : e < nframes
  free : code bm e = .free
  card : (stretch bm (e + 1)).card = n
  least : ∀ j < e, code bm j = .free → (stretch bm (j + 1)).card ≠ n

theorem search_spec {bm : Bytes} {nframes n : Nat} (fuel i count : Nat)
    (hcount : count = (stretch bm i).card) (halign : i % 4 ≠ 0 → bm (i / 4) ≠ 0#8)
    (hbefore : ∀ j < i, code bm j = .free → (stretch bm (j + 1)).card ≠ n)
    (hfuel : nframes ≤ i + fuel) :
    (∀ e, search bm nframes n fuel i count = some e → Completes bm nframes n e) ∧
      (search bm nframes n fuel i count = none → ∀ e, ¬ Completes bm nframes n e) := by
  induction fuel generalizing i count with
  | zero =>
      refine ⟨fun e h => by simp [search] at h, fun _ e he => ?_⟩
      exact hbefore e (by have := he.lt; omega) he.free he.card
  | succ fuel ih =>
      unfold search
      by_cases hi : i < nframes
      · rw [if_pos hi]
        by_cases hz : bm (i / 4) = 0#8
        · -- the zero byte starts at `i`, and none of its frames is free
          have h4 : i % 4 = 0 := by
            by_contra h
            exact halign h hz
          rw [if_pos hz]
          refine ih (i + 3 + 1) 0 (by rw [stretch_skip h4 hz]; rfl) (by omega) ?_ (by omega)
          intro j hj hfree
          by_cases hji : j < i
          · exact hbefore j hji hfree
          · rw [byte_eq_zero_iff_codes.mp hz j (by omega)] at hfree
            cases hfree
        · rw [if_neg hz]
          have halign' : (i + 1) % 4 ≠ 0 → bm ((i + 1) / 4) ≠ 0#8 := fun h => by
            rwa [show (i + 1) / 4 = i / 4 by omega]
          by_cases hfree : code bm i = .free
          · rw [if_pos (code_eq_free_iff.mp hfree)]
            have hcard := card_stretch_free hfree
            by_cases hn : count + 1 = n
            · rw [if_pos hn]
              refine ⟨fun e he => ?_, fun h => by simp at h⟩
              cases he
              exact ⟨hi, hfree, by omega, hbefore⟩
            · rw [if_neg hn]
              refine ih (i + 1) (count + 1) (by omega) halign' ?_ (by omega)
              exact Nat.forall_lt_succ_right.mpr ⟨hbefore, fun _ => by omega⟩
          · rw [if_neg (fun h => hfree (code_eq_free_iff.mpr h))]
            refine ih (i + 1) count (by rw [stretch_used hz hfree, hcount]) halign' ?_ (by omega)
            exact Nat.forall_lt_succ_right.mpr ⟨hbefore, fun hi' => absurd hi' hfree⟩
      · rw [if_neg hi]
        refine ⟨fun e h => by simp at h, fun _ e he => ?_⟩
        exact hbefore e (by have := he.lt; omega) he.free he.card

theorem search_some {bm : Bytes} {nframes n e : Nat}
    (h : search bm nframes n nframes 0 0 = some e) : Completes bm nframes n e :=
  (search_spec nframes 0 0 rfl (by simp) (by simp) (by omega)).1 e h

theorem search_none {bm : Bytes} {nframes n : Nat}
    (h : search bm nframes n nframes 0 0 = none) (e : Nat) : ¬ Completes bm nframes n e :=
  (search_spec nframes 0 0 rfl (by simp) (by simp) (by omega)).2 h e

theorem Completes.unique {bm : Bytes} {nframes n e e' : Nat} (h : Completes bm nframes n e)
    (h' : Completes bm nframes n e') : e = e' := by
  rcases Nat.lt_trichotomy e e' with hlt | heq | hgt
  · exact absurd h.card (h'.least e hlt h.free)
  · exact heq
  · exact absurd h'.card (h.least e' hgt h'.free)

/-! ## When the window is free -/

/-- The first `n` free frames of one stretch of non-zero bytes lie next to each other. -/
def Contiguous (bm : Bytes) (nframes n : Nat) : Prop :=
  ∀ e, Completes bm nframes n e → ∀ k ∈ stretch bm (e + 1), e < k + n

theorem Completes.size_le {bm : Bytes} {nframes n e : Nat} (h : Completes bm nframes n e) :
    n ≤ e + 1 := h.card ▸ card_stretch_le bm (e + 1)

theorem Completes.size_pos {bm : Bytes} {nframes n e : Nat} (h : Completes bm nframes n e) :
    0 < n := h.card ▸ Finset.card_pos.mpr ⟨e, self_mem_stretch h.free⟩

theorem mem_stretch_of_free_window {bm : Bytes} {lo e k : Nat}
    (hfree : ∀ k, lo ≤ k → k ≤ e → code bm k = .free) (hlo : lo ≤ k) (hk : k ≤ e) :
    k ∈ stretch bm (e + 1) := by
  refine mem_stretch.mpr ⟨by omega, hfree k hlo hk, fun c hkc hce => ?_⟩
  -- byte `c` holds frame `k` or starts with a later frame of the window
  by_cases hc : c = k / 4
  · rw [hc]
    exact not_zero_of_code (by rw [hfree k hlo hk]; decide)
  · have hbyte : bm (4 * c / 4) ≠ 0#8 :=
      not_zero_of_code (by rw [hfree (4 * c) (by omega) (by omega)]; decide)
    rwa [show 4 * c / 4 = c by omega] at hbyte

theorem window_free_iff {bm : Bytes} {nframes n e : Nat} (h : Completes bm nframes n e) :
    (∀ k, e + 1 - n ≤ k → k ≤ e → code bm k = .free) ↔
      ∀ k ∈ stretch bm (e + 1), e < k + n := by
  have hsize := h.size_le
  have hcard : (Finset.Icc (e + 1 - n) e).card = n := by
    rw [Nat.card_Icc]
    omega
  constructor
  · intro hfree k hk
    have hsub : Finset.Icc (e + 1 - n) e ⊆ stretch bm (e + 1) := fun k hk => by
      rw [Finset.mem_Icc] at hk
      exact mem_stretch_of_free_window hfree hk.1 hk.2
    have heq := Finset.eq_of_subset_of_card_le hsub (by rw [h.card, hcard])
    rw [← heq, Finset.mem_Icc] at hk
    omega
  · intro hnear k hlo hk
    have hsub : stretch bm (e + 1) ⊆ Finset.Icc (e + 1 - n) e := fun k hk => by
      have := hnear k hk
      have := (mem_stretch.mp hk).1
      rw [Finset.mem_Icc]
      omega
    have heq := Finset.eq_of_subset_of_card_le hsub (by rw [h.card, hcard])
    have hmem : k ∈ stretch bm (e + 1) := by
      rw [heq, Finset.mem_Icc]
      exact ⟨hlo, hk⟩
    exact (mem_stretch.mp hmem).2.1

end TeachingKernel.FramePool
