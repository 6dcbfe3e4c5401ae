import Mathlib.Data.Finset.Card
import TeachingKernel.FramePool.Model

/-!
# Frame codes under the bitmap updates

Each masked update of the model is described by the code of every frame after
it, and so are the filling, marking and freeing loops. Nothing above this module
looks at bits.
-/

namespace TeachingKernel.FramePool

open ForLoop PackedPairs ContFramePool

theorem code_eq_free_iff {bm : Bytes} {i : Nat} :
    code bm i = .free ↔ (first bm i && second bm i) = true := by
  unfold code
  cases first bm i <;> cases second bm i <;> simp

theorem code_eq_head_iff {bm : Bytes} {i : Nat} :
    code bm i = .head ↔ (first bm i && !second bm i) = true := by
  unfold code
  cases first bm i <;> cases second bm i <;> simp

theorem code_eq_rest_iff {bm : Bytes} {i : Nat} :
    code bm i = .rest ↔ (first bm i || second bm i) = false := by
  unfold code
  cases first bm i <;> cases second bm i <;> simp

theorem byte_eq_zero_iff_codes {bm : Bytes} {c : Nat} :
    bm c = 0#8 ↔ ∀ i, i / 4 = c → code bm i = .rest := by
  rw [byte_eq_zero_iff]
  simp only [code_eq_rest_iff, Bool.or_eq_false_iff]

theorem not_zero_of_code {bm : Bytes} {i : Nat} (h : code bm i ≠ .rest) : bm (i / 4) ≠ 0#8 :=
  fun hz => h (byte_eq_zero_iff_codes.mp hz i rfl)

/-- The codes of the four frames of a byte determine it. -/
theorem byte_ext {bm bm' : Bytes} {c : Nat} (h : ∀ i, i / 4 = c → code bm i = code bm' i) :
    bm c = bm' c := by
  rw [byte_eq_iff]
  intro i hi
  have hcode := h i hi
  unfold code at hcode
  cases hf : first bm i <;> cases hs : second bm i <;> cases hf' : first bm' i <;>
    cases hs' : second bm' i <;> simp_all

theorem bitmap_ext {bm bm' : Bytes} (h : ∀ i, code bm i = code bm' i) : bm = bm' :=
  funext fun _ => byte_ext fun i _ => h i

@[simp] theorem code_setInaccessible (bm : Bytes) (i j : Nat) :
    code (setInaccessible bm i) j = if j = i then .inaccessible else code bm j := by
  unfold code setInaccessible
  by_cases h : j = i
  · simp [h]
  · simp [h]

@[simp] theorem code_setHead (bm : Bytes) (i j : Nat) :
    code (clearBits (setBits bm i (firstMask i)) i (secondMask i)) j =
      if j = i then .head else code bm j := by
  unfold code
  by_cases h : j = i
  · simp [h]
  · simp [h]

@[simp] theorem code_setRest (bm : Bytes) (i j : Nat) :
    code (clearBits bm i (bothMask i)) j = if j = i then .rest else code bm j := by
  unfold code
  by_cases h : j = i
  · simp [h]
  · simp [h]

@[simp] theorem code_setFree (bm : Bytes) (i j : Nat) :
    code (setBits bm i (bothMask i)) j = if j = i then .free else code bm j := by
  unfold code
  by_cases h : j = i
  · simp [h]
  · simp [h]

/-! ## Loops of the constructor -/

theorem fillFree_byte (nframes : Nat) (bm : Bytes) {c : Nat} (hc : c < (nframes + 3) / 4) :
    fillFree nframes bm c = 0xFF#8 := by
  have h : ∀ c, c < (nframes + 3) / 4 → fillFree nframes bm c = 0xFF#8 := by
    refine forRange_invariant (P := fun i (bm : Bytes) => ∀ c, c < i → bm c = 0xFF#8)
      (Nat.zero_le _) (fun c hc => absurd hc (Nat.not_lt_zero c)) ?_
    intro i bm _ _ hP c hc
    by_cases hci : c = i
    · rw [hci, Function.update_self]
    · rw [Function.update_of_ne hci]
      exact hP c (by omega)
  exact h c hc

theorem code_fillFree {nframes i : Nat} (bm : Bytes) (hi : i < nframes) :
    code (fillFree nframes bm) i = .free := by
  have hones := bits_of_ones (fillFree_byte nframes bm (c := i / 4) (by omega))
  rw [code_eq_free_iff, hones.1, hones.2]
  rfl

theorem code_setInaccessible_range (bm : Bytes) {lo hi : Nat} (h : lo ≤ hi) (j : Nat) :
    code (forRange lo hi (fun i bm => setInaccessible bm i) bm) j =
      if lo ≤ j ∧ j < hi then .inaccessible else code bm j := by
  refine forRange_invariant
    (P := fun k b => code b j = if lo ≤ j ∧ j < k then .inaccessible else code bm j) h ?_ ?_
  · rw [if_neg (by omega)]
  · intro k b hk _ hP
    rw [code_setInaccessible, hP]
    by_cases hj : j = k
    · rw [if_pos hj, if_pos (by omega)]
    · rw [if_neg hj]
      by_cases hin : lo ≤ j ∧ j < k
      · rw [if_pos hin, if_pos (by omega)]
      · rw [if_neg hin, if_neg (by omega)]

/-! ## Marking an allocated sequence -/

theorem code_setRest_range (bm : Bytes) {lo hi : Nat} (h : lo ≤ hi) (j : Nat) :
    code (forRange lo hi (fun i bm => clearBits bm i (bothMask i)) bm) j =
      if lo ≤ j ∧ j < hi then .rest else code bm j := by
  refine forRange_invariant
    (P := fun k b => code b j = if lo ≤ j ∧ j < k then .rest else code bm j) h ?_ ?_
  · rw [if_neg (by omega)]
  · intro k b hk _ hP
    rw [code_setRest, hP]
    by_cases hj : j = k
    · rw [if_pos hj, if_pos (by omega)]
    · rw [if_neg hj]
      by_cases hin : lo ≤ j ∧ j < k
      · rw [if_pos hin, if_pos (by omega)]
      · rw [if_neg hin, if_neg (by omega)]

theorem code_markAllocated (bm : Bytes) {start n : Word} (hn : 0 < n.toNat)
    (hsum : start.toNat + n.toNat < 2 ^ 32) (j : Nat) :
    code (markAllocated bm start n) j =
      if j = start.toNat then .head
      else if start.toNat < j ∧ j < start.toNat + n.toNat then .rest else code bm j := by
  have h1 : (start + 1).toNat = start.toNat + 1 := toNat_add_one (by omega)
  have hend : (start + n).toNat = start.toNat + n.toNat := toNat_add_of_lt hsum
  rw [markAllocated, h1, hend, code_setRest_range _ (by omega), code_setHead]
  by_cases hj : j = start.toNat
  · rw [if_neg (by omega), if_pos hj, if_pos hj]
  · rw [if_neg hj, if_neg hj]
    by_cases hin : start.toNat < j ∧ j < start.toNat + n.toNat
    · rw [if_pos (by omega), if_pos hin]
    · rw [if_neg (by omega), if_neg hin]

/-! ## The freeing loop -/

/-- The number of frames coded 00 from frame `i` on, up to the end of the pool. -/
def restRun (bm : Bytes) (nframes : Nat) : Nat → Nat → Nat
  | 0, _ => 0
  | fuel + 1, i =>
      if i < nframes ∧ code bm i = .rest then restRun bm nframes fuel (i + 1) + 1 else 0

theorem restRun_congr {bm bm' : Bytes} (nframes fuel i : Nat)
    (h : ∀ j, i ≤ j → code bm j = code bm' j) :
    restRun bm nframes fuel i = restRun bm' nframes fuel i := by
  induction fuel generalizing i with
  | zero => rfl
  | succ fuel ih =>
      rw [restRun, restRun, h i (Nat.le_refl _), ih (i + 1) (fun j hj => h j (by omega))]

theorem rest_of_lt_restRun {bm : Bytes} {nframes fuel i j : Nat} (hlo : i ≤ j)
    (hj : j < i + restRun bm nframes fuel i) : code bm j = .rest := by
  induction fuel generalizing i with
  | zero =>
      rw [restRun] at hj
      omega
  | succ fuel ih =>
      rw [restRun] at hj
      by_cases hgo : i < nframes ∧ code bm i = .rest
      · rw [if_pos hgo] at hj
        by_cases hji : j = i
        · exact hji ▸ hgo.2
        · exact ih (i := i + 1) (by omega) (by omega)
      · rw [if_neg hgo] at hj
        omega

theorem restRun_le {bm : Bytes} {nframes fuel i : Nat} (hi : i ≤ nframes) :
    i + restRun bm nframes fuel i ≤ nframes := by
  induction fuel generalizing i with
  | zero => exact hi
  | succ fuel ih =>
      rw [restRun]
      by_cases hgo : i < nframes ∧ code bm i = .rest
      · rw [if_pos hgo, ← Nat.add_assoc, Nat.add_right_comm]
        exact ih hgo.1
      · rw [if_neg hgo]
        exact hi

theorem not_rest_behind_restRun {bm : Bytes} {nframes fuel i : Nat} (hfuel : nframes ≤ i + fuel)
    (hend : i + restRun bm nframes fuel i < nframes) :
    code bm (i + restRun bm nframes fuel i) ≠ .rest := by
  induction fuel generalizing i with
  | zero => omega
  | succ fuel ih =>
      rw [restRun] at hend ⊢
      by_cases hgo : i < nframes ∧ code bm i = .rest
      · rw [if_pos hgo] at hend ⊢
        rw [← Nat.add_assoc, Nat.add_right_comm] at hend ⊢
        exact ih (by omega) hend
      · rw [if_neg hgo] at hend ⊢
        exact fun hcode => hgo ⟨hend, hcode⟩

theorem freeRest_spec (nframes fuel i : Nat) (bm : Bytes) (free : Word) :
    (freeRest nframes fuel i bm free).2 =
        free + BitVec.ofNat 32 (restRun bm nframes fuel i) ∧
      ∀ j, code (freeRest nframes fuel i bm free).1 j =
        if i ≤ j ∧ j < i + restRun bm nframes fuel i then .free else code bm j := by
  induction fuel generalizing i bm free with
  | zero => exact ⟨by simp [freeRest, restRun], fun j => by rw [restRun, if_neg (by omega)]; rfl⟩
  | succ fuel ih =>
      unfold freeRest restRun
      by_cases hgo : i < nframes ∧ code bm i = .rest
      · have hbits := code_eq_rest_iff.mp hgo.2
        rw [if_pos hgo.1, hbits, if_neg Bool.false_ne_true, if_pos hgo]
        have hrun : restRun (setBits bm i (bothMask i)) nframes fuel (i + 1) =
            restRun bm nframes fuel (i + 1) :=
          restRun_congr nframes fuel (i + 1) (fun j hj => by
            rw [code_setFree, if_neg (by omega)])
        obtain ⟨hcount, hcodes⟩ := ih (i + 1) (setBits bm i (bothMask i)) (free + 1)
        rw [hrun] at hcount hcodes
        refine ⟨?_, ?_⟩
        · rw [hcount, BitVec.add_assoc, BitVec.ofNat_add, BitVec.add_comm 1]
          rfl
        · intro j
          rw [hcodes j, code_setFree]
          by_cases hj : j = i
          · rw [if_neg (by omega), if_pos hj, if_pos (by omega)]
          · rw [if_neg hj]
            by_cases hin : i + 1 ≤ j ∧ j < i + 1 + restRun bm nframes fuel (i + 1)
            · rw [if_pos hin, if_pos (by omega)]
            · rw [if_neg hin, if_neg (by omega)]
      · have hstop : freeRest nframes (fuel + 1) i bm free = (bm, free) := by
          rw [freeRest]
          by_cases hi : i < nframes
          · have hbits : (first bm i || second bm i) = true := by
              by_contra hb
              exact hgo ⟨hi, code_eq_rest_iff.mpr (Bool.eq_false_iff.mpr hb)⟩
            rw [if_pos hi, if_pos hbits]
          · rw [if_neg hi]
        rw [freeRest] at hstop
        rw [hstop, if_neg hgo]
        exact ⟨by simp, fun j => by rw [if_neg (by omega)]⟩

end TeachingKernel.FramePool
