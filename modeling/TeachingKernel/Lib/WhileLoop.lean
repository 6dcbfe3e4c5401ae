import Mathlib.Logic.Basic

/-!
# Conditional loops

`while (c(s)) s = body(s)`, given up after a number of tests. A loop that runs down
a measure ends, and then every sufficient number of tests gives the same result.
-/

namespace TeachingKernel.WhileLoop

variable {σ : Type} {c : σ → Bool} {body : σ → σ}

/-- `while (c(s)) s = body(s)` with at most so many tests of the condition. -/
def whileLoop (c : σ → Bool) (body : σ → σ) : Nat → σ → Option σ
  | 0, _ => none
  | fuel + 1, s => if c s then whileLoop c body fuel (body s) else some s

theorem whileLoop_stop {s : σ} (fuel : Nat) (h : c s = false) :
    whileLoop c body (fuel + 1) s = some s := by
  simp [whileLoop, h]

theorem whileLoop_next {s : σ} (fuel : Nat) (h : c s = true) :
    whileLoop c body (fuel + 1) s = whileLoop c body fuel (body s) := by
  simp [whileLoop, h]

theorem whileLoop_mono {fuel fuel' : Nat} {s t : σ} (hle : fuel ≤ fuel')
    (h : whileLoop c body fuel s = some t) : whileLoop c body fuel' s = some t := by
  induction fuel generalizing fuel' s with
  | zero => cases h
  | succ fuel ih =>
      rw [← Nat.sub_add_cancel (show 1 ≤ fuel' by omega)]
      cases hc : c s with
      | false =>
          rw [whileLoop_stop _ hc] at h ⊢
          exact h
      | true =>
          rw [whileLoop_next _ hc] at h ⊢
          exact ih (by omega) h

/-- Total correctness: what each iteration keeps while it lowers the measure holds at
the end, which is reached with any fuel above the measure. -/
theorem whileLoop_completes (c : σ → Bool) (body : σ → σ) (P : σ → Prop) (μ : σ → Nat)
    (hstep : ∀ s, P s → c s = true → P (body s) ∧ μ (body s) < μ s) {s : σ} (hs : P s) :
    ∃ t, P t ∧ c t = false ∧ ∀ fuel, μ s < fuel → whileLoop c body fuel s = some t := by
  induction hm : μ s using Nat.strongRecOn generalizing s with
  | ind m ih =>
      cases hc : c s with
      | false =>
          refine ⟨s, hs, hc, fun fuel hfuel => ?_⟩
          rw [← Nat.sub_add_cancel (show 1 ≤ fuel by omega), whileLoop_stop _ hc]
      | true =>
          obtain ⟨hbody, hlt⟩ := hstep s hs hc
          obtain ⟨t, ht, hend, hrun⟩ := ih (μ (body s)) (by omega) hbody rfl
          refine ⟨t, ht, hend, fun fuel hfuel => ?_⟩
          rw [← Nat.sub_add_cancel (show 1 ≤ fuel by omega), whileLoop_next _ hc]
          exact hrun _ (by omega)

end TeachingKernel.WhileLoop
