import Mathlib.Logic.Basic

/-!
# Counted loops

`for (i = lo; i < hi; i++)` over an explicit state, in a form that always
completes and in a form whose body may abort. One invariant rule for each.
-/

namespace TeachingKernel.ForLoop

variable {σ : Type} {P : Nat → σ → Prop}

private def forCount (body : Nat → σ → σ) : Nat → Nat → σ → σ
  | 0, _, s => s
  | k + 1, i, s => forCount body k (i + 1) (body i s)

/-- `for (i = lo; i < hi; i++) s = body(i, s)` -/
def forRange (lo hi : Nat) (body : Nat → σ → σ) (s : σ) : σ := forCount body (hi - lo) lo s

private def forCount? (body : Nat → σ → Option σ) : Nat → Nat → σ → Option σ
  | 0, _, s => some s
  | k + 1, i, s => (body i s).bind (forCount? body k (i + 1))

def forRange? (lo hi : Nat) (body : Nat → σ → Option σ) (s : σ) : Option σ :=
  forCount? body (hi - lo) lo s

private theorem forCount_succ (body : Nat → σ → σ) (k lo : Nat) (s : σ) :
    forCount body (k + 1) lo s = body (lo + k) (forCount body k lo s) := by
  induction k generalizing lo s with
  | zero => rfl
  | succ k ih =>
      rw [forCount, ih, forCount, show lo + 1 + k = lo + (k + 1) by omega]

theorem forRange_succ {lo hi : Nat} (h : lo ≤ hi) (body : Nat → σ → σ) (s : σ) :
    forRange lo (hi + 1) body s = body hi (forRange lo hi body s) := by
  rw [forRange, forRange, Nat.succ_sub h, forCount_succ, show lo + (hi - lo) = hi by omega]

private theorem forCount_invariant {body : Nat → σ → σ} (k lo : Nat) (s : σ) (h0 : P lo s)
    (hstep : ∀ i t, lo ≤ i → i < lo + k → P i t → P (i + 1) (body i t)) :
    P (lo + k) (forCount body k lo s) := by
  induction k generalizing lo s with
  | zero => exact h0
  | succ k ih =>
      have hbody := hstep lo s (Nat.le_refl _) (by omega) h0
      have hrest := ih (lo + 1) (body lo s) hbody
        (fun i t hi hk hP => hstep i t (by omega) (by omega) hP)
      rwa [show lo + 1 + k = lo + (k + 1) by omega] at hrest

/-- What holds before the loop and is kept by each iteration holds after it. -/
theorem forRange_invariant {a b : Nat} {f : Nat → σ → σ} {s : σ} (hle : a ≤ b)
    (h0 : P a s) (hstep : ∀ i t, a ≤ i → i < b → P i t → P (i + 1) (f i t)) :
    P b (forRange a b f s) := by
  have h := forCount_invariant (b - a) a s h0
    (fun i t hi hk hP => hstep i t hi (by omega) hP)
  rwa [show a + (b - a) = b by omega] at h

/-- Two loops whose iterations keep a relation between their states. -/
theorem forRange_rel {τ : Type} {R : σ → τ → Prop} {lo hi : Nat} {f : Nat → σ → σ}
    {g : Nat → τ → τ} {s : σ} {t : τ} (h0 : R s t)
    (hstep : ∀ i u v, R u v → R (f i u) (g i v)) : R (forRange lo hi f s) (forRange lo hi g t) := by
  unfold forRange
  generalize hi - lo = k
  induction k generalizing lo s t with
  | zero => exact h0
  | succ k ih => exact ih (hstep lo s t h0)

private theorem forCount?_succ (body : Nat → σ → Option σ) (k lo : Nat) (s : σ) :
    forCount? body (k + 1) lo s = (forCount? body k lo s).bind (body (lo + k)) := by
  induction k generalizing lo s with
  | zero => simp [forCount?]
  | succ k ih =>
      rw [forCount?, forCount?, Option.bind_assoc]
      congr 1
      funext u
      rw [ih, show lo + 1 + k = lo + (k + 1) by omega]

theorem forRange?_succ {lo hi : Nat} (h : lo ≤ hi) (body : Nat → σ → Option σ) (s : σ) :
    forRange? lo (hi + 1) body s = (forRange? lo hi body s).bind (body hi) := by
  rw [forRange?, forRange?, Nat.succ_sub h, forCount?_succ, show lo + (hi - lo) = hi by omega]

theorem forRange?_of_le {lo hi : Nat} (h : hi ≤ lo) (body : Nat → σ → Option σ) (s : σ) :
    forRange? lo hi body s = some s := by
  rw [forRange?, Nat.sub_eq_zero_of_le h, forCount?]

theorem forRange?_first {lo hi : Nat} (h : lo < hi) (body : Nat → σ → Option σ) (s : σ) :
    forRange? lo hi body s = (body lo s).bind (forRange? (lo + 1) hi body) := by
  rw [forRange?, show hi - lo = hi - (lo + 1) + 1 by omega, forCount?]
  rfl

/-- An aborting loop that completes has completed every shorter one. -/
theorem forRange?_shorter {lo j hi : Nat} {body : Nat → σ → Option σ} {s t : σ} (hj : j ≤ hi)
    (h : forRange? lo hi body s = some t) : ∃ u, forRange? lo j body s = some u := by
  induction hi generalizing t with
  | zero => exact ⟨s, forRange?_of_le (by omega) body s⟩
  | succ hi ih =>
      rcases Nat.lt_or_eq_of_le hj with hlt | rfl
      · rcases Nat.lt_or_ge hi lo with hsmall | hle
        · exact ⟨s, forRange?_of_le (by omega) body s⟩
        · rw [forRange?_succ hle] at h
          obtain ⟨u, hu, -⟩ := Option.bind_eq_some_iff.mp h
          exact ih (by omega) hu
      · exact ⟨t, h⟩

/-- An aborting loop does not complete past an iteration that aborts. -/
theorem forRange?_eq_none {lo j hi : Nat} {body : Nat → σ → Option σ} {s u : σ} (hlo : lo ≤ j)
    (hhi : j < hi) (hu : forRange? lo j body s = some u) (hbody : body j u = none) :
    forRange? lo hi body s = none := by
  cases h : forRange? lo hi body s with
  | none => rfl
  | some t =>
      obtain ⟨v, hv⟩ := forRange?_shorter (j := j + 1) hhi h
      rw [forRange?_succ hlo, hu, Option.bind_some, hbody] at hv
      cases hv

/-- A body that never aborts makes the same loop as the function it applies. -/
theorem forRange?_some {lo hi : Nat} (f : Nat → σ → σ) (s : σ) :
    forRange? lo hi (fun i s => some (f i s)) s = some (forRange lo hi f s) := by
  rw [forRange?, forRange]
  generalize hi - lo = k
  induction k generalizing lo s with
  | zero => rfl
  | succ k ih => exact ih (f lo s)

private theorem forCount?_invariant {body : Nat → σ → Option σ} (k lo : Nat) (s t : σ)
    (h0 : P lo s)
    (hstep : ∀ i u v, lo ≤ i → i < lo + k → P i u → body i u = some v → P (i + 1) v)
    (hrun : forCount? body k lo s = some t) : P (lo + k) t := by
  induction k generalizing lo s with
  | zero =>
      cases hrun
      exact h0
  | succ k ih =>
      obtain ⟨u, hu, hrest⟩ := Option.bind_eq_some_iff.mp hrun
      have h := ih (lo + 1) u (hstep lo s u (Nat.le_refl _) (by omega) h0 hu)
        (fun i u v hi hk hP hv => hstep i u v (by omega) (by omega) hP hv) hrest
      rwa [show lo + 1 + k = lo + (k + 1) by omega] at h

/-- A completed aborting loop keeps what each completed iteration keeps. -/
theorem forRange?_invariant {lo hi : Nat} {body : Nat → σ → Option σ} {s t : σ} (hle : lo ≤ hi)
    (h0 : P lo s)
    (hstep : ∀ i u v, lo ≤ i → i < hi → P i u → body i u = some v → P (i + 1) v)
    (hrun : forRange? lo hi body s = some t) : P hi t := by
  have h := forCount?_invariant (hi - lo) lo s t h0
    (fun i u v hi' hk hP hv => hstep i u v hi' (by omega) hP hv) hrun
  rwa [show lo + (hi - lo) = hi by omega] at h

private theorem forCount?_keeps {Q : σ → Prop} {body : Nat → σ → Option σ} (k lo : Nat) (s t : σ)
    (h0 : Q s) (hstep : ∀ i u v, Q u → body i u = some v → Q v)
    (hrun : forCount? body k lo s = some t) : Q t := by
  induction k generalizing lo s with
  | zero =>
      cases hrun
      exact h0
  | succ k ih =>
      obtain ⟨u, hu, hrest⟩ := Option.bind_eq_some_iff.mp hrun
      exact ih (lo + 1) u (hstep lo s u h0 hu) hrest

/-- Where the index does not matter, neither do the bounds of the loop. -/
theorem forRange?_keeps {Q : σ → Prop} {lo hi : Nat} {body : Nat → σ → Option σ} {s t : σ}
    (h0 : Q s) (hstep : ∀ i u v, Q u → body i u = some v → Q v)
    (hrun : forRange? lo hi body s = some t) : Q t :=
  forCount?_keeps (hi - lo) lo s t h0 hstep hrun

private theorem forCount?_completes {body : Nat → σ → Option σ} (k lo : Nat) (s : σ) (h0 : P lo s)
    (hstep : ∀ i u, lo ≤ i → i < lo + k → P i u → ∃ v, body i u = some v ∧ P (i + 1) v) :
    ∃ t, forCount? body k lo s = some t ∧ P (lo + k) t := by
  induction k generalizing lo s with
  | zero => exact ⟨s, rfl, h0⟩
  | succ k ih =>
      obtain ⟨u, hu, hP⟩ := hstep lo s (Nat.le_refl _) (by omega) h0
      obtain ⟨t, ht, hend⟩ := ih (lo + 1) u hP
        (fun i u hi hk hP => hstep i u (by omega) (by omega) hP)
      refine ⟨t, by simp [forCount?, hu, ht], ?_⟩
      rwa [show lo + 1 + k = lo + (k + 1) by omega] at hend

/-- An aborting loop completes if its invariant lets every iteration complete. -/
theorem forRange?_completes {lo hi : Nat} {body : Nat → σ → Option σ} {s : σ} (hle : lo ≤ hi)
    (h0 : P lo s)
    (hstep : ∀ i u, lo ≤ i → i < hi → P i u → ∃ v, body i u = some v ∧ P (i + 1) v) :
    ∃ t, forRange? lo hi body s = some t ∧ P hi t := by
  obtain ⟨t, ht, hP⟩ := forCount?_completes (hi - lo) lo s h0
    (fun i u hi' hk hP => hstep i u hi' (by omega) hP)
  rw [show lo + (hi - lo) = hi by omega] at hP
  exact ⟨t, ht, hP⟩

/-- Where each iteration goes on exactly under its guard, the loop completes exactly
if all guards hold. -/
theorem forRange?_isSome_iff {G : Nat → Prop} {lo hi : Nat} {body : Nat → σ → Option σ} {s : σ}
    (hle : lo ≤ hi) (h0 : P lo s)
    (hgo : ∀ i u, lo ≤ i → i < hi → P i u → G i → ∃ v, body i u = some v ∧ P (i + 1) v)
    (hstop : ∀ i u v, lo ≤ i → i < hi → P i u → body i u = some v → G i) :
    (∃ t, forRange? lo hi body s = some t) ↔ ∀ i, lo ≤ i → i < hi → G i := by
  constructor
  · rintro ⟨t, ht⟩
    have hinv := forRange?_invariant (P := fun k u => P k u ∧ ∀ i, lo ≤ i → i < k → G i) hle
      ⟨h0, fun i hlo hi => by omega⟩ ?_ ht
    · exact hinv.2
    · rintro i u v hlo hi ⟨hP, hG⟩ hbody
      have hGi := hstop i u v hlo hi hP hbody
      obtain ⟨w, hw, hPw⟩ := hgo i u hlo hi hP hGi
      cases hbody.symm.trans hw
      refine ⟨hPw, fun j hj hji => ?_⟩
      rcases Nat.lt_or_eq_of_le (Nat.le_of_lt_succ hji) with hlt | rfl
      · exact hG j hj hlt
      · exact hGi
  · intro hG
    obtain ⟨t, ht, -⟩ := forRange?_completes hle h0 fun i u hlo hi hP =>
      hgo i u hlo hi hP (hG i hlo hi)
    exact ⟨t, ht⟩

end TeachingKernel.ForLoop
