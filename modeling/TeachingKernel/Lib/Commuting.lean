import Mathlib.Data.List.Nodup

/-!
# Steps in any order

Steps that may fail, each taken at most once. If a step that is ready stays ready after
another one, and two ready steps may trade places, then every order of them succeeds and
all orders end in the same state.
-/

namespace TeachingKernel.Commuting

variable {σ α : Type} {step : σ → α → Option σ} {Ready : σ → α → Prop}

/-- Ready steps succeed and do not disturb one another. -/
structure Independent (step : σ → α → Option σ) (Ready : σ → α → Prop) : Prop where
  succeeds : ∀ {s a}, Ready s a → ∃ t, step s a = some t
  stays : ∀ {s t a b}, Ready s a → Ready s b → a ≠ b → step s a = some t → Ready t b
  commutes : ∀ {s a b}, Ready s a → Ready s b → a ≠ b →
    ((step s a).bind fun t => step t b) = (step s b).bind fun t => step t a

theorem Independent.ready_tail (h : Independent step Ready) {s t : σ} {a : α} {l : List α}
    (hnodup : (a :: l).Nodup) (hready : ∀ b ∈ a :: l, Ready s b) (hstep : step s a = some t) :
    ∀ b ∈ l, Ready t b := by
  intro b hb
  refine h.stays (hready a List.mem_cons_self) (hready b (List.mem_cons_of_mem _ hb)) ?_ hstep
  rintro rfl
  exact (List.nodup_cons.mp hnodup).1 hb

/-- Taken in any order, the steps succeed. -/
theorem Independent.foldlM_isSome (h : Independent step Ready) {s : σ} {l : List α}
    (hnodup : l.Nodup) (hready : ∀ a ∈ l, Ready s a) : ∃ t, l.foldlM step s = some t := by
  induction l generalizing s with
  | nil => exact ⟨s, rfl⟩
  | cons a rest ih =>
      obtain ⟨t, ht⟩ := h.succeeds (hready a List.mem_cons_self)
      obtain ⟨u, hu⟩ := ih (List.nodup_cons.mp hnodup).2 (h.ready_tail hnodup hready ht)
      refine ⟨u, ?_⟩
      rw [List.foldlM_cons, ht]
      exact hu

/-- The end state does not depend on the order. -/
theorem Independent.foldlM_perm (h : Independent step Ready) {s : σ} {l l' : List α}
    (hperm : l.Perm l') (hnodup : l.Nodup) (hready : ∀ a ∈ l, Ready s a) :
    l.foldlM step s = l'.foldlM step s := by
  induction hperm generalizing s with
  | nil => rfl
  | cons a _ ih =>
      obtain ⟨t, ht⟩ := h.succeeds (hready a List.mem_cons_self)
      rw [List.foldlM_cons, List.foldlM_cons, ht]
      exact ih (List.nodup_cons.mp hnodup).2 (h.ready_tail hnodup hready ht)
  | swap a b rest =>
      have hne : b ≠ a := fun heq => (List.nodup_cons.mp hnodup).1 (heq ▸ List.mem_cons_self)
      have hswap := h.commutes (hready b List.mem_cons_self)
        (hready a (List.mem_cons_of_mem _ List.mem_cons_self)) hne
      have hpair : ∀ x y : α, (x :: y :: rest).foldlM step s =
          ((step s x).bind fun t => step t y).bind fun u => rest.foldlM step u := fun x y => by
        rw [List.foldlM_cons]
        simp only [List.foldlM_cons, Option.bind_assoc]
        rfl
      rw [hpair, hpair, hswap]
  | trans hfirst _ ih₁ ih₂ =>
      rw [ih₁ hnodup hready]
      exact ih₂ (hfirst.nodup_iff.mp hnodup) fun a ha => hready a (hfirst.mem_iff.mpr ha)

end TeachingKernel.Commuting
