import Mathlib.Data.List.Nodup

/-!
# First in, first out

A trace of what enters and what leaves a queue. If every leaving takes the head and
every entering goes to the end, whatever enters with `k` ahead of it is taken by the
`k + 1`-th leaving that follows, and by none before.
-/

namespace TeachingKernel.Fifo

inductive Event (T : Type) where
  | enter (t : T) (ahead : Nat)
  | leave (t : T)

section

variable {T : Type}

def left : List (Event T) → List T
  | [] => []
  | .enter _ _ :: rest => left rest
  | .leave t :: rest => t :: left rest

def InOrder (trace : List (Event T)) : Prop :=
  ∀ pre t k post, trace = pre ++ .enter t k :: post →
    (∀ x, (left post)[k]? = some x → x = t) ∧ ∀ i < k, (left post)[i]? ≠ some t

/-- The queue `q` holds what the trace put in and did not yet take out. -/
structure Tracks (trace : List (Event T)) (q : List T) : Prop where
  nodup : q.Nodup
  waiting : ∀ pre t k post, trace = pre ++ .enter t k :: post →
    (left post).length ≤ k → q[k - (left post).length]? = some t
  inOrder : InOrder trace

variable {trace xs ys pre post : List (Event T)} {e f : Event T} {q : List T} {t : T}

theorem left_append : left (xs ++ ys) = left xs ++ left ys := by
  induction xs with
  | nil => rfl
  | cons e rest ih =>
      cases e with
      | enter t k => exact ih
      | leave t => exact congrArg (t :: ·) ih

theorem tracks_nil : Tracks ([] : List (Event T)) [] := by
  refine ⟨List.nodup_nil, fun pre t k post h => ?_, fun pre t k post h => ?_⟩
  · simp at h
  · simp at h

theorem split_snoc (h : trace ++ [e] = pre ++ f :: post) :
    (post = [] ∧ trace = pre ∧ e = f) ∨ ∃ rest, post = rest ++ [e] ∧ trace = pre ++ f :: rest := by
  rcases List.eq_nil_or_concat' post with rfl | ⟨rest, g, rfl⟩
  · obtain ⟨hpre, hlast⟩ := List.append_inj' h rfl
    exact .inl ⟨rfl, hpre, List.singleton_inj.mp hlast⟩
  · rw [← List.cons_append, ← List.append_assoc] at h
    obtain ⟨hpre, hlast⟩ := List.append_inj' h rfl
    exact .inr ⟨rest, by rw [List.singleton_inj.mp hlast], hpre⟩

theorem Tracks.enter (h : Tracks trace q) (ht : t ∉ q) :
    Tracks (trace ++ [.enter t q.length]) (q ++ [t]) := by
  refine ⟨List.nodup_append.mpr ⟨h.nodup, List.nodup_singleton t, ?_⟩, ?_, ?_⟩
  · intro x hx y hy hxy
    rw [hxy, List.mem_singleton.mp hy] at hx
    exact ht hx
  · intro pre x k post hsplit hk
    rcases split_snoc hsplit with ⟨rfl, -, heq⟩ | ⟨rest, rfl, htrace⟩
    · cases heq
      simp [left]
    · rw [left_append, left, left, List.append_nil] at hk ⊢
      have hold := h.waiting pre x k rest htrace hk
      rw [List.getElem?_append_left (List.getElem?_eq_some_iff.mp hold).1, hold]
  · intro pre x k post hsplit
    rcases split_snoc hsplit with ⟨rfl, -, heq⟩ | ⟨rest, rfl, htrace⟩
    · simp [left]
    · rw [left_append, left, left, List.append_nil]
      exact h.inOrder pre x k rest htrace

theorem Tracks.leave (h : Tracks trace (t :: q)) : Tracks (trace ++ [.leave t]) q := by
  have hnodup := List.nodup_cons.mp h.nodup
  refine ⟨hnodup.2, ?_, ?_⟩
  · intro pre x k post hsplit hk
    rcases split_snoc hsplit with ⟨rfl, -, heq⟩ | ⟨rest, rfl, htrace⟩
    · cases heq
    · rw [left_append, left, left, List.length_append, List.length_singleton] at hk ⊢
      have hold := h.waiting pre x k rest htrace (by omega)
      obtain ⟨j, hj⟩ : ∃ j, k - (left rest).length = j + 1 := ⟨k - (left rest).length - 1, by omega⟩
      rw [hj, List.getElem?_cons_succ] at hold
      rw [show k - ((left rest).length + 1) = j by omega, hold]
  · intro pre x k post hsplit
    rcases split_snoc hsplit with ⟨rfl, -, heq⟩ | ⟨rest, rfl, htrace⟩
    · cases heq
    · obtain ⟨hturn, hearly⟩ := h.inOrder pre x k rest htrace
      rw [left_append, left, left]
      -- Only the place behind the old trace is new; there the head leaves.
      have hplace : ∀ i y, (left rest ++ [t])[i]? = some y →
          (left rest)[i]? = some y ∨ (i = (left rest).length ∧ y = t) := by
        intro i y hy
        rcases Nat.lt_or_ge i (left rest).length with hlt | hge
        · rw [List.getElem?_append_left hlt] at hy
          exact .inl hy
        · rw [List.getElem?_append_right hge] at hy
          obtain ⟨hi, hy⟩ := List.getElem?_eq_some_iff.mp hy
          simp only [List.length_singleton, List.getElem_singleton] at hi hy
          exact .inr ⟨by omega, hy.symm⟩
      constructor
      · intro y hy
        rcases hplace k y hy with hold | ⟨hk, rfl⟩
        · exact hturn y hold
        · have hwait := h.waiting pre x k rest htrace (by omega)
          rw [hk, Nat.sub_self, List.getElem?_cons_zero] at hwait
          exact Option.some.inj hwait
      · intro i hi hx
        rcases hplace i x hx with hold | ⟨hi', rfl⟩
        · exact hearly i hi hold
        · have hwait := h.waiting pre x k rest htrace (by omega)
          obtain ⟨j, hj⟩ : ∃ j, k - (left rest).length = j + 1 :=
            ⟨k - (left rest).length - 1, by omega⟩
          rw [hj, List.getElem?_cons_succ] at hwait
          exact hnodup.1 (List.mem_of_getElem? hwait)

end

end TeachingKernel.Fifo
