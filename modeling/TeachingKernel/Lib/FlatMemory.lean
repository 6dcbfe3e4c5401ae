import Mathlib.Logic.Function.Basic
import TeachingKernel.Lib.Runs

/-!
# Flat memory

A memory with a value at every place from the start on. A machine that provides its
places on first use answers like one, whatever the values turn out to be that it
provides: they are settled place by place, at the first access.
-/

namespace TeachingKernel.FlatMemory

open Runs

inductive Access (α β : Type) where
  | load (a : α) (b : β)
  | store (a : α) (b : β)

variable {α β : Type} [DecidableEq α]

/-- Every load gets what the memory holds when it is made. -/
def Answers (m : α → β) : List (Access α β) → Prop
  | [] => True
  | .load a b :: rest => m a = b ∧ Answers m rest
  | .store a b :: rest => Answers (Function.update m a b) rest

def Extends (known : α → Option β) (m : α → β) : Prop := ∀ a b, known a = some b → m a = b

section

variable {known : α → Option β} {m : α → β} {a : α} {b : β} {trace : List (Access α β)}

theorem update_eq_some {x : α} {c : β} (h : Function.update known a (some b) x = some c) :
    x = a ∧ c = b ∨ x ≠ a ∧ known x = some c := by
  by_cases heq : x = a
  · subst heq
    rw [Function.update_self] at h
    exact .inl ⟨rfl, (Option.some.inj h).symm⟩
  · rw [Function.update_of_ne heq] at h
    exact .inr ⟨heq, h⟩

theorem exists_answers_load (hknown : ∀ b', known a = some b' → b' = b)
    (h : ∃ m, Extends (Function.update known a (some b)) m ∧ Answers m trace) :
    ∃ m, Extends known m ∧ Answers m (.load a b :: trace) := by
  obtain ⟨m, hext, hrest⟩ := h
  have hval : m a = b := hext a b (Function.update_self ..)
  refine ⟨m, fun a' b' hb' => ?_, hval, hrest⟩
  by_cases ha : a' = a
  · subst ha
    rw [hval, hknown b' hb']
  · exact hext a' b' (by rwa [Function.update_of_ne ha])

/-- What a store replaces does not matter later on. -/
theorem exists_answers_store
    (h : ∃ m, Extends (Function.update known a (some b)) m ∧ Answers m trace) :
    ∃ m, Extends known m ∧ Answers m (.store a b :: trace) := by
  obtain ⟨m, hext, hrest⟩ := h
  have hval : m a = b := hext a b (Function.update_self ..)
  refine ⟨Function.update m a ((known a).getD b), fun a' b' hb' => ?_, ?_⟩
  · by_cases ha : a' = a
    · subst ha
      rw [Function.update_self, hb', Option.getD_some]
    · rw [Function.update_of_ne ha]
      exact hext a' b' (by rwa [Function.update_of_ne ha])
  · have hback : Function.update (Function.update m a ((known a).getD b)) a b = m := by
      rw [Function.update_idem, ← hval, Function.update_eq_self]
    rw [Answers, hback]
    exact hrest

end

def Settles {σ : Type} (I : (α → Option β) → σ → Prop) (known : α → Option β) (t : σ) :
    Option (Access α β) → Prop
  | none => I known t
  | some (.load a b) =>
      (∀ b', known a = some b' → b' = b) ∧ I (Function.update known a (some b)) t
  | some (.store a b) => I (Function.update known a (some b)) t

/-- A machine whose steps settle their accesses answers as a flat memory does. -/
theorem exists_answers {σ τ : Type} [Nonempty β] {step : σ → τ → σ → Prop}
    {access : τ → Option (Access α β)} {I : (α → Option β) → σ → Prop}
    (hstep : ∀ known s e t, I known s → step s e t → Settles I known t (access e))
    {known : α → Option β} {s : σ} {run : List (τ × σ)} (hs : I known s) (hrun : IsRun step s run) :
    ∃ m, Extends known m ∧ Answers m ((run.map Prod.fst).filterMap access) := by
  induction run generalizing known s with
  | nil =>
      refine ⟨fun a => (known a).getD (Classical.arbitrary β), fun a b hb => ?_, trivial⟩
      dsimp only
      rw [hb, Option.getD_some]
  | cons e rest ih =>
      obtain ⟨e, t⟩ := e
      have hsettled := hstep known s e t hs hrun.1
      cases haccess : access e with
      | none =>
          rw [haccess] at hsettled
          rw [List.map_cons, List.filterMap_cons_none haccess]
          exact ih hsettled hrun.2
      | some x =>
          rw [haccess] at hsettled
          rw [List.map_cons, List.filterMap_cons_some haccess]
          cases x with
          | load a b => exact exists_answers_load hsettled.1 (ih hsettled.2 hrun.2)
          | store a b => exact exists_answers_store (ih hsettled hrun.2)

end TeachingKernel.FlatMemory
