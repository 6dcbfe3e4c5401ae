import Mathlib.Logic.Basic

/-!
# Runs of a labelled step relation

A run is the list of its steps, each with its label and the state it reaches.
Safety over runs is proved once here: an invariant kept by every step holds in
every state, and where only the steps meeting a guard keep it, the guard along
the run decides it.
-/

namespace TeachingKernel.Runs

variable {σ α : Type} {step : σ → α → σ → Prop} {P : σ → Prop} {C : σ → α → Prop}
  {Q : σ → α → σ → Prop}

/-- The listed steps follow one another from the given state. -/
def IsRun (step : σ → α → σ → Prop) : σ → List (α × σ) → Prop
  | _, [] => True
  | s, (a, t) :: rest => step s a t ∧ IsRun step t rest

def EveryState (P : σ → Prop) (s : σ) (run : List (α × σ)) : Prop :=
  P s ∧ ∀ e ∈ run, P e.2

/-- Every step of the run is taken in a state that meets `C` for its label. -/
def EveryStep (C : σ → α → Prop) : σ → List (α × σ) → Prop
  | _, [] => True
  | s, (a, t) :: rest => C s a ∧ EveryStep C t rest

instance EveryStep.decidable [∀ s a, Decidable (C s a)] :
    (s : σ) → (run : List (α × σ)) → Decidable (EveryStep C s run)
  | _, [] => .isTrue trivial
  | s, (a, t) :: rest =>
      have := EveryStep.decidable t rest
      inferInstanceAs (Decidable (C s a ∧ EveryStep C t rest))

def EveryTransition (Q : σ → α → σ → Prop) : σ → List (α × σ) → Prop
  | _, [] => True
  | s, (a, t) :: rest => Q s a t ∧ EveryTransition Q t rest

/-- The number of steps of the run whose label meets `C` in the state it is taken in. -/
def countSteps (C : σ → α → Bool) : σ → List (α × σ) → Nat
  | _, [] => 0
  | s, (a, t) :: rest => (C s a).toNat + countSteps C t rest

def last (s : σ) : List (α × σ) → σ
  | [] => s
  | (_, t) :: rest => last t rest

theorem everyState_nil {s : σ} : EveryState P s ([] : List (α × σ)) ↔ P s := by
  simp [EveryState]

theorem everyState_cons {s t : σ} {a : α} {rest : List (α × σ)} :
    EveryState P s ((a, t) :: rest) ↔ P s ∧ EveryState P t rest := by
  simp [EveryState]

theorem last_of_everyState {s : σ} {run : List (α × σ)} (h : EveryState P s run) :
    P (last s run) := by
  induction run generalizing s with
  | nil => exact h.1
  | cons e rest ih => exact ih (everyState_cons.mp h).2

theorem isRun_and_of_forall {R : α → σ → Prop} {s : σ} {run : List (α × σ)}
    (hrun : IsRun step s run) (hR : ∀ e ∈ run, R e.1 e.2) :
    IsRun (fun s a t => step s a t ∧ R a t) s run := by
  induction run generalizing s with
  | nil => trivial
  | cons e rest ih =>
      have hR' := List.forall_mem_cons.mp hR
      exact ⟨⟨hrun.1, hR'.1⟩, ih hrun.2 hR'.2⟩

theorem isRun_and_of_everyStep {s : σ} {run : List (α × σ)} (hrun : IsRun step s run)
    (hC : EveryStep C s run) : IsRun (fun s a t => step s a t ∧ C s a) s run := by
  induction run generalizing s with
  | nil => trivial
  | cons e rest ih => exact ⟨⟨hrun.1, hC.1⟩, ih hrun.2 hC.2⟩

/-- An invariant of every step holds along every run. -/
theorem everyState_of_step (hstep : ∀ s a t, P s → step s a t → P t) {s : σ}
    {run : List (α × σ)} (hs : P s) (hrun : IsRun step s run) : EveryState P s run := by
  induction run generalizing s with
  | nil => exact everyState_nil.mpr hs
  | cons e rest ih =>
      exact everyState_cons.mpr ⟨hs, ih (hstep _ _ _ hs hrun.1) hrun.2⟩

/-- What a step guarantees beside the invariant holds of every step of a run. -/
theorem everyTransition_of_step (hstep : ∀ s a t, P s → step s a t → P t ∧ Q s a t) {s : σ}
    {run : List (α × σ)} (hs : P s) (hrun : IsRun step s run) : EveryTransition Q s run := by
  induction run generalizing s with
  | nil => trivial
  | cons e rest ih =>
      obtain ⟨ht, hq⟩ := hstep _ _ _ hs hrun.1
      exact ⟨hq, ih ht hrun.2⟩

/-- Where every guarded step keeps the invariant and adds to a measure exactly when it
meets `G`, the run adds the number of those steps. -/
theorem measure_of_step {G : σ → α → Bool} {f : σ → Nat}
    (hstep : ∀ s a t, P s → C s a → step s a t → P t ∧ f t = f s + (G s a).toNat) {s : σ}
    {run : List (α × σ)} (hs : P s) (hrun : IsRun step s run) (hC : EveryStep C s run) :
    P (last s run) ∧ f (last s run) = f s + countSteps G s run := by
  induction run generalizing s with
  | nil => exact ⟨hs, rfl⟩
  | cons e rest ih =>
      obtain ⟨a, t⟩ := e
      obtain ⟨ht, hf⟩ := hstep s a t hs hC.1 hrun.1
      obtain ⟨hlast, hsum⟩ := ih ht hrun.2 hC.2
      refine ⟨hlast, ?_⟩
      rw [last, countSteps, hsum, hf, Nat.add_assoc]

theorem IsRun.append {s : σ} {run run' : List (α × σ)} (h : IsRun step s run)
    (h' : IsRun step (last s run) run') : IsRun step s (run ++ run') := by
  induction run generalizing s with
  | nil => exact h'
  | cons e rest ih => exact ⟨h.1, ih h.2 h'⟩

theorem IsRun.left_of_append {s : σ} {run run' : List (α × σ)}
    (h : IsRun step s (run ++ run')) : IsRun step s run := by
  induction run generalizing s with
  | nil => trivial
  | cons e rest ih => exact ⟨h.1, ih h.2⟩

theorem last_append (s : σ) (run run' : List (α × σ)) :
    last s (run ++ run') = last (last s run) run' := by
  induction run generalizing s with
  | nil => rfl
  | cons e rest ih => exact ih e.2

theorem EveryState.imp {P' : σ → Prop} (himp : ∀ s, P s → P' s) {s : σ} {run : List (α × σ)}
    (h : EveryState P s run) : EveryState P' s run :=
  ⟨himp s h.1, fun e he => himp e.2 (h.2 e he)⟩

/-- Where a guarded step keeps the invariant `I` and any other step breaks `P`,
the states of a run satisfy `P` exactly when its steps meet the guard. -/
theorem everyState_iff_of_breaks {I : σ → Prop} (hP : ∀ s, I s → P s)
    (hkeep : ∀ s a t, I s → C s a → step s a t → I t)
    (hbreak : ∀ s a t, I s → ¬ C s a → step s a t → ¬ P t) {s : σ} {run : List (α × σ)}
    (hs : I s) (hrun : IsRun step s run) : EveryState P s run ↔ EveryStep C s run := by
  induction run generalizing s with
  | nil => exact ⟨fun _ => trivial, fun _ => everyState_nil.mpr (hP s hs)⟩
  | cons e rest ih =>
      obtain ⟨a, t⟩ := e
      rw [everyState_cons]
      constructor
      · rintro ⟨_, hrest⟩
        by_cases hC : C s a
        · exact ⟨hC, (ih (hkeep s a t hs hC hrun.1) hrun.2).mp hrest⟩
        · exact absurd hrest.1 (hbreak s a t hs hC hrun.1)
      · rintro ⟨hC, hrest⟩
        exact ⟨hP s hs, (ih (hkeep s a t hs hC hrun.1) hrun.2).mpr hrest⟩

/-- Where a guarded step keeps the invariant `I` and does what `Q` asks, and any other
step breaks `Q`, the steps of a run do so exactly when they meet the guard. -/
theorem everyTransition_iff_everyStep {I : σ → Prop}
    (hkeep : ∀ s a t, I s → C s a → step s a t → I t ∧ Q s a t)
    (hbreak : ∀ s a t, I s → ¬ C s a → step s a t → ¬ Q s a t) {s : σ} {run : List (α × σ)}
    (hs : I s) (hrun : IsRun step s run) : EveryTransition Q s run ↔ EveryStep C s run := by
  induction run generalizing s with
  | nil => exact Iff.rfl
  | cons e rest ih =>
      obtain ⟨a, t⟩ := e
      constructor
      · rintro ⟨hQ, hrest⟩
        by_cases hC : C s a
        · exact ⟨hC, (ih (hkeep s a t hs hC hrun.1).1 hrun.2).mp hrest⟩
        · exact absurd hQ (hbreak s a t hs hC hrun.1)
      · rintro ⟨hC, hrest⟩
        obtain ⟨ht, hQ⟩ := hkeep s a t hs hC hrun.1
        exact ⟨hQ, (ih ht hrun.2).mpr hrest⟩

/-- Where a step keeps the invariant exactly when it meets the guard, the
invariant holds along a run exactly when the guard does. `W` is a background
invariant that every step keeps. -/
theorem everyState_iff_everyStep {W : σ → Prop} (hW : ∀ s a t, W s → step s a t → W t)
    (hstep : ∀ s a t, W s → P s → step s a t → (P t ↔ C s a)) {s : σ} {run : List (α × σ)}
    (hWs : W s) (hs : P s) (hrun : IsRun step s run) : EveryState P s run ↔ EveryStep C s run :=
  everyState_iff_of_breaks (I := fun s => W s ∧ P s) (fun _ h => h.2)
    (fun s a t h hC hstep' => ⟨hW s a t h.1 hstep', (hstep s a t h.1 h.2 hstep').mpr hC⟩)
    (fun s a t h hC hstep' ht => hC ((hstep s a t h.1 h.2 hstep').mp ht)) ⟨hWs, hs⟩ hrun

/-- The run that an executable step function makes of a list of labels. -/
def runOf (exec : σ → α → Option σ) : σ → List α → Option (List (α × σ))
  | _, [] => some []
  | s, a :: rest => (exec s a).bind fun t => (runOf exec t rest).map ((a, t) :: ·)

theorem isRun_of_runOf {exec : σ → α → Option σ} (hexec : ∀ s a t, exec s a = some t → step s a t)
    {s : σ} {labels : List α} {run : List (α × σ)} (h : runOf exec s labels = some run) :
    IsRun step s run := by
  induction labels generalizing s run with
  | nil =>
      cases h
      trivial
  | cons a rest ih =>
      obtain ⟨t, ht, h⟩ := Option.bind_eq_some_iff.mp h
      obtain ⟨tail, htail, rfl⟩ := Option.map_eq_some_iff.mp h
      exact ⟨hexec s a t ht, ih htail⟩

theorem labels_of_runOf {exec : σ → α → Option σ} {s : σ} {labels : List α}
    {run : List (α × σ)} (h : runOf exec s labels = some run) : run.map Prod.fst = labels := by
  induction labels generalizing s run with
  | nil =>
      cases h
      rfl
  | cons a rest ih =>
      obtain ⟨t, -, h⟩ := Option.bind_eq_some_iff.mp h
      obtain ⟨tail, htail, rfl⟩ := Option.map_eq_some_iff.mp h
      exact congrArg (a :: ·) (ih htail)

end TeachingKernel.Runs
