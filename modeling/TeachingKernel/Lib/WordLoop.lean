import TeachingKernel.Lib.ForLoop
import TeachingKernel.Lib.WhileLoop
import TeachingKernel.Lib.Word

/-!
# Loops over a 32-bit index

`for (i = lo; i < hi; i++)` with an index that could wrap around and a body that may
leave the loop, with a record of the values the index took. Below its bound the index
never wraps, so the loop ends and does what the counted loop does.
-/

namespace TeachingKernel.WordLoop

open ForLoop WhileLoop

structure Sweep (σ : Type) where
  i : Word
  cells : σ
  running : Bool
  visited : List Nat

variable {σ : Type}

/-- One iteration. Where the body leaves the loop the index stays. -/
def Sweep.next (body : Nat → σ → Option σ) (s : Sweep σ) : Sweep σ :=
  match body s.i.toNat s.cells with
  | some cells => ⟨s.i + 1, cells, true, s.i.toNat :: s.visited⟩
  | none => ⟨s.i, s.cells, false, s.i.toNat :: s.visited⟩

def sweep (lo hi : Word) (body : Nat → σ → Option σ) (fuel : Nat) (cells : σ) :
    Option (Sweep σ) :=
  whileLoop (fun s => s.running && decide (s.i < hi)) (Sweep.next body) fuel
    ⟨lo, cells, true, []⟩

variable {lo hi : Word} {body : Nat → σ → Option σ} {cells : σ}

private structure Sweeping (lo hi : Word) (body : Nat → σ → Option σ) (cells : σ) (s : Sweep σ) :
    Prop where
  low : lo.toNat ≤ s.i.toNat
  high : s.i.toNat ≤ max lo.toNat hi.toNat
  done : forRange? lo.toNat s.i.toNat body cells = some s.cells
  visited : ∀ j, j ∈ s.visited ↔
    lo.toNat ≤ j ∧ (j < s.i.toNat ∨ j = s.i.toNat ∧ s.running = false)
  stopped : s.running = false → s.i.toNat < hi.toNat ∧ body s.i.toNat s.cells = none

private theorem sweeping_next {s : Sweep σ} (hs : Sweeping lo hi body cells s)
    (hrun : s.running = true) (hi' : s.i.toNat < hi.toNat) :
    Sweeping lo hi body cells (s.next body) := by
  have hlow := hs.low
  have hsize := hi.isLt
  unfold Sweep.next
  cases hbody : body s.i.toNat s.cells with
  | some u =>
      have hnext : (s.i + 1).toNat = s.i.toNat + 1 := toNat_add_one (by omega)
      refine ⟨?_, ?_, ?_, fun j => ?_, fun h => by cases h⟩
      · simp only [hnext]
        omega
      · simp only [hnext]
        omega
      · simp only [hnext]
        rw [forRange?_succ hlow, hs.done, Option.bind_some, hbody]
      · simp only [hnext, List.mem_cons, hs.visited, hrun, Bool.true_eq_false, and_false, or_false]
        omega
  | none =>
      refine ⟨hlow, hs.high, hs.done, fun j => ?_, fun _ => ⟨hi', hbody⟩⟩
      simp only [List.mem_cons, hs.visited, hrun, Bool.true_eq_false, and_false, or_false, and_true]
      omega

private def Sweep.left (hi : Word) (s : Sweep σ) : Nat :=
  (if s.running then 1 else 0) + (hi.toNat - s.i.toNat)

private theorem left_next {s : Sweep σ} (hrun : s.running = true) (hi' : s.i.toNat < hi.toNat) :
    (s.next body).left hi < s.left hi := by
  have hsize := hi.isLt
  unfold Sweep.next Sweep.left
  cases body s.i.toNat s.cells with
  | some u =>
      simp only [toNat_add_one (a := s.i) (by omega), hrun, if_true]
      omega
  | none =>
      simp only [hrun, if_true, Bool.false_eq_true, if_false]
      omega

private theorem sweeping_start (lo hi : Word) (body : Nat → σ → Option σ) (cells : σ) :
    Sweeping lo hi body cells ⟨lo, cells, true, []⟩ := by
  refine ⟨Nat.le_refl _, Nat.le_max_left _ _, forRange?_of_le (Nat.le_refl _) body cells,
    fun j => ?_, fun h => by cases h⟩
  simp only [List.not_mem_nil, Bool.true_eq_false, and_false, or_false, false_iff]
  omega

private theorem sweep_ends (lo hi : Word) (body : Nat → σ → Option σ) (cells : σ) :
    ∃ t, Sweeping lo hi body cells t ∧ (t.running = true → hi.toNat ≤ t.i.toNat) ∧
      ∀ fuel, hi.toNat - lo.toNat + 1 < fuel → sweep lo hi body fuel cells = some t := by
  have hstep : ∀ s : Sweep σ, Sweeping lo hi body cells s →
      (s.running && decide (s.i < hi)) = true →
        Sweeping lo hi body cells (s.next body) ∧ (s.next body).left hi < s.left hi := by
    intro s hs hc
    obtain ⟨hrun, hlt⟩ := Bool.and_eq_true_iff.mp hc
    have hlt : s.i.toNat < hi.toNat := of_decide_eq_true hlt
    exact ⟨sweeping_next hs hrun hlt, left_next hrun hlt⟩
  obtain ⟨t, ht, hend, hrun⟩ := whileLoop_completes
    (fun s : Sweep σ => s.running && decide (s.i < hi)) (Sweep.next body)
    (Sweeping lo hi body cells) (Sweep.left hi) hstep (sweeping_start lo hi body cells)
  refine ⟨t, ht, fun hr => ?_, fun fuel hfuel => hrun fuel ?_⟩
  · rw [hr, Bool.true_and] at hend
    have hle := of_decide_eq_false hend
    rw [BitVec.lt_def] at hle
    omega
  · simp only [Sweep.left, if_true]
    omega

private theorem mem_visited {t : Sweep σ} {j : Nat} (ht : Sweeping lo hi body cells t)
    (hend : t.running = true → hi.toNat ≤ t.i.toNat) :
    j ∈ t.visited ↔ lo.toNat ≤ j ∧ j < hi.toNat ∧
      ∃ u, forRange? lo.toNat j body cells = some u := by
  have hlow := ht.low
  have hhigh := ht.high
  rw [ht.visited]
  constructor
  · rintro ⟨hlo, hj | ⟨rfl, hr⟩⟩
    · exact ⟨hlo, by omega, forRange?_shorter (by omega) ht.done⟩
    · exact ⟨hlo, (ht.stopped hr).1, _, ht.done⟩
  · rintro ⟨hlo, hj, u, hu⟩
    refine ⟨hlo, ?_⟩
    cases hr : t.running with
    | true =>
        have hle := hend hr
        omega
    | false =>
        -- past the stop the counted loop has no result
        rcases Nat.lt_or_ge t.i.toNat j with hgt | hle
        · have hnone := forRange?_eq_none hlow hgt ht.done (ht.stopped hr).2
          rw [hu] at hnone
          cases hnone
        · exact (Nat.lt_or_eq_of_le hle).imp_right fun he => ⟨he, rfl⟩

private theorem cells_eq {t : Sweep σ} (ht : Sweeping lo hi body cells t)
    (hle : hi.toNat ≤ t.i.toNat) : forRange? lo.toNat hi.toNat body cells = some t.cells := by
  have hlow := ht.low
  have hhigh := ht.high
  have hdone := ht.done
  rcases Nat.le_total lo.toNat hi.toNat with hlohi | hlohi
  · have heq : t.i.toNat = hi.toNat := by omega
    rw [← heq]
    exact hdone
  · have heq : t.i.toNat = lo.toNat := by omega
    rw [heq, forRange?_of_le (Nat.le_refl _)] at hdone
    rw [forRange?_of_le hlohi]
    exact hdone

/-- The loop ends. The index took the values up to where the counted loop gets to, and
where the body never left the loop the result is that of the counted loop. -/
theorem sweep_spec (lo hi : Word) (body : Nat → σ → Option σ) (cells : σ) :
    ∃ t, (∀ fuel, hi.toNat - lo.toNat + 1 < fuel → sweep lo hi body fuel cells = some t) ∧
      (∀ j, j ∈ t.visited ↔ lo.toNat ≤ j ∧ j < hi.toNat ∧
        ∃ u, forRange? lo.toNat j body cells = some u) ∧
      (t.running = true → forRange? lo.toNat hi.toNat body cells = some t.cells) ∧
      (t.running = false → ∃ j, lo.toNat ≤ j ∧ j < hi.toNat ∧
        forRange? lo.toNat j body cells = some t.cells ∧ body j t.cells = none) := by
  obtain ⟨t, ht, hend, hrun⟩ := sweep_ends lo hi body cells
  exact ⟨t, hrun, fun j => mem_visited ht hend, fun hr => cells_eq ht (hend hr), fun hr =>
    ⟨_, ht.low, (ht.stopped hr).1, ht.done, (ht.stopped hr).2⟩⟩

theorem sweep_some (lo hi : Word) (body : Nat → σ → σ) (cells : σ) :
    ∃ t, (∀ fuel, hi.toNat - lo.toNat + 1 < fuel →
        sweep lo hi (fun i s => some (body i s)) fuel cells = some t) ∧
      (∀ j ∈ t.visited, j < hi.toNat) ∧ t.cells = forRange lo.toNat hi.toNat body cells := by
  obtain ⟨t, ht, hvisited, hdone, hleft⟩ := sweep_spec lo hi (fun i s => some (body i s)) cells
  refine ⟨t, ht, fun j hj => ((hvisited j).mp hj).2.1, ?_⟩
  have hrunning : t.running = true := by
    cases hr : t.running with
    | true => rfl
    | false =>
        obtain ⟨j, -, -, -, hbody⟩ := hleft hr
        cases hbody
  have hcells := hdone hrunning
  rw [forRange?_some] at hcells
  exact (Option.some.inj hcells).symm

end TeachingKernel.WordLoop
