import Mathlib.Data.List.Basic

/-!
# Searches round a ring

Loops over the positions of a ring of fixed size that start at one position, go
upwards, wrap at the end and stop at the first position that fits, or where they were
told to. They find what a search through the listed positions finds.
-/

namespace TeachingKernel.RingLoop

/-- `i++; if (i > size - 1) i = 0;` -/
def next (size i : Nat) : Nat := if i + 1 > size - 1 then 0 else i + 1

/-- `do { if (p(i)) return i; i = next(i); } while (i != stop);` -/
def search (size : Nat) (p : Nat → Bool) (stop : Nat) : Nat → Nat → Option Nat
  | 0, _ => none
  | fuel + 1, i =>
      if p i then some i
      else if next size i = stop then none
      else search size p stop fuel (next size i)

def seek (size : Nat) (p : Nat → Bool) : Nat → Nat → Nat
  | 0, i => i
  | fuel + 1, i => if p i then i else seek size p fuel (next size i)

def walk (size start len : Nat) : List Nat := (List.range len).map fun k => (start + k) % size

section

variable {n start stop m fuel i : Nat} {p : Nat → Bool}

theorem next_lt (hi : i < n) : next n i < n := by
  unfold next
  split <;> omega

theorem next_eq (hi : i < n) : next n i = (i + 1) % n := by
  unfold next
  split
  · rw [show i + 1 = n by omega, Nat.mod_self]
  · rw [Nat.mod_eq_of_lt (by omega)]

theorem walk_succ (hstart : start < n) :
    walk n start (m + 1) = start :: walk n (next n start) m := by
  rw [walk, List.range_succ_eq_map, List.map_cons, List.map_map, walk, Nat.add_zero,
    Nat.mod_eq_of_lt hstart]
  congr 1
  apply List.map_congr_left
  intro k _
  rw [Function.comp_apply, next_eq hstart, Nat.mod_add_mod]
  congr 1
  omega

/-- A walk round the whole ring from its first position. -/
theorem walk_zero (hlen : m ≤ n) : walk n 0 m = List.range m := by
  rw [walk]
  conv_rhs => rw [← List.map_id (List.range m)]
  apply List.map_congr_left
  intro k hk
  have hlt := List.mem_range.mp hk
  rw [Nat.zero_add, Nat.mod_eq_of_lt (by omega), id_eq]

/-- The loop visits the positions up to `stop`, which it meets after `m` steps. -/
theorem search_eq (hstart : start < n) (hpos : 0 < m) (hlen : m ≤ fuel)
    (hstop : (start + m) % n = stop) (hfirst : ∀ k, 0 < k → k < m →
      (start + k) % n ≠ stop) :
    search n p stop fuel start = (walk n start m).find? p := by
  induction m generalizing start fuel with
  | zero => exact absurd hpos (Nat.lt_irrefl 0)
  | succ m ih =>
      obtain ⟨fuel, rfl⟩ : ∃ f, fuel = f + 1 := ⟨fuel - 1, by omega⟩
      rw [search, walk_succ hstart, List.find?_cons]
      cases hp : p start with
      | true => simp
      | false =>
          have hshift : ∀ k, (next n start + k) % n = (start + (k + 1)) % n := by
            intro k
            rw [next_eq hstart, Nat.mod_add_mod]
            congr 1
            omega
          by_cases hzero : m = 0
          · subst hzero
            rw [if_neg (by simp), if_pos (by rw [next_eq hstart, hstop])]
            simp [walk]
          · have hne : next n start ≠ stop := by
              rw [next_eq hstart]
              exact hfirst 1 (by decide) (by omega)
            rw [if_neg (by simp), if_neg hne]
            refine ih (next_lt hstart) (by omega) (by omega) ?_ ?_
            · rw [hshift, hstop]
            · intro k hk hlt
              rw [hshift]
              exact hfirst (k + 1) (by omega) (by omega)

/-- Where some position fits, the loop without a stop finds the first one. -/
theorem seek_eq (hstart : start < n) (hlen : m ≤ fuel)
    (hfound : (walk n start m).find? p = some i) : seek n p fuel start = i := by
  induction m generalizing start fuel with
  | zero => simp [walk] at hfound
  | succ m ih =>
      obtain ⟨fuel, rfl⟩ : ∃ f, fuel = f + 1 := ⟨fuel - 1, by omega⟩
      rw [walk_succ hstart, List.find?_cons] at hfound
      rw [seek]
      cases hp : p start with
      | true =>
          rw [hp] at hfound
          simpa using hfound
      | false =>
          rw [hp] at hfound
          rw [if_neg (by simp)]
          exact ih (next_lt hstart) (by omega) hfound

/-! ## From the first position -/

/-- The loop from the first position finds the least position that fits before
`stop`. -/
theorem search_zero (hpos : 0 < m) (hlen : m ≤ n) :
    search n p (m % n) n 0 = (List.range m).find? p := by
  rw [search_eq (m := m) (by omega) hpos hlen (by rw [Nat.zero_add]), walk_zero hlen]
  intro k hk hlt heq
  rw [Nat.zero_add, Nat.mod_eq_of_lt (by omega)] at heq
  by_cases hfull : m = n
  · rw [hfull, Nat.mod_self] at heq
    omega
  · rw [Nat.mod_eq_of_lt (by omega)] at heq
    omega

theorem find?_range_eq_some {n : Nat} :
    (List.range n).find? p = some i ↔ i < n ∧ p i = true ∧ ∀ j < i, p j = false := by
  rw [List.find?_range_eq_some]
  simp only [List.mem_range, Bool.not_eq_true']
  tauto

end

end TeachingKernel.RingLoop
