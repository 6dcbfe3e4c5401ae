import Mathlib.Data.List.Pairwise
import Mathlib.Data.List.Nodup

/-!
# Collections of disjoint spans

A span is a first point and a size. What an allocator has handed out and not
taken back is a list of non-empty spans, no two of which share a point.
-/

namespace TeachingKernel

structure Span where
  first : Nat
  size : Nat
  deriving DecidableEq

namespace Span

instance : Membership Nat Span := ⟨fun r x => r.first ≤ x ∧ x < r.first + r.size⟩

theorem mem_iff {r : Span} {x : Nat} : x ∈ r ↔ r.first ≤ x ∧ x < r.first + r.size := Iff.rfl

@[simp] theorem mem_mk {a n x : Nat} : x ∈ (⟨a, n⟩ : Span) ↔ a ≤ x ∧ x < a + n := Iff.rfl

instance (r : Span) (x : Nat) : Decidable (x ∈ r) := inferInstanceAs (Decidable (_ ∧ _))

/-- The two spans share no point. -/
def Apart (r r' : Span) : Prop := ∀ x, x ∈ r → x ∉ r'

theorem Apart.symm {r r' : Span} (h : Apart r r') : Apart r' r := fun x hx' hx => h x hx hx'

instance : Std.Symm Apart := ⟨fun _ _ h => h.symm⟩

theorem apart_iff {r r' : Span} (hr : 0 < r.size) (hr' : 0 < r'.size) :
    Apart r r' ↔ r.first + r.size ≤ r'.first ∨ r'.first + r'.size ≤ r.first := by
  constructor
  · intro h
    by_contra hover
    rw [not_or, Nat.not_le, Nat.not_le] at hover
    by_cases hle : r.first ≤ r'.first
    · exact h r'.first ⟨hle, hover.1⟩ ⟨Nat.le_refl _, by omega⟩
    · exact h r.first ⟨Nat.le_refl _, by omega⟩ ⟨by omega, hover.2⟩
  · rintro h x ⟨hx, hlt⟩ ⟨hx', hlt'⟩
    omega

theorem first_mem {r : Span} (hr : 0 < r.size) : r.first ∈ r := ⟨Nat.le_refl _, by omega⟩

end Span

structure DisjointSpans (live : List Span) : Prop where
  nonempty : ∀ r ∈ live, 0 < r.size
  apart : live.Pairwise Span.Apart

namespace DisjointSpans

variable {live : List Span}

theorem nil : DisjointSpans [] := ⟨by simp, .nil⟩

theorem cons {r : Span} (h : DisjointSpans live) (hr : 0 < r.size)
    (hapart : ∀ r' ∈ live, r.Apart r') : DisjointSpans (r :: live) :=
  ⟨List.forall_mem_cons.mpr ⟨hr, h.nonempty⟩, .cons hapart h.apart⟩

theorem nodup (h : DisjointSpans live) : live.Nodup := by
  refine h.apart.imp_of_mem ?_
  rintro r r' hr _ hapart rfl
  have hfirst := Span.first_mem (h.nonempty r hr)
  exact hapart _ hfirst hfirst

theorem eq_of_mem (h : DisjointSpans live) {r r' : Span} {x : Nat} (hr : r ∈ live)
    (hr' : r' ∈ live) (hx : x ∈ r) (hx' : x ∈ r') : r = r' := by
  by_contra hne
  exact h.apart.forall hr hr' hne x hx hx'

theorem erase (h : DisjointSpans live) (r : Span) : DisjointSpans (live.erase r) :=
  ⟨fun r' hr' => h.nonempty r' (List.mem_of_mem_erase hr'),
    h.apart.sublist List.erase_sublist⟩

theorem mem_erase_iff (h : DisjointSpans live) {r r' : Span} :
    r' ∈ live.erase r ↔ r' ≠ r ∧ r' ∈ live := h.nodup.mem_erase_iff

end DisjointSpans

end TeachingKernel
