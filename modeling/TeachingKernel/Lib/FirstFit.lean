import Mathlib.Data.List.InsertIdx
import Mathlib.Data.Nat.Find
import TeachingKernel.Lib.Spans

/-!
# First fit in a sorted list of spans

A list of spans in an interval, each behind the one before it and the first at the
lower end. The room behind a span reaches to the next one, or to the upper end. The first
room that is large enough begins at the lowest place where a span fits at all.
-/

namespace TeachingKernel

/-- The first point behind the span. -/
def Span.stop (r : Span) : Nat := r.first + r.size

theorem Span.first_le_stop (r : Span) : r.first ≤ r.stop := Nat.le_add_right _ _

theorem pairwise_insertIdx {α : Type} {R : α → α → Prop} {l : List α} {x : α} {k : Nat}
    (h : l.Pairwise R) (hk : k ≤ l.length) (hbefore : ∀ j (hj : j < l.length), j < k → R l[j] x)
    (hafter : ∀ j (hj : j < l.length), k ≤ j → R x l[j]) : (l.insertIdx k x).Pairwise R := by
  have hlen : (l.insertIdx k x).length = l.length + 1 := List.length_insertIdx_of_le_length hk x
  rw [List.pairwise_iff_getElem] at h ⊢
  intro i j hi hj hij
  rw [List.getElem_insertIdx, List.getElem_insertIdx]
  rcases Nat.lt_trichotomy i k with hik | rfl | hik
  · rw [dif_pos hik]
    rcases Nat.lt_trichotomy j k with hjk | rfl | hjk
    · rw [dif_pos hjk]
      exact h i j _ _ hij
    · rw [dif_neg (by omega), dif_pos rfl]
      exact hbefore i _ hik
    · rw [dif_neg (by omega), dif_neg (by omega)]
      exact h i (j - 1) _ _ (by omega)
  · rw [dif_neg (by omega), dif_pos rfl, dif_neg (by omega), dif_neg (by omega)]
    exact hafter (j - 1) _ (by omega)
  · rw [dif_neg (by omega), dif_neg (by omega), dif_neg (by omega), dif_neg (by omega)]
    exact h (i - 1) (j - 1) _ _ (by omega)

namespace FirstFit

variable {lo hi n y i j : Nat} {l : List Span} {r q : Span}

/-- Spans in `[lo, hi)` in order, the first one at `lo`. -/
structure Arranged (lo hi : Nat) (l : List Span) : Prop where
  head : l.head?.map Span.first = some lo
  sorted : l.Pairwise fun a b => a.stop ≤ b.first
  inside : ∀ r ∈ l, lo ≤ r.first ∧ r.stop ≤ hi

def nextFirst (hi : Nat) (l : List Span) (i : Nat) : Nat := l[i + 1]?.elim hi Span.first

/-- `n` points from `y` on lie in the interval and in no span. -/
structure Fits (lo hi : Nat) (l : List Span) (n y : Nat) : Prop where
  lower : lo ≤ y
  upper : y + n ≤ hi
  apart : ∀ r ∈ l, y + n ≤ r.first ∨ r.stop ≤ y

structure IsFirst (hi : Nat) (l : List Span) (n i : Nat) (r : Span) : Prop where
  listed : l[i]? = some r
  room : r.stop + n ≤ nextFirst hi l i
  earliest : ∀ j q, j < i → l[j]? = some q → nextFirst hi l j < q.stop + n

def Full (hi : Nat) (l : List Span) (n : Nat) : Prop :=
  ∀ j q, l[j]? = some q → nextFirst hi l j < q.stop + n

theorem nextFirst_of_some (h : l[i + 1]? = some q) : nextFirst hi l i = q.first := by
  rw [nextFirst, h]
  rfl

theorem nextFirst_of_none (h : l[i + 1]? = none) : nextFirst hi l i = hi := by
  rw [nextFirst, h]
  rfl

theorem exists_isFirst_or_full (hi : Nat) (l : List Span) (n : Nat) :
    (∃ i r, IsFirst hi l n i r) ∨ Full hi l n := by
  by_cases hroom : ∃ i r, l[i]? = some r ∧ r.stop + n ≤ nextFirst hi l i
  · classical
    obtain ⟨r, hr, hlarge⟩ := Nat.find_spec hroom
    refine .inl ⟨Nat.find hroom, r, hr, hlarge, fun j q hj hq => ?_⟩
    have hnot := Nat.find_min hroom hj
    exact Nat.lt_of_not_le fun hle => hnot ⟨q, hq, hle⟩
  · exact .inr fun j q hq => Nat.lt_of_not_le fun hle => hroom ⟨j, q, hq, hle⟩

namespace Arranged

theorem stop_le_first (h : Arranged lo hi l) (hij : i < j) (hr : l[i]? = some r)
    (hq : l[j]? = some q) : r.stop ≤ q.first := by
  obtain ⟨hilt, rfl⟩ := List.getElem?_eq_some_iff.mp hr
  obtain ⟨hjlt, rfl⟩ := List.getElem?_eq_some_iff.mp hq
  exact List.pairwise_iff_getElem.mp h.sorted i j hilt hjlt hij

theorem stop_mono (h : Arranged lo hi l) (hij : i ≤ j) (hr : l[i]? = some r)
    (hq : l[j]? = some q) : r.stop ≤ q.stop := by
  rcases Nat.lt_or_eq_of_le hij with hlt | rfl
  · exact Nat.le_trans (h.stop_le_first hlt hr hq) q.first_le_stop
  · cases hr.symm.trans hq
    exact Nat.le_refl _

theorem stop_le_nextFirst (h : Arranged lo hi l) (hr : l[i]? = some r) :
    r.stop ≤ nextFirst hi l i := by
  cases hnext : l[i + 1]? with
  | none =>
      rw [nextFirst_of_none hnext]
      exact (h.inside r (List.mem_of_getElem? hr)).2
  | some q =>
      rw [nextFirst_of_some hnext]
      exact h.stop_le_first (Nat.lt_succ_self i) hr hnext

theorem nextFirst_le (h : Arranged lo hi l) (i : Nat) : nextFirst hi l i ≤ hi := by
  cases hnext : l[i + 1]? with
  | none => exact Nat.le_of_eq (nextFirst_of_none hnext)
  | some q =>
      rw [nextFirst_of_some hnext]
      exact Nat.le_trans q.first_le_stop (h.inside q (List.mem_of_getElem? hnext)).2

theorem nextFirst_le_first (h : Arranged lo hi l) (hij : i < j) (hq : l[j]? = some q) :
    nextFirst hi l i ≤ q.first := by
  rcases Nat.eq_or_lt_of_le (Nat.succ_le_of_lt hij) with heq | hlt
  · subst heq
    exact Nat.le_of_eq (nextFirst_of_some hq)
  · obtain ⟨q', hq'⟩ : ∃ q', l[i + 1]? = some q' :=
      ⟨_, List.getElem?_eq_getElem (Nat.lt_trans hlt (List.getElem?_eq_some_iff.mp hq).1)⟩
    rw [nextFirst_of_some hq']
    exact Nat.le_trans q'.first_le_stop (h.stop_le_first hlt hq' hq)

theorem head_first (h : Arranged lo hi l) : ∃ r rest, l = r :: rest ∧ r.first = lo := by
  have hhead := h.head
  cases l with
  | nil => cases hhead
  | cons r rest => exact ⟨r, rest, rfl, Option.some.inj hhead⟩

/-- Spans of `k` points or more push the later ones away from the lower end. -/
theorem le_first (h : Arranged lo hi l) {k : Nat} (hk : ∀ r ∈ l, k ≤ r.size)
    (hr : l[i]? = some r) : lo + k * i ≤ r.first := by
  induction i generalizing r with
  | zero => exact (h.inside r (List.mem_of_getElem? hr)).1
  | succ i ih =>
      obtain ⟨q, hq⟩ : ∃ q, l[i]? = some q :=
        ⟨_, List.getElem?_eq_getElem (Nat.lt_of_succ_lt (List.getElem?_eq_some_iff.mp hr).1)⟩
      have hfirst := ih hq
      have hsize := hk q (List.mem_of_getElem? hq)
      have hstop := h.stop_le_first (Nat.lt_succ_self i) hq hr
      rw [Span.stop] at hstop
      rw [Nat.mul_succ]
      omega

theorem length_le (h : Arranged lo hi l) {k : Nat} (hk : ∀ r ∈ l, k ≤ r.size) :
    lo + k * l.length ≤ hi := by
  obtain ⟨r, rest, rfl, -⟩ := h.head_first
  obtain ⟨q, hq⟩ : ∃ q, (r :: rest)[rest.length]? = some q :=
    ⟨_, List.getElem?_eq_getElem (Nat.lt_succ_self _)⟩
  have hmem := List.mem_of_getElem? hq
  have hfirst := h.le_first hk hq
  have hsize := hk q hmem
  have hstop := (h.inside q hmem).2
  rw [Span.stop] at hstop
  rw [List.length_cons, Nat.mul_succ]
  omega

/-- A span that begins at the end of entry `i` and stays in its room keeps the order. -/
theorem insert (h : Arranged lo hi l) (hr : l[i]? = some r)
    (hroom : r.stop + n ≤ nextFirst hi l i) :
    Arranged lo hi (l.insertIdx (i + 1) ⟨r.stop, n⟩) := by
  have hlen : i + 1 ≤ l.length := (List.getElem?_eq_some_iff.mp hr).1
  refine ⟨?_, pairwise_insertIdx h.sorted hlen (fun j hj hji => ?_) fun j hj hij => ?_,
    fun q hq => ?_⟩
  · obtain ⟨q, rest, rfl, hq⟩ := h.head_first
    rw [← hq]
    rfl
  · exact h.stop_mono (Nat.le_of_lt_succ hji) (List.getElem?_eq_getElem hj) hr
  · exact Nat.le_trans hroom (h.nextFirst_le_first hij (List.getElem?_eq_getElem hj))
  · rcases (List.mem_insertIdx hlen).mp hq with rfl | hq
    · have hin := h.inside r (List.mem_of_getElem? hr)
      exact ⟨Nat.le_trans hin.1 r.first_le_stop, Nat.le_trans hroom (h.nextFirst_le i)⟩
    · exact h.inside q hq

end Arranged

/-- A place behind the first span lies in the room behind one of them. -/
theorem exists_room {rest : List Span} (hupper : y + n ≤ hi)
    (hapart : ∀ q ∈ r :: rest, y + n ≤ q.first ∨ q.stop ≤ y) (hr : r.stop ≤ y) :
    ∃ i q, (r :: rest)[i]? = some q ∧ q.stop ≤ y ∧ y + n ≤ nextFirst hi (r :: rest) i := by
  induction rest generalizing r with
  | nil => exact ⟨0, r, rfl, hr, hupper⟩
  | cons q rest ih =>
      rcases hapart q (List.mem_cons_of_mem _ List.mem_cons_self) with hbefore | hbehind
      · exact ⟨0, r, rfl, hr, hbefore⟩
      · obtain ⟨i, q', hi, hq', hnext⟩ :=
          ih (fun q' hq' => hapart q' (List.mem_cons_of_mem _ hq')) hbehind
        exact ⟨i + 1, q', hi, hq', hnext⟩

theorem Arranged.exists_room (h : Arranged lo hi l) (hn : 0 < n) (hy : Fits lo hi l n y) :
    ∃ i r, l[i]? = some r ∧ r.stop ≤ y ∧ y + n ≤ nextFirst hi l i := by
  obtain ⟨r, rest, rfl, hfirst⟩ := h.head_first
  refine FirstFit.exists_room hy.upper hy.apart ?_
  have hlower := hy.lower
  exact (hy.apart r List.mem_cons_self).resolve_left (by omega)

namespace IsFirst

theorem fits (h : Arranged lo hi l) (hfirst : IsFirst hi l n i r) :
    Fits lo hi l n r.stop := by
  have hr := h.inside r (List.mem_of_getElem? hfirst.listed)
  refine ⟨Nat.le_trans hr.1 r.first_le_stop, Nat.le_trans hfirst.room (h.nextFirst_le i),
    fun q hq => ?_⟩
  obtain ⟨j, hj⟩ := List.mem_iff_getElem?.mp hq
  rcases Nat.lt_or_ge i j with hij | hji
  · exact .inl (Nat.le_trans hfirst.room (h.nextFirst_le_first hij hj))
  · exact .inr (h.stop_mono hji hj hfirst.listed)

theorem stop_le (h : Arranged lo hi l) (hfirst : IsFirst hi l n i r) (hn : 0 < n)
    (hy : Fits lo hi l n y) : r.stop ≤ y := by
  obtain ⟨j, q, hj, hq, hnext⟩ := h.exists_room hn hy
  have hij : i ≤ j := by
    by_contra hlt
    have := hfirst.earliest j q (Nat.lt_of_not_le hlt) hj
    omega
  exact Nat.le_trans (h.stop_mono hij hfirst.listed hj) hq

end IsFirst

theorem Full.not_fits (hfull : Full hi l n) (h : Arranged lo hi l) (hn : 0 < n) :
    ¬ Fits lo hi l n y := by
  intro hy
  obtain ⟨j, q, hj, hq, hnext⟩ := h.exists_room hn hy
  have := hfull j q hj
  omega

end FirstFit

end TeachingKernel
