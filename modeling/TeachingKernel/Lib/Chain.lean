import Mathlib.Data.List.Induction
import Mathlib.Data.List.Nodup
import Mathlib.Logic.Function.Basic
import TeachingKernel.Lib.Word

/-!
# Doubly linked chains

Nodes at addresses, each with a pointer to its predecessor and its successor. A
segment is a run of such nodes between two addresses; segments compose by appending,
and changing a pointer at either end of a segment moves that end. The null pointer
is 0.
-/

namespace TeachingKernel.Chain

structure Node (T : Type) where
  prev : Word
  next : Word
  data : T

abbrev Store (T : Type) := Word → Option (Node T)

section

variable {T : Type}

def setPrev (m : Store T) (p v : Word) : Option (Store T) :=
  (m p).map fun n => Function.update m p (some { n with prev := v })

def setNext (m : Store T) (p v : Word) : Option (Store T) :=
  (m p).map fun n => Function.update m p (some { n with next := v })

def delete (m : Store T) (p : Word) : Option (Store T) :=
  (m p).map fun _ => Function.update m p none

/-- The nodes of `cells`, in this order, from address `a` up to `stop`. The first points
back to `prev`. -/
def Segment (m : Store T) : Word → Word → List (Word × T) → Word → Prop
  | _, a, [], stop => a = stop
  | prev, a, (b, x) :: rest, stop =>
      a = b ∧ b ≠ 0 ∧ ∃ next, m b = some ⟨prev, next, x⟩ ∧ Segment m b next rest stop

def lastOf (prev : Word) : List (Word × T) → Word
  | [] => prev
  | (b, _) :: rest => lastOf b rest

def firstOf (stop : Word) : List (Word × T) → Word
  | [] => stop
  | (b, _) :: _ => b

variable {m m' : Store T} {prev a b stop v : Word} {x : T} {xs ys cells : List (Word × T)}

theorem lastOf_append : lastOf prev (xs ++ ys) = lastOf (lastOf prev xs) ys := by
  induction xs generalizing prev with
  | nil => rfl
  | cons c rest ih => exact ih

theorem segment_append : Segment m prev a (xs ++ ys) stop ↔
    ∃ b, Segment m prev a xs b ∧ Segment m (lastOf prev xs) b ys stop := by
  induction xs generalizing prev a with
  | nil => simp [Segment, lastOf]
  | cons c rest ih =>
      obtain ⟨c, x⟩ := c
      simp only [List.cons_append, Segment, lastOf, ih]
      constructor
      · rintro ⟨rfl, hc, next, hnode, b, hrest, hys⟩
        exact ⟨b, ⟨rfl, hc, next, hnode, hrest⟩, hys⟩
      · rintro ⟨b, ⟨rfl, hc, next, hnode, hrest⟩, hys⟩
        exact ⟨rfl, hc, next, hnode, b, hrest, hys⟩

theorem segment_snoc : Segment m prev a (xs ++ [(b, x)]) stop ↔
    Segment m prev a xs b ∧ b ≠ 0 ∧ m b = some ⟨lastOf prev xs, stop, x⟩ := by
  rw [segment_append]
  constructor
  · rintro ⟨_, hxs, rfl, hb, next, hnode, hstop⟩
    cases hstop
    exact ⟨hxs, hb, hnode⟩
  · rintro ⟨hxs, hb, hnode⟩
    exact ⟨b, hxs, rfl, hb, stop, hnode, rfl⟩

theorem Segment.congr (h : Segment m prev a cells stop)
    (hm : ∀ b ∈ cells.map Prod.fst, m' b = m b) : Segment m' prev a cells stop := by
  induction cells generalizing prev a with
  | nil => exact h
  | cons c rest ih =>
      obtain ⟨hac, hc, next, hnode, hrest⟩ := h
      refine ⟨hac, hc, next, ?_, ih hrest fun b hb => hm b (List.mem_cons_of_mem _ hb)⟩
      rw [hm c.1 List.mem_cons_self]
      exact hnode

theorem Segment.ne_zero (h : Segment m prev a cells stop) (hb : b ∈ cells.map Prod.fst) :
    b ≠ 0 := by
  induction cells generalizing prev a with
  | nil => cases hb
  | cons c rest ih =>
      obtain ⟨-, hc, next, -, hrest⟩ := h
      rcases List.mem_cons.mp hb with rfl | hb
      · exact hc
      · exact ih hrest hb

theorem Segment.isSome (h : Segment m prev a cells stop) (hb : b ∈ cells.map Prod.fst) :
    (m b).isSome := by
  induction cells generalizing prev a with
  | nil => cases hb
  | cons c rest ih =>
      obtain ⟨-, -, next, hnode, hrest⟩ := h
      rcases List.mem_cons.mp hb with rfl | hb
      · show (m c.1).isSome
        rw [hnode]
        rfl
      · exact ih hrest hb

theorem Segment.start_eq (h : Segment m prev a cells stop) : a = firstOf stop cells := by
  cases cells with
  | nil => exact h
  | cons c rest => exact h.1

/-- Changing the pointer of the last node makes the segment end elsewhere. -/
theorem Segment.setNext (h : Segment m prev a (xs ++ [(b, x)]) stop)
    (hb : b ∉ xs.map Prod.fst) (v : Word) : ∃ m', Chain.setNext m b v = some m' ∧
      Segment m' prev a (xs ++ [(b, x)]) v ∧ ∀ c, c ≠ b → m' c = m c := by
  obtain ⟨hxs, hne, hnode⟩ := segment_snoc.mp h
  have hkeep : ∀ c, c ≠ b →
      Function.update m b (some ⟨lastOf prev xs, v, x⟩) c = m c := fun c hc =>
    Function.update_of_ne hc _ _
  refine ⟨Function.update m b (some ⟨lastOf prev xs, v, x⟩), by rw [Chain.setNext, hnode]; rfl,
    segment_snoc.mpr ⟨hxs.congr fun c hc => hkeep c ?_, hne, Function.update_self ..⟩, hkeep⟩
  rintro rfl
  exact hb hc

/-- Changing the back pointer of the first node. -/
theorem Segment.setPrev (h : Segment m prev a ((b, x) :: xs) stop)
    (hb : b ∉ xs.map Prod.fst) (v : Word) : ∃ m', Chain.setPrev m b v = some m' ∧
      Segment m' v a ((b, x) :: xs) stop ∧ ∀ c, c ≠ b → m' c = m c := by
  obtain ⟨rfl, hne, next, hnode, hrest⟩ := h
  have hkeep : ∀ c, c ≠ a → Function.update m a (some ⟨v, next, x⟩) c = m c := fun c hc =>
    Function.update_of_ne hc _ _
  refine ⟨Function.update m a (some ⟨v, next, x⟩), by rw [Chain.setPrev, hnode]; rfl,
    ⟨rfl, hne, next, Function.update_self .., hrest.congr fun c hc => hkeep c ?_⟩, hkeep⟩
  rintro rfl
  exact hb hc

theorem delete_eq (h : (m b).isSome) : delete m b = some (Function.update m b none) := by
  obtain ⟨n, hn⟩ := Option.isSome_iff_exists.mp h
  rw [delete, hn]
  rfl

/-! Changing a pointer needs the node and makes no new one. -/

theorem isSome_of_setPrev (h : setPrev m a v = some m') (hb : (m' b).isSome) : (m b).isSome := by
  obtain ⟨n, hn, rfl⟩ := Option.map_eq_some_iff.mp h
  by_cases hba : b = a
  · rw [hba, hn]
    rfl
  · rwa [Function.update_of_ne hba] at hb

theorem isSome_of_setNext (h : setNext m a v = some m') (hb : (m' b).isSome) : (m b).isSome := by
  obtain ⟨n, hn, rfl⟩ := Option.map_eq_some_iff.mp h
  by_cases hba : b = a
  · rw [hba, hn]
    rfl
  · rwa [Function.update_of_ne hba] at hb

theorem isSome_of_delete (h : delete m a = some m') (hb : (m' b).isSome) : (m b).isSome := by
  obtain ⟨n, hn, rfl⟩ := Option.map_eq_some_iff.mp h
  by_cases hba : b = a
  · rw [hba, hn]
    rfl
  · rwa [Function.update_of_ne hba] at hb

/-- The data from address `a` on, following at most `n` pointers. -/
def walk (m : Store T) : Nat → Word → List T
  | 0, _ => []
  | n + 1, a =>
      if a = 0 then []
      else match m a with
        | some node => node.data :: walk m n node.next
        | none => []

theorem Segment.walk (h : Segment m prev a cells 0) :
    Chain.walk m cells.length a = cells.map Prod.snd := by
  induction cells generalizing prev a with
  | nil => rfl
  | cons c rest ih =>
      obtain ⟨rfl, hc, next, hnode, hrest⟩ := h
      rw [List.length_cons, Chain.walk, if_neg hc, hnode]
      exact congrArg (c.2 :: ·) (ih hrest)

/-- Following `link` from `a` visits the nodes of `cells`, in this order, and then `stop`. -/
def Follows (m : Store T) (link : Node T → Word) : Word → List (Word × T) → Word → Prop
  | a, [], stop => a = stop
  | a, (b, x) :: rest, stop =>
      a = b ∧ b ≠ 0 ∧ ∃ n, m b = some n ∧ n.data = x ∧ Follows m link (link n) rest stop

theorem Segment.follows_next (h : Segment m prev a cells stop) :
    Follows m Node.next a cells stop := by
  induction cells generalizing prev a with
  | nil => exact h
  | cons c rest ih =>
      obtain ⟨hac, hc, next, hnode, hrest⟩ := h
      exact ⟨hac, hc, _, hnode, rfl, ih hrest⟩

theorem Segment.follows_prev (h : Segment m prev a cells stop) :
    Follows m Node.prev (lastOf prev cells) cells.reverse prev := by
  induction cells using List.reverseRecOn generalizing stop with
  | nil => rfl
  | append_singleton xs c ih =>
      obtain ⟨hxs, hc, hnode⟩ := segment_snoc.mp h
      rw [lastOf_append, List.reverse_append]
      exact ⟨rfl, hc, _, hnode, rfl, ih hxs⟩

/-- Distinct addresses other than null are fewer than `2 ^ 32`. -/
theorem length_lt_of_nodup {l : List Word} (h : l.Nodup) (hzero : ∀ a ∈ l, a ≠ 0) :
    l.length < 2 ^ 32 := by
  have hnodup : ((0 :: l).map BitVec.toNat).Nodup :=
    List.Nodup.map (fun _ _ hab => BitVec.eq_of_toNat_eq hab)
      (List.nodup_cons.mpr ⟨fun h0 => hzero 0 h0 rfl, h⟩)
  have hsub : (0 :: l).map BitVec.toNat ⊆ List.range (2 ^ 32) := by
    intro n hn
    obtain ⟨a, -, rfl⟩ := List.mem_map.mp hn
    exact List.mem_range.mpr a.isLt
  have hle := hnodup.length_le_of_subset hsub
  rw [List.length_map, List.length_cons, List.length_range] at hle
  omega

end

end TeachingKernel.Chain
