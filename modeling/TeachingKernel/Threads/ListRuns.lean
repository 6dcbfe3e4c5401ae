import TeachingKernel.Lib.Runs
import TeachingKernel.Threads.LinkedList

/-!
# Sequences of list operations

The node graph holds the sequence that the same operations make of a mathematical list.
-/

namespace TeachingKernel.Threads

open Chain Runs

inductive ListOp (T : Type) where
  | pushBack (x : T) (newNode : Word)
  | pushFront (x : T) (newNode : Word)
  | popFront
  | remove (val : T)

section

variable {T : Type}

def ListOp.apply [DecidableEq T] : ListOp T → List T → List T
  | .pushBack x _, xs => xs ++ [x]
  | .pushFront x _, xs => x :: xs
  | .popFront, xs => xs.tail
  | .remove val, xs => xs.filter (· ≠ val)

def ListOp.exec [DecidableEq T] : ListOp T → LinkedList T → Option (LinkedList T)
  | .pushBack x newNode, l => l.pushBack x newNode
  | .pushFront x newNode, l => l.pushFront x newNode
  | .popFront, l => l.popFront
  | .remove val, l => l.remove val

/-- `new` answers a node that is not in use. -/
def ListOp.Allowed (l : LinkedList T) : ListOp T → Prop
  | .pushBack _ newNode => l.Fresh newNode
  | .pushFront _ newNode => l.Fresh newNode
  | _ => True

instance (l : LinkedList T) (op : ListOp T) : Decidable (op.Allowed l) :=
  match op with
  | .pushBack _ newNode => inferInstanceAs (Decidable (l.Fresh newNode))
  | .pushFront _ newNode => inferInstanceAs (Decidable (l.Fresh newNode))
  | .popFront => inferInstanceAs (Decidable True)
  | .remove _ => inferInstanceAs (Decidable True)

structure HoldsSequence (l : LinkedList T) (xs : List T) : Prop where
  graph : ∃ cells : List (Word × T), cells.map Prod.snd = xs ∧ (cells.map Prod.fst).Nodup ∧
    Follows l.nodes Node.next l.head cells 0 ∧ l.tail = lastOf 0 cells ∧
    Follows l.nodes Node.prev l.tail cells.reverse 0 ∧ l.head = lastOf 0 cells.reverse
  len_eq : l.len.toNat = xs.length
  head_null : l.head = 0 ↔ l.len = 0
  tail_null : l.tail = 0 ↔ l.len = 0
  head_prev : ∀ n, l.head ≠ 0 → l.nodes l.head = some n → n.prev = 0
  tail_next : ∀ n, l.tail ≠ 0 → l.nodes l.tail = some n → n.next = 0
  front_eq : l.front = some xs.head?
  back_eq : l.back = some xs.getLast?
  size_eq : l.size.toNat = xs.length

variable {l l' : LinkedList T} {cells : List (Word × T)} {op : ListOp T}

theorem LinkedList.Represents.holdsSequence (h : l.Represents cells) :
    HoldsSequence l (cells.map Prod.snd) := by
  have hlen : l.len.toNat = (cells.map Prod.snd).length := by rw [h.len_eq, List.length_map]
  have hnull := h.len_eq_zero
  have hprev := h.chain.follows_prev
  rw [← h.tail_eq] at hprev
  refine ⟨⟨cells, rfl, h.nodup, h.chain.follows_next, h.tail_eq, hprev, ?_⟩, hlen, ?_, ?_, ?_, ?_,
    h.front, h.back, hlen⟩
  · rw [h.chain.start_eq]
    cases cells with
    | nil => rfl
    | cons c rest =>
        rw [List.reverse_cons, lastOf_append]
        rfl
  · rw [hnull, h.chain.start_eq]
    cases cells with
    | nil => exact ⟨fun _ => rfl, fun _ => rfl⟩
    | cons c rest =>
        exact ⟨fun hzero => absurd hzero h.chain.2.1, fun hnil => by cases hnil⟩
  · rw [hnull, h.tail_eq]
    rcases List.eq_nil_or_concat' cells with rfl | ⟨xs, c, rfl⟩
    · exact ⟨fun _ => rfl, fun _ => rfl⟩
    · rw [lastOf_append]
      exact ⟨fun hzero => absurd hzero (segment_snoc.mp h.chain).2.1, fun hnil => by simp at hnil⟩
  · intro n hne hn
    cases cells with
    | nil => exact absurd h.chain hne
    | cons c rest =>
        obtain ⟨hhead, -, next, hnode, -⟩ := h.chain
        rw [hhead, hnode] at hn
        cases hn
        rfl
  · intro n hne hn
    rcases List.eq_nil_or_concat' cells with rfl | ⟨xs, c, rfl⟩
    · exact absurd h.tail_eq hne
    · obtain ⟨-, -, hnode⟩ := segment_snoc.mp h.chain
      have htail := h.tail_eq
      rw [lastOf_append] at htail
      rw [htail] at hn
      cases hn.symm.trans hnode
      rfl

variable [DecidableEq T]

theorem LinkedList.Represents.exec (h : l.Represents cells) (hop : op.Allowed l) :
    ∃ l' cells', op.exec l = some l' ∧ l'.Represents cells' ∧
      cells'.map Prod.snd = op.apply (cells.map Prod.snd) := by
  cases op with
  | pushBack x newNode =>
      obtain ⟨l', hrun, hl'⟩ := h.pushBack hop x
      exact ⟨l', _, hrun, hl', List.map_append⟩
  | pushFront x newNode =>
      obtain ⟨l', hrun, hl'⟩ := h.pushFront hop x
      exact ⟨l', _, hrun, hl', rfl⟩
  | popFront =>
      obtain ⟨l', hrun, hl'⟩ := h.popFront
      exact ⟨l', _, hrun, hl', List.map_tail⟩
  | remove val =>
      obtain ⟨l', hrun, hl'⟩ := h.remove val
      refine ⟨l', _, hrun, hl', ?_⟩
      rw [ListOp.apply, List.filter_map]
      rfl

def ListStep (s : LinkedList T × List T) (op : ListOp T) (t : LinkedList T × List T) : Prop :=
  op.Allowed s.1 ∧ op.exec s.1 = some t.1 ∧ t.2 = op.apply s.2

def execBoth (s : LinkedList T × List T) (op : ListOp T) : Option (LinkedList T × List T) :=
  if op.Allowed s.1 then (op.exec s.1).map fun l => (l, op.apply s.2) else none

theorem listStep_of_execBoth {s t : LinkedList T × List T} (h : execBoth s op = some t) :
    ListStep s op t := by
  rw [execBoth] at h
  split at h
  · obtain ⟨l, hexec, rfl⟩ := Option.map_eq_some_iff.mp h
    exact ⟨by assumption, hexec, rfl⟩
  · cases h

/-- After every sequence of operations on the empty list the nodes hold the sequence, and
every further operation returns. -/
theorem nodes_hold_sequence {nodes : Store T} {run : List (ListOp T × LinkedList T × List T)}
    (hrun : IsRun ListStep (.empty nodes, []) run) :
    EveryState (fun s => HoldsSequence s.1 s.2 ∧
      ∀ op : ListOp T, op.Allowed s.1 → (op.exec s.1).isSome) (.empty nodes, []) run := by
  have hstep : ∀ (s : LinkedList T × List T) op t,
      (∃ cells, s.1.Represents cells ∧ cells.map Prod.snd = s.2) → ListStep s op t →
        ∃ cells, t.1.Represents cells ∧ cells.map Prod.snd = t.2 := by
    rintro s op t ⟨cells, hs, hxs⟩ ⟨hop, hexec, ht⟩
    obtain ⟨l', cells', hrun, hl', hcells'⟩ := hs.exec hop
    cases hexec.symm.trans hrun
    exact ⟨cells', hl', by rw [hcells', ht, hxs]⟩
  refine (everyState_of_step hstep ⟨[], LinkedList.represents_empty nodes, rfl⟩ hrun).imp ?_
  rintro s ⟨cells, hs, hxs⟩
  refine ⟨hxs ▸ hs.holdsSequence, fun op hop => ?_⟩
  obtain ⟨l', -, hexec, -⟩ := hs.exec hop
  rw [hexec]
  rfl

end

def removeTwice : List (ListOp Nat) :=
  [.pushBack 5 16, .pushFront 7 32, .pushBack 5 48, .pushBack 9 64, .remove 5, .popFront]

theorem nodes_hold_sequence_removeTwice : ∃ run,
    IsRun ListStep (.empty fun _ => none, []) run ∧ run.map Prod.fst = removeTwice ∧
      EveryState (fun s => HoldsSequence s.1 s.2 ∧
        ∀ op : ListOp Nat, op.Allowed s.1 → (op.exec s.1).isSome)
        (.empty fun _ => none, []) run := by
  have h : (runOf execBoth (.empty fun _ => none, []) removeTwice).isSome := by
    decide +kernel
  obtain ⟨run, hrun⟩ := Option.isSome_iff_exists.mp h
  have hsteps := isRun_of_runOf (fun _ _ _ => listStep_of_execBoth) hrun
  exact ⟨run, hsteps, labels_of_runOf hrun, nodes_hold_sequence hsteps⟩

end TeachingKernel.Threads
