import TeachingKernel.Lib.Chain

/-!
# The linked list

`LinkedList` of P5 and P6 with the nodes in memory. A pointer that is followed must
point to a node; otherwise the operation is `none`. `new` answers the address that a
push is given.
-/

namespace TeachingKernel.Threads

open Chain

structure LinkedList (T : Type) where
  len : Word
  head : Word
  tail : Word
  nodes : Store T

namespace LinkedList

variable {T : Type}

def empty (nodes : Store T) : LinkedList T := ⟨0, 0, 0, nodes⟩

def pushBack (x : T) (newNode : Word) (l : LinkedList T) : Option (LinkedList T) :=
  let nodes := Function.update l.nodes newNode (some ⟨0, 0, x⟩)
  if l.len = 0 then some ⟨l.len + 1, newNode, newNode, nodes⟩
  else do
    let nodes ← setPrev nodes newNode l.tail
    let nodes ← setNext nodes l.tail newNode
    some ⟨l.len + 1, l.head, newNode, nodes⟩

def pushFront (x : T) (newNode : Word) (l : LinkedList T) : Option (LinkedList T) :=
  let nodes := Function.update l.nodes newNode (some ⟨0, 0, x⟩)
  if l.len = 0 then some ⟨l.len + 1, newNode, newNode, nodes⟩
  else do
    let nodes ← setNext nodes newNode l.head
    let nodes ← setPrev nodes l.head newNode
    some ⟨l.len + 1, newNode, l.tail, nodes⟩

def popFront (l : LinkedList T) : Option (LinkedList T) :=
  if l.len ≠ 0 then
    if l.len = 1 then (delete l.nodes l.head).map fun nodes => ⟨l.len - 1, 0, 0, nodes⟩
    else do
      let t ← l.nodes l.head
      let nodes ← setPrev l.nodes t.next 0
      let nodes ← delete nodes l.head
      some ⟨l.len - 1, t.next, l.tail, nodes⟩
  else some l

def front (l : LinkedList T) : Option (Option T) :=
  if l.head ≠ 0 then (l.nodes l.head).map fun n => some n.data else some none

def back (l : LinkedList T) : Option (Option T) :=
  if l.tail ≠ 0 then (l.nodes l.tail).map fun n => some n.data else some none

def size (l : LinkedList T) : Word := l.len

/-- The pointer changes of `remove` that take `node`, which holds `n`, out of the chain. -/
def unlink (node : Word) (n : Node T) (l : LinkedList T) : Option (LinkedList T) :=
  if node = l.head ∧ node = l.tail then some { l with head := 0, tail := 0 }
  else if node = l.head then
    (setPrev l.nodes n.next 0).map fun nodes => { l with head := n.next, nodes := nodes }
  else if node = l.tail then
    (setNext l.nodes n.prev 0).map fun nodes => { l with tail := n.prev, nodes := nodes }
  else do
    let nodes ← setNext l.nodes n.prev n.next
    let nodes ← setPrev nodes n.next n.prev
    some { l with nodes := nodes }

def removeNode (node : Word) (l : LinkedList T) : Option (LinkedList T) := do
  let n ← l.nodes node
  let l ← l.unlink node n
  let nodes ← delete l.nodes node
  some { l with nodes := nodes, len := l.len - 1 }

/-- The loop of `remove` over the nodes from `cur` on, for at most `fuel` rounds. -/
def removeFrom [DecidableEq T] (val : T) : Nat → Word → LinkedList T → Option (LinkedList T)
  | 0, _, _ => none
  | fuel + 1, cur, l =>
      if cur = 0 then some l
      else (l.nodes cur).bind fun n =>
        (if n.data = val then l.removeNode cur else some l).bind (removeFrom val fuel n.next)

def remove [DecidableEq T] (val : T) (l : LinkedList T) : Option (LinkedList T) :=
  removeFrom val (l.len.toNat + 1) l.head l

def toList (l : LinkedList T) : List T := walk l.nodes l.len.toNat l.head

/-! ## The nodes of a list -/

structure Represents (l : LinkedList T) (cells : List (Word × T)) : Prop where
  chain : Segment l.nodes 0 l.head cells 0
  nodup : (cells.map Prod.fst).Nodup
  tail_eq : l.tail = lastOf 0 cells
  len_eq : l.len.toNat = cells.length

def Fresh (l : LinkedList T) (a : Word) : Prop := a ≠ 0 ∧ l.nodes a = none

instance (l : LinkedList T) (a : Word) : Decidable (l.Fresh a) :=
  inferInstanceAs (Decidable (_ ∧ _))

section

variable {l l' : LinkedList T} {cells xs ys : List (Word × T)} {a b : Word} {x val : T}

theorem represents_empty (nodes : Store T) : Represents (empty nodes) [] :=
  ⟨rfl, List.nodup_nil, rfl, rfl⟩

theorem Represents.toList (h : Represents l cells) : l.toList = cells.map Prod.snd := by
  rw [LinkedList.toList, h.len_eq]
  exact h.chain.walk

theorem Represents.notMem (h : Represents l cells) (ha : l.Fresh a) : a ∉ cells.map Prod.fst := by
  intro hmem
  have hsome := h.chain.isSome hmem
  rw [ha.2] at hsome
  cases hsome

theorem Represents.len_eq_zero (h : Represents l cells) : l.len = 0 ↔ cells = [] := by
  have hlen := h.len_eq
  constructor
  · intro hzero
    rw [hzero] at hlen
    exact List.length_eq_zero_iff.mp hlen.symm
  · rintro rfl
    exact BitVec.eq_of_toNat_eq hlen

private theorem fresh_length_lt (h : Represents l cells) (ha : l.Fresh a) :
    cells.length + 1 < 2 ^ 32 := by
  have hlt := length_lt_of_nodup (List.nodup_cons.mpr ⟨h.notMem ha, h.nodup⟩) fun b hb =>
    (List.mem_cons.mp hb).elim (fun heq => heq ▸ ha.1) fun hb => h.chain.ne_zero hb
  rwa [List.length_cons, List.length_map] at hlt

private theorem len_succ (h : Represents l cells) (ha : l.Fresh a) :
    (l.len + 1).toNat = cells.length + 1 := by
  have hlt := fresh_length_lt h ha
  rw [toNat_add_one (by rw [h.len_eq]; exact hlt), h.len_eq]

private theorem len_pred (h : Represents l cells) (hne : cells ≠ []) :
    (l.len - 1).toNat = cells.length - 1 := by
  have hpos := List.length_pos_of_ne_nil hne
  rw [toNat_sub_one (by rw [h.len_eq]; exact hpos), h.len_eq]

theorem Represents.pushBack (h : Represents l cells) (ha : l.Fresh a) (x : T) :
    ∃ l', l.pushBack x a = some l' ∧ Represents l' (cells ++ [(a, x)]) := by
  have hmem := h.notMem ha
  have hlen := len_succ h ha
  have hnodup : ((cells ++ [(a, x)]).map Prod.fst).Nodup := by
    rw [List.map_append]
    refine List.nodup_append.mpr ⟨h.nodup, List.nodup_singleton a, fun b hb c hc heq => hmem ?_⟩
    obtain rfl : c = a := List.mem_singleton.mp hc
    rwa [← heq]
  have hcount : (cells ++ [(a, x)]).length = cells.length + 1 := List.length_append
  have hchain : Segment (Function.update l.nodes a (some ⟨0, 0, x⟩)) 0 l.head cells 0 :=
    h.chain.congr fun b hb => Function.update_of_ne (fun heq => hmem (by rwa [← heq])) _ _
  rcases List.eq_nil_or_concat' cells with rfl | ⟨ys, ⟨t, y⟩, rfl⟩
  · refine ⟨_, if_pos (h.len_eq_zero.mpr rfl), ⟨?_, hnodup, rfl, by rw [hcount]; exact hlen⟩⟩
    exact ⟨rfl, ha.1, 0, Function.update_self .., rfl⟩
  · have hne : l.len ≠ 0 := fun hzero => by simpa using h.len_eq_zero.mp hzero
    have htail : l.tail = t := by rw [h.tail_eq, lastOf_append]; rfl
    have hta : t ≠ a := by
      rintro rfl
      exact hmem (by simp)
    have htys : t ∉ ys.map Prod.fst := by
      have hsplit := h.nodup
      rw [List.map_append] at hsplit
      exact fun ht => (List.nodup_append.mp hsplit).2.2 t ht t (by simp) rfl
    let m₀ := Function.update l.nodes a (some ⟨0, 0, x⟩)
    let m₁ := Function.update m₀ a (some ⟨t, 0, x⟩)
    have hset₁ : setPrev m₀ a t = some m₁ := by
      rw [setPrev, show m₀ a = some ⟨0, 0, x⟩ from Function.update_self ..]
      rfl
    have hchain₁ : Segment m₁ 0 l.head (ys ++ [(t, y)]) 0 := hchain.congr fun b hb =>
      Function.update_of_ne (fun heq => hmem (by rwa [← heq])) _ _
    obtain ⟨m₂, hset₂, hchain₂, hkept⟩ := hchain₁.setNext htys a
    refine ⟨⟨l.len + 1, l.head, a, m₂⟩, ?_, ⟨?_, hnodup, ?_, by rw [hcount]; exact hlen⟩⟩
    · rw [LinkedList.pushBack, if_neg hne, htail]
      show (setPrev m₀ a t >>= _) = _
      rw [hset₁]
      show (setNext m₁ t a >>= _) = _
      rw [hset₂]
      rfl
    · refine segment_snoc.mpr ⟨hchain₂, ha.1, ?_⟩
      show m₂ a = _
      rw [hkept a hta.symm, lastOf_append]
      exact Function.update_self ..
    · rw [lastOf_append]
      rfl

theorem Represents.pushFront (h : Represents l cells) (ha : l.Fresh a) (x : T) :
    ∃ l', l.pushFront x a = some l' ∧ Represents l' ((a, x) :: cells) := by
  have hmem := h.notMem ha
  have hlen := len_succ h ha
  have hnodup : (((a, x) :: cells).map Prod.fst).Nodup := List.nodup_cons.mpr ⟨hmem, h.nodup⟩
  match cells with
  | [] =>
      refine ⟨_, if_pos (h.len_eq_zero.mpr rfl), ⟨?_, hnodup, rfl, hlen⟩⟩
      exact ⟨rfl, ha.1, 0, Function.update_self .., rfl⟩
  | (b, y) :: rest =>
      have hne : l.len ≠ 0 := fun hzero => by simpa using h.len_eq_zero.mp hzero
      have hb := (List.nodup_cons.mp h.nodup).1
      have hhead : l.head = b := h.chain.1
      have hab : a ≠ b := by
        rintro rfl
        exact hmem List.mem_cons_self
      let m₀ := Function.update l.nodes a (some ⟨0, 0, x⟩)
      let m₁ := Function.update m₀ a (some ⟨0, b, x⟩)
      have hset₁ : setNext m₀ a b = some m₁ := by
        rw [setNext, show m₀ a = some ⟨0, 0, x⟩ from Function.update_self ..]
        rfl
      have hchain₁ : Segment m₁ 0 l.head ((b, y) :: rest) 0 := h.chain.congr fun c hc => by
        have hca : c ≠ a := fun heq => hmem (by rwa [← heq])
        exact (Function.update_of_ne hca _ _).trans (Function.update_of_ne hca _ _)
      obtain ⟨m₂, hset₂, hchain₂, hkept⟩ := hchain₁.setPrev hb a
      rw [hhead] at hchain₂
      refine ⟨⟨l.len + 1, a, l.tail, m₂⟩, ?_, ⟨rfl, ha.1, b, ?_, hchain₂⟩, hnodup, h.tail_eq, hlen⟩
      · rw [LinkedList.pushFront, if_neg hne, hhead]
        show (setNext m₀ a b >>= _) = _
        rw [hset₁]
        show (setPrev m₁ b a >>= _) = _
        rw [hset₂]
        rfl
      · show m₂ a = _
        rw [hkept a hab]
        exact Function.update_self ..

theorem Represents.front (h : Represents l cells) :
    l.front = some (cells.map Prod.snd).head? := by
  cases cells with
  | nil => exact if_neg fun hne => hne h.chain
  | cons c rest =>
      obtain ⟨hhead, hne, next, hnode, -⟩ := h.chain
      rw [LinkedList.front, hhead, if_pos hne, hnode]
      rfl

theorem Represents.back (h : Represents l cells) :
    l.back = some (cells.map Prod.snd).getLast? := by
  have htail := h.tail_eq
  rcases List.eq_nil_or_concat' cells with rfl | ⟨rest, ⟨b, x⟩, rfl⟩
  · exact if_neg fun hne => hne htail
  · obtain ⟨-, hne, hnode⟩ := segment_snoc.mp h.chain
    rw [lastOf_append] at htail
    rw [LinkedList.back, htail]
    show (if b ≠ 0 then (l.nodes b).map _ else _) = _
    rw [if_pos hne, hnode, List.map_append, List.getLast?_append]
    rfl

theorem Represents.popFront (h : Represents l cells) :
    ∃ l', l.popFront = some l' ∧ Represents l' cells.tail := by
  match cells, h with
  | [], h =>
      refine ⟨l, if_neg fun hne => hne (h.len_eq_zero.mpr rfl), h⟩
  | [(b, x)], h =>
      have hlen : l.len = 1 := BitVec.eq_of_toNat_eq h.len_eq
      obtain ⟨hhead, -, -⟩ := h.chain
      have hdel := delete_eq (h.chain.isSome (b := b) (by simp))
      refine ⟨⟨l.len - 1, 0, 0, Function.update l.nodes b none⟩, ?_, rfl, List.nodup_nil, rfl,
        len_pred h (by simp)⟩
      rw [LinkedList.popFront, hlen, if_pos (by decide), if_pos rfl, hhead, hdel]
      rfl
  | (b, x) :: (c, y) :: rest, h =>
      have hlen := h.len_eq
      have hzero : l.len ≠ 0 := fun hzero => by simpa using h.len_eq_zero.mp hzero
      have hone : l.len ≠ 1 := by
        intro hone
        rw [hone] at hlen
        simp at hlen
      have hnodup := h.nodup
      simp only [List.map_cons, List.nodup_cons] at hnodup
      obtain ⟨hb, hc, hrest⟩ := hnodup
      obtain ⟨hhead, hb0, next, hnode, hchain⟩ := h.chain
      obtain rfl : next = c := hchain.1
      obtain ⟨m, hset, hchain', hkept⟩ := hchain.setPrev hc 0
      have hbc : b ≠ next := fun heq => hb (heq ▸ List.mem_cons_self)
      have hbm : m b = some ⟨0, next, x⟩ := (hkept b hbc).trans hnode
      have hdel : delete m b = some (Function.update m b none) := delete_eq (by rw [hbm]; rfl)
      refine ⟨⟨l.len - 1, next, l.tail, Function.update m b none⟩, ?_, ?_,
        List.nodup_cons.mpr ⟨hc, hrest⟩, ?_, len_pred h (by simp)⟩
      · rw [LinkedList.popFront, if_pos hzero, if_neg hone, hhead, hnode]
        show (setPrev l.nodes next 0 >>= _) = _
        rw [hset]
        show (delete m b >>= _) = _
        rw [hdel]
        rfl
      · refine hchain'.congr fun d hd => Function.update_of_ne ?_ _ _
        rintro rfl
        exact hb hd
      · rw [h.tail_eq]
        rfl

/-- The chain without node `b`, whose node is still there. -/
private structure Unlinked (l l' : LinkedList T) (b : Word) (cells : List (Word × T)) : Prop where
  chain : Segment l'.nodes 0 l'.head cells 0
  tail_eq : l'.tail = lastOf 0 cells
  len_eq : l'.len = l.len
  isSome : (l'.nodes b).isSome

private structure Standing (l : LinkedList T) (xs : List (Word × T)) (b : Word) (x : T)
    (ys : List (Word × T)) : Prop where
  before : Segment l.nodes 0 l.head xs b
  node : l.nodes b = some ⟨lastOf 0 xs, firstOf 0 ys, x⟩
  after : Segment l.nodes b (firstOf 0 ys) ys 0
  tail_eq : l.tail = lastOf b ys
  nodup : (xs.map Prod.fst).Nodup
  notMem : b ∉ xs.map Prod.fst
  notMem_after : b ∉ ys.map Prod.fst
  nodup_after : (ys.map Prod.fst).Nodup
  apart : ∀ c ∈ xs.map Prod.fst, ∀ d ∈ ys.map Prod.fst, c ≠ d

private theorem Represents.standing (h : Represents l (xs ++ (b, x) :: ys)) :
    Standing l xs b x ys := by
  have hnodup := h.nodup
  rw [List.map_append, List.map_cons] at hnodup
  obtain ⟨hxs, hbys, hapart⟩ := List.nodup_append.mp hnodup
  obtain ⟨hb, hys⟩ := List.nodup_cons.mp hbys
  obtain ⟨c, hbefore, rfl, -, next, hnode, hafter⟩ := segment_append.mp h.chain
  obtain rfl := hafter.start_eq
  have htail := h.tail_eq
  rw [lastOf_append] at htail
  exact ⟨hbefore, hnode, hafter, htail, hxs, fun hmem => hapart c hmem c List.mem_cons_self rfl,
    hb, hys, fun d hd e he => hapart d hd e (List.mem_cons_of_mem _ he)⟩

private theorem Standing.head_iff (h : Standing l xs b x ys) : b = l.head ↔ xs = [] := by
  rw [h.before.start_eq]
  cases xs with
  | nil => exact ⟨fun _ => rfl, fun _ => rfl⟩
  | cons e rest =>
      refine ⟨fun heq => absurd ?_ h.notMem, fun hnil => by cases hnil⟩
      rw [heq]
      exact List.mem_cons_self

private theorem Standing.tail_iff (h : Standing l xs b x ys) : b = l.tail ↔ ys = [] := by
  rw [h.tail_eq]
  rcases List.eq_nil_or_concat' ys with rfl | ⟨rest, e, rfl⟩
  · exact ⟨fun _ => rfl, fun _ => rfl⟩
  · refine ⟨fun heq => absurd ?_ h.notMem_after, fun hnil => by simp at hnil⟩
    rw [lastOf_append] at heq
    rw [heq]
    simp [lastOf]

private theorem Standing.isSome (h : Standing l xs b x ys) {m : Store T}
    (hkept : m b = l.nodes b) : (m b).isSome := by
  rw [hkept, h.node]
  rfl

private theorem Standing.unlink_alone (h : Standing l [] b x []) :
    ∃ l', l.unlink b ⟨0, 0, x⟩ = some l' ∧ Unlinked l l' b [] :=
  ⟨_, if_pos ⟨h.head_iff.mpr rfl, h.tail_iff.mpr rfl⟩, rfl, rfl, rfl, h.isSome rfl⟩

private theorem Standing.unlink_first {e : Word} {y : T}
    (h : Standing l [] b x ((e, y) :: ys)) :
    ∃ l', l.unlink b ⟨0, e, x⟩ = some l' ∧ Unlinked l l' b ((e, y) :: ys) := by
  have hlast : b ≠ l.tail := fun hc => by cases h.tail_iff.mp hc
  have hbe : b ≠ e := fun heq => h.notMem_after (heq ▸ List.mem_cons_self)
  obtain ⟨m, hset, hchain, hkept⟩ := h.after.setPrev (List.nodup_cons.mp h.nodup_after).1 0
  refine ⟨⟨l.len, e, l.tail, m⟩, ?_, hchain, h.tail_eq, rfl, h.isSome (hkept b hbe)⟩
  rw [unlink, if_neg fun hc => hlast hc.2, if_pos (h.head_iff.mpr rfl)]
  show (setPrev l.nodes e 0).map _ = _
  rw [hset]
  rfl

/-- The node before `b` is the last of its segment and another one. -/
private theorem Standing.before_last {t : Word} {z : T}
    (h : Standing l (xs ++ [(t, z)]) b x ys) : t ∉ xs.map Prod.fst ∧ b ≠ t := by
  have hnodup := h.nodup
  rw [List.map_append] at hnodup
  refine ⟨fun hmem => (List.nodup_append.mp hnodup).2.2 t hmem t (by simp) rfl, ?_⟩
  rintro rfl
  exact h.notMem (by simp)

private theorem Standing.unlink_last {t : Word} {z : T}
    (h : Standing l (xs ++ [(t, z)]) b x []) :
    ∃ l', l.unlink b ⟨t, 0, x⟩ = some l' ∧ Unlinked l l' b (xs ++ [(t, z)]) := by
  have hfirst : b ≠ l.head := fun hc => by simpa using h.head_iff.mp hc
  obtain ⟨ht, hbt⟩ := h.before_last
  obtain ⟨m, hset, hchain, hkept⟩ := h.before.setNext ht 0
  refine ⟨⟨l.len, l.head, t, m⟩, ?_, hchain, ?_, rfl, h.isSome (hkept b hbt)⟩
  · rw [unlink, if_neg fun hc => hfirst hc.1, if_neg hfirst, if_pos (h.tail_iff.mpr rfl)]
    show (setNext l.nodes t 0).map _ = _
    rw [hset]
    rfl
  · rw [lastOf_append]
    rfl

private theorem Standing.unlink_between {t e : Word} {z y : T}
    (h : Standing l (xs ++ [(t, z)]) b x ((e, y) :: ys)) :
    ∃ l', l.unlink b ⟨t, e, x⟩ = some l' ∧ Unlinked l l' b (xs ++ [(t, z)] ++ (e, y) :: ys) := by
  have hfirst : b ≠ l.head := fun hc => by simpa using h.head_iff.mp hc
  have hlast : b ≠ l.tail := fun hc => by cases h.tail_iff.mp hc
  have hbe : b ≠ e := fun heq => h.notMem_after (heq ▸ List.mem_cons_self)
  obtain ⟨ht, hbt⟩ := h.before_last
  obtain ⟨m₁, hset₁, hchain₁, hkept₁⟩ := h.before.setNext ht e
  have hafter₁ : Segment m₁ b e ((e, y) :: ys) 0 := h.after.congr fun d hd =>
    hkept₁ d fun heq => h.apart t (by simp) d hd heq.symm
  obtain ⟨m₂, hset₂, hchain₂, hkept₂⟩ :=
    hafter₁.setPrev (List.nodup_cons.mp h.nodup_after).1 t
  have hbefore : Segment m₂ 0 l.head (xs ++ [(t, z)]) e := hchain₁.congr fun d hd =>
    hkept₂ d fun heq => h.apart d hd e List.mem_cons_self heq
  have ht₀ : lastOf 0 (xs ++ [(t, z)]) = t := by
    rw [lastOf_append]
    rfl
  refine ⟨⟨l.len, l.head, l.tail, m₂⟩, ?_, segment_append.mpr ⟨e, hbefore, ?_⟩, ?_, rfl,
    h.isSome ((hkept₂ b hbe).trans (hkept₁ b hbt))⟩
  · rw [unlink, if_neg fun hc => hfirst hc.1, if_neg hfirst, if_neg hlast]
    show (setNext l.nodes t e >>= fun nodes => setPrev nodes e t >>= _) = _
    rw [hset₁]
    show (setPrev m₁ e t >>= _) = _
    rw [hset₂]
    rfl
  · rw [ht₀]
    exact hchain₂
  · rw [lastOf_append]
    exact h.tail_eq

/-- The four places where the node can stand: alone, first, last, or between two. -/
private theorem Standing.unlink (h : Standing l xs b x ys) :
    ∃ l', l.unlink b ⟨lastOf 0 xs, firstOf 0 ys, x⟩ = some l' ∧ Unlinked l l' b (xs ++ ys) := by
  rcases List.eq_nil_or_concat' xs with rfl | ⟨zs, ⟨t, z⟩, rfl⟩
  · cases ys with
    | nil => exact h.unlink_alone
    | cons e rest => exact h.unlink_first
  · have ht : lastOf 0 (zs ++ [(t, z)]) = t := by
      rw [lastOf_append]
      rfl
    rw [ht]
    cases ys with
    | nil =>
        rw [List.append_nil]
        exact h.unlink_last
    | cons e rest => exact h.unlink_between

theorem Represents.removeNode (h : Represents l (xs ++ (b, x) :: ys)) :
    ∃ n l', l.nodes b = some n ∧ n.next = firstOf 0 ys ∧ n.data = x ∧ l.removeNode b = some l' ∧
      Represents l' (xs ++ ys) := by
  have hstanding := h.standing
  obtain ⟨u, hunlink, hu⟩ := hstanding.unlink
  have hsub : ((xs ++ ys).map Prod.fst).Sublist ((xs ++ (b, x) :: ys).map Prod.fst) :=
    List.Sublist.map _ ((List.sublist_cons_self _ _).append_left _)
  have hb : b ∉ (xs ++ ys).map Prod.fst := by
    have hnodup := h.nodup
    rw [List.map_append, List.map_cons, List.nodup_middle] at hnodup
    rw [List.map_append]
    exact (List.nodup_cons.mp hnodup).1
  have hlen := len_pred h (by simp)
  refine ⟨_, ⟨u.len - 1, u.head, u.tail, Function.update u.nodes b none⟩, hstanding.node, rfl, rfl,
    ?_, hu.chain.congr fun c hc => Function.update_of_ne ?_ _ _, h.nodup.sublist hsub,
    hu.tail_eq, ?_⟩
  · rw [LinkedList.removeNode, hstanding.node]
    show (l.unlink b ⟨lastOf 0 xs, firstOf 0 ys, x⟩ >>= _) = _
    rw [hunlink]
    show (delete u.nodes b >>= _) = _
    rw [delete_eq hu.isSome]
    rfl
  · rintro rfl
    exact hb hc
  · show (u.len - 1).toNat = _
    rw [hu.len_eq, hlen]
    simp

/-- The loop keeps the nodes that it has passed and takes the others out by value. -/
private theorem removeFrom_spec [DecidableEq T] (val : T) {fuel : Nat} (h : Represents l (xs ++ ys))
    (hfuel : ys.length < fuel) : ∃ l', removeFrom val fuel (firstOf 0 ys) l = some l' ∧
      Represents l' (xs ++ ys.filter fun c => c.2 ≠ val) := by
  induction ys generalizing xs l fuel with
  | nil =>
      obtain ⟨fuel, rfl⟩ := Nat.exists_eq_succ_of_ne_zero (Nat.ne_of_gt hfuel)
      exact ⟨l, if_pos rfl, h⟩
  | cons c rest ih =>
      obtain ⟨b, x⟩ := c
      obtain ⟨fuel, rfl⟩ := Nat.exists_eq_succ_of_ne_zero (Nat.ne_zero_of_lt hfuel)
      rw [List.length_cons] at hfuel
      have hb0 : b ≠ 0 := h.chain.ne_zero (by simp)
      obtain ⟨n, u, hnode, hnext, hdata, hremove, hu⟩ := h.removeNode
      by_cases hval : x = val
      · obtain ⟨l', hloop, hl'⟩ := ih hu (show rest.length < fuel by omega)
        refine ⟨l', ?_, by simpa [hval] using hl'⟩
        rw [removeFrom, firstOf, if_neg hb0, hnode, Option.bind_some, if_pos (hdata.trans hval),
          hremove, Option.bind_some, hnext, hloop]
      · obtain ⟨l', hloop, hl'⟩ := ih
          (show Represents l ((xs ++ [(b, x)]) ++ rest) by simpa using h)
          (show rest.length < fuel by omega)
        refine ⟨l', ?_, by simpa [hval] using hl'⟩
        rw [removeFrom, firstOf, if_neg hb0, hnode, Option.bind_some,
          if_neg fun heq => hval (hdata.symm.trans heq), Option.bind_some, hnext, hloop]

theorem Represents.remove [DecidableEq T] (h : Represents l cells) (val : T) :
    ∃ l', l.remove val = some l' ∧ Represents l' (cells.filter fun c => c.2 ≠ val) := by
  obtain ⟨l', hloop, hl'⟩ := removeFrom_spec val (show Represents l ([] ++ cells) from h)
    (Nat.lt_succ_self _)
  refine ⟨l', ?_, hl'⟩
  rw [LinkedList.remove, h.len_eq, h.chain.start_eq]
  exact hloop

/-! ## The nodes in use -/

/-- A push takes the node that it is given, and no other. -/
theorem isSome_of_pushBack (h : l.pushBack x a = some l') (hb : (l'.nodes b).isSome) :
    b = a ∨ (l.nodes b).isSome := by
  have hnew : ∀ {n : Node T}, (Function.update l.nodes a (some n) b).isSome →
      b = a ∨ (l.nodes b).isSome := by
    intro n hn
    by_cases hba : b = a
    · exact .inl hba
    · rw [Function.update_of_ne hba] at hn
      exact .inr hn
  rw [LinkedList.pushBack] at h
  split at h
  · cases h
    exact hnew hb
  · obtain ⟨m₁, hset₁, h⟩ := Option.bind_eq_some_iff.mp h
    obtain ⟨m₂, hset₂, h⟩ := Option.bind_eq_some_iff.mp h
    cases h
    exact hnew (isSome_of_setPrev hset₁ (isSome_of_setNext hset₂ hb))

theorem isSome_of_popFront (h : l.popFront = some l') (hb : (l'.nodes b).isSome) :
    (l.nodes b).isSome := by
  rw [LinkedList.popFront] at h
  split at h
  · split at h
    · obtain ⟨m, hdel, rfl⟩ := Option.map_eq_some_iff.mp h
      exact isSome_of_delete hdel hb
    · obtain ⟨n, -, h⟩ := Option.bind_eq_some_iff.mp h
      obtain ⟨m₁, hset, h⟩ := Option.bind_eq_some_iff.mp h
      obtain ⟨m₂, hdel, h⟩ := Option.bind_eq_some_iff.mp h
      cases h
      exact isSome_of_setPrev hset (isSome_of_delete hdel hb)
  · cases h
    exact hb

end

end LinkedList

end TeachingKernel.Threads
