import TeachingKernel.Threads.LinkedList

/-!
# The scheduler

`Scheduler` of P5 and P6, the functions that call it, and `dispatch_to` as far as the
scheduler sees it: `current_thread` becomes the thread dispatched, and the call returns
when the calling thread is dispatched again. A thread is known by the address of its
control block, which is not NULL.
-/

namespace TeachingKernel.Threads

structure Kernel (T : Type) where
  currentThread : Option T
  readyQueue : LinkedList T

namespace Kernel

variable {T : Type}

def dispatchTo (thread : T) (s : Kernel T) : Kernel T := { s with currentThread := some thread }

def yield (s : Kernel T) : Option (Kernel T × Option T) := do
  let next ← s.readyQueue.front
  let q ← s.readyQueue.popFront
  let s := { s with readyQueue := q }
  match next with
  | some thread => some (s.dispatchTo thread, some thread)
  | none => some (s, none)

def resume (thread : T) (newNode : Word) (s : Kernel T) : Option (Kernel T) :=
  (s.readyQueue.pushBack thread newNode).map fun q => { s with readyQueue := q }

def add (thread : T) (newNode : Word) (s : Kernel T) : Option (Kernel T) :=
  (s.readyQueue.pushBack thread newNode).map fun q => { s with readyQueue := q }

def terminate [DecidableEq T] (thread : T) (s : Kernel T) : Option (Kernel T) :=
  (s.readyQueue.remove thread).map fun q => { s with readyQueue := q }

/-! The callers. Each needs a current thread. -/

def passOnCPU (newNode : Word) (s : Kernel T) : Option (Kernel T × Option T) := do
  let thread ← s.currentThread
  let s ← s.resume thread newNode
  s.yield

def waitRound (isReady : Bool) (newNode : Word) (s : Kernel T) : Option (Kernel T × Option T) :=
  if isReady then some (s, none)
  else do
    let thread ← s.currentThread
    let s ← s.add thread newNode
    s.yield

def threadShutdown [DecidableEq T] (s : Kernel T) : Option (Kernel T × Option T) := do
  let thread ← s.currentThread
  let s ← s.terminate thread
  s.yield

def queue (s : Kernel T) : List T := s.readyQueue.toList

/-- The current thread and the ready queue. -/
def threads (s : Kernel T) : List T := s.currentThread.toList ++ s.queue

/-! ## What the calls do to the queue -/

def Sound (s : Kernel T) : Prop := ∃ cells, s.readyQueue.Represents cells

section

variable {s t : Kernel T} {thread : T} {newNode : Word}

theorem Sound.pushBack (h : s.Sound) (hnew : s.readyQueue.Fresh newNode) (thread : T) :
    ∃ q, s.readyQueue.pushBack thread newNode = some q ∧
      Sound { s with readyQueue := q } ∧ q.toList = s.queue ++ [thread] := by
  obtain ⟨cells, hcells⟩ := h
  obtain ⟨q, hpush, hq⟩ := hcells.pushBack hnew thread
  refine ⟨q, hpush, ⟨_, hq⟩, ?_⟩
  rw [hq.toList, queue, hcells.toList, List.map_append]
  rfl

/-- `yield` dispatches the thread at the front; with an empty queue it returns to its
caller. -/
theorem Sound.yield (h : s.Sound) : ∃ t, s.yield = some (t, s.queue.head?) ∧ t.Sound ∧
    t.queue = s.queue.tail ∧ t.currentThread = s.queue.head?.or s.currentThread := by
  obtain ⟨cells, hcells⟩ := h
  obtain ⟨q, hpop, hq⟩ := hcells.popFront
  have hqueue : s.queue = cells.map Prod.snd := hcells.toList
  have htail : q.toList = s.queue.tail := by rw [hq.toList, hqueue, List.map_tail]
  rw [Kernel.yield, hcells.front, hpop, ← hqueue]
  cases hhead : s.queue.head? with
  | none => exact ⟨{ s with readyQueue := q }, rfl, ⟨_, hq⟩, htail, rfl⟩
  | some thread =>
      exact ⟨{ currentThread := some thread, readyQueue := q }, rfl, ⟨_, hq⟩, htail, rfl⟩

theorem Sound.terminate [DecidableEq T] (h : s.Sound) (thread : T) :
    ∃ t, s.terminate thread = some t ∧ t.Sound ∧ t.currentThread = s.currentThread ∧
      t.queue = s.queue.filter (· ≠ thread) := by
  obtain ⟨cells, hcells⟩ := h
  obtain ⟨q, hremove, hq⟩ := hcells.remove thread
  refine ⟨{ s with readyQueue := q }, by rw [Kernel.terminate, hremove]; rfl, ⟨_, hq⟩, rfl, ?_⟩
  show q.toList = _
  rw [hq.toList, queue, hcells.toList, List.filter_map]
  rfl

/-- The current thread goes to the end of the queue and the thread at the front is
dispatched. -/
theorem Sound.passOnCPU (h : s.Sound) (hcur : s.currentThread = some thread)
    (hnew : s.readyQueue.Fresh newNode) : ∃ t next rest,
      s.queue ++ [thread] = next :: rest ∧ s.passOnCPU newNode = some (t, some next) ∧ t.Sound ∧
      t.queue = rest ∧ t.currentThread = some next := by
  obtain ⟨q, hpush, hsound, hq⟩ := h.pushBack hnew thread
  obtain ⟨t, hyield, ht, htq, htc⟩ := hsound.yield
  have hqueue : Kernel.queue { s with readyQueue := q } = s.queue ++ [thread] := hq
  rw [hqueue] at hyield htq htc
  cases hsplit : s.queue ++ [thread] with
  | nil => simp at hsplit
  | cons next rest =>
      rw [hsplit] at hyield htq htc
      refine ⟨t, next, rest, rfl, ?_, ht, htq, htc⟩
      rw [Kernel.passOnCPU, hcur]
      show (Option.map _ (s.readyQueue.pushBack thread newNode) >>= _) = _
      rw [hpush]
      exact hyield

/-- Passing on the CPU takes the node that it is given, and no other. -/
theorem isSome_of_passOnCPU {next : Option T} {b : Word} (h : s.passOnCPU newNode = some (t, next))
    (hb : (t.readyQueue.nodes b).isSome) : b = newNode ∨ (s.readyQueue.nodes b).isSome := by
  obtain ⟨c, -, h⟩ := Option.bind_eq_some_iff.mp h
  obtain ⟨u, hresume, h⟩ := Option.bind_eq_some_iff.mp h
  obtain ⟨q, hpush, rfl⟩ := Option.map_eq_some_iff.mp hresume
  obtain ⟨front, -, h⟩ := Option.bind_eq_some_iff.mp h
  obtain ⟨q', hpop, h⟩ := Option.bind_eq_some_iff.mp h
  have ht : t.readyQueue = q' := by
    cases front with
    | none =>
        cases h
        rfl
    | some thread =>
        cases h
        rfl
  rw [ht] at hb
  exact LinkedList.isSome_of_pushBack hpush (LinkedList.isSome_of_popFront hpop hb)

/-- The current thread leaves, and the thread at the front is dispatched if there is
one. -/
theorem Sound.threadShutdown [DecidableEq T] (h : s.Sound) (hcur : s.currentThread = some thread)
    (hnot : thread ∉ s.queue) : ∃ t, s.threadShutdown = some (t, s.queue.head?) ∧ t.Sound ∧
      t.queue = s.queue.tail ∧ t.currentThread = s.queue.head?.or (some thread) := by
  obtain ⟨u, hterminate, hu, huc, huq⟩ := h.terminate thread
  have hqueue : u.queue = s.queue := by
    rw [huq]
    exact List.filter_eq_self.mpr fun x hx => by
      simp only [ne_eq, decide_eq_true_eq]
      rintro rfl
      exact hnot hx
  obtain ⟨t, hyield, ht, htq, htc⟩ := hu.yield
  rw [hqueue] at hyield htq
  rw [hqueue, huc, hcur] at htc
  refine ⟨t, ?_, ht, htq, htc⟩
  rw [Kernel.threadShutdown, hcur]
  show (s.terminate thread >>= _) = _
  rw [hterminate]
  exact hyield

end

end Kernel

end TeachingKernel.Threads
