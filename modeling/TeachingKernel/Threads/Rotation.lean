import TeachingKernel.Lib.Fifo
import TeachingKernel.Lib.Runs
import TeachingKernel.Threads.Scheduler

/-!
# Threads over whole runs

Boot adds threads and dispatches a first one; then threads pass on the CPU, poll the
disk, add threads and shut down, in any order. No live thread is lost or duplicated,
and the ready queue is served in order.
-/

namespace TeachingKernel.Threads

open Fifo Runs

/-- The kernel, the threads added or started and not shut down, the threads that
executed `thread_shutdown`, and what entered and left the ready queue. -/
structure System (T : Type) where
  kernel : Kernel T
  live : List T
  finished : List T
  trace : List (Event T)

inductive ThreadOp (T : Type) where
  | add (t : T) (newNode : Word)
  | start (t : T)
  | passOnCPU (newNode : Word)
  | waitRound (isReady : Bool) (newNode : Word)
  | shutdown

section

variable {T : Type}

def System.New (s : System T) (t : T) : Prop := t ∉ s.live ∧ t ∉ s.finished

def dispatched : Option T → List (Event T)
  | none => []
  | some t => [.leave t]

/-- The calls that return. `new` answers a node that is not in use. -/
inductive Step [DecidableEq T] : System T → ThreadOp T → System T → Prop
  | add {s t newNode k} (hnew : s.New t) (hfresh : s.kernel.readyQueue.Fresh newNode)
      (hrun : s.kernel.add t newNode = some k) :
      Step s (.add t newNode)
        { s with kernel := k, live := t :: s.live,
                 trace := s.trace ++ [.enter t s.kernel.queue.length] }
  | start {s t} (hnone : s.kernel.currentThread = none) (hnew : s.New t) :
      Step s (.start t) { s with kernel := s.kernel.dispatchTo t, live := t :: s.live }
  | passOnCPU {s c newNode k next} (hcur : s.kernel.currentThread = some c)
      (hfresh : s.kernel.readyQueue.Fresh newNode)
      (hrun : s.kernel.passOnCPU newNode = some (k, next)) :
      Step s (.passOnCPU newNode)
        { s with kernel := k,
                 trace := s.trace ++ [.enter c s.kernel.queue.length] ++ dispatched next }
  | waitReady {s newNode k next} (hrun : s.kernel.waitRound true newNode = some (k, next)) :
      Step s (.waitRound true newNode)
        { s with kernel := k, trace := s.trace ++ dispatched next }
  | waitBusy {s c newNode k next} (hcur : s.kernel.currentThread = some c)
      (hfresh : s.kernel.readyQueue.Fresh newNode)
      (hrun : s.kernel.waitRound false newNode = some (k, next)) :
      Step s (.waitRound false newNode)
        { s with kernel := k,
                 trace := s.trace ++ [.enter c s.kernel.queue.length] ++ dispatched next }
  | shutdown {s c k next} (hcur : s.kernel.currentThread = some c)
      (hrun : s.kernel.threadShutdown = some (k, next)) :
      Step s .shutdown
        { kernel := k, live := s.live.filter (· ≠ c), finished := c :: s.finished,
          trace := s.trace ++ dispatched next }

def System.start (nodes : Chain.Store T) : System T := ⟨⟨none, .empty nodes⟩, [], [], []⟩

/-- Every live thread is the current one or waits in the queue, and every thread there
is known. -/
structure Good (s : System T) : Prop where
  sound : s.kernel.Sound
  nodup : s.kernel.threads.Nodup
  live : ∀ t ∈ s.live, t ∈ s.kernel.threads
  known : ∀ t ∈ s.kernel.threads, t ∈ s.live ∨ t ∈ s.finished
  tracks : Tracks s.trace s.kernel.queue

variable {s : System T} {k : Kernel T} {op : ThreadOp T} {c t next : T} {q rest : List T}
  {newNode : Word}

theorem good_start (nodes : Chain.Store T) : Good (System.start nodes) :=
  ⟨⟨[], LinkedList.represents_empty nodes⟩, List.nodup_nil, fun _ h => (by cases h),
    fun _ h => (by cases h), tracks_nil⟩

theorem threads_eq (hcur : k.currentThread = some c) : k.threads = c :: k.queue := by
  rw [Kernel.threads, hcur]
  rfl

theorem Good.notMem_queue (h : Good s) (hcur : s.kernel.currentThread = some c) :
    c ∉ s.kernel.queue := by
  have hnodup := h.nodup
  rw [threads_eq hcur] at hnodup
  exact (List.nodup_cons.mp hnodup).1

theorem Good.notMem_of_new (h : Good s) (hnew : s.New t) : t ∉ s.kernel.threads := fun hmem =>
  (h.known t hmem).elim hnew.1 hnew.2

theorem Good.add (h : Good s) (hnew : s.New t) (hfresh : s.kernel.readyQueue.Fresh newNode)
    (hrun : s.kernel.add t newNode = some k) :
    Good { s with kernel := k, live := t :: s.live,
                  trace := s.trace ++ [.enter t s.kernel.queue.length] } ∧
      k.threads = s.kernel.threads ++ [t] := by
  obtain ⟨q, hpush, hsound, hq⟩ := h.sound.pushBack hfresh t
  rw [Kernel.add, hpush] at hrun
  cases hrun
  have hnot := h.notMem_of_new hnew
  have hqueue : Kernel.queue { s.kernel with readyQueue := q } = s.kernel.queue ++ [t] := hq
  have hthreads : Kernel.threads { s.kernel with readyQueue := q } = s.kernel.threads ++ [t] := by
    rw [Kernel.threads, hqueue, ← List.append_assoc]
    rfl
  have hperm : (s.kernel.threads ++ [t]).Perm (t :: s.kernel.threads) :=
    List.perm_append_singleton t s.kernel.threads
  refine ⟨⟨hsound, ?_, fun x hx => ?_, fun x hx => ?_, ?_⟩, hthreads⟩
  · rw [hthreads]
    exact hperm.nodup_iff.mpr (List.nodup_cons.mpr ⟨hnot, h.nodup⟩)
  · rw [hthreads]
    rcases List.mem_cons.mp hx with rfl | hx
    · simp
    · exact List.mem_append_left _ (h.live x hx)
  · rw [hthreads] at hx
    rcases List.mem_cons.mp (hperm.mem_iff.mp hx) with rfl | hx
    · exact .inl List.mem_cons_self
    · exact (h.known x hx).imp_left (List.mem_cons_of_mem _)
  · show Tracks _ (Kernel.queue { s.kernel with readyQueue := q })
    rw [hqueue]
    exact h.tracks.enter fun hmem => hnot (List.mem_append_right _ hmem)

theorem Good.start (h : Good s) (hnone : s.kernel.currentThread = none) (hnew : s.New t) :
    Good { s with kernel := s.kernel.dispatchTo t, live := t :: s.live } ∧
      (s.kernel.dispatchTo t).threads = t :: s.kernel.threads := by
  have hthreads : s.kernel.threads = s.kernel.queue := by
    rw [Kernel.threads, hnone]
    rfl
  have hthreads' : (s.kernel.dispatchTo t).threads = t :: s.kernel.threads := by
    rw [hthreads]
    rfl
  refine ⟨⟨h.sound, ?_, fun x hx => ?_, fun x hx => ?_, h.tracks⟩, hthreads'⟩
  · rw [hthreads']
    exact List.nodup_cons.mpr ⟨h.notMem_of_new hnew, h.nodup⟩
  · rw [hthreads']
    rcases List.mem_cons.mp hx with rfl | hx
    · exact List.mem_cons_self
    · exact List.mem_cons_of_mem _ (h.live x hx)
  · rw [hthreads'] at hx
    rcases List.mem_cons.mp hx with rfl | hx
    · exact .inl List.mem_cons_self
    · exact (h.known x hx).imp_left (List.mem_cons_of_mem _)

theorem Good.passOnCPU {next : Option T} (h : Good s) (hcur : s.kernel.currentThread = some c)
    (hfresh : s.kernel.readyQueue.Fresh newNode)
    (hrun : s.kernel.passOnCPU newNode = some (k, next)) :
    Good { s with kernel := k,
                  trace := s.trace ++ [.enter c s.kernel.queue.length] ++ dispatched next } ∧
      k.threads.Perm s.kernel.threads := by
  obtain ⟨k', next', rest, hsplit, hpass, hsound, hq, hcur'⟩ := h.sound.passOnCPU hcur hfresh
  cases hrun.symm.trans hpass
  have hthreads : k.threads = s.kernel.queue ++ [c] := by
    rw [threads_eq hcur', hq, hsplit]
  have hperm : k.threads.Perm s.kernel.threads := by
    rw [hthreads, threads_eq hcur]
    exact List.perm_append_singleton c s.kernel.queue
  have htracks := h.tracks.enter (h.notMem_queue hcur)
  rw [hsplit] at htracks
  refine ⟨⟨hsound, hperm.nodup_iff.mpr h.nodup, fun x hx => hperm.mem_iff.mpr (h.live x hx),
    fun x hx => h.known x (hperm.mem_iff.mp hx), ?_⟩, hperm⟩
  show Tracks _ k.queue
  rw [hq]
  exact htracks.leave

section

variable [DecidableEq T]

omit [DecidableEq T] in
/-- The threads after the one at the front, or `c` in its place, got the CPU. -/
theorem threads_of_front (hq : k.queue = q.tail) (hcur : k.currentThread = q.head?.or (some c)) :
    k.threads = if q = [] then [c] else q := by
  cases q with
  | nil =>
      rw [threads_eq hcur, hq, if_pos rfl]
      rfl
  | cons n rest =>
      rw [threads_eq hcur, hq, if_neg (List.cons_ne_nil n rest)]
      rfl

omit [DecidableEq T] in
theorem tracks_dispatched {trace : List (Event T)} (h : Tracks trace q) :
    Tracks (trace ++ dispatched q.head?) q.tail := by
  cases q with
  | nil =>
      rw [List.head?_nil, dispatched, List.append_nil]
      exact h
  | cons n rest => exact h.leave

theorem Good.shutdown {next : Option T} (h : Good s) (hcur : s.kernel.currentThread = some c)
    (hrun : s.kernel.threadShutdown = some (k, next)) :
    Good { kernel := k, live := s.live.filter (· ≠ c), finished := c :: s.finished,
           trace := s.trace ++ dispatched next } ∧
      k.threads = if s.kernel.queue = [] then [c] else s.kernel.queue := by
  have hnot := h.notMem_queue hcur
  obtain ⟨k', hshutdown, hsound, hq, hcur'⟩ := h.sound.threadShutdown hcur hnot
  cases hrun.symm.trans hshutdown
  have hthreads := threads_of_front hq hcur'
  have hold := threads_eq hcur
  have hnodup := h.nodup
  rw [hold] at hnodup
  refine ⟨⟨hsound, ?_, fun x hx => ?_, fun x hx => ?_, ?_⟩, hthreads⟩
  · rw [hthreads]
    split
    · simp
    · exact (List.nodup_cons.mp hnodup).2
  · obtain ⟨hx, hne⟩ := List.mem_filter.mp hx
    have hmem := h.live x hx
    rw [hold] at hmem
    rcases List.mem_cons.mp hmem with rfl | hmem
    · simp at hne
    · rw [hthreads, if_neg (List.ne_nil_of_mem hmem)]
      exact hmem
  · rw [hthreads] at hx
    by_cases hxc : x = c
    · exact .inr (hxc ▸ List.mem_cons_self)
    · split at hx
      · exact absurd (List.mem_singleton.mp hx) hxc
      · rcases h.known x (hold ▸ List.mem_cons_of_mem _ hx) with hlive | hfin
        · exact .inl (List.mem_filter.mpr ⟨hlive, by simpa using hxc⟩)
        · exact .inr (List.mem_cons_of_mem _ hfin)
  · show Tracks _ k.queue
    rw [hq]
    exact tracks_dispatched h.tracks

theorem Good.step {t : System T} (h : Good s) (hstep : Step s op t) : Good t := by
  cases hstep with
  | add hnew hfresh hrun => exact (h.add hnew hfresh hrun).1
  | start hnone hnew => exact (h.start hnone hnew).1
  | passOnCPU hcur hfresh hrun => exact (h.passOnCPU hcur hfresh hrun).1
  | waitReady hrun =>
      cases hrun
      rw [dispatched, List.append_nil]
      exact h
  | waitBusy hcur hfresh hrun => exact (h.passOnCPU hcur hfresh hrun).1
  | shutdown hcur hrun => exact (h.shutdown hcur hrun).1

/-- Every live thread is once in the current thread and the ready queue, and a thread
that enters the queue with `k` ahead is the one of exactly the `k + 1`-th dispatch. -/
structure Conserved (s : System T) : Prop where
  once : ∀ t ∈ s.live, s.kernel.threads.count t = 1
  inOrder : InOrder s.trace

def Returns (s : System T) : Prop :=
  ∀ c newNode, s.kernel.currentThread = some c → s.kernel.readyQueue.Fresh newNode →
    (s.kernel.passOnCPU newNode).isSome ∧
      (∀ isReady, (s.kernel.waitRound isReady newNode).isSome) ∧
      (∀ t, (s.kernel.add t newNode).isSome) ∧ s.kernel.threadShutdown.isSome

theorem Good.conserved (h : Good s) : Conserved s :=
  ⟨fun t ht => List.count_eq_one_of_mem h.nodup (h.live t ht), h.tracks.inOrder⟩

theorem Good.returns (h : Good s) : Returns s := by
  intro c newNode hcur hfresh
  obtain ⟨k, next, rest, -, hpass, -⟩ := h.sound.passOnCPU hcur hfresh
  obtain ⟨k', hshutdown, -⟩ := h.sound.threadShutdown hcur (h.notMem_queue hcur)
  have hpass' : (s.kernel.passOnCPU newNode).isSome := by rw [hpass]; rfl
  refine ⟨hpass', fun isReady => ?_, fun t => ?_, by rw [hshutdown]; rfl⟩
  · cases isReady with
    | true => rfl
    | false => exact hpass'
  · obtain ⟨q, hpush, -⟩ := h.sound.pushBack hfresh t
    rw [Kernel.add, hpush]
    rfl

end

/-! ## Running a list of calls -/

variable [DecidableEq T]

instance (s : System T) (t : T) : Decidable (s.New t) := inferInstanceAs (Decidable (_ ∧ _))

def System.exec (s : System T) : ThreadOp T → Option (System T)
  | .add t newNode =>
      if s.New t ∧ s.kernel.readyQueue.Fresh newNode then
        (s.kernel.add t newNode).map fun k =>
          { s with kernel := k, live := t :: s.live,
                   trace := s.trace ++ [.enter t s.kernel.queue.length] }
      else none
  | .start t =>
      if s.kernel.currentThread = none ∧ s.New t then
        some { s with kernel := s.kernel.dispatchTo t, live := t :: s.live }
      else none
  | .passOnCPU newNode =>
      if s.kernel.readyQueue.Fresh newNode then
        s.kernel.currentThread.bind fun c => (s.kernel.passOnCPU newNode).map fun (k, next) =>
          { s with kernel := k,
                   trace := s.trace ++ [.enter c s.kernel.queue.length] ++ dispatched next }
      else none
  | .waitRound true newNode => (s.kernel.waitRound true newNode).map fun (k, next) =>
      { s with kernel := k, trace := s.trace ++ dispatched next }
  | .waitRound false newNode =>
      if s.kernel.readyQueue.Fresh newNode then
        s.kernel.currentThread.bind fun c =>
          (s.kernel.waitRound false newNode).map fun (k, next) =>
            { s with kernel := k,
                     trace := s.trace ++ [.enter c s.kernel.queue.length] ++ dispatched next }
      else none
  | .shutdown => s.kernel.currentThread.bind fun c => s.kernel.threadShutdown.map fun (k, next) =>
      { kernel := k, live := s.live.filter (· ≠ c), finished := c :: s.finished,
        trace := s.trace ++ dispatched next }

theorem step_of_exec {s t : System T} {op : ThreadOp T} (h : s.exec op = some t) : Step s op t := by
  cases op with
  | add t newNode =>
      rw [System.exec] at h
      split at h
      · obtain ⟨k, hrun, rfl⟩ := Option.map_eq_some_iff.mp h
        rename_i hguard
        exact .add hguard.1 hguard.2 hrun
      · cases h
  | start t =>
      rw [System.exec] at h
      split at h
      · cases h
        rename_i hguard
        exact .start hguard.1 hguard.2
      · cases h
  | passOnCPU newNode =>
      rw [System.exec] at h
      split at h
      · obtain ⟨c, hcur, h⟩ := Option.bind_eq_some_iff.mp h
        obtain ⟨⟨k, next⟩, hrun, rfl⟩ := Option.map_eq_some_iff.mp h
        exact .passOnCPU hcur (by assumption) hrun
      · cases h
  | waitRound isReady newNode =>
      cases isReady with
      | true =>
          rw [System.exec] at h
          obtain ⟨⟨k, next⟩, hrun, rfl⟩ := Option.map_eq_some_iff.mp h
          exact .waitReady hrun
      | false =>
          rw [System.exec] at h
          split at h
          · obtain ⟨c, hcur, h⟩ := Option.bind_eq_some_iff.mp h
            obtain ⟨⟨k, next⟩, hrun, rfl⟩ := Option.map_eq_some_iff.mp h
            exact .waitBusy hcur (by assumption) hrun
          · cases h
  | shutdown =>
      obtain ⟨c, hcur, h⟩ := Option.bind_eq_some_iff.mp h
      obtain ⟨⟨k, next⟩, hrun, rfl⟩ := Option.map_eq_some_iff.mp h
      exact .shutdown hcur hrun

/-- In every run from boot on, no live thread is lost, duplicated or overtaken. -/
theorem live_threads_conserved {nodes : Chain.Store T} {run : List (ThreadOp T × System T)}
    (hrun : IsRun Step (System.start nodes) run) :
    EveryState (fun s => Conserved s ∧ Returns s) (System.start nodes) run :=
  (everyState_of_step (fun _ _ _ h hstep => h.step hstep) (good_start nodes) hrun).imp
    fun _ h => ⟨h.conserved, h.returns⟩

end

def threeThreads : List (ThreadOp Nat) :=
  [.add 2 16, .add 3 32, .start 1, .passOnCPU 48, .waitRound false 64, .waitRound true 80,
    .shutdown, .passOnCPU 80]

theorem live_threads_conserved_threeThreads : ∃ run,
    IsRun Step (System.start fun _ => none) run ∧
      (last (System.start fun _ => none) run).kernel.threads = [2, 1] ∧
      EveryState (fun s => Conserved s ∧ Returns s) (System.start fun _ => none) run := by
  have h : (runOf System.exec (System.start fun _ => none) threeThreads).map
      (fun run => (last (System.start fun _ => none) run).kernel.threads) = some [2, 1] := by
    decide +kernel
  obtain ⟨run, hrun, hlast⟩ := Option.map_eq_some_iff.mp h
  have hrun := isRun_of_runOf (fun _ _ _ => step_of_exec) hrun
  exact ⟨run, hrun, hlast, live_threads_conserved hrun⟩

end TeachingKernel.Threads
