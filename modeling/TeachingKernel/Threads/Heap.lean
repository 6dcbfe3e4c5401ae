import TeachingKernel.Lib.Runs
import TeachingKernel.Threads.Scheduler

/-!
# The heap behind the ready queue

`MemPool` of P5 and P6 behind the operators new and delete. `allocate` moves one
pointer up and `release` does nothing, so each node of the queue lies behind all the
memory handed out before it.
-/

namespace TeachingKernel.Threads

open Runs

/-! ## The pools -/

structure FramePool where
  nextFreeFrame : Word

namespace FramePool

def construct : FramePool := ⟨0x200000⟩

def getFrame (p : FramePool) : Word × FramePool := (p.nextFreeFrame, ⟨p.nextFreeFrame + 4096⟩)

def skip (p : FramePool) : Nat → FramePool
  | 0 => p
  | n + 1 => p.getFrame.2.skip n

end FramePool

structure MemPool where
  startAddress : Word

namespace MemPool

def construct (p : FramePool) (n : Nat) : MemPool × FramePool :=
  let (frame, p) := p.getFrame
  (⟨frame⟩, p.skip (n - 1))

def allocate (p : MemPool) (size : Word) : Word × MemPool :=
  (p.startAddress, ⟨p.startAddress + size⟩)

end MemPool

def nodeSize : Word := 12

/-! ## Runs on the heap -/

/-- The kernel, the memory pool, the bytes requested from it so far, and the nodes that
`push_back` allocated, the latest first. -/
structure HeapSystem (T : Type) where
  kernel : Kernel T
  pool : MemPool
  requested : Nat
  nodes : List Word

inductive HeapOp (T : Type) where
  | request (size : Word)
  | add (t : T)
  | start (t : T)
  | passOnCPU

section

variable {T : Type}

/-- The system after `push_back` took a node and the kernel became `k`. A node that
`pop_front` deletes goes to `release`, which leaves the pool as it is. -/
def HeapSystem.tookNode (s : HeapSystem T) (k : Kernel T) : HeapSystem T :=
  { kernel := k, pool := (s.pool.allocate nodeSize).2,
    requested := s.requested + nodeSize.toNat,
    nodes := (s.pool.allocate nodeSize).1 :: s.nodes }

inductive HeapStep : HeapSystem T → HeapOp T → HeapSystem T → Prop
  | request {s size} : HeapStep s (.request size)
      { s with pool := (s.pool.allocate size).2, requested := s.requested + size.toNat }
  | add {s t k} (hrun : s.kernel.add t (s.pool.allocate nodeSize).1 = some k) :
      HeapStep s (.add t) (s.tookNode k)
  | start {s t} (hnone : s.kernel.currentThread = none) :
      HeapStep s (.start t) { s with kernel := s.kernel.dispatchTo t }
  | passOnCPU {s k next}
      (hrun : s.kernel.passOnCPU (s.pool.allocate nodeSize).1 = some (k, next)) :
      HeapStep s .passOnCPU (s.tookNode k)

def HeapSystem.start (n : Nat) : HeapSystem T :=
  ⟨⟨none, .empty fun _ => none⟩, (MemPool.construct .construct n).1, 0, []⟩

/-- While the requests fit, the pool points behind everything that it handed out. -/
structure Fits (s : HeapSystem T) : Prop where
  sound : s.kernel.Sound
  pointer : s.pool.startAddress = 0x200000 + BitVec.ofNat 32 s.requested
  below : ∀ a, (s.kernel.readyQueue.nodes a).isSome → a.toNat < 0x200000 + s.requested
  inside : ∀ a ∈ s.nodes, 0x200000 ≤ a.toNat ∧ a.toNat + 12 ≤ 0x200000 + s.requested
  apart : s.nodes.Pairwise fun a b => b.toNat + 12 ≤ a.toNat

variable {s t : HeapSystem T} {op : HeapOp T} {n : Nat} {k : Kernel T}

theorem Fits.pointer_toNat (h : Fits s) (hlt : 0x200000 + s.requested < 2 ^ 32) :
    s.pool.startAddress.toNat = 0x200000 + s.requested := by
  have hbase : (0x200000 : Word).toNat = 0x200000 := rfl
  have hreq : (BitVec.ofNat 32 s.requested : Word).toNat = s.requested :=
    toNat_ofNat_of_lt (by omega)
  rw [h.pointer, toNat_add_of_lt (by rw [hbase, hreq]; exact hlt), hbase, hreq]

private theorem pointer_add (h : Fits s) (size : Word) : (s.pool.allocate size).2.startAddress =
    0x200000 + BitVec.ofNat 32 (s.requested + size.toNat) := by
  show s.pool.startAddress + size = _
  rw [h.pointer, BitVec.ofNat_add, BitVec.ofNat_toNat, BitVec.setWidth_eq, BitVec.add_assoc]

theorem Fits.fresh (h : Fits s) (hlt : 0x200000 + s.requested < 2 ^ 32) :
    s.kernel.readyQueue.Fresh (s.pool.allocate nodeSize).1 := by
  have haddr := h.pointer_toNat hlt
  refine ⟨fun hzero => ?_, ?_⟩
  · change s.pool.startAddress = 0 at hzero
    rw [hzero] at haddr
    have : (0 : Word).toNat = 0 := rfl
    omega
  · show s.kernel.readyQueue.nodes s.pool.startAddress = none
    cases hnode : s.kernel.readyQueue.nodes s.pool.startAddress with
    | none => rfl
    | some node =>
        have hbelow := h.below s.pool.startAddress (by rw [hnode]; rfl)
        omega

theorem Fits.tookNode (h : Fits s) (hlt : 0x200000 + s.requested + 12 ≤ 2 ^ 32)
    (hsound : k.Sound)
    (hnodes : ∀ b, (k.readyQueue.nodes b).isSome →
      b = (s.pool.allocate nodeSize).1 ∨ (s.kernel.readyQueue.nodes b).isSome) :
    Fits (s.tookNode k) := by
  have haddr := h.pointer_toNat (by omega)
  have hsize : nodeSize.toNat = 12 := rfl
  refine ⟨hsound, pointer_add h nodeSize, fun b hb => ?_, fun a ha => ?_,
    List.pairwise_cons.mpr ⟨fun b hb => ?_, h.apart⟩⟩
  · show b.toNat < 0x200000 + (s.requested + nodeSize.toNat)
    rcases hnodes b hb with rfl | hb
    · show s.pool.startAddress.toNat < _
      omega
    · have := h.below b hb
      omega
  · show 0x200000 ≤ a.toNat ∧ a.toNat + 12 ≤ 0x200000 + (s.requested + nodeSize.toNat)
    rcases List.mem_cons.mp ha with rfl | ha
    · show 0x200000 ≤ s.pool.startAddress.toNat ∧ s.pool.startAddress.toNat + 12 ≤ _
      omega
    · have := h.inside a ha
      omega
  · show b.toNat + 12 ≤ s.pool.startAddress.toNat
    have := h.inside b hb
    omega

theorem Fits.step (h : Fits s) (hstep : HeapStep s op t)
    (hlt : 0x200000 + t.requested ≤ 2 ^ 32) : Fits t := by
  cases hstep with
  | @request size =>
      refine ⟨h.sound, pointer_add h size, fun a ha => ?_, fun a ha => ?_, h.apart⟩
      · have := h.below a ha
        show a.toNat < 0x200000 + (s.requested + size.toNat)
        omega
      · have := h.inside a ha
        show 0x200000 ≤ a.toNat ∧ a.toNat + 12 ≤ 0x200000 + (s.requested + size.toNat)
        omega
  | @add thread k hrun =>
      have hlt' : 0x200000 + s.requested + 12 ≤ 2 ^ 32 := hlt
      obtain ⟨q, hpush, hsound, -⟩ := h.sound.pushBack (h.fresh (by omega)) thread
      rw [Kernel.add, hpush] at hrun
      cases hrun
      exact h.tookNode hlt' hsound fun b hb => LinkedList.isSome_of_pushBack hpush hb
  | start hnone => exact ⟨h.sound, h.pointer, h.below, h.inside, h.apart⟩
  | @passOnCPU k next hrun =>
      have hlt' : 0x200000 + s.requested + 12 ≤ 2 ^ 32 := hlt
      obtain ⟨c, hcur, -⟩ := Option.bind_eq_some_iff.mp hrun
      obtain ⟨k', next', rest, -, hpass, hsound, -⟩ := h.sound.passOnCPU hcur (h.fresh (by omega))
      cases hrun.symm.trans hpass
      exact h.tookNode hlt' hsound fun b hb => Kernel.isSome_of_passOnCPU hpass hb

/-- Every node lies in the `n` frames of the pool, behind all the nodes before it. -/
structure InHeap (n : Nat) (s : HeapSystem T) : Prop where
  inside : ∀ a ∈ s.nodes, 0x200000 ≤ a.toNat ∧ a.toNat + nodeSize.toNat ≤ 0x200000 + n * 4096
  apart : s.nodes.Pairwise fun a b => b.toNat + nodeSize.toNat ≤ a.toNat

def GoesOn (n : Nat) (s : HeapSystem T) : Prop :=
  s.requested + nodeSize.toNat ≤ n * 4096 → s.kernel.currentThread.isSome →
    (s.kernel.passOnCPU (s.pool.allocate nodeSize).1).isSome

theorem fits_start (n : Nat) : Fits (HeapSystem.start (T := T) n) :=
  ⟨⟨[], LinkedList.represents_empty _⟩, rfl, fun _ h => (by cases h), fun _ h => (by cases h),
    List.Pairwise.nil⟩

theorem requested_le (hstep : HeapStep s op t) : s.requested ≤ t.requested := by
  cases hstep with
  | request => exact Nat.le_add_right _ _
  | add => exact Nat.le_add_right _ _
  | start => exact Nat.le_refl _
  | passOnCPU => exact Nat.le_add_right _ _

theorem Fits.inHeap (h : Fits s) (hle : s.requested ≤ n * 4096) : InHeap n s := by
  have hsize : nodeSize.toNat = 12 := rfl
  refine ⟨fun a ha => ?_, h.apart⟩
  have := h.inside a ha
  omega

theorem Fits.goesOn (h : Fits s) (hheap : 0x200000 + n * 4096 ≤ 2 ^ 32) : GoesOn n s := by
  intro hroom hcur
  obtain ⟨c, hcur⟩ := Option.isSome_iff_exists.mp hcur
  have hsize : nodeSize.toNat = 12 := rfl
  obtain ⟨k, next, rest, -, hpass, -⟩ := h.sound.passOnCPU hcur (h.fresh (by omega))
  rw [hpass]
  rfl

/-- As long as the bytes requested fit the `n` frames, every node lies in them, no two
nodes share memory, and the threads can go on. -/
theorem nodes_in_heap_while_fits {run : List (HeapOp T × HeapSystem T)}
    (hheap : 0x200000 + n * 4096 ≤ 2 ^ 32) (hrun : IsRun HeapStep (HeapSystem.start n) run) :
    EveryState (fun s => s.requested ≤ n * 4096 → InHeap n s ∧ GoesOn n s)
      (HeapSystem.start n) run := by
  have hstep : ∀ (s : HeapSystem T) op t, (s.requested ≤ n * 4096 → Fits s) → HeapStep s op t →
      t.requested ≤ n * 4096 → Fits t := by
    intro s op t hs hstep hle
    exact (hs (Nat.le_trans (requested_le hstep) hle)).step hstep (by omega)
  exact (everyState_of_step hstep (fun _ => fits_start n) hrun).imp
    fun s hs hle => ⟨(hs hle).inHeap hle, (hs hle).goesOn hheap⟩

def HeapSystem.exec (s : HeapSystem T) : HeapOp T → Option (HeapSystem T)
  | .request size =>
      some { s with pool := (s.pool.allocate size).2, requested := s.requested + size.toNat }
  | .add t => (s.kernel.add t (s.pool.allocate nodeSize).1).map s.tookNode
  | .start t =>
      if s.kernel.currentThread.isNone then some { s with kernel := s.kernel.dispatchTo t }
      else none
  | .passOnCPU => (s.kernel.passOnCPU (s.pool.allocate nodeSize).1).map fun r => s.tookNode r.1

theorem heapStep_of_exec (h : s.exec op = some t) : HeapStep s op t := by
  cases op with
  | request size =>
      cases h
      exact .request
  | add t =>
      obtain ⟨k, hrun, rfl⟩ := Option.map_eq_some_iff.mp h
      exact .add hrun
  | start t =>
      rw [HeapSystem.exec] at h
      split at h
      · cases h
        exact .start (Option.isNone_iff_eq_none.mp (by assumption))
      · cases h
  | passOnCPU =>
      obtain ⟨⟨k, next⟩, hrun, rfl⟩ := Option.map_eq_some_iff.mp h
      exact .passOnCPU hrun

end

theorem nodes_in_heap_while_fits_twoThreads : ∃ run,
    IsRun HeapStep (HeapSystem.start 256) run ∧
      run.map Prod.fst = [.request 1024, .request 1024, .add 2, .start 1, .passOnCPU, .passOnCPU] ∧
      EveryState (fun s => s.requested ≤ 256 * 4096 → InHeap 256 s ∧ GoesOn 256 s)
        (HeapSystem.start (T := Nat) 256) run := by
  have h : (runOf HeapSystem.exec (HeapSystem.start 256)
      [.request 1024, .request 1024, .add 2, .start 1, .passOnCPU, .passOnCPU]).isSome := by
    decide +kernel
  obtain ⟨run, hrun⟩ := Option.isSome_iff_exists.mp h
  have hsteps := isRun_of_runOf (fun _ _ _ => heapStep_of_exec) hrun
  exact ⟨run, hsteps, labels_of_runOf hrun, nodes_in_heap_while_fits (by decide) hsteps⟩

/-- One thread on a heap of one frame. Its node is the only one in the queue at any time,
and the 342nd of them lies across the end of the frame. -/
theorem oneThread_leaves_heap : ∃ run,
    IsRun HeapStep (HeapSystem.start 1) run ∧
      run.map Prod.fst = .start 1 :: List.replicate 342 .passOnCPU ∧
      ¬ EveryState (InHeap 1) (HeapSystem.start (T := Nat) 1) run := by
  have h : (runOf HeapSystem.exec (HeapSystem.start 1)
      (.start 1 :: List.replicate 342 .passOnCPU)).map (fun run =>
        (last (HeapSystem.start (T := Nat) 1) run).nodes.head?) = some (some 0x200FFC) := by
    decide +kernel
  obtain ⟨run, hrun, hhead⟩ := Option.map_eq_some_iff.mp h
  refine ⟨run, isRun_of_runOf (fun _ _ _ => heapStep_of_exec) hrun, labels_of_runOf hrun,
    fun hall => ?_⟩
  have hin := (last_of_everyState hall).inside 0x200FFC (List.mem_of_mem_head? hhead)
  revert hin
  decide

end TeachingKernel.Threads
