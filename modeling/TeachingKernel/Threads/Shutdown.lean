import TeachingKernel.Threads.Rotation

/-!
# Threads that have shut down

`thread_shutdown` takes the thread out of the ready queue and yields. With another
thread to dispatch, the call never returns; with an empty queue `yield` returns to the
thread that has just ended.
-/

namespace TeachingKernel.Threads

open Runs

section

variable {T : Type} [DecidableEq T] {s t : System T} {op : ThreadOp T}

/-- A thread that executed `thread_shutdown` is neither current nor ready. -/
def NeverAgain (s : System T) : Prop :=
  ∀ t ∈ s.finished, s.kernel.currentThread ≠ some t ∧ t ∉ s.kernel.queue

/-- A thread that shuts down leaves another one to dispatch. -/
def LeavesAnother (s : System T) (op : ThreadOp T) : Prop :=
  match op with
  | .shutdown => s.kernel.queue ≠ []
  | _ => True

omit [DecidableEq T] in
theorem neverAgain_iff : NeverAgain s ↔ ∀ t ∈ s.finished, t ∉ s.kernel.threads := by
  unfold NeverAgain Kernel.threads
  refine forall_congr' fun t => imp_congr_right fun _ => ?_
  rw [List.mem_append, Option.mem_toList, not_or]

theorem Good.neverAgain_step (h : Good s) (hs : NeverAgain s) (hstep : Step s op t) :
    NeverAgain t ↔ LeavesAnother s op := by
  have hgood := h.step hstep
  rw [neverAgain_iff] at hs
  cases hstep with
  | add hnew hfresh hrun =>
      obtain ⟨-, hthreads⟩ := h.add hnew hfresh hrun
      refine iff_of_true (neverAgain_iff.mpr fun x hx hmem => ?_) trivial
      rw [hthreads] at hmem
      rcases List.mem_append.mp hmem with hmem | hmem
      · exact hs x hx hmem
      · exact hnew.2 (List.mem_singleton.mp hmem ▸ hx)
  | start hnone hnew =>
      obtain ⟨-, hthreads⟩ := h.start hnone hnew
      refine iff_of_true (neverAgain_iff.mpr fun x hx hmem => ?_) trivial
      rw [hthreads] at hmem
      rcases List.mem_cons.mp hmem with rfl | hmem
      · exact hnew.2 hx
      · exact hs x hx hmem
  | passOnCPU hcur hfresh hrun =>
      obtain ⟨-, hperm⟩ := h.passOnCPU hcur hfresh hrun
      exact iff_of_true
        (neverAgain_iff.mpr fun x hx hmem => hs x hx (hperm.mem_iff.mp hmem)) trivial
  | waitReady hrun =>
      cases hrun
      exact iff_of_true (neverAgain_iff.mpr hs) trivial
  | waitBusy hcur hfresh hrun =>
      obtain ⟨-, hperm⟩ := h.passOnCPU hcur hfresh hrun
      exact iff_of_true
        (neverAgain_iff.mpr fun x hx hmem => hs x hx (hperm.mem_iff.mp hmem)) trivial
  | @shutdown c k next hcur hrun =>
      obtain ⟨-, hthreads⟩ := h.shutdown hcur hrun
      have hnot := h.notMem_queue hcur
      rw [neverAgain_iff]
      constructor
      · intro hnever hempty
        refine hnever c List.mem_cons_self ?_
        show c ∈ k.threads
        rw [hthreads, if_pos hempty]
        exact List.mem_singleton_self c
      · intro hne x hx hmem
        change x ∈ k.threads at hmem
        rw [hthreads, if_neg hne] at hmem
        rcases List.mem_cons.mp hx with rfl | hx
        · exact hnot hmem
        · exact hs x hx (threads_eq hcur ▸ List.mem_cons_of_mem _ hmem)

/-- In a run from boot on, no thread executes or waits after its shutdown if and only if
every thread that shuts down leaves another one to dispatch. -/
theorem neverAgain_iff_leavesAnother {nodes : Chain.Store T} {run : List (ThreadOp T × System T)}
    (hrun : IsRun Step (System.start nodes) run) :
    EveryState NeverAgain (System.start nodes) run ↔
      EveryStep LeavesAnother (System.start nodes) run :=
  everyState_iff_everyStep (fun _ _ _ h hstep => h.step hstep)
    (fun _ _ _ h hs hstep => h.neverAgain_step hs hstep) (good_start nodes)
    (fun _ h => by cases h) hrun

end

theorem neverAgain_iff_leavesAnother_twoThreads : ∃ run,
    IsRun Step (System.start fun _ => none) run ∧
      run.map Prod.fst = [.add 2 16, .start 1, .passOnCPU 32, .shutdown, .shutdown] ∧
      (EveryState NeverAgain (System.start fun _ => none) run ↔
        EveryStep LeavesAnother (System.start fun _ => none) run) := by
  have h : (runOf System.exec (System.start fun _ => none)
      [.add 2 16, .start 1, .passOnCPU 32, .shutdown, .shutdown]).isSome := by decide +kernel
  obtain ⟨run, hrun⟩ := Option.isSome_iff_exists.mp h
  have hsteps := isRun_of_runOf (fun _ _ _ => step_of_exec (T := Nat)) hrun
  exact ⟨run, hsteps, labels_of_runOf hrun, neverAgain_iff_leavesAnother hsteps⟩

/-- The only thread shuts down, finds the ready queue empty and goes on. -/
theorem lastThread_goesOn : ∃ s,
    IsRun Step (System.start fun _ => none)
        [(.start 1, ⟨⟨some 1, .empty fun _ => none⟩, [1], [], []⟩), (.shutdown, s)] ∧
      s.finished = [1] ∧ s.kernel.currentThread = some 1 ∧ ¬ NeverAgain s := by
  refine ⟨⟨⟨some 1, .empty fun _ => none⟩, [], [1], []⟩,
    ⟨step_of_exec rfl, step_of_exec rfl, trivial⟩, rfl, rfl, fun h => ?_⟩
  exact (h 1 (List.mem_singleton_self 1)).1 rfl

end TeachingKernel.Threads
