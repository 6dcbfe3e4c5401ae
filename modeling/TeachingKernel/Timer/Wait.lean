import Mathlib.Tactic.Linarith
import TeachingKernel.Timer.Model

/-!
# The busy loop of `wait`

The loop goes on only while the tick counter is below its value at the start, and
before the first interrupt it is not. The other way out, through the second counter,
is taken after enough interrupts.
-/

namespace TeachingKernel.Timer

open Runs

namespace SimpleTimer

def after (hz : Int) (n : Nat) : SimpleTimer := handleInterrupt^[n] (construct hz)

variable {t : SimpleTimer}

structure Ticking (hz : Int) (t : SimpleTimer) : Prop where
  rate : t.hz = hz
  nonneg : 0 ≤ t.ticks
  lt : t.ticks < hz

theorem handleInterrupt_spec {hz : Int} (h : Ticking hz t) :
    Ticking hz t.handleInterrupt ∧
      (t.handleInterrupt.seconds = t.seconds ∧ t.handleInterrupt.ticks = t.ticks + 1 ∨
        t.handleInterrupt.seconds = t.seconds + 1 ∧ t.handleInterrupt.ticks = 0 ∧
          t.ticks + 1 = hz) := by
  have hrate := h.rate
  have hnonneg := h.nonneg
  have hlt := h.lt
  unfold handleInterrupt
  simp only
  by_cases hover : t.ticks + 1 ≥ t.hz
  · rw [if_pos hover]
    exact ⟨⟨h.rate, Int.le_refl 0, by simp only; omega⟩, Or.inr ⟨rfl, rfl, by omega⟩⟩
  · rw [if_neg hover]
    exact ⟨⟨h.rate, by simp only; omega, by simp only; omega⟩, Or.inl ⟨rfl, rfl⟩⟩

theorem after_ticking {hz : Int} (hhz : 1 ≤ hz) (n : Nat) : Ticking hz (after hz n) := by
  induction n with
  | zero =>
      refine ⟨rfl, Int.le_refl 0, ?_⟩
      simp only [after, Function.iterate_zero, id, construct]
      omega
  | succ n ih =>
      rw [after, Function.iterate_succ_apply']
      exact (handleInterrupt_spec ih).1

end SimpleTimer

open SimpleTimer

namespace Waiting

variable {hz : Int} {seconds : Word} {start : SimpleTimer}

def NoWrap (seconds : Word) (s : Waiting) : Prop :=
  s.timer.seconds.toNat + seconds.toNat < 2 ^ 32

def Waited (seconds : Word) (s : Waiting) : Prop :=
  s.pc = .returned → seconds.toNat * s.timer.hz ≤ s.handled

def GoesOn (seconds : Word) (s : Waiting) (a : Event) : Prop :=
  ¬ (a = .cpu ∧ s.pc = .testTicks ∧ s.nowTicks ≤ s.timer.ticks ∧
    s.handled < seconds.toNat * s.timer.hz)

structure Good (hz : Int) (seconds : Word) (start : SimpleTimer) (s : Waiting) : Prop where
  ticking : Ticking hz s.timer
  noWrap : NoWrap seconds s
  later : start.seconds.toNat ≤ s.timer.seconds.toNat
  elapsed : s.timer.seconds.toNat * hz + s.timer.ticks =
    start.seconds.toNat * hz + start.ticks + s.handled
  now : s.pc ≠ .currentSeconds → s.pc ≠ .returned →
    start.seconds.toNat ≤ s.nowSeconds.toNat ∧ s.nowSeconds.toNat + seconds.toNat < 2 ^ 32
  bound : s.pc = .testSeconds ∨ s.pc = .testTicks → s.thenSeconds = s.nowSeconds + seconds
  waited : Waited seconds s

/-- Seconds past `then_seconds` come after the time asked for. -/
theorem waited_of_seconds {s : Waiting} (hstart : Ticking hz start) (hhz : 1 ≤ hz)
    (hs : Good hz seconds start s) (hpc : s.pc = .testSeconds)
    (hexit : ¬ s.timer.seconds ≤ s.thenSeconds) : seconds.toNat * hz ≤ s.handled := by
  obtain ⟨hnow, hfit⟩ := hs.now (by rw [hpc]; decide) (by rw [hpc]; decide)
  have hpast : s.nowSeconds.toNat + seconds.toNat + 1 ≤ s.timer.seconds.toNat := by
    rw [hs.bound (Or.inl hpc), BitVec.le_def, toNat_add_of_lt hfit] at hexit
    omega
  have hdistance : (start.seconds.toNat + seconds.toNat + 1 : Int) ≤ s.timer.seconds.toNat := by
    omega
  have hmul : (start.seconds.toNat + seconds.toNat + 1 : Int) * hz ≤ s.timer.seconds.toNat * hz :=
    Int.mul_le_mul_of_nonneg_right hdistance (by omega)
  have helapsed := hs.elapsed
  have hlt := hstart.lt
  have hnonneg := hs.ticking.nonneg
  rw [Int.add_mul, Int.add_mul, Int.one_mul] at hmul
  omega

theorem good_interrupt (hseconds : 1 ≤ seconds.toNat) {s : Waiting}
    (hs : Good hz seconds start s) (hret : s.pc ≠ .returned)
    (hwrap : s.timer.handleInterrupt.seconds.toNat + seconds.toNat < 2 ^ 32) :
    Good hz seconds start
      { s with timer := s.timer.handleInterrupt, handled := s.handled + 1 } := by
  obtain ⟨hticking, htick⟩ := handleInterrupt_spec hs.ticking
  have hfit : s.timer.seconds.toNat + seconds.toNat < 2 ^ 32 := hs.noWrap
  have hlater := hs.later
  have helapsed := hs.elapsed
  rcases htick with ⟨hsec, hticks⟩ | ⟨hsec, hticks, hfull⟩
  · refine ⟨hticking, hwrap, ?_, ?_, hs.now, hs.bound, fun h => absurd h hret⟩
    · simp only [hsec]
      exact hlater
    · simp only [hsec, hticks]
      push_cast
      omega
  · have hnext : (s.timer.seconds + 1).toNat = s.timer.seconds.toNat + 1 :=
      toNat_add_one (by omega)
    refine ⟨hticking, hwrap, ?_, ?_, hs.now, hs.bound, fun h => absurd h hret⟩
    · simp only [hsec, hnext]
      omega
    · simp only [hsec, hticks, hnext]
      push_cast
      rw [Int.add_mul, Int.one_mul]
      omega

theorem good_cpuStep (hstart : Ticking hz start) (hhz : 1 ≤ hz) {s t : Waiting}
    (hs : Good hz seconds start s) (hgo : GoesOn seconds s .cpu)
    (hstep : s.cpuStep seconds = some t) : Good hz seconds start t := by
  have hrate := hs.ticking.rate
  unfold cpuStep at hstep
  cases hpc : s.pc with
  | currentSeconds =>
      simp only [hpc, Option.some.injEq] at hstep
      subst hstep
      exact ⟨hs.ticking, hs.noWrap, hs.later, hs.elapsed, fun _ _ => ⟨hs.later, hs.noWrap⟩,
        by simp, by simp [Waited]⟩
  | currentTicks =>
      simp only [hpc, Option.some.injEq] at hstep
      subst hstep
      exact ⟨hs.ticking, hs.noWrap, hs.later, hs.elapsed,
        fun _ _ => hs.now (by simp [hpc]) (by simp [hpc]), fun _ => rfl, by simp [Waited]⟩
  | testSeconds =>
      simp only [hpc, Option.some.injEq] at hstep
      subst hstep
      refine ⟨hs.ticking, hs.noWrap, hs.later, hs.elapsed,
        fun _ _ => hs.now (by simp [hpc]) (by simp [hpc]), fun _ => hs.bound (Or.inl hpc),
        fun hret => ?_⟩
      by_cases hle : s.timer.seconds ≤ s.thenSeconds
      · simp [hle] at hret
      · simp only [hrate]
        exact waited_of_seconds hstart hhz hs hpc hle
  | testTicks =>
      simp only [hpc, Option.some.injEq] at hstep
      subst hstep
      refine ⟨hs.ticking, hs.noWrap, hs.later, hs.elapsed,
        fun _ _ => hs.now (by simp [hpc]) (by simp [hpc]), fun _ => hs.bound (Or.inr hpc),
        fun hret => ?_⟩
      by_cases hlt : s.timer.ticks < s.nowTicks
      · simp [hlt] at hret
      · -- the guard excludes leaving the loop here ahead of time
        by_contra hearly
        exact hgo ⟨rfl, hpc, by omega, by simpa using hearly⟩
  | returned => simp [hpc] at hstep

theorem good_step (hstart : Ticking hz start) (hhz : 1 ≤ hz) (hseconds : 1 ≤ seconds.toNat)
    {s t : Waiting} {a : Event} (hs : Good hz seconds start s) (hgo : GoesOn seconds s a)
    (hstep : step seconds s a t) (hwrap : NoWrap seconds t) : Good hz seconds start t := by
  cases a with
  | interrupt =>
      unfold step exec at hstep
      by_cases hret : s.pc = .returned
      · rw [if_pos hret] at hstep
        cases hstep
      · rw [if_neg hret, Option.some.injEq] at hstep
        subst hstep
        exact good_interrupt hseconds hs hret hwrap
  | cpu => exact good_cpuStep hstart hhz hs hgo hstep

/-- Leaving the loop ahead of time returns too early. -/
theorem not_waited_of_not_goesOn {s t : Waiting} {a : Event} (hgo : ¬ GoesOn seconds s a)
    (hstep : step seconds s a t) : ¬ Waited seconds t := by
  obtain ⟨rfl, hpc, hticks, hearly⟩ := not_not.mp hgo
  unfold step exec cpuStep at hstep
  simp only [hpc, Option.some.injEq] at hstep
  subst hstep
  intro hwaited
  have hexit : ¬ s.timer.ticks < s.nowTicks := by omega
  have hlong := hwaited (by simp only [if_neg hexit])
  simp only at hlong
  omega

theorem good_call (hstart : Ticking hz start)
    (hfit : start.seconds.toNat + seconds.toNat < 2 ^ 32) :
    Good hz seconds start (call start) :=
  ⟨hstart, hfit, Nat.le_refl _, by simp [call], by simp [call], by simp [call],
    by simp [Waited, call]⟩

def uninterrupted (start : SimpleTimer) (seconds : Word) : List (Event × Waiting) :=
  let s := { call start with nowSeconds := start.seconds, pc := .currentTicks }
  let u := { s with
    nowTicks := start.ticks
    thenSeconds := start.seconds + seconds
    pc := .testSeconds }
  [(.cpu, s), (.cpu, u), (.cpu, { u with pc := .testTicks }), (.cpu, { u with pc := .returned })]

theorem isRun_uninterrupted (hfit : start.seconds.toNat + seconds.toNat < 2 ^ 32) :
    IsRun (step seconds) (call start) (uninterrupted start seconds) := by
  have hle : start.seconds ≤ start.seconds + seconds := by
    rw [BitVec.le_def, toNat_add_of_lt hfit]
    omega
  refine ⟨rfl, rfl, ?_, ?_, trivial⟩
  · simp [step, exec, cpuStep, call, hle]
  · simp [step, exec, cpuStep, call]

theorem noWrap_uninterrupted (hfit : start.seconds.toNat + seconds.toNat < 2 ^ 32) :
    EveryState (NoWrap seconds) (call start) (uninterrupted start seconds) :=
  ⟨hfit, by simpa [uninterrupted, NoWrap, call] using hfit⟩

/-- 18 ticks a second, 20 ticks after the start, one second to wait, none waited. -/
theorem not_waited_uninterrupted :
    IsRun (step 1) (call (after 18 20)) (uninterrupted (after 18 20) 1) ∧
      EveryState (NoWrap 1) (call (after 18 20)) (uninterrupted (after 18 20) 1) ∧
      ¬ EveryState (Waited 1) (call (after 18 20)) (uninterrupted (after 18 20) 1) := by
  have hfit : (after 18 20).seconds.toNat + (1 : Word).toNat < 2 ^ 32 := by decide +kernel
  have hlate : ¬ (1 : Word).toNat * (after 18 20).hz ≤ 0 := by decide +kernel
  refine ⟨isRun_uninterrupted hfit, noWrap_uninterrupted hfit, fun h => hlate ?_⟩
  exact h.2 _ (List.mem_cons_of_mem _ (List.mem_cons_of_mem _
    (List.mem_cons_of_mem _ List.mem_cons_self))) rfl

/-- For every input the interleaving without interrupts returns at once. A call, with
any interleaving, has waited long enough when it returns if and only if no test of the
tick counter left the loop ahead of time. -/
theorem wait_returns_early (hz : Int) (n : Nat) (seconds : Word) (hhz : 1 ≤ hz)
    (hseconds : 1 ≤ seconds.toNat) (hfit : (after hz n).seconds.toNat + seconds.toNat < 2 ^ 32) :
    (¬ ∀ run, IsRun (step seconds) (call (after hz n)) run →
      EveryState (NoWrap seconds) (call (after hz n)) run →
      EveryState (Waited seconds) (call (after hz n)) run) ∧
    ∀ run, IsRun (step seconds) (call (after hz n)) run →
      EveryState (NoWrap seconds) (call (after hz n)) run →
      (EveryState (Waited seconds) (call (after hz n)) run ↔
        EveryStep (GoesOn seconds) (call (after hz n)) run) := by
  have hstart := after_ticking hhz n
  constructor
  · intro hall
    have hwaited := hall (uninterrupted (after hz n) seconds) (isRun_uninterrupted hfit)
      (noWrap_uninterrupted hfit)
    have hlast := hwaited.2 _ (List.mem_cons_of_mem _ (List.mem_cons_of_mem _
      (List.mem_cons_of_mem _ List.mem_cons_self))) rfl
    have hpos : (1 : Int) * 1 ≤ seconds.toNat * hz :=
      Int.mul_le_mul (by omega) hhz (by omega) (by omega)
    have hrate := hstart.rate
    simp only [call, hrate] at hlast
    omega
  · intro run hrun hwrap
    have hrun' := isRun_and_of_forall (R := fun _ t => NoWrap seconds t) hrun
      (fun e he => hwrap.2 e he)
    exact everyState_iff_of_breaks (I := Good hz seconds (after hz n)) (fun s hs => hs.waited)
      (fun s a t hs hgo hstep => good_step hstart hhz hseconds hs hgo hstep.1 hstep.2)
      (fun s a t _ hgo hstep => not_waited_of_not_goesOn hgo hstep.1) (good_call hstart hfit) hrun'

theorem wait_returns_early_second :
    (¬ ∀ run, IsRun (step 1) (call (after 18 20)) run →
      EveryState (NoWrap 1) (call (after 18 20)) run →
      EveryState (Waited 1) (call (after 18 20)) run) ∧
    (EveryState (Waited 1) (call (after 18 20)) (uninterrupted (after 18 20) 1) ↔
      EveryStep (GoesOn 1) (call (after 18 20)) (uninterrupted (after 18 20) 1)) :=
  have hfit : (after 18 20).seconds.toNat + (1 : Word).toNat < 2 ^ 32 := by decide +kernel
  have h := wait_returns_early 18 20 1 (by decide) (by decide) hfit
  ⟨h.1, h.2 _ (isRun_uninterrupted hfit) (noWrap_uninterrupted hfit)⟩

end Waiting

end TeachingKernel.Timer
