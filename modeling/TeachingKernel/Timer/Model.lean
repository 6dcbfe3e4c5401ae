import TeachingKernel.Lib.Runs
import TeachingKernel.Lib.Word

/-!
# The timer

`SimpleTimer` of P6 and its busy loop `wait`, with timer interrupts between any two
reads of the counters. The programming of the interval timer chip is left out, and so
is the line that the handler prints once a second.
-/

namespace TeachingKernel.Timer

structure SimpleTimer where
  seconds : Word
  ticks : Int
  hz : Int
  deriving DecidableEq, Repr

namespace SimpleTimer

def construct (hz : Int) : SimpleTimer := ⟨0, 0, hz⟩

def handleInterrupt (t : SimpleTimer) : SimpleTimer :=
  let t := { t with ticks := t.ticks + 1 }
  if t.ticks ≥ t.hz then { t with seconds := t.seconds + 1, ticks := 0 } else t

end SimpleTimer

/-- Where `wait` is: before one of its reads of the counters, or back at its caller. -/
inductive Pc where
  | currentSeconds | currentTicks | testSeconds | testTicks | returned
  deriving DecidableEq, Repr

/-- A call of `wait` with its local variables and the number of interrupts handled
since it was made. -/
structure Waiting where
  timer : SimpleTimer
  pc : Pc
  nowSeconds : Word
  nowTicks : Int
  thenSeconds : Word
  handled : Nat
  deriving DecidableEq, Repr

inductive Event where
  | interrupt | cpu
  deriving DecidableEq, Repr

namespace Waiting

def call (timer : SimpleTimer) : Waiting := ⟨timer, .currentSeconds, 0, 0, 0, 0⟩

/-- One read of `wait(_seconds)` and what it decides. The two tests are those of
`while ((seconds <= then_seconds) && (ticks < now_ticks));`. -/
def cpuStep (seconds : Word) (s : Waiting) : Option Waiting :=
  match s.pc with
  | .currentSeconds => some { s with nowSeconds := s.timer.seconds, pc := .currentTicks }
  | .currentTicks => some { s with
      nowTicks := s.timer.ticks
      thenSeconds := s.nowSeconds + seconds
      pc := .testSeconds }
  | .testSeconds =>
      some { s with pc := if s.timer.seconds ≤ s.thenSeconds then .testTicks else .returned }
  | .testTicks =>
      some { s with pc := if s.timer.ticks < s.nowTicks then .testSeconds else .returned }
  | .returned => none

def exec (seconds : Word) (s : Waiting) : Event → Option Waiting
  | .interrupt =>
      if s.pc = .returned then none
      else some { s with timer := s.timer.handleInterrupt, handled := s.handled + 1 }
  | .cpu => s.cpuStep seconds

def step (seconds : Word) (s : Waiting) (a : Event) (t : Waiting) : Prop :=
  s.exec seconds a = some t

end Waiting

end TeachingKernel.Timer
