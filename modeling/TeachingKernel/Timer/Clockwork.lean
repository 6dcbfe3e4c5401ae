import TeachingKernel.Interrupts.History
import TeachingKernel.Timer.Frequency
import TeachingKernel.Timer.Wait

/-!
# From the interval timer to the seconds

The output of the interval timer on line 0 of the interrupt controller, and the timer
object registered for it. A request of the line is withdrawn when the output falls
again. So where every timer interrupt is taken before that, the timer object counts
the periods of the chip, whatever the other devices and the kernel do.
-/

namespace TeachingKernel.Timer

open Interrupts Interrupts.Kernel Runs Counter

inductive Handler (D : Type) where
  | simpleTimer
  | other (device : D)

structure Board (D : Type) where
  counter : Counter
  kernel : Kernel (Handler D)
  timer : SimpleTimer

namespace Board

variable {H D : Type}

inductive Action (D : Type) where
  | clock
  | kernel (e : Interrupts.Event (Handler D))

def irqHandler (s : Pics) (value : Bool) : Pics := if value then s.raiseIrq 0 else s.lowerIrq 0

def Foreign : Interrupts.Event H → Bool
  | .raise line | .lower line => decide (line ≠ 0)
  | _ => true

def callTimer (timer : SimpleTimer) (d : Word × Option (Handler D)) : SimpleTimer :=
  match d.2 with
  | some .simpleTimer => timer.handleInterrupt
  | _ => timer

def exec (b : Board D) : Action D → Option (Board D)
  | .clock =>
      let counter := b.counter.clock
      let pics := (counter.changes.drop b.counter.changes.length).foldl irqHandler b.kernel.pics
      some { b with counter := counter, kernel := { b.kernel with pics := pics } }
  | .kernel e =>
      if Foreign e then
        (b.kernel.exec e).map fun kernel => { b with
          kernel := kernel
          timer := (kernel.dispatched.drop b.kernel.dispatched.length).foldl callTimer b.timer }
      else none

def step (b : Board D) (a : Action D) (b' : Board D) : Prop := b.exec a = some b'

/-- The output falls only when its last interrupt was taken. -/
def InTime (b : Board D) : Action D → Prop
  | .clock => b.counter.outPin = true → b.counter.clock.outPin = false →
      b.kernel.pics.requested 0 = false
  | .kernel _ => True

def isClock (_ : Board D) : Action D → Bool
  | .clock => true
  | .kernel _ => false

def Registered : Action D → Prop
  | .kernel (.registerHandler irqCode (.other _)) => irqCode ≠ 0
  | .kernel (.registerHandler _ .simpleTimer) => False
  | .kernel (.deregisterHandler irqCode) => irqCode ≠ 0
  | _ => True

end Board

/-! ## The output -/

namespace Counter

variable {c : Counter} {n : Nat}

/-- A clock reports the change of the output, if there is one. -/
theorem Regular.clock_changes (h : c.Regular) : c.clock.changes =
    c.changes ++ if c.clock.outPin = c.outPin then [] else [c.clock.outPin] := by
  cases h with
  | unwritten written trigger next =>
      rw [clock_unwritten written trigger]
      simp
  | loading h =>
      have hup := h.reload_counting.out
      rw [h.clock, reload_changes, hup]
      cases c.outPin <;> rfl
  | counting r h =>
      have hlower := h.lower
      rcases Nat.lt_or_ge r 3 with htwo | hlong
      · obtain rfl : r = 2 := by omega
        rw [clock_two h.loaded h.first h.out h.count_eq h.binary_eq, h.out]
        rfl
      · rw [h.clock hlong, outPin_leave, changes_leave, if_pos rfl, List.append_nil]

theorem Regular.count_true_clock (h : c.Regular) : c.clock.changes.count true =
    c.changes.count true + (!c.outPin && c.clock.outPin).toNat := by
  rw [h.clock_changes, List.count_append]
  cases c.outPin <;> cases c.clock.outPin <;> rfl

theorem Regular.count_false_clock (h : c.Regular) : c.clock.changes.count false =
    c.changes.count false + (c.outPin && !c.clock.outPin).toNat := by
  rw [h.clock_changes, List.count_append]
  cases c.outPin <;> cases c.clock.outPin <;> rfl

/-- The output rises as often as it falls, but for a last time. -/
theorem Regular.count_balance (h : c.Regular) (n : Nat) :
    (Counter.clock^[n] c).changes.count true + c.changes.count false +
        (!(Counter.clock^[n] c).outPin).toNat =
      c.changes.count true + (Counter.clock^[n] c).changes.count false + (!c.outPin).toNat := by
  induction n with
  | zero => rfl
  | succ n ih =>
      rw [Function.iterate_succ_apply', (h.iterate n).count_true_clock,
        (h.iterate n).count_false_clock]
      have hcase : ∀ a b : Bool, (!a && b).toNat + (!b).toNat = (a && !b).toNat + (!a).toNat := by
        decide
      have hnow := hcase (Counter.clock^[n] c).outPin (Counter.clock^[n] c).clock.outPin
      omega

/-- Behind its first clock the output has risen once for every period that is over. -/
theorem Loading.count_true_iterate (h : c.Loading) (hout : c.outPin = true) (n : Nat) :
    (Counter.clock^[n] c).changes.count true =
      c.changes.count true + (n - 1) / fullCount c.inlatch.toNat := by
  have hlower := h.reload_counting.lower
  have hbalance := Regular.count_balance (.loading h) n
  have hfalls := h.count_iterate n
  rw [h.outPin_iterate hout, hout] at hbalance
  obtain ⟨N, hN⟩ : ∃ N, N = fullCount c.inlatch.toNat := ⟨_, rfl⟩
  rw [← hN] at hbalance hfalls hlower ⊢
  rcases Nat.eq_zero_or_pos n with rfl | hpos
  · simp
  · obtain ⟨m, rfl⟩ : ∃ m, n = m + 1 := ⟨n - 1, by omega⟩
    rw [Nat.succ_div] at hfalls
    rw [Nat.add_sub_cancel]
    by_cases hend : N ∣ m + 1
    · have hmod := Nat.mod_eq_zero_of_dvd hend
      rw [if_pos hend] at hfalls
      rw [decide_eq_false (by omega), Bool.not_false, Bool.not_true, Bool.toNat_true,
        Bool.toNat_false] at hbalance
      omega
    · have hmod : (m + 1) % N ≠ 0 := fun h0 => hend (Nat.dvd_of_mod_eq_zero h0)
      rw [if_neg hend] at hfalls
      rw [decide_eq_true (.inr hmod), Bool.not_true, Bool.toNat_false] at hbalance
      omega

end Counter

namespace Board

variable {H D : Type} {b b' b₀ : Board D} {k k' : Kernel H}

/-! ## The line of the timer -/

theorem high_exec {e : Interrupts.Event H} (hr : k.Running) (he : Foreign e = true)
    (hstep : k.exec e = some k') : k'.pics.high 0 = k.pics.high 0 := by
  have hkeep : ∀ s : Pics, s.high 0 = s.master.irqIn.getLsbD 0 := fun _ => rfl
  rw [hkeep, hkeep]
  cases e with
  | raise line =>
      have hne : ¬ 0 = line := fun h => of_decide_eq_true he h.symm
      rw [Kernel.exec] at hstep
      split at hstep
      · cases hstep
        rw [Pics.raiseIrq_master_irqIn (by decide) (by decide), decide_eq_false hne, Bool.or_false]
      · cases hstep
  | lower line =>
      have hne : ¬ 0 = line := fun h => of_decide_eq_true he h.symm
      rw [Kernel.exec] at hstep
      split at hstep
      · cases hstep
        rw [Pics.lowerIrq_master_irqIn (by decide), decide_eq_false hne, Bool.not_false,
          Bool.and_true]
      · cases hstep
  | acknowledge =>
      have hready : k.writes = [] ∧ k.pics.intr = true := by
        by_cases hready : k.writes = [] ∧ k.pics.intr = true
        · exact hready
        · rw [Kernel.exec, Kernel.acknowledge, if_neg hready] at hstep
          cases hstep
      obtain ⟨n, pics, hdel, heq⟩ := hr.acknowledge_eq hready.1 hready.2
      cases heq.symm.trans hstep
      exact hdel.irqIn (by decide) (by decide)
  | outportb =>
      have hmaster : ∀ rest, k.writes = (0x20, 0x20) :: rest →
          k'.pics.master.irqIn.getLsbD 0 = k.pics.master.irqIn.getLsbD 0 := by
        intro rest hwrites
        cases (Kernel.outportb_eq hwrites (write_master_eoi k.pics)).symm.trans hstep
        rw [Pics.serviceMasterPic_irqIn, k.pics.master.clearHighestInterrupt_same.1.irqIn]
      have hslave : ∀ rest, k.writes = (0xA0, 0x20) :: rest →
          k'.pics.master.irqIn.getLsbD 0 = k.pics.master.irqIn.getLsbD 0 := by
        intro rest hwrites
        cases (Kernel.outportb_eq hwrites (write_slave_eoi k.pics)).symm.trans hstep
        exact Pics.serviceSlavePic_master_irqIn
          (s := { k.pics with slave := k.pics.slave.clearHighestInterrupt }) (by decide) (by decide)
      cases hr.phase with
      | idle hwrites =>
          rw [Kernel.exec, Kernel.outportb, hwrites] at hstep
          cases hstep
      | master _ _ _ _ hwrites => exact hmaster _ hwrites
      | slave _ _ _ hwrites => exact hslave _ hwrites
      | cascade _ _ _ hwrites => exact hmaster _ hwrites
  | registerHandler irqCode handler =>
      rw [Kernel.exec, Kernel.registerHandler] at hstep
      split at hstep
      · cases hstep
        rfl
      · cases hstep
  | deregisterHandler irqCode =>
      rw [Kernel.exec, Kernel.deregisterHandler] at hstep
      split at hstep
      · cases hstep
        rfl
      · cases hstep

/-- The kernel behind `irq_remap`, with the interval timer at its line, since `b₀`. -/
structure Linked (b₀ b : Board D) : Prop where
  running : b.kernel.Running
  held : b.kernel.HeldFrom (· = 0)
  regular : b.counter.Regular
  line : b.kernel.pics.high 0 = b.counter.outPin
  account : account 0 b.kernel + b₀.counter.changes.count true =
    account 0 b₀.kernel + b.counter.changes.count true

theorem trusted_zero : Trusted (· = 0) 0 := ⟨rfl, .inl ⟨by decide, by decide⟩⟩

theorem holds_foreign {e : Interrupts.Event H} (he : Foreign e = true) :
    Holds (· = 0) k e ∧ newEdge 0 k e = false := by
  cases e with
  | raise line =>
      have hne : ¬ 0 = line := fun h => of_decide_eq_true he h.symm
      refine ⟨fun h => absurd h (by decide), ?_⟩
      rw [newEdge, decide_eq_false hne, Bool.false_and, Bool.and_false]
  | lower line => exact ⟨fun h => absurd h (of_decide_eq_true he), rfl⟩
  | _ => exact ⟨trivial, rfl⟩

theorem Linked.clock (hl : Linked b₀ b) (htime : InTime b .clock)
    (hstep : b.step .clock b') : Linked b₀ b' := by
  have hchanges := hl.regular.clock_changes
  have hcount := hl.regular.count_true_clock
  have haccount := hl.account
  have hdevice : DeviceLine 0 := by decide
  have hreset : b.kernel.reset 0 = true :=
    reset_of_ne hl.running.phase.writes_ne.1 hl.running.phase.writes_ne.2 0
  rw [step, exec] at hstep
  cases hstep
  rw [hchanges, List.drop_left]
  by_cases hsame : b.counter.clock.outPin = b.counter.outPin
  · rw [if_pos hsame, List.foldl_nil]
    refine ⟨hl.running, hl.held, hl.regular.clock, hl.line.trans hsame.symm, ?_⟩
    rw [hsame] at hcount
    simp only [Bool.not_and_self, Bool.toNat_false, Nat.add_zero] at hcount
    rw [hcount]
    exact haccount
  · rw [if_neg hsame, List.foldl_cons, List.foldl_nil, irqHandler]
    cases hup : b.counter.clock.outPin with
    | true =>
        have hdown : b.counter.outPin = false := by
          cases h : b.counter.outPin with
          | false => rfl
          | true => exact absurd (hup.trans h.symm) hsame
        have hrise : b.kernel.exec (.raise 0) =
            some { b.kernel with pics := b.kernel.pics.raiseIrq 0 } := by
          rw [Kernel.exec, if_pos hdevice]
        have h := account_step (.inr hl.running) hl.held
          (show Holds (· = 0) b.kernel (.raise 0) from fun h => absurd h (by decide)) hrise hdevice
          trusted_zero
        rw [newEdge, hreset, hl.line, hdown] at h
        rw [hdown, hup] at hcount
        refine ⟨hl.running.raise hdevice, h.1.2, hl.regular.clock, ?_, ?_⟩
        · have hpin : (b.kernel.pics.raiseIrq 0).high 0 = true :=
            (Pics.raiseIrq_master_irqIn (by decide) (by decide) 0).trans (Bool.or_true _)
          exact hpin.trans hup.symm
        · have hsum := h.2
          have hnext : Kernel.account 0
              ({ b.kernel with pics := b.kernel.pics.raiseIrq 0 } : Kernel _) +
                b₀.counter.changes.count true =
              Kernel.account 0 b₀.kernel + b.counter.clock.changes.count true := by
            rw [hsum, hcount, ← Nat.add_assoc, ← haccount]
            exact Nat.add_right_comm _ _ _
          exact hnext
    | false =>
        have hwas : b.counter.outPin = true := by
          cases h : b.counter.outPin with
          | true => rfl
          | false => exact absurd (hup.trans h.symm) hsame
        have hguard : Holds (· = 0) b.kernel (.lower 0) := fun _ => htime hwas hup
        have hfall : b.kernel.exec (.lower 0) =
            some { b.kernel with pics := b.kernel.pics.lowerIrq 0 } := by
          rw [Kernel.exec, if_pos hdevice]
        have h := account_step (.inr hl.running) hl.held hguard hfall hdevice trusted_zero
        rw [hwas, hup] at hcount
        refine ⟨hl.running.lower hdevice, h.1.2, hl.regular.clock, ?_, ?_⟩
        · have hpin : (b.kernel.pics.lowerIrq 0).high 0 = false :=
            (Pics.lowerIrq_master_irqIn (by decide) 0).trans (Bool.and_false _)
          exact hpin.trans hup.symm
        · have hsum := h.2
          have hnext : Kernel.account 0
              ({ b.kernel with pics := b.kernel.pics.lowerIrq 0 } : Kernel _) +
                b₀.counter.changes.count true =
              Kernel.account 0 b₀.kernel + b.counter.clock.changes.count true := by
            rw [hsum, hcount]
            exact haccount
          exact hnext

theorem Linked.kernel {e : Interrupts.Event (Handler D)} (hl : Linked b₀ b)
    (hstep : b.step (.kernel e) b') : Linked b₀ b' := by
  rw [step, exec] at hstep
  split at hstep
  · rename_i he
    obtain ⟨k', hk', rfl⟩ := Option.map_eq_some_iff.mp hstep
    have hholds := holds_foreign (k := b.kernel) he
    have h := account_step (.inr hl.running) hl.held hholds.1 hk' (by decide) trusted_zero
    rw [hholds.2] at h
    refine ⟨hl.running.step hk', h.1.2, hl.regular, (high_exec hl.running he hk').trans hl.line, ?_⟩
    have hsum := h.2
    have haccount := hl.account
    simp only [Bool.toNat_false, Nat.add_zero] at hsum
    rw [hsum]
    exact haccount
  · cases hstep

theorem Linked.step {a : Action D} (hl : Linked b₀ b) (htime : InTime b a)
    (hstep : b.step a b') : Linked b₀ b' := by
  cases a with
  | clock => exact hl.clock htime hstep
  | kernel e => exact hl.kernel hstep

/-! ## The timer object -/

/-- An event calls at most the handler that its table names. -/
theorem exec_dispatched {e : Interrupts.Event H} (hstep : k.exec e = some k') :
    ∃ called, k'.dispatched = k.dispatched ++ called ∧
      ∀ d ∈ called, d.2 = k.handlerTable d.1 := by
  have hsame : k'.dispatched = k.dispatched → ∃ called, k'.dispatched = k.dispatched ++ called ∧
      ∀ d ∈ called, d.2 = k.handlerTable d.1 := fun h => ⟨[], by rw [h, List.append_nil], by simp⟩
  cases e with
  | acknowledge =>
      rw [Kernel.exec, Kernel.acknowledge] at hstep
      split at hstep
      · unfold Kernel.dispatchInterrupt at hstep
        dsimp only at hstep
        split at hstep
        · cases hstep
          exact ⟨[_], rfl, fun d hd => by rw [List.mem_singleton.mp hd]⟩
        · cases hstep
      · cases hstep
  | outportb =>
      rw [Kernel.exec, Kernel.outportb] at hstep
      split at hstep
      · cases hstep
      · obtain ⟨pics, -, rfl⟩ := Option.map_eq_some_iff.mp hstep
        exact hsame rfl
  | raise line =>
      rw [Kernel.exec] at hstep
      split at hstep
      · cases hstep
        exact hsame rfl
      · cases hstep
  | lower line =>
      rw [Kernel.exec] at hstep
      split at hstep
      · cases hstep
        exact hsame rfl
      · cases hstep
  | registerHandler irqCode handler =>
      rw [Kernel.exec, Kernel.registerHandler] at hstep
      split at hstep
      · cases hstep
        exact hsame rfl
      · cases hstep
  | deregisterHandler irqCode =>
      rw [Kernel.exec, Kernel.deregisterHandler] at hstep
      split at hstep
      · cases hstep
        exact hsame rfl
      · cases hstep

def HandlesZero (k : Kernel (Handler D)) : Prop :=
  ∀ irqCode, k.handlerTable irqCode = some .simpleTimer ↔ irqCode = 0

theorem HandlesZero.exec {k k' : Kernel (Handler D)} {e : Interrupts.Event (Handler D)}
    (h : HandlesZero k) (hreg : Registered (.kernel e)) (hstep : k.exec e = some k') :
    HandlesZero k' := by
  cases e with
  | acknowledge =>
      rw [Kernel.exec, Kernel.acknowledge] at hstep
      split at hstep
      · unfold Kernel.dispatchInterrupt at hstep
        dsimp only at hstep
        split at hstep
        · cases hstep
          exact h
        · cases hstep
      · cases hstep
  | outportb =>
      rw [Kernel.exec, Kernel.outportb] at hstep
      split at hstep
      · cases hstep
      · obtain ⟨pics, -, rfl⟩ := Option.map_eq_some_iff.mp hstep
        exact h
  | raise line =>
      rw [Kernel.exec] at hstep
      split at hstep
      · cases hstep
        exact h
      · cases hstep
  | lower line =>
      rw [Kernel.exec] at hstep
      split at hstep
      · cases hstep
        exact h
      · cases hstep
  | registerHandler irqCode handler =>
      cases handler with
      | simpleTimer => exact hreg.elim
      | other device =>
          rw [Kernel.exec, Kernel.registerHandler] at hstep
          split at hstep
          · cases hstep
            intro c
            by_cases hc : c = irqCode
            · simp only [if_pos hc]
              exact iff_of_false (by simp) (fun h0 => hreg (hc.symm.trans h0))
            · simp only [if_neg hc]
              exact h c
          · cases hstep
  | deregisterHandler irqCode =>
      rw [Kernel.exec, Kernel.deregisterHandler] at hstep
      split at hstep
      · cases hstep
        intro c
        by_cases hc : c = irqCode
        · simp only [if_pos hc]
          exact iff_of_false (by simp) (fun h0 => hreg (hc.symm.trans h0))
        · simp only [if_neg hc]
          exact h c
      · cases hstep

theorem foldl_callTimer {k : Kernel (Handler D)} {called : List (Word × Option (Handler D))}
    (h : HandlesZero k) (hcalled : ∀ d ∈ called, d.2 = k.handlerTable d.1) (t : SimpleTimer) :
    called.foldl callTimer t =
      SimpleTimer.handleInterrupt^[called.countP fun d => d.1 = BitVec.ofNat 32 0] t := by
  induction called generalizing t with
  | nil => rfl
  | cons d rest ih =>
      obtain ⟨hd, hrest⟩ := List.forall_mem_cons.mp hcalled
      have hiff : d.2 = some .simpleTimer ↔ d.1 = 0#32 := hd ▸ h d.1
      rw [List.foldl_cons, ih hrest, List.countP_cons]
      by_cases hzero : d.1 = 0#32
      · rw [if_pos (decide_eq_true hzero), Function.iterate_succ_apply, callTimer,
          hiff.mpr hzero]
      · rw [if_neg fun hz => hzero (of_decide_eq_true hz), Nat.add_zero, callTimer]
        split
        · rename_i htimer
          exact absurd (hiff.mp htimer) hzero
        · rfl

/-- The timer object has handled what was dispatched for line 0 since `b₀`. -/
structure Timed (b₀ b : Board D) : Prop where
  handles : HandlesZero b.kernel
  timer : ∃ n, b.kernel.served 0 = b₀.kernel.served 0 + n ∧
    b.timer = SimpleTimer.handleInterrupt^[n] b₀.timer

theorem Timed.step {a : Action D} (ht : Timed b₀ b) (hreg : Registered a)
    (hstep : b.step a b') : Timed b₀ b' := by
  cases a with
  | clock =>
      cases hstep
      exact ⟨ht.handles, ht.timer⟩
  | kernel e =>
      rw [Board.step, exec] at hstep
      split at hstep
      · obtain ⟨k', hk', rfl⟩ := Option.map_eq_some_iff.mp hstep
        obtain ⟨called, heq, hcalled⟩ := exec_dispatched hk'
        obtain ⟨n, hserved, htimer⟩ := ht.timer
        refine ⟨ht.handles.exec hreg hk', n + called.countP fun d => d.1 = BitVec.ofNat 32 0, ?_,
          ?_⟩
        · rw [Kernel.served, heq, List.countP_append, ← Nat.add_assoc, ← hserved]
          rfl
        · dsimp only
          rw [heq, List.drop_left, foldl_callTimer ht.handles hcalled, htimer, Nat.add_comm n,
            Function.iterate_add_apply]
      · cases hstep

/-! ## Runs -/

theorem counter_of_run {run : List (Action D × Board D)} (hrun : IsRun step b run) :
    (last b run).counter = Counter.clock^[countSteps isClock b run] b.counter := by
  induction run generalizing b with
  | nil => rfl
  | cons e rest ih =>
      obtain ⟨a, t⟩ := e
      rw [last, ih hrun.2, countSteps]
      have hstep := hrun.1
      cases a with
      | clock =>
          cases hstep
          rw [isClock, Bool.toNat_true, Nat.add_comm, Function.iterate_succ_apply]
      | kernel e =>
          rw [Board.step, exec] at hstep
          split at hstep
          · obtain ⟨k', -, rfl⟩ := Option.map_eq_some_iff.mp hstep
            rw [isClock, Bool.toNat_false, Nat.zero_add]
          · cases hstep

theorem linked_of_run {run : List (Action D × Board D)} (hl : Linked b b) (ht : Timed b b)
    (hrun : IsRun step b run)
    (htime : EveryStep (fun b a => InTime b a ∧ Registered a) b run) :
    Linked b (last b run) ∧ Timed b (last b run) :=
  last_of_everyState (everyState_of_step (P := fun s => Linked b s ∧ Timed b s)
    (fun _ _ _ hs hstep => ⟨hs.1.step hstep.2.1 hstep.1, hs.2.step hstep.2.2 hstep.1⟩) ⟨hl, ht⟩
    (isRun_and_of_everyStep hrun htime))

end Board

namespace SimpleTimer

/-- The counters of the timer, from the number of its interrupts. -/
theorem after_eq {m : Nat} (hm : 1 ≤ m) (n : Nat) :
    after m n = ⟨BitVec.ofNat 32 (n / m), (n % m : Nat), m⟩ := by
  induction n with
  | zero => simp [after, construct]
  | succ n ih =>
      have hlt := Nat.mod_lt n hm
      have hsum := Nat.div_add_mod n m
      rw [after, Function.iterate_succ_apply', ← after, ih, handleInterrupt]
      rcases Nat.lt_or_ge (n % m + 1) m with hless | hover
      · obtain ⟨hdiv, hmod⟩ : (n + 1) / m = n / m ∧ (n + 1) % m = n % m + 1 :=
          (Nat.div_mod_unique hm).mpr ⟨by omega, hless⟩
        have hgo : ¬ ((n % m : Nat) : Int) + 1 ≥ m := by omega
        rw [if_neg hgo, hdiv, hmod, Int.natCast_add]
        rfl
      · obtain ⟨hdiv, hmod⟩ : (n + 1) / m = n / m + 1 ∧ (n + 1) % m = 0 :=
          (Nat.div_mod_unique hm).mpr ⟨by rw [Nat.mul_add]; omega, hm⟩
        have hstop : ((n % m : Nat) : Int) + 1 ≥ m := by omega
        rw [if_pos hstop, hdiv, hmod, BitVec.ofNat_add]
        rfl

end SimpleTimer

namespace Board

variable {D : Type} {c : Counter} {hz : Int} {pics : Pics} {s : Kernel (Handler D)}
  {handlerTable : Word → Option (Handler D)}
  {pre : List (Interrupts.Event (Handler D) × Kernel (Handler D))}

/-- A timer that is set to `hz` when the controllers are programmed and its handler is
registered. Where each of its interrupts is taken before its output falls again, it
has counted a tick for every period that is over and whose interrupt does not wait. -/
theorem keeps_time (hlow : 19 ≤ hz) (hhigh : hz ≤ 596590) (hgate : c.gate = true)
    (htrigger : c.triggerGate = false) (hstart : Startable (· = 0) pics)
    (hboot : IsRun Kernel.step (boot pics handlerTable) pre)
    (hholds : EveryStep (Holds (· = 0)) (boot pics handlerTable) pre)
    (hs : s = last (boot pics handlerTable) pre) (hidle : s.Idle) (hline : s.pics.high 0 = true)
    (hhandles : HandlesZero s) :
    ∃ c', c.setFrequency hz = some c' ∧
      ∀ run, IsRun step ⟨c', s, .construct hz⟩ run →
        EveryStep (fun b a => InTime b a ∧ Registered a) ⟨c', s, .construct hz⟩ run →
        ∃ n, (last ⟨c', s, .construct hz⟩ run).timer =
            ⟨BitVec.ofNat 32 (n / hz.toNat), (n % hz.toNat : Nat), hz⟩ ∧
          n + ((last ⟨c', s, .construct hz⟩ run).kernel.pics.requested 0).toNat =
            (s.pics.requested 0).toNat +
              (countSteps isClock ⟨c', s, .construct hz⟩ run - 1) / (1193180 / hz).toNat := by
  obtain ⟨c', hset, hlatch, hout, -, hloading⟩ := setFrequency_eq hgate htrigger
    (show hz ≠ 0 by omega)
  obtain ⟨hne, hfull⟩ := fullCount_of_fits hlow hhigh
  have hload : c'.Loading := hloading (by rwa [hlatch])
  have hheld : s.Started ∧ s.HeldFrom (· = 0) := by
    rw [hs]
    exact (account_run (.inl ⟨.first rfl hstart.master hstart.slave, rfl⟩)
      (heldFrom_boot hstart) hboot hholds (by decide) trusted_zero).1
  have hrunning : s.Running := hheld.1.running (.inl hidle)
  refine ⟨c', hset, fun run hrun hsteps => ?_⟩
  obtain ⟨hlinked, htimed⟩ := linked_of_run
    ⟨hrunning, hheld.2, .loading hload, hline.trans hout.symm, rfl⟩ ⟨hhandles, 0, rfl, rfl⟩ hrun
    hsteps
  obtain ⟨n, hserved, htimer⟩ := htimed.timer
  refine ⟨n, ?_, ?_⟩
  · obtain ⟨m, rfl⟩ : ∃ m : Nat, hz = m := ⟨hz.toNat, by omega⟩
    exact htimer.trans (SimpleTimer.after_eq (by omega) n)
  · have hsum := hlinked.account
    rw [account_of_running hlinked.running, account_of_running hrunning, hserved,
      counter_of_run hrun] at hsum
    have hrises := hload.count_true_iterate hout (countSteps isClock ⟨c', s, .construct hz⟩ run)
    rw [hlatch, hfull] at hrises
    dsimp only at hsum
    rw [hrises] at hsum
    omega

instance (b : Board D) (a : Action D) : Decidable (InTime b a) := by
  cases a <;> unfold InTime <;> infer_instance

instance (a : Action D) : Decidable (Registered a) := by
  unfold Registered
  split <;> infer_instance

def sampleTable : Word → Option (Handler Unit) := fun c => if c = 0 then some .simpleTimer else none

def sampleBoot : Kernel (Handler Unit) := boot Pics.init sampleTable

theorem sample_isRun : ∃ pre c' run, IsRun Kernel.step sampleBoot pre ∧
    init.setFrequency 100 = some c' ∧
    IsRun step ⟨c', last sampleBoot pre, .construct 100⟩ run ∧
    (EveryStep (Holds (· = 0)) sampleBoot pre ∧ (∀ e ∈ pre, Registered (.kernel e.1)) ∧
      (last sampleBoot pre).Idle ∧ (last sampleBoot pre).pics.high 0 = true ∧
      EveryStep (fun b a => InTime b a ∧ Registered a) ⟨c', last sampleBoot pre, .construct 100⟩
        run ∧
      (last ⟨c', last sampleBoot pre, .construct 100⟩ run).timer.ticks = 1) := by
  have h : ((runOf Kernel.exec sampleBoot
      (.outportb :: .raise 0 :: List.replicate 9 .outportb)).bind fun pre =>
        (init.setFrequency 100).bind fun c' =>
          (runOf exec ⟨c', last sampleBoot pre, .construct 100⟩
            [.clock, .kernel .acknowledge, .kernel .outportb, .clock]).map fun run => decide (
      EveryStep (Holds (· = 0)) sampleBoot pre ∧ (∀ e ∈ pre, Registered (.kernel e.1)) ∧
      (last sampleBoot pre).Idle ∧ (last sampleBoot pre).pics.high 0 = true ∧
      EveryStep (fun b a => InTime b a ∧ Registered a) ⟨c', last sampleBoot pre, .construct 100⟩
        run ∧
      (last ⟨c', last sampleBoot pre, .construct 100⟩ run).timer.ticks = 1)) = some true := by
    decide +kernel
  obtain ⟨pre, hpre, h⟩ := Option.bind_eq_some_iff.mp h
  obtain ⟨c', hset, h⟩ := Option.bind_eq_some_iff.mp h
  obtain ⟨run, hrun, hfacts⟩ := Option.map_eq_some_iff.mp h
  exact ⟨pre, c', run, isRun_of_runOf (fun _ _ _ hstep => hstep) hpre, hset,
    isRun_of_runOf (fun _ _ _ hstep => hstep) hrun, of_decide_eq_true hfacts⟩

theorem handlesZero_of_run (h : HandlesZero (boot pics handlerTable))
    (hrun : IsRun Kernel.step (boot pics handlerTable) pre)
    (hreg : ∀ e ∈ pre, Registered (.kernel e.1)) :
    HandlesZero (last (boot pics handlerTable) pre) :=
  last_of_everyState (everyState_of_step (fun _ _ _ hs hstep => hs.exec hstep.2 hstep.1) h
    (isRun_and_of_forall (R := fun a _ => Registered (.kernel a)) hrun hreg))

theorem handlesZero_sampleBoot : HandlesZero sampleBoot := by
  intro c
  change (if c = 0 then some Handler.simpleTimer else none) = some .simpleTimer ↔ c = 0
  split
  · exact iff_of_true rfl ‹_›
  · exact iff_of_false (by simp) ‹_›

theorem keeps_time_100 : ∃ pre c' run, IsRun Kernel.step sampleBoot pre ∧
    IsRun step ⟨c', last sampleBoot pre, .construct 100⟩ run ∧
    ∃ n, (last ⟨c', last sampleBoot pre, .construct 100⟩ run).timer =
        ⟨BitVec.ofNat 32 (n / 100), (n % 100 : Nat), 100⟩ ∧
      n + ((last ⟨c', last sampleBoot pre, .construct 100⟩ run).kernel.pics.requested 0).toNat =
        ((last sampleBoot pre).pics.requested 0).toNat +
          (countSteps isClock ⟨c', last sampleBoot pre, .construct 100⟩ run - 1) / 11931 := by
  obtain ⟨pre, c', run, hpre, hset, hrun, hholds, hreg, hidle, hline, htime, -⟩ := sample_isRun
  obtain ⟨c₁, hset₁, hall⟩ := keeps_time (c := init) (show (19 : Int) ≤ 100 by decide)
    (by decide) rfl rfl (startable_init _) hpre hholds rfl hidle hline
    (handlesZero_of_run handlesZero_sampleBoot hpre hreg)
  cases hset.symm.trans hset₁
  exact ⟨pre, c', run, hpre, hrun, hall run hrun htime⟩

end Board

end TeachingKernel.Timer
