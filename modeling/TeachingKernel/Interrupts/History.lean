import Mathlib.Algebra.BigOperators.Fin
import TeachingKernel.Interrupts.Accounts

/-!
# Histories of interrupts

What holds after every run of devices, processor and kernel that starts in front of
`IRQ::init`: the controllers are programmed, the dispatcher and the controllers agree
on what is in service, no request stays behind, and every request that is held is
dispatched exactly once.
-/

namespace TeachingKernel.Interrupts

open LineRegister Runs

namespace Kernel

variable {H : Type} {k : Kernel H} {pics : Pics} {handlerTable : Word → Option H}
  {run : List (Event H × Kernel H)} {L : Nat → Prop} {i : Nat}

instance [DecidablePred L] (k : Kernel H) (a : Event H) : Decidable (Holds L k a) := by
  cases a <;> unfold Holds <;> infer_instance

/-! ## Programming and service -/

def sampleEvents : List (Event Unit) :=
  [.raise 3, .outportb, .raise 1, .outportb, .raise 9] ++ List.replicate 8 .outportb ++
    [.raise 0, .acknowledge, .outportb]

def sampleBoot : Kernel Unit := boot Pics.init fun _ => none

theorem sample_isRun : ∃ run, IsRun Kernel.step sampleBoot run ∧
    EveryStep (Holds fun _ => True) sampleBoot run ∧ (last sampleBoot run).Idle ∧
    (last sampleBoot run).pics.intr = true ∧ (last sampleBoot run).pics.requested 9 = true ∧
    (last sampleBoot run).reset 9 = true := by
  have h : (runOf Kernel.exec sampleBoot sampleEvents).map (fun run => decide (
      EveryStep (Holds fun _ => True) sampleBoot run ∧ (last sampleBoot run).Idle ∧
      (last sampleBoot run).pics.intr = true ∧ (last sampleBoot run).pics.requested 9 = true ∧
      (last sampleBoot run).reset 9 = true)) = some true := by
    decide +kernel
  obtain ⟨run, hrun, hfacts⟩ := Option.map_eq_some_iff.mp h
  exact ⟨run, isRun_of_runOf (fun _ _ _ hstep => hstep) hrun, of_decide_eq_true hfacts⟩

/-- Whatever the devices do meanwhile, every write of `irq_remap` is accepted, and from
its end on the controllers are programmed as it asks. -/
theorem irqRemap_programs (hmaster : pics.master.specialMask = false)
    (hslave : pics.slave.specialMask = false)
    (hrun : IsRun Kernel.step (boot pics handlerTable) run) :
    (¬ (last (boot pics handlerTable) run).Idle →
        ((last (boot pics handlerTable) run).outportb).isSome = true) ∧
      ((last (boot pics handlerTable) run).Idle ∨
        (last (boot pics handlerTable) run).dispatched ≠ [] →
          (last (boot pics handlerTable) run).pics.Programmed) := by
  have hs := started_of_run hmaster hslave hrun
  refine ⟨fun hbusy => ?_, fun h => (hs.running h).programmed⟩
  rcases hs with ⟨hb, -⟩ | hr
  · obtain ⟨k', heq, -⟩ := hb.outportb_eq
    rw [heq, Option.isSome_some]
  · obtain ⟨k', heq, -⟩ := hr.outportb_eq hbusy
    rw [heq, Option.isSome_some]

theorem irqRemap_programs_sample : ∃ run, IsRun Kernel.step sampleBoot run ∧
    (last sampleBoot run).pics.Programmed := by
  obtain ⟨run, hrun, -, hidle, -⟩ := sample_isRun
  exact ⟨run, hrun, (irqRemap_programs rfl rfl hrun).2 (.inl hidle)⟩

/-- The lines in service are those that the dispatcher is going to end, and every
acknowledgement finds an entry of its table for the delivered line. -/
theorem service_follows_dispatcher (hmaster : pics.master.specialMask = false)
    (hslave : pics.slave.specialMask = false)
    (hrun : IsRun Kernel.step (boot pics handlerTable) run)
    (hstarted : (last (boot pics handlerTable) run).Idle ∨
      (last (boot pics handlerTable) run).dispatched ≠ []) :
    (last (boot pics handlerTable) run).Phase ∧
      ((last (boot pics handlerTable) run).Idle →
        (last (boot pics handlerTable) run).pics.intr = true →
          ∃ n k', DeviceLine n ∧ (last (boot pics handlerTable) run).acknowledge = some k' ∧
            k'.current = some (BitVec.ofNat 32 n)) := by
  have hr := (started_of_run hmaster hslave hrun).running hstarted
  refine ⟨hr.phase, fun hidle hintr => ?_⟩
  obtain ⟨n, next, hdel, heq⟩ := hr.acknowledge_eq hidle hintr
  exact ⟨n, _, hdel.deviceLine, heq, current_append _ _ _ _ _⟩

theorem service_follows_dispatcher_sample : ∃ run, IsRun Kernel.step sampleBoot run ∧
    (last sampleBoot run).Phase ∧ ∃ n k', DeviceLine n ∧
      (last sampleBoot run).acknowledge = some k' ∧ k'.current = some (BitVec.ofNat 32 n) := by
  obtain ⟨run, hrun, -, hidle, hintr, -⟩ := sample_isRun
  have h := service_follows_dispatcher rfl rfl hrun (.inl hidle)
  exact ⟨run, hrun, h.1, h.2 hidle hintr⟩

theorem Running.irr_eq_zero (hr : k.Running) (hidle : k.Idle) (hintr : k.pics.intr = false) :
    k.pics.master.irr = 0#8 ∧ k.pics.slave.irr = 0#8 := by
  obtain ⟨hmaster, hslave, hsettled⟩ := hr.phase.of_idle hidle
  have hint := hr.cascaded.intr_eq.symm.trans hintr
  have hzero : k.pics.master.irr = 0#8 := by
    refine Classical.byContradiction fun hne => ?_
    have hset := slave_int_of_requested hr.programmed.nested.master hsettled hmaster hne
    cases hset.symm.trans hint
  refine ⟨hzero, Classical.byContradiction fun hne => ?_⟩
  have hsint := slave_int_of_requested hr.programmed.nested.slave hr.settled hslave hne
  have hreq := hr.cascaded.requested hsint
  rw [hzero, BitVec.getLsbD_zero] at hreq
  cases hreq

theorem requested_of_irr_eq_zero {s : Pics} (hm : s.master.irr = 0#8) (hs : s.slave.irr = 0#8)
    (line : Nat) : s.requested line = false := by
  rw [Pics.requested, hm, hs]
  split <;> exact BitVec.getLsbD_zero

/-- Outside of the dispatcher, a request of any line has the processor interrupted. -/
theorem nothing_left_behind (hmaster : pics.master.specialMask = false)
    (hslave : pics.slave.specialMask = false)
    (hrun : IsRun Kernel.step (boot pics handlerTable) run)
    (hidle : (last (boot pics handlerTable) run).Idle) {line : Nat}
    (hreq : (last (boot pics handlerTable) run).pics.requested line = true) :
    (last (boot pics handlerTable) run).pics.intr = true := by
  have hr := (started_of_run hmaster hslave hrun).running (.inl hidle)
  refine Classical.byContradiction fun hintr => ?_
  obtain ⟨hm, hs⟩ := hr.irr_eq_zero hidle (Bool.eq_false_iff.mpr hintr)
  rw [requested_of_irr_eq_zero hm hs] at hreq
  cases hreq

theorem nothing_left_behind_sample : ∃ run, IsRun Kernel.step sampleBoot run ∧
    (last sampleBoot run).pics.requested 9 = true ∧ (last sampleBoot run).pics.intr = true := by
  obtain ⟨run, hrun, -, hidle, -, hreq, -⟩ := sample_isRun
  exact ⟨run, hrun, hreq, nothing_left_behind rfl rfl hrun hidle hreq⟩

/-! ## Accounts -/

/-- The lines in `L` are edge triggered, and the controllers have no special mask. -/
structure Startable (L : Nat → Prop) (s : Pics) : Prop where
  master : s.master.specialMask = false
  slave : s.slave.specialMask = false
  masterEdge : ∀ i < 8, L i → s.master.edgeLevel.getLsbD i = false
  slaveEdge : ∀ i < 8, L (8 + i) → s.slave.edgeLevel.getLsbD i = false

theorem heldFrom_boot (hstart : Startable L pics) : (boot pics handlerTable).HeldFrom L :=
  ⟨fun _ => hstart.masterEdge, fun _ => hstart.slaveEdge, fun h => absurd h.symm drop_one_ne,
    fun h => absurd h.symm drop_one_ne, fun h => absurd rfl h⟩

theorem account_run (hs : k.Started) (h : k.HeldFrom L) (hrun : IsRun Kernel.step k run)
    (hholds : EveryStep (Holds L) k run) (hi : DeviceLine i) (htrusted : Trusted L i) :
    ((last k run).Started ∧ (last k run).HeldFrom L) ∧
      account i (last k run) = account i k + countSteps (newEdge i) k run :=
  measure_of_step (P := fun s => s.Started ∧ s.HeldFrom L)
    (fun _ _ _ hs hguard hstep => account_step hs.1 hs.2 hguard hstep hi htrusted) ⟨hs, h⟩ hrun
    hholds

/-- From the reset of its controller on, every rising edge of a line whose device holds
its requests is dispatched once or still waits, whatever the other devices do. On the
two lines of the spurious interrupts the other devices have to hold theirs, too. -/
theorem dispatched_once (hstart : Startable L pics)
    (hrun : IsRun Kernel.step (boot pics handlerTable) run)
    (hholds : EveryStep (Holds L) (boot pics handlerTable) run) (hi : DeviceLine i)
    (htrusted : Trusted L i)
    (hreset : (last (boot pics handlerTable) run).reset i = true) :
    (last (boot pics handlerTable) run).served i +
        ((last (boot pics handlerTable) run).pics.requested i).toNat =
      countSteps (newEdge i) (boot pics handlerTable) run := by
  have hsum := (account_run (.inl ⟨.first rfl hstart.master hstart.slave, rfl⟩)
    (heldFrom_boot hstart) hrun hholds hi htrusted).2
  have hzero : account i (boot pics handlerTable) = 0 := by
    rw [account, if_neg]
    simp [reset, boot]
  rw [hzero, Nat.zero_add, account, if_pos hreset] at hsum
  exact hsum

theorem startable_init (L : Nat → Prop) : Startable L Pics.init :=
  ⟨rfl, rfl, fun _ _ _ => BitVec.getLsbD_zero, fun _ _ _ => BitVec.getLsbD_zero⟩

theorem dispatched_once_sample : ∃ run, IsRun Kernel.step sampleBoot run ∧
    (last sampleBoot run).served 9 + ((last sampleBoot run).pics.requested 9).toNat =
      countSteps (newEdge 9) sampleBoot run := by
  obtain ⟨run, hrun, hholds, -, -, -, hreset⟩ := sample_isRun
  exact ⟨run, hrun, dispatched_once (startable_init _) hrun hholds (by decide)
    ⟨trivial, .inr fun _ _ => trivial⟩ hreset⟩

/-! ## Without further edges -/

def OfCpu : Event H → Prop
  | .acknowledge | .outportb => True
  | _ => False

/-- The number of device lines with a request that waits. -/
def waiting (s : Pics) : Nat :=
  ((Finset.range 16).filter DeviceLine).sum fun i => (s.requested i).toNat

theorem holds_of_ofCpu {a : Event H} (h : OfCpu a) : Holds L k a := by
  cases a with
  | raise => exact h.elim
  | lower => exact h.elim
  | _ => trivial

theorem newEdge_of_ofCpu {a : Event H} (h : OfCpu a) : newEdge i k a = false := by
  cases a with
  | raise => exact h.elim
  | _ => rfl

theorem holds_of_cpuRun (hcpu : ∀ e ∈ run, OfCpu e.1) :
    EveryStep (Holds L) k run ∧ countSteps (newEdge i) k run = 0 := by
  induction run generalizing k with
  | nil => exact ⟨trivial, rfl⟩
  | cons e rest ih =>
      obtain ⟨a, t⟩ := e
      have hcpu' := List.forall_mem_cons.mp hcpu
      obtain ⟨hrest, hcount⟩ := ih (k := t) hcpu'.2
      refine ⟨⟨holds_of_ofCpu hcpu'.1, hrest⟩, ?_⟩
      rw [countSteps, newEdge_of_ofCpu hcpu'.1, hcount]
      rfl

theorem Running.finish (hr : k.Running) : ∃ run, IsRun Kernel.step k run ∧
    (∀ e ∈ run, OfCpu e.1) ∧ (last k run).Idle ∧ (last k run).dispatched = k.dispatched := by
  obtain ⟨n, hn⟩ : ∃ n, n = k.writes.length := ⟨_, rfl⟩
  induction n generalizing k with
  | zero => exact ⟨[], trivial, by simp, List.length_eq_zero_iff.mp hn.symm, rfl⟩
  | succ n ih =>
      have hbusy : ¬ k.Idle := by
        intro hidle
        rw [hidle] at hn
        cases hn
      obtain ⟨next, heq, hnext⟩ := hr.outportb_eq hbusy
      obtain ⟨write, rest, hwrites⟩ := List.exists_cons_of_ne_nil hbusy
      have hnextWrites : next.writes = rest ∧ next.dispatched = k.dispatched := by
        obtain ⟨address, value⟩ := write
        rw [outportb, hwrites] at heq
        obtain ⟨pics, -, rfl⟩ := Option.map_eq_some_iff.mp heq
        exact ⟨rfl, rfl⟩
      obtain ⟨run, hrun, hcpu, hidle, hsame⟩ := ih hnext (by
        rw [hnextWrites.1]
        rw [hwrites, List.length_cons] at hn
        omega)
      exact ⟨(.outportb, next) :: run, ⟨heq, hrun⟩, List.forall_mem_cons.mpr ⟨trivial, hcpu⟩,
        hidle, hsame.trans hnextWrites.2⟩

theorem account_of_cpuRun (hs : k.Started) (h : k.HeldFrom L) (hrun : IsRun Kernel.step k run)
    (hcpu : ∀ e ∈ run, OfCpu e.1) (hi : DeviceLine i) (htrusted : Trusted L i) :
    ((last k run).Started ∧ (last k run).HeldFrom L) ∧ account i (last k run) = account i k := by
  obtain ⟨hholds, hnone⟩ := holds_of_cpuRun (L := L) (k := k) (i := i) hcpu
  have h := account_run hs h hrun hholds hi htrusted
  rw [hnone] at h
  exact h

theorem account_of_running (hr : k.Running) (i : Nat) :
    account i k = k.served i + (k.pics.requested i).toNat := by
  obtain ⟨hw, hw'⟩ := hr.phase.writes_ne
  rw [account, reset_of_ne hw hw', if_pos rfl]

theorem trusted_of_all (hall : ∀ j, L j) (i : Nat) : Trusted L i := ⟨hall i, .inr fun j _ => hall j⟩

theorem Running.serve (hr : k.Running) (h : k.HeldFrom L) (hall : ∀ j, L j) (hidle : k.Idle)
    (hintr : k.pics.intr = true) : ∃ run, IsRun Kernel.step k run ∧ (∀ e ∈ run, OfCpu e.1) ∧
      (last k run).Idle ∧ (last k run).Running ∧ (last k run).HeldFrom L ∧
      waiting (last k run).pics + 1 = waiting k.pics := by
  obtain ⟨n, pics, hdel, heq⟩ := hr.acknowledge_eq hidle hintr
  obtain ⟨k₁, hk₁, hdispatched⟩ : ∃ k₁, k.acknowledge = some k₁ ∧ k₁.dispatched =
      k.dispatched ++ [(BitVec.ofNat 32 n, k.handlerTable (BitVec.ofNat 32 n))] := ⟨_, heq, rfl⟩
  have hr₁ := hr.step (a := .acknowledge) hk₁
  obtain ⟨rest, hrest, hcpu, hend, hsame⟩ := hr₁.finish
  have hrun : IsRun Kernel.step k ((.acknowledge, k₁) :: rest) := ⟨hk₁, hrest⟩
  have hcpu' : ∀ e ∈ (Event.acknowledge, k₁) :: rest, OfCpu e.1 :=
    List.forall_mem_cons.mpr ⟨trivial, hcpu⟩
  have hr' : (last k ((.acknowledge, k₁) :: rest)).Running := hr₁.run hrest
  have haccount : ∀ i, DeviceLine i → ((last k ((.acknowledge, k₁) :: rest)).pics.requested i).toNat
      + (if n = i then 1 else 0) = (k.pics.requested i).toNat := by
    intro i hi
    have hsum := (account_of_cpuRun (.inr hr) h hrun hcpu' hi (trusted_of_all hall i)).2
    have hserved : (last k ((.acknowledge, k₁) :: rest)).served i =
        k.served i + (if n = i then 1 else 0) := by
      rw [served, show (last k ((.acknowledge, k₁) :: rest)).dispatched = _ from hsame,
        hdispatched, List.countP_append, List.countP_singleton]
      simp only [ofNat_eq_ofNat hdel.deviceLine.1 hi.1, decide_eq_true_eq]
      rfl
    rw [account_of_running hr', account_of_running hr, hserved] at hsum
    omega
  refine ⟨_, hrun, hcpu', hend, hr', (account_of_cpuRun (i := 0) (.inr hr) h hrun hcpu'
    (by decide) (trusted_of_all hall 0)).1.2, ?_⟩
  have hone : ((Finset.range 16).filter DeviceLine).sum (fun i => if n = i then 1 else 0) = 1 := by
    rw [Finset.sum_ite_eq, if_pos]
    exact Finset.mem_filter.mpr ⟨Finset.mem_range.mpr hdel.deviceLine.1, hdel.deviceLine⟩
  rw [waiting, waiting, ← hone, ← Finset.sum_add_distrib]
  exact Finset.sum_congr rfl fun i hi => haccount i (Finset.mem_filter.mp hi).2

/-- Left to itself, the processor dispatches what waits and comes to rest. -/
theorem Running.drain (hr : k.Running) (h : k.HeldFrom L) (hall : ∀ j, L j) (hidle : k.Idle) :
    ∃ run, IsRun Kernel.step k run ∧ (∀ e ∈ run, OfCpu e.1) ∧ (last k run).Idle ∧
      (last k run).pics.intr = false := by
  obtain ⟨n, hn⟩ : ∃ n, n = waiting k.pics := ⟨_, rfl⟩
  induction n generalizing k with
  | zero =>
      refine ⟨[], trivial, by simp, hidle, Bool.eq_false_iff.mpr fun hintr => ?_⟩
      obtain ⟨run, -, -, -, -, -, hless⟩ := hr.serve h hall hidle hintr
      omega
  | succ n ih =>
      cases hintr : k.pics.intr with
      | false => exact ⟨[], trivial, by simp, hidle, hintr⟩
      | true =>
          obtain ⟨run, hrun, hcpu, hend, hr', h', hless⟩ := hr.serve h hall hidle hintr
          obtain ⟨rest, hrest, hcpu', hend', hquiet⟩ := ih hr' h' hend (by omega)
          refine ⟨run ++ rest, hrun.append hrest, fun e he => ?_, ?_, ?_⟩
          · exact (List.mem_append.mp he).elim (hcpu e) (hcpu' e)
          · rw [last_append]
            exact hend'
          · rw [last_append]
            exact hquiet

/-- When the devices keep quiet, the processor comes to rest, and then it has
dispatched every line that waited once and no other. -/
theorem drains_once (hstart : Startable (fun _ => True) pics)
    (hrun : IsRun Kernel.step (boot pics handlerTable) run)
    (hholds : EveryStep (Holds fun _ => True) (boot pics handlerTable) run)
    (hidle : (last (boot pics handlerTable) run).Idle) :
    (∃ rest, IsRun Kernel.step (last (boot pics handlerTable) run) rest ∧
      (∀ e ∈ rest, OfCpu e.1) ∧ (last (last (boot pics handlerTable) run) rest).Idle ∧
      (last (last (boot pics handlerTable) run) rest).pics.intr = false) ∧
    ∀ rest, IsRun Kernel.step (last (boot pics handlerTable) run) rest →
      (∀ e ∈ rest, OfCpu e.1) → (last (last (boot pics handlerTable) run) rest).Idle →
      (last (last (boot pics handlerTable) run) rest).pics.intr = false →
      ∀ i, DeviceLine i → (last (last (boot pics handlerTable) run) rest).served i =
        (last (boot pics handlerTable) run).served i +
          ((last (boot pics handlerTable) run).pics.requested i).toNat := by
  have hheld := (account_run (i := 0) (.inl ⟨.first rfl hstart.master hstart.slave, rfl⟩)
    (heldFrom_boot hstart) hrun hholds (by decide) (trusted_of_all (fun _ => trivial) 0)).1
  have hr := hheld.1.running (.inl hidle)
  refine ⟨hr.drain hheld.2 (fun _ => trivial) hidle, fun rest hrest hcpu hend hquiet i hi => ?_⟩
  have hr' := hr.run hrest
  have hsum := (account_of_cpuRun hheld.1 hheld.2 hrest hcpu hi
    (trusted_of_all (fun _ => trivial) i)).2
  obtain ⟨hm, hs⟩ := hr'.irr_eq_zero hend hquiet
  rw [account_of_running hr', account_of_running hr, requested_of_irr_eq_zero hm hs] at hsum
  exact hsum

theorem drains_once_sample : ∃ run, IsRun Kernel.step sampleBoot run ∧
    ∃ rest, IsRun Kernel.step (last sampleBoot run) rest ∧
      (last (last sampleBoot run) rest).served 9 = (last sampleBoot run).served 9 + 1 := by
  obtain ⟨run, hrun, hholds, hidle, -, hreq, -⟩ := sample_isRun
  obtain ⟨⟨rest, hrest, hcpu, hend, hquiet⟩, hall⟩ :=
    drains_once (startable_init _) hrun hholds hidle
  refine ⟨run, hrun, rest, hrest, (hall rest hrest hcpu hend hquiet 9 (by decide)).trans ?_⟩
  rw [show (last (boot Pics.init fun _ => none) run).pics.requested 9 = true from hreq]
  rfl

end Kernel

end TeachingKernel.Interrupts
