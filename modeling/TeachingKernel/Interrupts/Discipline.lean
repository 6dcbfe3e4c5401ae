import Mathlib.Tactic.IntervalCases
import TeachingKernel.Interrupts.Acknowledge

/-!
# What is in service

Behind `irq_remap`, the lines in service are those that the commands still to be
written will end: none outside of the dispatcher, the line of the dispatched
interrupt inside of it, and with a line of the slave the cascade. So every command
finds its line, the next acknowledgement finds nothing in service, and no request
stays behind unsignalled.
-/

namespace TeachingKernel.Interrupts

open LineRegister Runs

namespace Kernel

variable {H : Type}

def current (k : Kernel H) : Option Word := k.dispatched.getLast?.map Prod.fst

/-- The lines in service, by what is still to be written. -/
inductive Phase (k : Kernel H) : Prop
  | idle (hwrites : k.writes = []) (hmaster : k.pics.master.isr = 0#8)
      (hslave : k.pics.slave.isr = 0#8) (hsettled : k.pics.master.signalled = none)
  | master (n : Nat) (hcurrent : k.current = some (BitVec.ofNat 32 n)) (hn : n < 8) (hne : n ≠ 2)
      (hwrites : k.writes = [(0x20, 0x20)]) (hmaster : k.pics.master.Serves n)
      (hslave : k.pics.slave.isr = 0#8)
  | slave (n : Nat) (hcurrent : k.current = some (BitVec.ofNat 32 (8 + n))) (hn : n < 8)
      (hwrites : k.writes = [(0xA0, 0x20), (0x20, 0x20)])
      (hmaster : Only k.pics.master.isr 2) (hslave : k.pics.slave.Serves n)
  | cascade (n : Nat) (hcurrent : k.current = some (BitVec.ofNat 32 (8 + n))) (hn : n < 8)
      (hwrites : k.writes = [(0x20, 0x20)])
      (hmaster : Only k.pics.master.isr 2) (hslave : k.pics.slave.isr = 0#8)

structure Running (k : Kernel H) : Prop where
  programmed : k.pics.Programmed
  cascaded : k.pics.Cascaded
  settled : k.pics.slave.signalled = none
  phase : k.Phase

variable {k k' : Kernel H} {line : Nat}

/-! ## Devices -/

theorem Phase.congr (h : k.Phase) {pics : Pics} (hsame : k.pics.SameSetup pics)
    (hsettled : k.pics.master.signalled = none → pics.master.signalled = none) :
    ({ k with pics := pics } : Kernel H).Phase := by
  have hm := hsame.master.isr
  have hs := hsame.slave.isr
  cases h with
  | idle hwrites hmaster hslave hset =>
      exact .idle hwrites (hm.trans hmaster) (hs.trans hslave) (hsettled hset)
  | master n hcurrent hn hne hwrites hmaster hslave =>
      exact .master n hcurrent hn hne hwrites (hmaster.congr hm) (hs.trans hslave)
  | slave n hcurrent hn hwrites hmaster hslave =>
      exact .slave n hcurrent hn hwrites (by rwa [hm]) (hslave.congr hs)
  | cascade n hcurrent hn hwrites hmaster hslave =>
      exact .cascade n hcurrent hn hwrites (by rwa [hm]) (hs.trans hslave)

theorem Running.raise (hr : k.Running) (hline : DeviceLine line) :
    ({ k with pics := k.pics.raiseIrq line } : Kernel H).Running := by
  have hsame := Pics.sameSetup_raiseIrq k.pics line
  exact ⟨hr.programmed.congr hsame, hr.cascaded.raiseIrq hr.programmed.nested hline,
    Pics.raiseIrq_slave_settled hr.settled, hr.phase.congr hsame Pics.raiseIrq_master_settled⟩

theorem Running.lower (hr : k.Running) (hline : DeviceLine line) :
    ({ k with pics := k.pics.lowerIrq line } : Kernel H).Running := by
  have hsame := Pics.sameSetup_lowerIrq k.pics line
  exact ⟨hr.programmed.congr hsame, hr.cascaded.lowerIrq hline,
    Pics.lowerIrq_slave_settled hr.programmed.nested hr.settled,
    hr.phase.congr hsame (Pics.lowerIrq_master_settled hr.programmed.nested)⟩

/-! ## The dispatcher -/

theorem dispatchInterrupt_eq (k : Kernel H) {n : Nat} (hn : n < 16) {regIntNo : Word}
    (hreg : regIntNo = BitVec.ofNat 32 n + 32#32) :
    k.dispatchInterrupt regIntNo = some { k with
      dispatched := k.dispatched ++ [(BitVec.ofNat 32 n, k.handlerTable (BitVec.ofNat 32 n))]
      writes := endOfInterrupt (BitVec.ofNat 32 n) } := by
  have hsub : regIntNo - irqBase = BitVec.ofNat 32 n := by
    rw [hreg]
    exact BitVec.add_sub_cancel _ _
  have hlt : (BitVec.ofNat 32 n : Word) < irqTableSize := by
    rw [BitVec.lt_def, toNat_ofNat_of_lt (by omega)]
    exact hn
  rw [dispatchInterrupt, hsub, if_pos hlt]

theorem endOfInterrupt_master {n : Nat} (hn : n < 8) :
    endOfInterrupt (BitVec.ofNat 32 n) = [(0x20, 0x20)] := by
  interval_cases n <;> rfl

theorem endOfInterrupt_slave {n : Nat} (hn : n < 8) :
    endOfInterrupt (BitVec.ofNat 32 (8 + n)) = [(0xA0, 0x20), (0x20, 0x20)] := by
  interval_cases n <;> rfl

theorem setWidth_vector {n : Nat} (hn : n < 8) :
    ((BitVec.ofNat 8 n + 0x20#8).setWidth 32 : Word) = BitVec.ofNat 32 n + 32#32 ∧
      ((BitVec.ofNat 8 n + 0x28#8).setWidth 32 : Word) = BitVec.ofNat 32 (8 + n) + 32#32 := by
  interval_cases n <;> decide

theorem current_append (k : Kernel H) (pics : Pics) (n : Word) (h : Option H)
    (writes : List PortWrite) :
    ({ k with pics := pics, dispatched := k.dispatched ++ [(n, h)], writes := writes } :
      Kernel H).current = some n := by
  simp [current]

inductive Delivered (s : Pics) : Nat → Pics → Prop
  | withdrawn (hirr : s.master.irr = 0#8) : Delivered s 7 s.answered
  | master (hirr : s.master.irr ≠ 0#8) (hne : s.master.irq ≠ 2) (hlt : s.master.irq < 8) :
      Delivered s s.master.irq s.acceptedMaster.serviceMasterPic
  | slaveWithdrawn (hirr : s.master.irr ≠ 0#8) (hirq : s.master.irq = 2)
      (hslave : s.slave.irr = 0#8) : Delivered s 15 s.answeredSlave
  | slave (hirr : s.master.irr ≠ 0#8) (hirq : s.master.irq = 2) (hslave : s.slave.irr ≠ 0#8)
      (hint : s.slave.int = true) (hlt : s.slave.irq < 8) :
      Delivered s (8 + s.slave.irq) s.acceptedSlave.serviceSlavePic.serviceMasterPic

theorem Delivered.deviceLine {s pics : Pics} {n : Nat} (h : Delivered s n pics) : DeviceLine n := by
  cases h with
  | withdrawn => decide
  | master _ hne hlt => exact ⟨by omega, hne⟩
  | slaveWithdrawn => decide
  | slave _ _ _ _ hlt => exact ⟨by omega, by omega⟩

/-- A slave with a request and nothing in service has signalled it. -/
theorem slave_int_of_requested {p : Pic} (hn : p.Nested) (hsettled : p.signalled = none)
    (hisr : p.isr = 0#8) (hirr : p.irr ≠ 0#8) : p.int = true := by
  refine (hn.signalled_eq_none.mp hsettled).resolve_right fun hnone => hirr ?_
  rw [Pic.level_of_isr_zero hisr] at hnone
  exact eq_zero_iff.mpr hnone

/-- Outside of the dispatcher nothing is in service. -/
theorem Phase.of_idle (h : k.Phase) (hidle : k.Idle) :
    k.pics.master.isr = 0#8 ∧ k.pics.slave.isr = 0#8 ∧ k.pics.master.signalled = none := by
  cases h with
  | idle _ hmaster hslave hset => exact ⟨hmaster, hslave, hset⟩
  | master _ _ _ _ hwrites => cases hwrites.symm.trans hidle
  | slave _ _ _ hwrites => cases hwrites.symm.trans hidle
  | cascade _ _ _ hwrites => cases hwrites.symm.trans hidle

/-- An acknowledgement gets the vector of the delivered line. -/
theorem Running.iac_eq (hr : k.Running) (hidle : k.Idle) (hintr : k.pics.intr = true) :
    ∃ n pics vector, Delivered k.pics n pics ∧ k.pics.iac = (pics, vector) ∧
      (vector.setWidth 32 : Word) = BitVec.ofNat 32 n + 32#32 := by
  have hp := hr.programmed
  obtain ⟨-, hslave, -⟩ := hr.phase.of_idle hidle
  have hlt := hr.cascaded.master_irq (hr.cascaded.intr_eq.symm.trans hintr)
  have hoffset := hp.acceptedMaster.master.offset_eq
  by_cases hirr : k.pics.master.irr = 0#8
  · refine ⟨7, _, _, .withdrawn hirr, Pics.iac_of_withdrawn hirr, ?_⟩
    rw [hp.master.offset_eq]
    rfl
  · by_cases hirq : k.pics.master.irq = 2
    · by_cases hnone : k.pics.slave.irr = 0#8
      · refine ⟨15, _, _, .slaveWithdrawn hirr hirq hnone,
          Pics.iac_of_slave_withdrawn hirr hirq hnone, ?_⟩
        rw [hp.slave.offset_eq]
        rfl
      · have hint := slave_int_of_requested hp.slave.nested hr.settled hslave hnone
        have hslt := hr.cascaded.slave_irq hint
        refine ⟨_, _, _, .slave hirr hirq hnone hint hslt, Pics.iac_of_slave hirr hirq hnone, ?_⟩
        rw [hp.slave.offset_eq]
        exact (setWidth_vector hslt).2
    · refine ⟨_, _, _, .master hirr hirq hlt, Pics.iac_of_master hirr hirq, ?_⟩
      rw [hoffset]
      exact (setWidth_vector hlt).1

theorem Running.acknowledge_eq (hr : k.Running) (hidle : k.Idle) (hintr : k.pics.intr = true) :
    ∃ n pics, Delivered k.pics n pics ∧ k.acknowledge = some { k with
      pics := pics
      dispatched := k.dispatched ++ [(BitVec.ofNat 32 n, k.handlerTable (BitVec.ofNat 32 n))]
      writes := endOfInterrupt (BitVec.ofNat 32 n) } := by
  obtain ⟨n, pics, vector, hdel, hiac, hvector⟩ := hr.iac_eq hidle hintr
  refine ⟨n, pics, hdel, ?_⟩
  rw [acknowledge, if_pos ⟨hidle, hintr⟩, hiac]
  exact dispatchInterrupt_eq _ hdel.deviceLine.1 hvector

theorem Running.delivered (hr : k.Running) (hidle : k.Idle) {n : Nat} {pics : Pics}
    (hdel : Delivered k.pics n pics) (handler : Option H) :
    ({ k with
      pics := pics
      dispatched := k.dispatched ++ [(BitVec.ofNat 32 n, handler)]
      writes := endOfInterrupt (BitVec.ofNat 32 n) } : Kernel H).Running := by
  have hp := hr.programmed
  have hc := hr.cascaded
  obtain ⟨hmaster, hslave, hsettled⟩ := hr.phase.of_idle hidle
  have hcurrent := current_append k pics (BitVec.ofNat 32 n) handler
    (endOfInterrupt (BitVec.ofNat 32 n))
  have honly : Only k.pics.acceptedMaster.master.isr k.pics.master.irq := by
    have haccept := Pic.accept_eq hp.answered.master.nested.manual
    rw [Pics.acceptedMaster, haccept]
    dsimp only
    rw [show k.pics.answered.master.isr = 0#8 from hmaster]
    exact only_setLine_zero _
  cases hdel with
  | withdrawn hirr =>
      have hint : k.pics.slave.int = false := by
        cases h : k.pics.slave.int with
        | false => rfl
        | true =>
            have hbit := hc.requested h
            rw [eq_zero_iff.mp hirr 2 (by decide)] at hbit
            cases hbit
      refine ⟨hp.answered, ?_, hr.settled, .master 7 hcurrent (by decide) (by decide)
        (endOfInterrupt_master (by decide)) (.inr ⟨rfl, hmaster⟩) hslave⟩
      refine ⟨rfl, fun h => ?_, hc.slave_irq, hc.pin_eq, fun h => ?_⟩
      · cases h
      · rw [show k.pics.answered.slave.int = false from hint] at h
        cases h
  | master hirr hne hlt =>
      have hsame := Pics.sameSetup_serviceMasterPic k.pics.acceptedMaster
      refine ⟨hp.acceptedMaster.congr hsame,
        (hc.acceptedMaster hp hne).serviceMasterPic hp.acceptedMaster.master.nested, ?_,
        .master _ hcurrent hlt hne (endOfInterrupt_master hlt) ?_ (hsame.slave.isr.trans hslave)⟩
      · dsimp only
        rw [Pics.serviceMasterPic_slave]
        exact hr.settled
      · exact Pic.Serves.congr (p := k.pics.acceptedMaster.master) (.inl honly) hsame.master.isr
  | slaveWithdrawn hirr hirq hnone =>
      refine ⟨hp.answeredSlave, Pics.cascaded_answeredSlave _, ?_,
        .slave 7 hcurrent (by decide) (endOfInterrupt_slave (n := 7) (by decide)) ?_
          (.inr ⟨rfl, hslave⟩)⟩
      · refine hp.answeredSlave.slave.nested.signalled_eq_none.mpr (.inr fun i hi => ?_)
        have hle := k.pics.answeredSlave.slave.level_le
        exact eq_zero_iff.mp hnone i (by omega)
      · rw [hirq] at honly
        exact honly
  | slave hirr hirq hnone hint hlt =>
      have hp' := hp.acceptedSlave
      have h1 := Pics.sameSetup_serviceSlavePic k.pics.acceptedSlave
      have h2 := Pics.sameSetup_serviceMasterPic k.pics.acceptedSlave.serviceSlavePic
      have hsame := h1.trans h2
      have hc' := (Pics.cascaded_acceptedSlave k.pics).serviceSlavePic hp'.nested
      refine ⟨hp'.congr hsame, hc'.serviceMasterPic (hp'.congr h1).master.nested, ?_,
        .slave _ hcurrent hlt (endOfInterrupt_slave hlt) ?_ ?_⟩
      · dsimp only
        rw [Pics.serviceMasterPic_slave]
        exact Pics.serviceSlavePic_settled _
      · dsimp only
        rw [hsame.master.isr]
        rw [hirq] at honly
        exact honly
      · refine Pic.Serves.congr (p := k.pics.answeredSlave.slave.accept) ?_ hsame.slave.isr
        exact Pic.serves_accept hp.answeredSlave.slave.nested.manual hslave

/-! ## The commands -/

theorem write_master_eoi (s : Pics) : s.write 0x20 0x20#8 =
    some ({ s with master := s.master.clearHighestInterrupt } : Pics).serviceMasterPic := rfl

theorem write_slave_eoi (s : Pics) : s.write 0xA0 0x20#8 =
    some ({ s with slave := s.slave.clearHighestInterrupt } : Pics).serviceSlavePic := rfl

theorem Running.end_master (hr : k.Running) {n : Nat} (hn : n < 8)
    (hmaster : k.pics.master.Serves n) (hslave : k.pics.slave.isr = 0#8) :
    ∃ pics, k.pics.write 0x20 0x20#8 = some pics ∧
      ({ k with pics := pics, writes := [] } : Kernel H).Running := by
  have hp := hr.programmed
  have hc := hr.cascaded
  refine ⟨_, write_master_eoi _, ?_⟩
  rw [hmaster.clearHighestInterrupt hp.master.nested hn]
  have hp' : ({ k.pics with master := { k.pics.master with isr := 0#8 } } : Pics).Programmed :=
    ⟨hp.master.setIsr _, hp.slave⟩
  have hsame := Pics.sameSetup_serviceMasterPic
    { k.pics with master := { k.pics.master with isr := 0#8 } }
  refine ⟨hp'.congr hsame, ?_, ?_, .idle rfl hsame.master.isr (hsame.slave.isr.trans hslave)
    (Pics.serviceMasterPic_settled _)⟩
  · refine Pics.Cascaded.serviceMasterPic ?_ hp'.master.nested
    exact ⟨hc.intr_eq, hc.master_irq, hc.slave_irq, hc.pin_eq, hc.requested⟩
  · dsimp only
    rw [Pics.serviceMasterPic_slave]
    exact hr.settled

theorem Running.end_slave (hr : k.Running) {n : Nat} (hn : n < 8)
    (hcurrent : k.current = some (BitVec.ofNat 32 (8 + n))) (hmaster : Only k.pics.master.isr 2)
    (hslave : k.pics.slave.Serves n) :
    ∃ pics, k.pics.write 0xA0 0x20#8 = some pics ∧
      ({ k with pics := pics, writes := [(0x20, 0x20)] } : Kernel H).Running := by
  have hp := hr.programmed
  have hc := hr.cascaded
  refine ⟨_, write_slave_eoi _, ?_⟩
  rw [hslave.clearHighestInterrupt hp.slave.nested hn]
  have hp' : ({ k.pics with slave := { k.pics.slave with isr := 0#8 } } : Pics).Programmed :=
    ⟨hp.master, hp.slave.setIsr _⟩
  have hsame := Pics.sameSetup_serviceSlavePic
    { k.pics with slave := { k.pics.slave with isr := 0#8 } }
  refine ⟨hp'.congr hsame, ?_, Pics.serviceSlavePic_settled _,
    .cascade n hcurrent hn rfl ?_ hsame.slave.isr⟩
  · refine Pics.Cascaded.serviceSlavePic ?_ hp'.nested
    exact ⟨hc.intr_eq, hc.master_irq, hc.slave_irq, hc.pin_eq, hc.requested⟩
  · dsimp only
    rw [hsame.master.isr]
    exact hmaster

theorem outportb_eq {address : Nat} {value : Byte} {rest : List PortWrite} {pics : Pics}
    (hwrites : k.writes = (address, value) :: rest)
    (hwrite : k.pics.write address value = some pics) :
    k.outportb = some { k with pics := pics, writes := rest } := by
  rw [outportb, hwrites]
  dsimp only
  rw [hwrite, Option.map_some]

/-- A command is accepted by the controllers and keeps the discipline. -/
theorem Running.outportb_eq (hr : k.Running) (hbusy : ¬ k.Idle) :
    ∃ k', k.outportb = some k' ∧ k'.Running := by
  cases hr.phase with
  | idle hwrites => exact absurd hwrites hbusy
  | master n hcurrent hn hne hwrites hmaster hslave =>
      obtain ⟨pics, hwrite, hnext⟩ := hr.end_master hn hmaster hslave
      exact ⟨_, Kernel.outportb_eq hwrites hwrite, hnext⟩
  | slave n hcurrent hn hwrites hmaster hslave =>
      obtain ⟨pics, hwrite, hnext⟩ := hr.end_slave hn hcurrent hmaster hslave
      exact ⟨_, Kernel.outportb_eq hwrites hwrite, hnext⟩
  | cascade n hcurrent hn hwrites hmaster hslave =>
      obtain ⟨pics, hwrite, hnext⟩ := hr.end_master (n := 2) (by decide) (.inl hmaster) hslave
      exact ⟨_, Kernel.outportb_eq hwrites hwrite, hnext⟩

/-! ## Runs -/

theorem Running.setTable (hr : k.Running) (table : Word → Option H) :
    ({ k with handlerTable := table } : Kernel H).Running := by
  refine ⟨hr.programmed, hr.cascaded, hr.settled, ?_⟩
  cases hr.phase with
  | idle h1 h2 h3 h4 => exact .idle h1 h2 h3 h4
  | master n h1 h2 h3 h4 h5 h6 => exact .master n h1 h2 h3 h4 h5 h6
  | slave n h1 h2 h3 h4 h5 => exact .slave n h1 h2 h3 h4 h5
  | cascade n h1 h2 h3 h4 h5 => exact .cascade n h1 h2 h3 h4 h5

theorem Running.step {a : Event H} (hr : k.Running) (hstep : k.step a k') : k'.Running := by
  unfold Kernel.step at hstep
  cases a with
  | raise line =>
      rw [exec] at hstep
      split at hstep
      · rename_i hline
        cases hstep
        exact hr.raise hline
      · cases hstep
  | lower line =>
      rw [exec] at hstep
      split at hstep
      · rename_i hline
        cases hstep
        exact hr.lower hline
      · cases hstep
  | acknowledge =>
      have hidle : k.writes = [] ∧ k.pics.intr = true := by
        by_cases h : k.writes = [] ∧ k.pics.intr = true
        · exact h
        · rw [exec, acknowledge, if_neg h] at hstep
          cases hstep
      obtain ⟨n, pics, hdel, heq⟩ := hr.acknowledge_eq hidle.1 hidle.2
      rw [exec, heq] at hstep
      cases hstep
      exact hr.delivered hidle.1 hdel _
  | outportb =>
      by_cases hidle : k.Idle
      · rw [exec, outportb, show k.writes = [] from hidle] at hstep
        cases hstep
      · obtain ⟨next, heq, hnext⟩ := hr.outportb_eq hidle
        cases heq.symm.trans hstep
        exact hnext
  | registerHandler irqCode handler =>
      rw [exec, registerHandler] at hstep
      split at hstep
      · cases hstep
        exact hr.setTable _
      · cases hstep
  | deregisterHandler irqCode =>
      rw [exec, deregisterHandler] at hstep
      split at hstep
      · cases hstep
        exact hr.setTable _
      · cases hstep

theorem Running.run {run : List (Event H × Kernel H)} (hr : k.Running)
    (hrun : IsRun Kernel.step k run) : (last k run).Running :=
  last_of_everyState (everyState_of_step (fun _ _ _ hs hstep => hs.step hstep) hr hrun)

end Kernel

end TeachingKernel.Interrupts
