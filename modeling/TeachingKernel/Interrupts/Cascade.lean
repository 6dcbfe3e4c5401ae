import TeachingKernel.Interrupts.Service

/-!
# The cascade of the two controllers

The signal of the slave and line 2 of the master go together, so a request at the
slave can neither be dropped nor be in the way of a later one. Every operation of the
devices keeps this and leaves no request unsignalled that could be signalled.
-/

namespace TeachingKernel.Interrupts

open LineRegister

namespace Pics

structure Cascaded (s : Pics) : Prop where
  intr_eq : s.intr = s.master.int
  master_irq : s.master.int = true → s.master.irq < 8
  slave_irq : s.slave.int = true → s.slave.irq < 8
  pin_eq : s.master.irqIn.getLsbD 2 = s.slave.int
  requested : s.slave.int = true → s.master.irr.getLsbD 2 = true

/-- Both controllers are in the mode that `irq_remap` selects. -/
structure Nested (s : Pics) : Prop where
  master : s.master.Nested
  slave : s.slave.Nested

/-- Nothing that the kernel programs has changed, nor what is in service. -/
structure SameSetup (s t : Pics) : Prop where
  master : s.master.SameSetup t.master
  slave : s.slave.SameSetup t.slave

/-- No request that could be signalled is not. -/
structure Settled (s : Pics) : Prop where
  master : s.master.signalled = none
  slave : s.slave.signalled = none

variable {s t u : Pics} {line : Nat}

theorem SameSetup.refl (s : Pics) : s.SameSetup s := ⟨.refl _, .refl _⟩

theorem SameSetup.trans (h : s.SameSetup t) (h' : t.SameSetup u) : s.SameSetup u :=
  ⟨h.master.trans h'.master, h.slave.trans h'.slave⟩

/-! ## Looking at the requests of the master -/

theorem serviceMasterPic_slave (s : Pics) : s.serviceMasterPic.slave = s.slave := by
  unfold serviceMasterPic
  split <;> rfl

theorem serviceMasterPic_irr (s : Pics) : s.serviceMasterPic.master.irr = s.master.irr := by
  unfold serviceMasterPic
  split <;> rfl

theorem serviceMasterPic_irqIn (s : Pics) : s.serviceMasterPic.master.irqIn = s.master.irqIn := by
  unfold serviceMasterPic
  split <;> rfl

theorem sameSetup_serviceMasterPic (s : Pics) : s.SameSetup s.serviceMasterPic := by
  unfold serviceMasterPic
  split
  · exact .refl s
  · exact ⟨Pic.sameSetup_signal _ _, .refl _⟩

theorem signalled_of_int {p : Pic} (h : p.int = true) : p.signalled = none := by
  rw [Pic.signalled, if_pos h]

theorem serviceMasterPic_settled (s : Pics) : s.serviceMasterPic.master.signalled = none := by
  unfold serviceMasterPic
  cases h : s.master.signalled with
  | none => exact h
  | some irq => exact signalled_of_int rfl

theorem Cascaded.serviceMasterPic (hc : s.Cascaded) (hn : s.master.Nested) :
    s.serviceMasterPic.Cascaded := by
  unfold Pics.serviceMasterPic
  cases h : s.master.signalled with
  | none => exact hc
  | some irq =>
      have hirq := (hn.signalled_eq_some.mp h).2.1
      have hle := s.master.level_le
      exact ⟨rfl, fun _ => Nat.lt_of_lt_of_le hirq hle, hc.slave_irq, hc.pin_eq, hc.requested⟩

/-! ## Lines of the master -/

theorem sameSetup_raiseMaster (s : Pics) (line : Nat) : s.SameSetup (s.raiseMaster line) := by
  unfold raiseMaster
  split
  · exact .refl s
  · exact SameSetup.trans (t := { s with master := s.master.raise line })
      ⟨s.master.sameSetup_raise line, .refl _⟩ (sameSetup_serviceMasterPic _)

theorem raiseMaster_slave (s : Pics) (line : Nat) : (s.raiseMaster line).slave = s.slave := by
  unfold raiseMaster
  split
  · rfl
  · exact serviceMasterPic_slave _

theorem raiseMaster_settled (h : s.master.signalled = none) :
    (s.raiseMaster line).master.signalled = none := by
  unfold raiseMaster
  split
  · exact h
  · exact serviceMasterPic_settled _

theorem Cascaded.raiseMaster (hc : s.Cascaded) (hn : s.master.Nested) (hline : line ≠ 2) :
    (s.raiseMaster line).Cascaded := by
  unfold Pics.raiseMaster
  split
  · exact hc
  · refine Cascaded.serviceMasterPic ?_ (hn.congr (s.master.sameSetup_raise line))
    refine ⟨hc.intr_eq, hc.master_irq, hc.slave_irq, ?_, fun hint => ?_⟩
    · rw [← hc.pin_eq, Pic.raise, getLsbD_setLine (by decide), decide_eq_false hline.symm,
        Bool.or_false]
    · rw [Pic.raise, getLsbD_setLine (by decide), hc.requested hint, Bool.true_or]

/-- The slave signals a request: line 2 of the master goes up. -/
theorem Cascaded.signalSlave {irq : Nat} (hc : s.Cascaded) (hn : s.master.Nested)
    (hint : s.slave.int = false) (hirq : irq < 8) :
    (Pics.raiseMaster { s with slave := s.slave.signal irq } 2).Cascaded := by
  have hpin : s.master.irqIn.getLsbD 2 = false := hc.pin_eq.trans hint
  rw [Pics.raiseMaster, if_neg (by rw [hpin]; decide)]
  refine Cascaded.serviceMasterPic ?_ (hn.congr (s.master.sameSetup_raise 2))
  refine ⟨hc.intr_eq, hc.master_irq, fun _ => hirq, ?_, fun _ => ?_⟩
  · rw [Pic.raise, getLsbD_setLine (by decide)]
    simp [Pic.signal]
  · rw [Pic.raise, getLsbD_setLine (by decide)]
    simp

/-! ## Looking at the requests of the slave -/

theorem sameSetup_serviceSlavePic (s : Pics) : s.SameSetup s.serviceSlavePic := by
  unfold serviceSlavePic
  split
  · exact .refl s
  · exact SameSetup.trans (t := { s with slave := s.slave.signal _ })
      ⟨.refl _, s.slave.sameSetup_signal _⟩ (sameSetup_raiseMaster _ _)

theorem serviceSlavePic_irr (s : Pics) : s.serviceSlavePic.slave.irr = s.slave.irr := by
  unfold serviceSlavePic
  split
  · rfl
  · rw [raiseMaster_slave]
    rfl

theorem serviceSlavePic_settled (s : Pics) : s.serviceSlavePic.slave.signalled = none := by
  unfold serviceSlavePic
  cases h : s.slave.signalled with
  | none => exact h
  | some irq =>
      dsimp only
      rw [raiseMaster_slave]
      exact signalled_of_int rfl

theorem serviceSlavePic_master_settled (h : s.master.signalled = none) :
    s.serviceSlavePic.master.signalled = none := by
  unfold serviceSlavePic
  split
  · exact h
  · exact raiseMaster_settled h

theorem Cascaded.serviceSlavePic (hc : s.Cascaded) (hn : s.Nested) :
    s.serviceSlavePic.Cascaded := by
  unfold Pics.serviceSlavePic
  cases h : s.slave.signalled with
  | none => exact hc
  | some irq =>
      obtain ⟨hint, hirq, -⟩ := hn.slave.signalled_eq_some.mp h
      have hle := s.slave.level_le
      exact hc.signalSlave hn.master hint (Nat.lt_of_lt_of_le hirq hle)

/-! ## Lines of the devices -/

theorem sameSetup_raiseIrq (s : Pics) (line : Nat) : s.SameSetup (s.raiseIrq line) := by
  unfold raiseIrq
  split
  · exact sameSetup_raiseMaster s line
  · split
    · split
      · exact .refl s
      · exact SameSetup.trans (t := { s with slave := s.slave.raise (line % 8) })
          ⟨.refl _, s.slave.sameSetup_raise _⟩ (sameSetup_serviceSlavePic _)
    · exact .refl s

theorem sameSetup_lowerIrq (s : Pics) (line : Nat) : s.SameSetup (s.lowerIrq line) := by
  unfold lowerIrq
  split
  · split
    · exact ⟨s.master.sameSetup_lower line, .refl _⟩
    · exact .refl s
  · split
    · split
      · exact ⟨.refl _, s.slave.sameSetup_lower _⟩
      · exact .refl s
    · exact .refl s

theorem Cascaded.raiseIrq (hc : s.Cascaded) (hn : s.Nested) (hline : DeviceLine line) :
    (s.raiseIrq line).Cascaded := by
  unfold Pics.raiseIrq
  split
  · exact hc.raiseMaster hn.master hline.2
  · split
    · split
      · exact hc
      · refine Cascaded.serviceSlavePic ?_ ⟨hn.master, hn.slave.congr (s.slave.sameSetup_raise _)⟩
        exact ⟨hc.intr_eq, hc.master_irq, hc.slave_irq, hc.pin_eq, hc.requested⟩
    · exact hc

theorem Cascaded.lowerIrq (hc : s.Cascaded) (hline : DeviceLine line) :
    (s.lowerIrq line).Cascaded := by
  unfold Pics.lowerIrq
  split
  · split
    · refine ⟨hc.intr_eq, hc.master_irq, hc.slave_irq, ?_, fun hint => ?_⟩
      · rw [← hc.pin_eq, Pic.lower, getLsbD_clearLine (by decide),
          decide_eq_false hline.2.symm, Bool.not_false, Bool.and_true]
      · rw [Pic.lower, getLsbD_clearLine (by decide), hc.requested hint,
          decide_eq_false hline.2.symm]
        rfl
    · exact hc
  · split
    · split
      · exact ⟨hc.intr_eq, hc.master_irq, hc.slave_irq, hc.pin_eq, hc.requested⟩
      · exact hc
    · exact hc

theorem raiseIrq_master_settled (h : s.master.signalled = none) :
    (s.raiseIrq line).master.signalled = none := by
  unfold raiseIrq
  split
  · exact raiseMaster_settled h
  · split
    · split
      · exact h
      · exact serviceSlavePic_master_settled h
    · exact h

theorem raiseIrq_slave_settled (h : s.slave.signalled = none) :
    (s.raiseIrq line).slave.signalled = none := by
  unfold raiseIrq
  split
  · rw [raiseMaster_slave]
    exact h
  · split
    · split
      · exact h
      · exact serviceSlavePic_settled _
    · exact h

/-- A line that goes down leaves nothing to signal that was not there before. -/
theorem lower_settled {p : Pic} (hn : p.Nested) (h : p.signalled = none) (line : Nat) :
    (p.lower line).signalled = none := by
  have hsame := p.sameSetup_lower line
  rw [(hn.congr hsame).signalled_eq_none, Pic.level_eq_of_isr_eq hsame.isr]
  refine (hn.signalled_eq_none.mp h).imp id fun hnone i hi => ?_
  have hle := p.level_le
  rw [Pic.lower, getLsbD_clearLine (by omega), hnone i hi, Bool.false_and]

theorem lowerIrq_master_settled (hn : s.Nested) (h : s.master.signalled = none) :
    (s.lowerIrq line).master.signalled = none := by
  unfold lowerIrq
  split
  · split
    · exact lower_settled hn.master h _
    · exact h
  · split
    · split <;> exact h
    · exact h

theorem lowerIrq_slave_settled (hn : s.Nested) (h : s.slave.signalled = none) :
    (s.lowerIrq line).slave.signalled = none := by
  unfold lowerIrq
  split
  · split <;> exact h
  · split
    · split
      · exact lower_settled hn.slave h _
      · exact h
    · exact h

end Pics

end TeachingKernel.Interrupts
