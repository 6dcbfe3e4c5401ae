import TeachingKernel.Interrupts.Boot

/-!
# Every request is dispatched once

On a line whose device holds its requests, every rising edge behind the programming of
the controllers is either still requested or was dispatched once, whatever the other
devices do. The two lines on which the controllers report withdrawn requests are
exceptions as long as other devices withdraw theirs.
-/

namespace TeachingKernel.Interrupts

open LineRegister Runs

namespace Pic

variable {p : Pic} {i : Nat}

theorem Held.setInt (h : p.Held i) : ({ p with int := false } : Pic).Held i := by
  refine ⟨h.pin, fun hint => ?_, h.edge⟩
  cases hint

theorem clearHighestInterrupt_same (p : Pic) : p.SameRequests p.clearHighestInterrupt ∧
    p.clearHighestInterrupt.edgeLevel = p.edgeLevel := by
  unfold clearHighestInterrupt
  split
  · exact ⟨⟨rfl, rfl, rfl, rfl⟩, rfl⟩
  · exact ⟨⟨rfl, rfl, rfl, rfl⟩, rfl⟩

theorem Nested.clearHighestInterrupt (hn : p.Nested) : p.clearHighestInterrupt.Nested := by
  unfold Pic.clearHighestInterrupt
  split
  · exact hn
  · exact ⟨hn.lowest, hn.special, hn.manual, hn.unmasked⟩

end Pic

namespace Kernel

variable {s pics : Pics} {L : Nat → Prop} {n i : Nat}

/-! ## The delivered line -/

theorem held_acceptedMaster (hp : s.Programmed) (h : s.HeldOn L) : s.acceptedMaster.HeldOn L :=
  ⟨fun i hi hL => (h.master i hi hL).setInt.accept hi hp.answered.master.nested.manual rfl,
    h.slave⟩

/-- With the request of the cascade, its pin is taken back. -/
theorem held_answeredSlave (hp : s.Programmed) (h : s.HeldOn L) (hirq : s.master.irq = 2) :
    s.answeredSlave.HeldOn L := by
  have hmaster := held_acceptedMaster hp h
  refine ⟨fun i hi hL => ?_, fun i hi hL => (h.slave i hi hL).setInt⟩
  have hi' := hmaster.master i hi hL
  have hin : s.answeredSlave.master.irqIn = clearLine s.master.irqIn 2 := rfl
  refine ⟨fun hirr => ?_, hi'.signal, hi'.edge⟩
  by_cases heq : i = 2
  · have hedge : s.answered.master.edgeLevel.getLsbD s.answered.master.irq = false := by
      rw [show s.answered.master.irq = i from hirq.trans heq.symm]
      exact (h.master i hi hL).edge
    have hlt : s.answered.master.irq < 8 := by
      rw [show s.answered.master.irq = 2 from hirq]
      decide
    have hnone := Pic.accept_irr_self hp.answered.master.nested.manual hlt hedge
    rw [show s.answered.master.irq = i from hirq.trans heq.symm] at hnone
    cases hirr.symm.trans hnone
  · have hpin := hi'.pin hirr
    rw [show s.acceptedMaster.master.irqIn = s.master.irqIn from Pic.irqIn_accept _] at hpin
    rw [hin, getLsbD_clearLine hi, decide_eq_false heq, Bool.not_false, Bool.and_true]
    exact hpin

theorem Delivered.held (hdel : Delivered s n pics) (hp : s.Programmed) (h : s.HeldOn L) :
    pics.HeldOn L := by
  cases hdel with
  | withdrawn => exact ⟨fun i hi hL => (h.master i hi hL).setInt, h.slave⟩
  | master =>
      exact (held_acceptedMaster hp h).serviceMasterPic hp.acceptedMaster.master.nested
  | slaveWithdrawn _ hirq _ => exact held_answeredSlave hp h hirq
  | slave _ hirq _ _ _ =>
      have hcascade := held_answeredSlave hp h hirq
      have haccepted : s.acceptedSlave.HeldOn L :=
        ⟨hcascade.master, fun i hi hL =>
          (hcascade.slave i hi hL).accept hi hp.answeredSlave.slave.nested.manual rfl⟩
      have hp' := hp.acceptedSlave
      exact (haccepted.serviceSlavePic hp'.nested).serviceMasterPic
        (hp'.congr (Pics.sameSetup_serviceSlavePic _)).master.nested

theorem Delivered.requested (hdel : Delivered s n pics) (hp : s.Programmed)
    (hint : s.master.int = true) (h : s.HeldOn L) (hi : DeviceLine i) (hL : L i)
    (h7 : i = 7 → s.master.irr ≠ 0#8) (h15 : i = 15 → s.master.irq = 2 → s.slave.irr ≠ 0#8) :
    (pics.requested i).toNat + (decide (n = i)).toNat = (s.requested i).toNat := by
  obtain ⟨hi16, hi2⟩ := hi
  have hmanual := hp.answered.master.nested.manual
  have hmaster : i ≤ 7 → i ≠ s.master.irq → s.acceptedMaster.master.irr.getLsbD i =
      s.master.irr.getLsbD i := fun hle hne =>
    Pic.accept_irr_of_ne (p := s.answered.master) hmanual (by omega) hne
  cases hdel with
  | withdrawn hirr =>
      have hne : 7 ≠ i := fun heq => h7 heq.symm hirr
      rw [decide_eq_false hne]
      rfl
  | master hirr hne hlt =>
      by_cases hle : i ≤ 7
      · rw [Pics.requested, Pics.requested, if_pos hle, if_pos hle, Pics.serviceMasterPic_irr]
        by_cases heq : i = s.master.irq
        · have hheld := h.master i (by omega) hL
          have hset := hheld.signal hint heq.symm
          have hcleared := Pic.accept_irr_self (p := s.answered.master) hmanual hlt
            (heq ▸ hheld.edge)
          rw [hset, decide_eq_true heq.symm, heq]
          rw [show s.acceptedMaster.master.irr.getLsbD s.master.irq = false from hcleared]
          rfl
        · rw [hmaster hle heq, decide_eq_false (Ne.symm heq)]
          rfl
      · rw [Pics.requested, Pics.requested, if_neg hle, if_neg hle, Pics.serviceMasterPic_slave,
          decide_eq_false (by omega)]
        rfl
  | slaveWithdrawn hirr hirq hnone =>
      have hne : 15 ≠ i := fun heq => h15 heq.symm hirq hnone
      rw [decide_eq_false hne]
      by_cases hle : i ≤ 7
      · rw [Pics.requested, Pics.requested, if_pos hle, if_pos hle]
        exact congrArg Bool.toNat (hmaster hle (by omega))
      · rw [Pics.requested, Pics.requested, if_neg hle, if_neg hle]
        rfl
  | slave hirr hirq hnone hsint hlt =>
      by_cases hle : i ≤ 7
      · rw [Pics.requested, Pics.requested, if_pos hle, if_pos hle, Pics.serviceMasterPic_irr,
          Pics.serviceSlavePic_master_irr (by omega) hi2, decide_eq_false (by omega)]
        exact congrArg Bool.toNat (hmaster hle (by omega))
      · rw [Pics.requested, Pics.requested, if_neg hle, if_neg hle, Pics.serviceMasterPic_slave,
          Pics.serviceSlavePic_irr]
        have hsmanual := hp.answeredSlave.slave.nested.manual
        by_cases heq : i % 8 = s.slave.irq
        · have hheld := h.slave (i % 8) (by omega) (by rwa [show 8 + i % 8 = i by omega])
          have hset := hheld.signal hsint heq.symm
          have hcleared := Pic.accept_irr_self (p := s.answeredSlave.slave) hsmanual hlt
            (heq ▸ hheld.edge)
          rw [hset, decide_eq_true (by omega), heq]
          rw [show s.acceptedSlave.slave.irr.getLsbD s.slave.irq = false from hcleared]
          rfl
        · have hkept := Pic.accept_irr_of_ne (p := s.answeredSlave.slave) hsmanual
            (by omega) heq
          rw [decide_eq_false (by omega)]
          exact congrArg Bool.toNat hkept

theorem Delivered.irqIn (hdel : Delivered s n pics) (hi : i < 8) (hne : i ≠ 2) :
    pics.master.irqIn.getLsbD i = s.master.irqIn.getLsbD i := by
  have haccept : s.acceptedMaster.master.irqIn = s.master.irqIn := Pic.irqIn_accept _
  have hanswered : s.answeredSlave.master.irqIn.getLsbD i = s.master.irqIn.getLsbD i := by
    rw [show s.answeredSlave.master.irqIn = clearLine s.master.irqIn 2 from rfl,
      getLsbD_clearLine hi, decide_eq_false hne, Bool.not_false, Bool.and_true]
  cases hdel with
  | withdrawn => rfl
  | master => rw [Pics.serviceMasterPic_irqIn, haccept]
  | slaveWithdrawn => exact hanswered
  | slave =>
      rw [Pics.serviceMasterPic_irqIn, Pics.serviceSlavePic_master_irqIn hi hne]
      exact hanswered

/-! ## The commands of the dispatcher -/

theorem kept_masterEoi (hn : s.Nested) :
    s.Kept ({ s with master := s.master.clearHighestInterrupt } : Pics).serviceMasterPic :=
  Pics.kept_serviceMasterPic s.master.clearHighestInterrupt_same.1
    s.master.clearHighestInterrupt_same.2 hn.master.clearHighestInterrupt

theorem kept_slaveEoi (hn : s.Nested) :
    s.Kept ({ s with slave := s.slave.clearHighestInterrupt } : Pics).serviceSlavePic :=
  Pics.kept_serviceSlavePic s.slave.clearHighestInterrupt_same.1
    s.slave.clearHighestInterrupt_same.2 hn.master hn.slave.clearHighestInterrupt

end Kernel

end TeachingKernel.Interrupts
