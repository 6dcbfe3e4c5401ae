import TeachingKernel.Interrupts.Cascade

/-!
# Acknowledging and ending an interrupt

With nothing in service, an acknowledgement puts one line of a controller into
service, together with the cascade where it is a line of the slave. A request that
was withdrawn in the meantime puts no line of its own into service. The commands that
the dispatcher writes end exactly what is in service.
-/

namespace TeachingKernel.Interrupts

open LineRegister

/-- A controller as `irq_remap` leaves it, apart from requests and what is in service. -/
structure Pic.Programmed (offset : Byte) (p : Pic) : Prop where
  nested : p.Nested
  offset_eq : p.interruptOffset = offset
  ready : p.inInit = false

structure Pics.Programmed (s : Pics) : Prop where
  master : s.master.Programmed 0x20
  slave : s.slave.Programmed 0x28

/-- Line `n` of a controller is in service, or none if the request was spurious. -/
def Pic.Serves (p : Pic) (n : Nat) : Prop := Only p.isr n ∨ n = 7 ∧ p.isr = 0#8

namespace Pic

variable {p q : Pic} {offset : Byte} {n : Nat}

theorem Programmed.congr (hp : p.Programmed offset) (h : p.SameSetup q) : q.Programmed offset :=
  ⟨hp.nested.congr h, h.offset.trans hp.offset_eq, h.inInit.trans hp.ready⟩

theorem Programmed.setInt (hp : p.Programmed offset) (b : Bool) :
    ({ p with int := b } : Pic).Programmed offset :=
  ⟨⟨hp.nested.lowest, hp.nested.special, hp.nested.manual, hp.nested.unmasked⟩, hp.offset_eq,
    hp.ready⟩

theorem Programmed.setIrqIn (hp : p.Programmed offset) (x : Byte) :
    ({ p with irqIn := x } : Pic).Programmed offset :=
  ⟨⟨hp.nested.lowest, hp.nested.special, hp.nested.manual, hp.nested.unmasked⟩, hp.offset_eq,
    hp.ready⟩

theorem Programmed.setIsr (hp : p.Programmed offset) (x : Byte) :
    ({ p with isr := x } : Pic).Programmed offset :=
  ⟨⟨hp.nested.lowest, hp.nested.special, hp.nested.manual, hp.nested.unmasked⟩, hp.offset_eq,
    hp.ready⟩

theorem accept_eq (hmanual : p.autoEoi = false) : p.accept =
    { p with
      irr := if p.edgeLevel.getLsbD p.irq then p.irr else clearLine p.irr p.irq
      isr := setLine p.isr p.irq } := by
  unfold accept
  cases h : p.edgeLevel.getLsbD p.irq with
  | true => simp [hmanual]
  | false => simp [hmanual]

theorem Programmed.accept (hp : p.Programmed offset) : p.accept.Programmed offset := by
  rw [accept_eq hp.nested.manual]
  exact ⟨⟨hp.nested.lowest, hp.nested.special, hp.nested.manual, hp.nested.unmasked⟩,
    hp.offset_eq, hp.ready⟩

theorem irqIn_accept (p : Pic) : p.accept.irqIn = p.irqIn := by
  simp only [accept, apply_ite Pic.irqIn, ite_self]

theorem int_accept (p : Pic) : p.accept.int = p.int := by
  simp only [accept, apply_ite Pic.int, ite_self]

theorem accept_irr_of_ne (hmanual : p.autoEoi = false) (hn : n < 8) (hne : n ≠ p.irq) :
    p.accept.irr.getLsbD n = p.irr.getLsbD n := by
  rw [accept_eq hmanual]
  dsimp only
  split
  · rfl
  · rw [getLsbD_clearLine hn, decide_eq_false hne, Bool.not_false, Bool.and_true]

theorem serves_accept (hmanual : p.autoEoi = false) (hisr : p.isr = 0#8) :
    p.accept.Serves p.irq := by
  rw [accept_eq hmanual]
  left
  rw [hisr]
  exact only_setLine_zero _

theorem Serves.congr (hs : p.Serves n) (h : q.isr = p.isr) : q.Serves n := by
  unfold Serves at hs ⊢
  rw [h]
  exact hs

/-- The command of the dispatcher takes the line out of service. -/
theorem Serves.clearHighestInterrupt (hn : p.Nested) (hs : p.Serves n) (hlt : n < 8) :
    p.clearHighestInterrupt = { p with isr := 0#8 } := by
  rcases hs with honly | ⟨-, hzero⟩
  · exact hn.clearHighestInterrupt_of_only honly hlt
  · rw [hn.clearHighestInterrupt_of_zero hzero, ← hzero]

end Pic

namespace Pics

variable {s t : Pics} {n : Nat}

theorem Programmed.nested (hp : s.Programmed) : s.Nested := ⟨hp.master.nested, hp.slave.nested⟩

theorem Programmed.congr (hp : s.Programmed) (h : s.SameSetup t) : t.Programmed :=
  ⟨hp.master.congr h.master, hp.slave.congr h.slave⟩

/-! ## The acknowledgement -/

/-- The signal of the master is taken back. -/
def answered (s : Pics) : Pics :=
  { s with intr := false, master := { s.master with int := false } }

def acceptedMaster (s : Pics) : Pics := { s.answered with master := s.answered.master.accept }

def answeredSlave (s : Pics) : Pics :=
  { s.acceptedMaster with
    slave := { s.slave with int := false }
    master := { s.acceptedMaster.master with irqIn := clearLine s.master.irqIn 2 } }

def acceptedSlave (s : Pics) : Pics :=
  { s.answeredSlave with slave := s.answeredSlave.slave.accept }

theorem iac_of_withdrawn (h : s.master.irr = 0#8) :
    s.iac = (s.answered, s.master.interruptOffset + 7) := by
  rw [iac]
  exact if_pos h

theorem iac_of_master (h : s.master.irr ≠ 0#8) (hirq : s.master.irq ≠ 2) :
    s.iac = (s.acceptedMaster.serviceMasterPic,
      BitVec.ofNat 8 s.master.irq + s.acceptedMaster.master.interruptOffset) := by
  rw [iac]
  refine (if_neg h).trans ?_
  exact if_pos hirq

theorem iac_of_slave_withdrawn (h : s.master.irr ≠ 0#8) (hirq : s.master.irq = 2)
    (hslave : s.slave.irr = 0#8) :
    s.iac = (s.answeredSlave, s.slave.interruptOffset + 7) := by
  have hin : s.answered.master.accept.irqIn = s.master.irqIn := Pic.irqIn_accept _
  rw [answeredSlave, ← hin, iac]
  refine (if_neg h).trans ?_
  refine (if_neg (not_not_intro hirq)).trans ?_
  exact if_pos hslave

theorem iac_of_slave (h : s.master.irr ≠ 0#8) (hirq : s.master.irq = 2)
    (hslave : s.slave.irr ≠ 0#8) :
    s.iac = (s.acceptedSlave.serviceSlavePic.serviceMasterPic,
      BitVec.ofNat 8 s.slave.irq + s.slave.interruptOffset) := by
  have hin : s.answered.master.accept.irqIn = s.master.irqIn := Pic.irqIn_accept _
  rw [acceptedSlave, answeredSlave, ← hin, iac]
  refine (if_neg h).trans ?_
  refine (if_neg (not_not_intro hirq)).trans ?_
  exact if_neg hslave

theorem Programmed.answered (hp : s.Programmed) : s.answered.Programmed :=
  ⟨hp.master.setInt false, hp.slave⟩

theorem Programmed.acceptedMaster (hp : s.Programmed) : s.acceptedMaster.Programmed :=
  ⟨hp.answered.master.accept, hp.slave⟩

theorem Programmed.answeredSlave (hp : s.Programmed) : s.answeredSlave.Programmed :=
  ⟨hp.acceptedMaster.master.setIrqIn _, hp.slave.setInt false⟩

theorem Programmed.acceptedSlave (hp : s.Programmed) : s.acceptedSlave.Programmed :=
  ⟨hp.answeredSlave.master, hp.answeredSlave.slave.accept⟩

theorem Cascaded.acceptedMaster (hc : s.Cascaded) (hp : s.Programmed) (hirq : s.master.irq ≠ 2) :
    s.acceptedMaster.Cascaded := by
  have hint : s.acceptedMaster.master.int = false := Pic.int_accept _
  have hin : s.acceptedMaster.master.irqIn = s.master.irqIn := Pic.irqIn_accept _
  refine ⟨hint.symm, fun h => ?_, hc.slave_irq, ?_, fun h => ?_⟩
  · rw [hint] at h
    cases h
  · rw [hin]
    exact hc.pin_eq
  · have hkept := Pic.accept_irr_of_ne (p := s.answered.master) (n := 2)
      hp.answered.master.nested.manual (by decide) (Ne.symm hirq)
    exact hkept.trans (hc.requested h)

theorem cascaded_answeredSlave (s : Pics) : s.answeredSlave.Cascaded := by
  have hint : s.answeredSlave.master.int = false := Pic.int_accept _
  refine ⟨hint.symm, fun h => ?_, fun h => ?_, ?_, fun h => ?_⟩
  · rw [hint] at h
    cases h
  · cases h
  · rw [show s.answeredSlave.master.irqIn = clearLine s.master.irqIn 2 from rfl,
      getLsbD_clearLine (by decide)]
    simp [answeredSlave]
  · cases h

theorem cascaded_acceptedSlave (s : Pics) : s.acceptedSlave.Cascaded := by
  have h := cascaded_answeredSlave s
  have hint : s.acceptedSlave.slave.int = false := Pic.int_accept _
  refine ⟨h.intr_eq, h.master_irq, fun hint' => ?_, ?_, fun hint' => ?_⟩
  · rw [hint] at hint'
    cases hint'
  · rw [hint]
    exact h.pin_eq
  · rw [hint] at hint'
    cases hint'

end Pics

end TeachingKernel.Interrupts
