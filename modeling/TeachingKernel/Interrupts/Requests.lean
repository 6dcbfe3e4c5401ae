import TeachingKernel.Interrupts.Discipline

/-!
# Requests that are held

A device that lowers its line only when its request was delivered holds its requests.
On such a line a signal is never stale: what the processor is given on an
acknowledgement is still requested, and the delivery takes the request away.
-/

namespace TeachingKernel.Interrupts

open LineRegister

structure Pic.SameRequests (p q : Pic) : Prop where
  irr : q.irr = p.irr
  irq : q.irq = p.irq
  int : q.int = p.int
  irqIn : q.irqIn = p.irqIn

structure Pic.Held (p : Pic) (i : Nat) : Prop where
  pin : p.irr.getLsbD i = true → p.irqIn.getLsbD i = true
  signal : p.int = true → p.irq = i → p.irr.getLsbD i = true
  edge : p.edgeLevel.getLsbD i = false

namespace Pic

variable {p q : Pic} {i line : Nat}

theorem Held.congr (h : p.Held i) (hsame : p.SameRequests q) (hedge : q.edgeLevel = p.edgeLevel) :
    q.Held i := by
  refine ⟨?_, ?_, ?_⟩
  · rw [hsame.irr, hsame.irqIn]
    exact h.pin
  · rw [hsame.int, hsame.irq, hsame.irr]
    exact h.signal
  · rw [hedge]
    exact h.edge

theorem Held.of_signal {irq : Nat} (h : p.Held i) (hirq : p.irr.getLsbD irq = true) :
    (p.signal irq).Held i := by
  refine ⟨h.pin, fun _ heq => ?_, h.edge⟩
  rw [show irq = i from heq] at hirq
  exact hirq

theorem Held.raise (h : p.Held i) (hi : i < 8) (line : Nat) : (p.raise line).Held i := by
  refine ⟨fun hirr => ?_, fun hint hirq => ?_, h.edge⟩
  · rw [Pic.raise, getLsbD_setLine hi] at hirr ⊢
    by_cases heq : i = line
    · simp [heq]
    · rw [decide_eq_false heq, Bool.or_false] at hirr
      rw [h.pin hirr, Bool.true_or]
  · rw [Pic.raise, getLsbD_setLine hi, h.signal hint hirq, Bool.true_or]

theorem Held.lower (h : p.Held i) (hi : i < 8)
    (hguard : line = i → p.irr.getLsbD i = false) : (p.lower line).Held i := by
  by_cases heq : i = line
  · have hnone := hguard heq.symm
    refine ⟨fun hirr => ?_, fun hint hirq => ?_, h.edge⟩
    · rw [Pic.lower, getLsbD_clearLine hi, hnone, Bool.false_and] at hirr
      cases hirr
    · have hset := h.signal hint hirq
      rw [hnone] at hset
      cases hset
  · refine ⟨fun hirr => ?_, fun hint hirq => ?_, h.edge⟩
    · rw [Pic.lower, getLsbD_clearLine hi, decide_eq_false heq, Bool.not_false,
        Bool.and_true] at hirr ⊢
      exact h.pin hirr
    · rw [Pic.lower, getLsbD_clearLine hi, decide_eq_false heq, Bool.not_false, Bool.and_true]
      exact h.signal hint hirq

theorem edgeLevel_accept (p : Pic) : p.accept.edgeLevel = p.edgeLevel := by
  simp only [accept, apply_ite Pic.edgeLevel, ite_self]

theorem Held.accept (h : p.Held i) (hi : i < 8) (hmanual : p.autoEoi = false)
    (hint : p.int = false) : p.accept.Held i := by
  refine ⟨fun hirr => ?_, fun hint' _ => ?_, ?_⟩
  · rw [irqIn_accept]
    by_cases heq : i = p.irq
    · rw [accept_eq hmanual] at hirr
      dsimp only at hirr
      rw [← heq, h.edge, if_neg (by decide), getLsbD_clearLine hi] at hirr
      simp at hirr
    · rw [accept_irr_of_ne hmanual hi heq] at hirr
      exact h.pin hirr
  · rw [int_accept, hint] at hint'
    cases hint'
  · rw [edgeLevel_accept]
    exact h.edge

/-- A delivered line that is edge triggered is not requested any more. -/
theorem accept_irr_self (hmanual : p.autoEoi = false) (hi : p.irq < 8)
    (hedge : p.edgeLevel.getLsbD p.irq = false) : p.accept.irr.getLsbD p.irq = false := by
  rw [accept_eq hmanual]
  dsimp only
  rw [hedge, if_neg (by decide), getLsbD_clearLine hi]
  simp

end Pic

namespace Pics

def requested (s : Pics) (line : Nat) : Bool :=
  if line ≤ 7 then s.master.irr.getLsbD line else s.slave.irr.getLsbD (line % 8)

def high (s : Pics) (line : Nat) : Bool :=
  if line ≤ 7 then s.master.irqIn.getLsbD line else s.slave.irqIn.getLsbD (line % 8)

variable {s : Pics} {L : Nat → Prop} {line i : Nat}

/-- No request of the lines in `L` was withdrawn. Line 2 stands for the cascade. -/
structure HeldOn (L : Nat → Prop) (s : Pics) : Prop where
  master : ∀ i < 8, L i → s.master.Held i
  slave : ∀ i < 8, L (8 + i) → s.slave.Held i

structure Kept (s t : Pics) : Prop where
  held : ∀ L, s.HeldOn L → t.HeldOn L
  requested : ∀ i, DeviceLine i → t.requested i = s.requested i

theorem serviceMasterPic_held (hn : s.master.Nested) (h : s.master.Held i) :
    s.serviceMasterPic.master.Held i := by
  unfold serviceMasterPic
  cases hs : s.master.signalled with
  | none => exact h
  | some irq => exact h.of_signal (hn.signalled_eq_some.mp hs).2.2.1

theorem raiseMaster_held (hn : s.master.Nested) (hi : i < 8) (h : s.master.Held i) (line : Nat) :
    (s.raiseMaster line).master.Held i := by
  unfold raiseMaster
  split
  · exact h
  · exact serviceMasterPic_held (hn.congr (s.master.sameSetup_raise line)) (h.raise hi line)

theorem HeldOn.serviceMasterPic (h : s.HeldOn L) (hn : s.master.Nested) :
    s.serviceMasterPic.HeldOn L := by
  refine ⟨fun i hi hL => serviceMasterPic_held hn (h.master i hi hL), fun i hi hL => ?_⟩
  rw [serviceMasterPic_slave]
  exact h.slave i hi hL

theorem HeldOn.raiseMaster (h : s.HeldOn L) (hn : s.master.Nested) (line : Nat) :
    (s.raiseMaster line).HeldOn L := by
  refine ⟨fun i hi hL => raiseMaster_held hn hi (h.master i hi hL) line, fun i hi hL => ?_⟩
  rw [raiseMaster_slave]
  exact h.slave i hi hL

theorem HeldOn.serviceSlavePic (h : s.HeldOn L) (hn : s.Nested) : s.serviceSlavePic.HeldOn L := by
  unfold Pics.serviceSlavePic
  cases hs : s.slave.signalled with
  | none => exact h
  | some irq =>
      have hirr := (hn.slave.signalled_eq_some.mp hs).2.2.1
      refine HeldOn.raiseMaster (s := { s with slave := s.slave.signal irq }) ?_ hn.master 2
      exact ⟨h.master, fun i hi hL => (h.slave i hi hL).of_signal hirr⟩

theorem HeldOn.raiseIrq (h : s.HeldOn L) (hn : s.Nested) (line : Nat) :
    (s.raiseIrq line).HeldOn L := by
  unfold Pics.raiseIrq
  split
  · exact h.raiseMaster hn.master line
  · split
    · split
      · exact h
      · refine HeldOn.serviceSlavePic (s := { s with slave := s.slave.raise (line % 8) }) ?_
          ⟨hn.master, hn.slave.congr (s.slave.sameSetup_raise _)⟩
        exact ⟨h.master, fun i hi hL => (h.slave i hi hL).raise hi _⟩
    · exact h

theorem HeldOn.lowerIrq (h : s.HeldOn L) (hguard : L line → s.requested line = false) :
    (s.lowerIrq line).HeldOn L := by
  unfold Pics.lowerIrq
  split
  · rename_i hle
    split
    · refine ⟨fun i hi hL => (h.master i hi hL).lower hi fun heq => ?_, h.slave⟩
      have hnone := hguard (heq ▸ hL)
      rw [requested, if_pos hle, heq] at hnone
      exact hnone
    · exact h
  · rename_i hle
    split
    · rename_i hle'
      split
      · refine ⟨h.master, fun i hi hL => (h.slave i hi hL).lower hi fun heq => ?_⟩
        have hnone := hguard ((show 8 + i = line by omega) ▸ hL)
        rw [requested, if_neg hle, heq] at hnone
        exact hnone
      · exact h
    · exact h

/-! ## What is requested -/

theorem raiseMaster_irr (hi : i < 8) (line : Nat) :
    (s.raiseMaster line).master.irr.getLsbD i =
      (s.master.irr.getLsbD i || (decide (i = line) && !s.master.irqIn.getLsbD line)) := by
  unfold raiseMaster
  cases hpin : s.master.irqIn.getLsbD line with
  | true => simp
  | false =>
      rw [if_neg (by decide), serviceMasterPic_irr, Pic.raise, getLsbD_setLine hi]
      simp

/-- Looking at the requests of the slave changes no other line of the master than the
cascade. -/
theorem serviceSlavePic_master_irr (hi : i < 8) (hne : i ≠ 2) :
    s.serviceSlavePic.master.irr.getLsbD i = s.master.irr.getLsbD i := by
  unfold serviceSlavePic
  split
  · rfl
  · rw [raiseMaster_irr hi, decide_eq_false hne]
    simp

/-- The requests of the master stay what they are, and are looked at again. -/
theorem kept_serviceMasterPic {p : Pic} (hsame : s.master.SameRequests p)
    (hedge : p.edgeLevel = s.master.edgeLevel) (hn : p.Nested) :
    s.Kept ({ s with master := p } : Pics).serviceMasterPic := by
  refine ⟨fun L h => HeldOn.serviceMasterPic (s := { s with master := p })
    ⟨fun i hi hL => (h.master i hi hL).congr hsame hedge, h.slave⟩ hn, fun i _ => ?_⟩
  rw [Pics.requested, Pics.requested, serviceMasterPic_irr, serviceMasterPic_slave, hsame.irr]

theorem kept_serviceSlavePic {p : Pic} (hsame : s.slave.SameRequests p)
    (hedge : p.edgeLevel = s.slave.edgeLevel) (hn : s.master.Nested) (hn' : p.Nested) :
    s.Kept ({ s with slave := p } : Pics).serviceSlavePic := by
  refine ⟨fun L h => HeldOn.serviceSlavePic (s := { s with slave := p })
    ⟨h.master, fun i hi hL => (h.slave i hi hL).congr hsame hedge⟩ ⟨hn, hn'⟩, fun i hi => ?_⟩
  rw [Pics.requested, Pics.requested]
  split
  · rw [serviceSlavePic_master_irr (by omega) hi.2]
  · rw [serviceSlavePic_irr, hsame.irr]

/-- An edge on a line is a new request of that line, and changes nothing else. -/
theorem requested_raiseIrq (hi : DeviceLine i) (hline : DeviceLine line) :
    (s.raiseIrq line).requested i =
      (s.requested i || (decide (i = line) && !s.high line)) := by
  obtain ⟨hi16, hi2⟩ := hi
  obtain ⟨hl16, hl2⟩ := hline
  unfold raiseIrq
  by_cases hle : line ≤ 7
  · rw [if_pos hle, high, if_pos hle]
    by_cases hile : i ≤ 7
    · rw [requested, requested, if_pos hile, if_pos hile, raiseMaster_irr (by omega)]
    · rw [requested, requested, if_neg hile, if_neg hile, raiseMaster_slave,
        decide_eq_false (by omega)]
      simp
  · rw [if_neg hle, if_pos (by omega), high, if_neg hle]
    cases hpin : s.slave.irqIn.getLsbD (line % 8) with
    | true => simp
    | false =>
        rw [if_neg (by decide)]
        by_cases hile : i ≤ 7
        · rw [requested, requested, if_pos hile, if_pos hile,
            serviceSlavePic_master_irr (by omega) hi2, decide_eq_false (by omega)]
          simp
        · rw [requested, requested, if_neg hile, if_neg hile, serviceSlavePic_irr, Pic.raise,
            getLsbD_setLine (by omega)]
          have hiff : (i % 8 = line % 8) ↔ i = line := by omega
          simp [hiff]

theorem requested_lowerIrq (hi : DeviceLine i) (hline : DeviceLine line)
    (hguard : line = i → s.requested i = false) :
    (s.lowerIrq line).requested i = s.requested i := by
  obtain ⟨hi16, hi2⟩ := hi
  obtain ⟨hl16, hl2⟩ := hline
  unfold lowerIrq
  by_cases hle : line ≤ 7
  · rw [if_pos hle]
    split
    · by_cases hile : i ≤ 7
      · rw [requested, requested, if_pos hile, if_pos hile, Pic.lower,
          getLsbD_clearLine (by omega)]
        by_cases heq : i = line
        · have hnone := hguard heq.symm
          rw [requested, if_pos hile] at hnone
          rw [hnone, Bool.false_and]
        · rw [decide_eq_false heq, Bool.not_false, Bool.and_true]
      · rw [requested, requested, if_neg hile, if_neg hile]
    · rfl
  · rw [if_neg hle, if_pos (by omega)]
    split
    · by_cases hile : i ≤ 7
      · rw [requested, requested, if_pos hile, if_pos hile]
      · rw [requested, requested, if_neg hile, if_neg hile, Pic.lower,
          getLsbD_clearLine (by omega)]
        by_cases heq : i = line
        · have hnone := hguard heq.symm
          rw [requested, if_neg hile] at hnone
          rw [hnone, Bool.false_and]
        · rw [decide_eq_false (by omega), Bool.not_false, Bool.and_true]
    · rfl

/-! ## Pins of the master -/

theorem raiseMaster_irqIn (hi : i < 8) (line : Nat) :
    (s.raiseMaster line).master.irqIn.getLsbD i =
      (s.master.irqIn.getLsbD i || decide (i = line)) := by
  unfold raiseMaster
  cases hpin : s.master.irqIn.getLsbD line with
  | true =>
      rw [if_pos rfl]
      by_cases heq : i = line
      · simp [heq, hpin]
      · simp [heq]
  | false => rw [if_neg (by decide), serviceMasterPic_irqIn, Pic.raise, getLsbD_setLine hi]

theorem serviceSlavePic_master_irqIn (hi : i < 8) (hne : i ≠ 2) :
    s.serviceSlavePic.master.irqIn.getLsbD i = s.master.irqIn.getLsbD i := by
  unfold serviceSlavePic
  split
  · rfl
  · rw [raiseMaster_irqIn hi, decide_eq_false hne, Bool.or_false]

theorem raiseIrq_master_irqIn (hi : i < 8) (hne : i ≠ 2) (line : Nat) :
    (s.raiseIrq line).master.irqIn.getLsbD i =
      (s.master.irqIn.getLsbD i || decide (i = line)) := by
  unfold raiseIrq
  split
  · exact raiseMaster_irqIn hi line
  · rw [decide_eq_false (by omega), Bool.or_false]
    split
    · split
      · rfl
      · rw [serviceSlavePic_master_irqIn hi hne]
    · rfl

theorem lowerIrq_master_irqIn (hi : i < 8) (line : Nat) :
    (s.lowerIrq line).master.irqIn.getLsbD i =
      (s.master.irqIn.getLsbD i && !decide (i = line)) := by
  unfold lowerIrq
  split
  · cases hpin : s.master.irqIn.getLsbD line with
    | true => rw [if_pos rfl, Pic.lower, getLsbD_clearLine hi]
    | false =>
        rw [if_neg (by decide)]
        by_cases heq : i = line
        · simp [heq, hpin]
        · simp [heq]
  · rw [decide_eq_false (by omega), Bool.not_false, Bool.and_true]
    split
    · split <;> rfl
    · rfl

end Pics

end TeachingKernel.Interrupts
