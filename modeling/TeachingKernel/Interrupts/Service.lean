import TeachingKernel.Interrupts.Dispatcher

/-!
# What the controllers signal

In the mode that `irq_remap` selects, a controller signals its lowest requested line
if no line up to it is in service. The operations of the devices touch the requests
and the signal, and nothing that the kernel programmed.
-/

namespace TeachingKernel.Interrupts

open LineRegister RingLoop

/-- The mode that `irq_remap` selects: line 0 has the highest priority, no line is
masked, and interrupts are ended by hand. -/
structure Pic.Nested (p : Pic) : Prop where
  lowest : p.lowestPriority = 7
  special : p.specialMask = false
  manual : p.autoEoi = false
  unmasked : p.imr = 0#8

/-- The lowest line in service, or one past the last line. -/
def Pic.level (p : Pic) : Nat := ((List.range 8).find? p.isr.getLsbD).getD 8

structure Pic.SameSetup (p q : Pic) : Prop where
  offset : q.interruptOffset = p.interruptOffset
  autoEoi : q.autoEoi = p.autoEoi
  imr : q.imr = p.imr
  isr : q.isr = p.isr
  lowest : q.lowestPriority = p.lowestPriority
  inInit : q.inInit = p.inInit
  requires4 : q.requires4 = p.requires4
  expected : q.byteExpected = p.byteExpected
  special : q.specialMask = p.specialMask
  edge : q.edgeLevel = p.edgeLevel

namespace Pic

variable {p q r : Pic} {i line : Nat}

theorem SameSetup.refl (p : Pic) : p.SameSetup p := by
  constructor <;> rfl

theorem SameSetup.trans (h : p.SameSetup q) (h' : q.SameSetup r) : p.SameSetup r :=
  ⟨h'.offset.trans h.offset, h'.autoEoi.trans h.autoEoi, h'.imr.trans h.imr, h'.isr.trans h.isr,
    h'.lowest.trans h.lowest, h'.inInit.trans h.inInit, h'.requires4.trans h.requires4,
    h'.expected.trans h.expected, h'.special.trans h.special, h'.edge.trans h.edge⟩

theorem Nested.congr (hn : p.Nested) (h : p.SameSetup q) : q.Nested :=
  ⟨h.lowest.trans hn.lowest, h.special.trans hn.special, h.autoEoi.trans hn.manual,
    h.imr.trans hn.unmasked⟩

theorem sameSetup_signal (p : Pic) (irq : Nat) : p.SameSetup (p.signal irq) := by
  constructor <;> rfl

theorem sameSetup_raise (p : Pic) (line : Nat) : p.SameSetup (p.raise line) := by
  constructor <;> rfl

theorem sameSetup_lower (p : Pic) (line : Nat) : p.SameSetup (p.lower line) := by
  constructor <;> rfl

/-! ## The line in service -/

theorem lt_level : i < p.level ↔ i < 8 ∧ ∀ j ≤ i, p.isr.getLsbD j = false := by
  unfold level
  cases h : (List.range 8).find? p.isr.getLsbD with
  | none =>
      have hnone := List.find?_eq_none.mp h
      simp only [List.mem_range, Bool.not_eq_true] at hnone
      simp only [Option.getD_none]
      exact ⟨fun hi => ⟨hi, fun j hj => hnone j (by omega)⟩, fun hi => hi.1⟩
  | some m =>
      obtain ⟨hm, hset, hfirst⟩ := find?_range_eq_some.mp h
      simp only [Option.getD_some]
      constructor
      · intro hi
        exact ⟨by omega, fun j hj => hfirst j (by omega)⟩
      · intro hi
        refine Nat.lt_of_not_le fun hle => ?_
        rw [hi.2 m hle] at hset
        cases hset

theorem level_eq_of_isr_eq (h : q.isr = p.isr) : q.level = p.level := by
  rw [level, level, h]

theorem level_of_isr_zero (h : p.isr = 0#8) : p.level = 8 := by
  rw [level, h]
  rfl

/-! ## The signal -/

/-- The loops of the service routines look for the lowest requested line below the
line in service. -/
theorem Nested.signalled_eq (hn : p.Nested) :
    p.signalled = if p.int then none else (List.range p.level).find? p.irr.getLsbD := by
  have hhigh : p.highestPriority = 0 := by
    rw [highestPriority, hn.lowest]
    rfl
  have hsearch : ∀ stop, search 8 (fun irq => !(p.specialMask && p.isr.getLsbD irq) &&
      (p.irr &&& ~~~p.imr).getLsbD irq) stop 8 0 = search 8 p.irr.getLsbD stop 8 0 := by
    intro stop
    congr 1
    funext irq
    rw [hn.special, hn.unmasked]
    by_cases hirq : irq < 8
    · rw [getLsbD_and_not hirq, BitVec.getLsbD_zero]
      simp
    · rw [BitVec.getLsbD_of_ge (p.irr &&& _) _ (by omega),
        BitVec.getLsbD_of_ge p.irr _ (by omega), Bool.and_false]
  have hempty : p.irr &&& ~~~p.imr = 0#8 → ∀ n ≤ 8, (List.range n).find? p.irr.getLsbD = none := by
    intro hzero n hn'
    apply List.find?_eq_none.mpr
    intro j hj
    have hlt := List.mem_range.mp hj
    have hbit := eq_zero_iff.mp hzero j (by omega)
    rw [getLsbD_and_not (by omega), hn.unmasked, BitVec.getLsbD_zero] at hbit
    simpa using hbit
  rw [signalled, hhigh]
  simp only [hsearch]
  cases hint : p.int with
  | true => simp
  | false =>
      simp only [Bool.false_eq_true, if_false, hn.special, not_false_eq_true, true_and]
      by_cases hisr : p.isr = 0#8
      · simp only [hisr, ne_eq, not_true, false_and, if_false]
        rw [level_of_isr_zero hisr]
        by_cases hirr : p.irr &&& ~~~p.imr = 0#8
        · rw [if_neg (not_not_intro hirr), hempty hirr 8 (Nat.le_refl _)]
        · rw [if_pos hirr]
          exact search_zero (m := 8) (by decide) (Nat.le_refl _)
      · have hfound : ∃ m, (List.range 8).find? p.isr.getLsbD = some m := by
          obtain ⟨j, hj, hset⟩ := exists_line_of_ne_zero hisr
          apply Option.isSome_iff_exists.mp
          exact List.find?_isSome.mpr ⟨j, List.mem_range.mpr hj, hset⟩
        obtain ⟨m, hm⟩ := hfound
        have hlevel : p.level = m := by
          rw [level, hm, Option.getD_some]
        have hlt := (find?_range_eq_some.mp hm).1
        have hseek : seek 8 p.isr.getLsbD 8 0 = m := by
          apply seek_eq (m := 8) (by decide) (Nat.le_refl _)
          rw [walk_zero (Nat.le_refl _), hm]
        simp only [ne_eq, hisr, not_false_eq_true, true_and, if_true, hseek, hlevel]
        by_cases hzero : m = 0
        · rw [if_pos hzero, hzero]
          rfl
        · rw [if_neg hzero]
          by_cases hirr : p.irr &&& ~~~p.imr = 0#8
          · rw [if_neg (not_not_intro hirr), hempty hirr m (by omega)]
          · rw [if_pos hirr]
            have hround := search_zero (p := p.irr.getLsbD) (m := m) (n := 8) (by omega)
              (by omega)
            rwa [Nat.mod_eq_of_lt hlt] at hround

theorem Nested.signalled_eq_some (hn : p.Nested) :
    p.signalled = some i ↔ p.int = false ∧ i < p.level ∧ p.irr.getLsbD i = true ∧
      ∀ j < i, p.irr.getLsbD j = false := by
  rw [hn.signalled_eq]
  cases p.int with
  | true => simp
  | false => simpa using find?_range_eq_some

theorem Nested.signalled_eq_none (hn : p.Nested) :
    p.signalled = none ↔ p.int = true ∨ ∀ i < p.level, p.irr.getLsbD i = false := by
  rw [hn.signalled_eq]
  cases p.int with
  | true => simp
  | false => simp

theorem level_le (p : Pic) : p.level ≤ 8 := by
  refine Nat.le_of_not_lt fun h => ?_
  exact absurd (lt_level.mp h).1 (by decide)

/-! ## The end of an interrupt -/

theorem Nested.clearHighestInterrupt_of_zero (hn : p.Nested) (h : p.isr = 0#8) :
    p.clearHighestInterrupt = p := by
  have hhigh : p.highestPriority = 0 := by
    rw [highestPriority, hn.lowest]
    rfl
  have hnone : (List.range 8).find? p.isr.getLsbD = none := by
    rw [h]
    rfl
  have hsearch := search_zero (p := p.isr.getLsbD) (m := 8) (n := 8) (by decide)
    (Nat.le_refl _)
  rw [clearHighestInterrupt, hhigh, hsearch, hnone]

theorem Nested.clearHighestInterrupt_of_only (hn : p.Nested) (h : Only p.isr i) (hi : i < 8) :
    p.clearHighestInterrupt = { p with isr := 0#8 } := by
  have hhigh : p.highestPriority = 0 := by
    rw [highestPriority, hn.lowest]
    rfl
  have hfind : (List.range 8).find? p.isr.getLsbD = some i := by
    apply find?_range_eq_some.mpr
    refine ⟨hi, ?_, fun j hj => ?_⟩
    · rw [h i hi, decide_eq_true rfl]
    · rw [h j (by omega), decide_eq_false (by omega)]
  have hsearch := search_zero (p := p.isr.getLsbD) (m := 8) (n := 8) (by decide)
    (Nat.le_refl _)
  rw [clearHighestInterrupt, hhigh, hsearch, hfind]
  simp [h.clearLine]

end Pic

end TeachingKernel.Interrupts
