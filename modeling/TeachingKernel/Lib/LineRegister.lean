import TeachingKernel.Lib.Word

/-!
# Registers with one bit for each line

Eight-bit registers read and written one bit at a time, as the C expressions
`x & (1 << i)`, `x |= (1 << i)` and `x &= ~(1 << i)` do.
-/

namespace TeachingKernel.LineRegister

def setLine (x : Byte) (i : Nat) : Byte := x ||| (1#8 <<< i)

def clearLine (x : Byte) (i : Nat) : Byte := x &&& ~~~(1#8 <<< i)

def Only (x : Byte) (i : Nat) : Prop := ∀ j < 8, x.getLsbD j = decide (j = i)

section

variable {x y : Byte} {i j : Nat}

theorem getLsbD_one_shift (hj : j < 8) : (1#8 <<< i).getLsbD j = decide (j = i) := by
  rw [BitVec.getLsbD_shiftLeft, BitVec.getLsbD_one]
  by_cases h : j = i
  · simp [h, show i < 8 by omega]
  · by_cases hlt : j < i
    · simp [hlt, h]
    · simp [show ¬ j - i = 0 by omega, h]

@[simp] theorem getLsbD_setLine (hj : j < 8) :
    (setLine x i).getLsbD j = (x.getLsbD j || decide (j = i)) := by
  rw [setLine, BitVec.getLsbD_or, getLsbD_one_shift hj]

@[simp] theorem getLsbD_clearLine (hj : j < 8) :
    (clearLine x i).getLsbD j = (x.getLsbD j && !decide (j = i)) := by
  rw [clearLine, BitVec.getLsbD_and, BitVec.getLsbD_not, getLsbD_one_shift hj]
  simp [hj]

theorem eq_of_lines (h : ∀ j < 8, x.getLsbD j = y.getLsbD j) : x = y :=
  BitVec.eq_of_getLsbD_eq h

theorem eq_zero_iff : x = 0#8 ↔ ∀ j < 8, x.getLsbD j = false := by
  constructor
  · rintro rfl j _
    exact BitVec.getLsbD_zero
  · intro h
    apply eq_of_lines
    intro j hj
    rw [h j hj]
    exact BitVec.getLsbD_zero.symm

theorem exists_line_of_ne_zero (h : x ≠ 0#8) : ∃ j < 8, x.getLsbD j = true := by
  refine Classical.byContradiction fun hnone => h (eq_zero_iff.mpr fun j hj => ?_)
  cases hbit : x.getLsbD j with
  | true => exact absurd ⟨j, hj, hbit⟩ hnone
  | false => rfl

theorem only_setLine_zero (i : Nat) : Only (setLine 0#8 i) i := by
  intro j hj
  rw [getLsbD_setLine hj, BitVec.getLsbD_zero, Bool.false_or]

theorem Only.clearLine (h : Only x i) : clearLine x i = 0#8 := by
  apply eq_zero_iff.mpr
  intro j hj
  rw [getLsbD_clearLine hj, h j hj]
  cases decide (j = i) <;> rfl

theorem getLsbD_and_not (hj : j < 8) :
    (x &&& ~~~y).getLsbD j = (x.getLsbD j && !y.getLsbD j) := by
  rw [BitVec.getLsbD_and, BitVec.getLsbD_not]
  simp [hj]

end

end TeachingKernel.LineRegister
