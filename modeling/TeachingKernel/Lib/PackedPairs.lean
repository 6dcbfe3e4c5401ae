import Mathlib.Logic.Function.Basic

/-!
# Two-bit fields packed four to a byte

Field `i` lies in byte `i / 4`, the first field of a byte in its two most
significant bits. The masks are the shifted constants that code working on such
a bitmap writes; each update is described by the two bits of every field after it.
-/

namespace TeachingKernel.PackedPairs

abbrev Bytes := Nat → BitVec 8

/-- `0x80 >> i % 4 * 2` -/
def firstMask (i : Nat) : BitVec 8 := 0x80#8 >>> (i % 4 * 2)

def secondMask (i : Nat) : BitVec 8 := 0x80#8 >>> (i % 4 * 2 + 1)

def bothMask (i : Nat) : BitVec 8 := 0xC0#8 >>> (i % 4 * 2)

def setBits (bm : Bytes) (i : Nat) (mask : BitVec 8) : Bytes :=
  Function.update bm (i / 4) (bm (i / 4) ||| mask)

def clearBits (bm : Bytes) (i : Nat) (mask : BitVec 8) : Bytes :=
  Function.update bm (i / 4) (bm (i / 4) &&& ~~~mask)

def first (bm : Bytes) (i : Nat) : Bool := bm (i / 4) &&& firstMask i != 0#8

def second (bm : Bytes) (i : Nat) : Bool := bm (i / 4) &&& secondMask i != 0#8

/-! ## Bits of the masks -/

/-- Bit `o` (0 the first, 1 the second) of field `i`. -/
private def bit (bm : Bytes) (i o : Nat) : Bool := (bm (i / 4)).getLsbD (7 - 2 * (i % 4) - o)

private theorem firstMask_eq_twoPow (i : Nat) :
    firstMask i = BitVec.twoPow 8 (7 - 2 * (i % 4) - 0) := by
  have h : ∀ r : Fin 4, 0x80#8 >>> (r.val * 2) = BitVec.twoPow 8 (7 - 2 * r.val - 0) := by decide
  exact h ⟨i % 4, Nat.mod_lt _ (by decide)⟩

private theorem secondMask_eq_twoPow (i : Nat) :
    secondMask i = BitVec.twoPow 8 (7 - 2 * (i % 4) - 1) := by
  have h : ∀ r : Fin 4,
      0x80#8 >>> (r.val * 2 + 1) = BitVec.twoPow 8 (7 - 2 * r.val - 1) := by decide
  exact h ⟨i % 4, Nat.mod_lt _ (by decide)⟩

private theorem bothMask_eq_or (i : Nat) : bothMask i = firstMask i ||| secondMask i := by
  have h : ∀ r : Fin 4, 0xC0#8 >>> (r.val * 2) =
      0x80#8 >>> (r.val * 2) ||| 0x80#8 >>> (r.val * 2 + 1) := by decide
  exact h ⟨i % 4, Nat.mod_lt _ (by decide)⟩

private theorem test_twoPow (b : BitVec 8) {k : Nat} (hk : k < 8) :
    (b &&& BitVec.twoPow 8 k != 0#8) = b.getLsbD k := by
  rw [BitVec.and_twoPow]
  have hne : BitVec.twoPow 8 k ≠ 0#8 := by
    intro h
    have hbit := congrArg (fun v => v.getLsbD k) h
    simp [hk] at hbit
  cases b.getLsbD k <;> simp [hne]

private theorem first_eq_bit (bm : Bytes) (i : Nat) : first bm i = bit bm i 0 := by
  rw [first, firstMask_eq_twoPow, test_twoPow _ (by omega), bit]

private theorem second_eq_bit (bm : Bytes) (i : Nat) : second bm i = bit bm i 1 := by
  rw [second, secondMask_eq_twoPow, test_twoPow _ (by omega), bit]

/-! ## One field after an update -/

private theorem same_position {i j o o' : Nat} (ho : o ≤ 1) (ho' : o' ≤ 1)
    (hbyte : j / 4 = i / 4) :
    decide (7 - 2 * (i % 4) - o = 7 - 2 * (j % 4) - o') = decide (j = i ∧ o' = o) := by
  rw [decide_eq_decide]
  omega

private theorem bit_setBits (bm : Bytes) (i j : Nat) {o o' : Nat} (ho : o ≤ 1) (ho' : o' ≤ 1) :
    bit (setBits bm i (BitVec.twoPow 8 (7 - 2 * (i % 4) - o))) j o' =
      (decide (j = i ∧ o' = o) || bit bm j o') := by
  unfold bit setBits
  by_cases hbyte : j / 4 = i / 4
  · rw [hbyte, Function.update_self, BitVec.getLsbD_or, BitVec.getLsbD_twoPow, Bool.or_comm,
      same_position ho ho' hbyte]
    simp only [show 7 - 2 * (i % 4) - o < 8 by omega, decide_true, Bool.true_and]
  · rw [Function.update_of_ne hbyte]
    simp only [show ¬(j = i ∧ o' = o) from fun h => hbyte (by rw [h.1]), decide_false,
      Bool.false_or]

private theorem bit_clearBits (bm : Bytes) (i j : Nat) {o o' : Nat} (ho : o ≤ 1) (ho' : o' ≤ 1) :
    bit (clearBits bm i (BitVec.twoPow 8 (7 - 2 * (i % 4) - o))) j o' =
      (!decide (j = i ∧ o' = o) && bit bm j o') := by
  unfold bit clearBits
  by_cases hbyte : j / 4 = i / 4
  · rw [hbyte, Function.update_self, BitVec.getLsbD_and, BitVec.getLsbD_not,
      BitVec.getLsbD_twoPow, same_position ho ho' hbyte, Bool.and_comm]
    simp only [show 7 - 2 * (i % 4) - o < 8 by omega, show 7 - 2 * (j % 4) - o' < 8 by omega,
      decide_true, Bool.true_and]
  · rw [Function.update_of_ne hbyte]
    simp only [show ¬(j = i ∧ o' = o) from fun h => hbyte (by rw [h.1]), decide_false,
      Bool.not_false, Bool.true_and]

private theorem setBits_bothMask (bm : Bytes) (i : Nat) :
    setBits bm i (bothMask i) = setBits (setBits bm i (firstMask i)) i (secondMask i) := by
  simp only [setBits, Function.update_self, Function.update_idem, bothMask_eq_or,
    BitVec.or_assoc]

private theorem clearBits_bothMask (bm : Bytes) (i : Nat) :
    clearBits bm i (bothMask i) = clearBits (clearBits bm i (firstMask i)) i (secondMask i) := by
  simp only [clearBits, Function.update_self, Function.update_idem, bothMask_eq_or,
    BitVec.not_or, BitVec.and_assoc]

@[simp] theorem first_setBits_firstMask (bm : Bytes) (i j : Nat) :
    first (setBits bm i (firstMask i)) j = (decide (j = i) || first bm j) := by
  rw [first_eq_bit, firstMask_eq_twoPow, bit_setBits bm i j (by decide) (by decide),
    first_eq_bit]
  simp

@[simp] theorem second_setBits_firstMask (bm : Bytes) (i j : Nat) :
    second (setBits bm i (firstMask i)) j = second bm j := by
  rw [second_eq_bit, firstMask_eq_twoPow, bit_setBits bm i j (by decide) (by decide),
    second_eq_bit]
  simp

@[simp] theorem first_setBits_secondMask (bm : Bytes) (i j : Nat) :
    first (setBits bm i (secondMask i)) j = first bm j := by
  rw [first_eq_bit, secondMask_eq_twoPow, bit_setBits bm i j (by decide) (by decide),
    first_eq_bit]
  simp

@[simp] theorem second_setBits_secondMask (bm : Bytes) (i j : Nat) :
    second (setBits bm i (secondMask i)) j = (decide (j = i) || second bm j) := by
  rw [second_eq_bit, secondMask_eq_twoPow, bit_setBits bm i j (by decide) (by decide),
    second_eq_bit]
  simp

@[simp] theorem first_clearBits_firstMask (bm : Bytes) (i j : Nat) :
    first (clearBits bm i (firstMask i)) j = (!decide (j = i) && first bm j) := by
  rw [first_eq_bit, firstMask_eq_twoPow, bit_clearBits bm i j (by decide) (by decide),
    first_eq_bit]
  simp

@[simp] theorem second_clearBits_firstMask (bm : Bytes) (i j : Nat) :
    second (clearBits bm i (firstMask i)) j = second bm j := by
  rw [second_eq_bit, firstMask_eq_twoPow, bit_clearBits bm i j (by decide) (by decide),
    second_eq_bit]
  simp

@[simp] theorem first_clearBits_secondMask (bm : Bytes) (i j : Nat) :
    first (clearBits bm i (secondMask i)) j = first bm j := by
  rw [first_eq_bit, secondMask_eq_twoPow, bit_clearBits bm i j (by decide) (by decide),
    first_eq_bit]
  simp

@[simp] theorem second_clearBits_secondMask (bm : Bytes) (i j : Nat) :
    second (clearBits bm i (secondMask i)) j = (!decide (j = i) && second bm j) := by
  rw [second_eq_bit, secondMask_eq_twoPow, bit_clearBits bm i j (by decide) (by decide),
    second_eq_bit]
  simp

@[simp] theorem first_setBits_bothMask (bm : Bytes) (i j : Nat) :
    first (setBits bm i (bothMask i)) j = (decide (j = i) || first bm j) := by
  rw [setBits_bothMask, first_setBits_secondMask, first_setBits_firstMask]

@[simp] theorem second_setBits_bothMask (bm : Bytes) (i j : Nat) :
    second (setBits bm i (bothMask i)) j = (decide (j = i) || second bm j) := by
  rw [setBits_bothMask, second_setBits_secondMask, second_setBits_firstMask]

@[simp] theorem first_clearBits_bothMask (bm : Bytes) (i j : Nat) :
    first (clearBits bm i (bothMask i)) j = (!decide (j = i) && first bm j) := by
  rw [clearBits_bothMask, first_clearBits_secondMask, first_clearBits_firstMask]

@[simp] theorem second_clearBits_bothMask (bm : Bytes) (i j : Nat) :
    second (clearBits bm i (bothMask i)) j = (!decide (j = i) && second bm j) := by
  rw [clearBits_bothMask, second_clearBits_secondMask, second_clearBits_firstMask]

theorem bits_of_ones {bm : Bytes} {i : Nat} (h : bm (i / 4) = 0xFF#8) :
    first bm i = true ∧ second bm i = true := by
  have hones : ∀ k : Fin 8, (0xFF#8).getLsbD k.val = true := by decide
  rw [first_eq_bit, second_eq_bit, bit, bit, h]
  exact ⟨hones ⟨7 - 2 * (i % 4) - 0, by omega⟩, hones ⟨7 - 2 * (i % 4) - 1, by omega⟩⟩

theorem bits_of_zero {bm : Bytes} {i : Nat} (h : bm (i / 4) = 0#8) :
    first bm i = false ∧ second bm i = false := by
  simp [first_eq_bit, second_eq_bit, bit, h]

/-- A byte is what its four fields are. -/
theorem byte_eq_iff (bm bm' : Bytes) (c : Nat) :
    bm c = bm' c ↔ ∀ i, i / 4 = c → first bm i = first bm' i ∧ second bm i = second bm' i := by
  constructor
  · rintro h i rfl
    rw [first, first, second, second, h]
    exact ⟨rfl, rfl⟩
  · intro h
    apply BitVec.eq_of_getLsbD_eq
    intro k hk
    have hfield := h (4 * c + (7 - k) / 2) (by omega)
    rw [first_eq_bit, first_eq_bit, second_eq_bit, second_eq_bit, bit, bit, bit, bit,
      show (4 * c + (7 - k) / 2) / 4 = c by omega,
      show (4 * c + (7 - k) / 2) % 4 = (7 - k) / 2 by omega] at hfield
    by_cases hodd : k % 2 = 1
    · rw [show k = 7 - 2 * ((7 - k) / 2) - 0 by omega]
      exact hfield.1
    · rw [show k = 7 - 2 * ((7 - k) / 2) - 1 by omega]
      exact hfield.2

/-- A byte is zero exactly when both bits of its four fields are clear. -/
theorem byte_eq_zero_iff (bm : Bytes) (c : Nat) :
    bm c = 0#8 ↔ ∀ i, i / 4 = c → first bm i = false ∧ second bm i = false := by
  have hzero : ∀ i, first (fun _ => 0#8) i = false ∧ second (fun _ => 0#8) i = false := fun i =>
    bits_of_zero rfl
  have h := byte_eq_iff bm (fun _ => 0#8) c
  simp only [(hzero _).1, (hzero _).2] at h
  exact h

end TeachingKernel.PackedPairs
