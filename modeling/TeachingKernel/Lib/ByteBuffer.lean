import Mathlib.Logic.Function.Basic
import TeachingKernel.Lib.ForLoop
import TeachingKernel.Lib.Word

/-!
# Bytes around an origin

A stretch of memory by signed offsets, with a record of the offsets stored to.
The loops over it are a forward copy, whose two ends may overlap, and a fill with
16-bit units. Unit `k` is the two bytes at `2 * k`, the lower one first.
-/

namespace TeachingKernel

open ForLoop

structure ByteBuffer where
  byte : Int → Byte
  stored : List Int

namespace ByteBuffer

variable {b : ByteBuffer} {lo hi d s k x : Int} {n : Nat} {v : BitVec 16}

def store (b : ByteBuffer) (x : Int) (v : Byte) : ByteBuffer :=
  ⟨Function.update b.byte x v, x :: b.stored⟩

/-- `for (; count != 0; count--) *d++ = *s++` -/
def copy (b : ByteBuffer) (d s : Int) (count : Nat) : ByteBuffer :=
  forRange 0 count (fun i b => b.store (d + i) (b.byte (s + i))) b

def unit (b : ByteBuffer) (k : Int) : BitVec 16 := b.byte (2 * k + 1) ++ b.byte (2 * k)

def storeUnit (b : ByteBuffer) (k : Int) (v : BitVec 16) : ByteBuffer :=
  (b.store (2 * k) (v.extractLsb' 0 8)).store (2 * k + 1) (v.extractLsb' 8 8)

def fill (b : ByteBuffer) (k : Int) (v : BitVec 16) (count : Nat) : ByteBuffer :=
  forRange 0 count (fun i b => b.storeUnit (k + i) v) b

def StoredWithin (b : ByteBuffer) (lo hi : Int) : Prop := ∀ x ∈ b.stored, lo ≤ x ∧ x < hi

theorem store_within {v : Byte} (h : b.StoredWithin lo hi) (hlo : lo ≤ x) (hhi : x < hi) :
    (b.store x v).StoredWithin lo hi := by
  intro y hy
  rcases List.mem_cons.mp hy with rfl | hy
  · exact ⟨hlo, hhi⟩
  · exact h y hy

theorem storeUnit_within (h : b.StoredWithin lo hi) (hlo : lo ≤ 2 * k) (hhi : 2 * k + 1 < hi) :
    (b.storeUnit k v).StoredWithin lo hi :=
  store_within (store_within h hlo (by omega)) (by omega) hhi

private theorem append_halves (v : BitVec 16) : v.extractLsb' 8 8 ++ v.extractLsb' 0 8 = v := by
  apply BitVec.eq_of_getLsbD_eq
  intro i hi
  rw [BitVec.getLsbD_append]
  by_cases h : i < 8
  · simp [h]
  · simp [h, show i - 8 < 8 by omega, show 8 + (i - 8) = i by omega]

theorem unit_storeUnit (k j : Int) :
    (b.storeUnit k v).unit j = if j = k then v else b.unit j := by
  simp only [unit, storeUnit, store, Function.update_apply]
  by_cases h : j = k
  · subst h
    rw [if_pos rfl, if_neg (by omega), if_pos rfl, if_pos rfl]
    exact append_halves v
  · rw [if_neg (by omega), if_neg (by omega), if_neg (by omega), if_neg (by omega), if_neg h]

/-! ## The forward copy -/

/-- Copying towards lower offsets reads every byte before it is overwritten, so the
two stretches may overlap. -/
theorem byte_copy (h : d ≤ s) (x : Int) :
    (b.copy d s n).byte x = if d ≤ x ∧ x < d + n then b.byte (x - d + s) else b.byte x := by
  have hinv := forRange_invariant
    (P := fun i t => ∀ x, t.byte x =
      if d ≤ x ∧ x < d + (i : Nat) then b.byte (x - d + s) else b.byte x)
    (f := fun i b => b.store (d + i) (b.byte (s + i))) (s := b) (Nat.zero_le n)
    (fun x => by rw [if_neg (by omega)]) ?_
  · exact hinv x
  · intro i t _ _ ht x
    simp only [store, Function.update_apply]
    by_cases hx : x = d + i
    · -- the byte read lies at or behind the one written
      rw [if_pos hx, ht, if_neg (by omega), if_pos (by omega)]
      congr 1
      omega
    · rw [if_neg hx, ht]
      by_cases hin : d ≤ x ∧ x < d + i
      · rw [if_pos hin, if_pos (by omega)]
      · rw [if_neg hin, if_neg (by omega)]

theorem unit_copy (h : d ≤ s) (j : Int) :
    (b.copy (2 * d) (2 * s) (2 * n)).unit j =
      if d ≤ j ∧ j < d + n then b.unit (j - d + s) else b.unit j := by
  rw [unit, byte_copy (by omega), byte_copy (by omega)]
  by_cases hj : d ≤ j ∧ j < d + n
  · rw [if_pos (by omega), if_pos (by omega), if_pos hj, unit,
      show 2 * j + 1 - 2 * d + 2 * s = 2 * (j - d + s) + 1 by omega,
      show 2 * j - 2 * d + 2 * s = 2 * (j - d + s) by omega]
  · rw [if_neg (by omega), if_neg (by omega), if_neg hj, unit]

theorem copy_within (h : b.StoredWithin lo hi) (hlo : lo ≤ d) (hhi : d + n ≤ hi) :
    (b.copy d s n).StoredWithin lo hi :=
  forRange_invariant (P := fun _ t => ByteBuffer.StoredWithin t lo hi) (Nat.zero_le n) h
    (fun i t _ hi ht => store_within ht (by omega) (by omega))

/-! ## The fill -/

theorem unit_fill (j : Int) :
    (b.fill k v n).unit j = if k ≤ j ∧ j < k + n then v else b.unit j := by
  have hinv := forRange_invariant
    (P := fun i t => ∀ j, t.unit j = if k ≤ j ∧ j < k + (i : Nat) then v else b.unit j)
    (f := fun i b => b.storeUnit (k + i) v) (s := b) (Nat.zero_le n)
    (fun j => by rw [if_neg (by omega)]) ?_
  · exact hinv j
  · intro i t _ _ ht j
    rw [unit_storeUnit, ht]
    by_cases hj : j = k + i
    · rw [if_pos hj, if_pos (by omega)]
    · rw [if_neg hj]
      by_cases hin : k ≤ j ∧ j < k + i
      · rw [if_pos hin, if_pos (by omega)]
      · rw [if_neg hin, if_neg (by omega)]

theorem fill_within (h : b.StoredWithin lo hi) (hlo : lo ≤ 2 * k) (hhi : 2 * (k + n) ≤ hi) :
    (b.fill k v n).StoredWithin lo hi :=
  forRange_invariant (P := fun _ t => ByteBuffer.StoredWithin t lo hi) (Nat.zero_le n) h
    (fun i t _ hi ht => storeUnit_within ht (by omega) (by omega))

end ByteBuffer

end TeachingKernel
