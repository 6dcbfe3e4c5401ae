import Mathlib.Algebra.Group.Nat.Defs
import Mathlib.Logic.Basic

/-!
# Machine words

Addresses and unsigned integers of a 32-bit machine, with arithmetic modulo
`2 ^ 32`, and when that arithmetic agrees with the one on `Nat`.
-/

namespace TeachingKernel

abbrev Word := BitVec 32

abbrev Byte := BitVec 8

theorem toNat_add_of_lt {a b : Word} (h : a.toNat + b.toNat < 2 ^ 32) :
    (a + b).toNat = a.toNat + b.toNat := by
  rw [BitVec.toNat_add, Nat.mod_eq_of_lt h]

theorem toNat_sub_of_le {a b : Word} (h : b.toNat ≤ a.toNat) :
    (a - b).toNat = a.toNat - b.toNat := by
  have ha := a.isLt
  rw [BitVec.toNat_sub]
  omega

theorem toNat_sub_one {a : Word} (h : 0 < a.toNat) : (a - 1).toNat = a.toNat - 1 :=
  toNat_sub_of_le (show 1 ≤ a.toNat from h)

theorem toNat_add_one {a : Word} (h : a.toNat + 1 < 2 ^ 32) : (a + 1).toNat = a.toNat + 1 :=
  toNat_add_of_lt (b := 1) h

theorem toNat_ofNat_of_lt {n : Nat} (h : n < 2 ^ 32) : (BitVec.ofNat 32 n : Word).toNat = n := by
  rw [BitVec.toNat_ofNat, Nat.mod_eq_of_lt h]

theorem toNat_sub_add (x a b : Word) :
    (x - (a + b)).toNat = ((x - a).toNat + 2 ^ 32 - b.toNat) % 2 ^ 32 := by
  rw [← BitVec.sub_sub, BitVec.toNat_sub]
  congr 1
  omega

theorem toNat_ofNat_sub_sub {a b c : Nat} (h : a + b ≤ c) (hlt : c < a + b + 2 ^ 32) :
    (BitVec.ofNat 32 c - BitVec.ofNat 32 a - BitVec.ofNat 32 b).toNat = c - (a + b) := by
  have hsum : BitVec.ofNat 32 c =
      BitVec.ofNat 32 (c - (a + b)) + BitVec.ofNat 32 b + BitVec.ofNat 32 a := by
    rw [← BitVec.ofNat_add, ← BitVec.ofNat_add]
    congr 1
    omega
  rw [hsum, BitVec.add_sub_cancel, BitVec.add_sub_cancel, toNat_ofNat_of_lt (by omega)]

end TeachingKernel
