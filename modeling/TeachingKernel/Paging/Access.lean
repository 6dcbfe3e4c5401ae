import TeachingKernel.FramePool.Bitmaps
import TeachingKernel.FramePool.Single
import TeachingKernel.Lib.FrameUses
import TeachingKernel.Paging.Model

/-!
# Stores into tables

What the two versions of the handlers share: a store sets one word of one frame,
and the loop over a new table makes all of its entries absent, however its stores
reach the table.
-/

namespace TeachingKernel.Paging

open ForLoop FramePool ContFramePool Mmu

structure SameRegisters (s t : Machine) : Prop where
  cr3_eq : t.cr3 = s.cr3
  pools_eq : t.pools = s.pools

theorem SameRegisters.trans {s t u : Machine} (h : SameRegisters s t) (h' : SameRegisters t u) :
    SameRegisters s u := ⟨h'.cr3_eq.trans h.cr3_eq, h'.pools_eq.trans h.pools_eq⟩

def setWord (s : Machine) (f i : Nat) (v : Word) : Machine :=
  { s with mem := s.mem.writeWord (slot f i) v }

theorem setsWord_setWord {s : Machine} {f i : Nat} {v : Word} (hf : f < 2 ^ 20) (hi : i < 1024) :
    SetsWord (words s.mem) (words (setWord s f i v).mem) f i v :=
  fun _ hg _ hj => words_writeWord hf hi hg hj

theorem getFrame_eq {s : Machine} {k : Nat} {f : Word} {t : Machine}
    (h : s.getFrame k = some (f, t)) :
    ∃ p p', s.pools[k]? = some p ∧ p.getFrames 1 = some (f, p') ∧
      t = { s with pools := s.pools.set k p' } := by
  obtain ⟨p, hp, h⟩ := Option.bind_eq_some_iff.mp h
  obtain ⟨⟨f', p'⟩, hget, heq⟩ := Option.map_eq_some_iff.mp h
  cases heq
  exact ⟨p, p', hp, hget, rfl⟩

/-- The handlers find the bitmap of pool `k` at its address, and none of the frames in
use holds a byte of it. -/
def BitmapSafe (k : Nat) (uses : FrameUse → Option Nat) (s : Machine) : Prop :=
  ∀ p, s.pools[k]? = some p → ∀ a, p.extent.BitmapAt a →
    translate s.mem s.cr3 a = some a ∧ ∀ o, uses o ≠ some (pageOf a)

/-! ## Indices and addresses -/

theorem toNat_and_mask10 (a : Word) : (a &&& ~~~(0xFFFFFC00#32)).toNat = a.toNat % 1024 := by
  have hmask : ~~~(0xFFFFFC00#32) = 0x3FF#32 := by decide
  rw [hmask, BitVec.toNat_and]
  exact Nat.and_two_pow_sub_one_eq_mod _ 10

theorem getFirst10Bits_toNat (a : Word) : (getFirst10Bits a).toNat = pageOf a / 1024 := by
  rw [getFirst10Bits, BitVec.toNat_ushiftRight, Nat.shiftRight_eq_div_pow, pageOf]
  omega

theorem getMiddle10Bits_toNat (a : Word) : (getMiddle10Bits a).toNat = pageOf a % 1024 := by
  rw [getMiddle10Bits, toNat_and_mask10, BitVec.toNat_ushiftRight, Nat.shiftRight_eq_div_pow,
    pageOf]

/-! ## Emptying a table -/

def ClearsFrame (s t : Machine) (f : Nat) : Prop := ∀ g < 2 ^ 20, ∀ j < 1024,
  words t.mem g j = if g = f then absentEntry else words s.mem g j

/-- A loop whose stores set the entries of frame `f` one by one clears the frame. The
stores may rely on everything outside the frame being as before the loop. -/
theorem clearFrame_loop {s : Machine} {f : Nat} {store : Nat → Machine → Option Machine}
    (hf : f < 2 ^ 20)
    (hstore : ∀ i u, i < 1024 → SameRegisters s u →
      (∀ g < 2 ^ 20, g ≠ f → ∀ j < 1024, words u.mem g j = words s.mem g j) →
      store i u = some (setWord u f i 2)) :
    ∃ t, forRange? 0 entriesPerPage store s = some t ∧ SameRegisters s t ∧ ClearsFrame s t f := by
  let P (i : Nat) (t : Machine) : Prop := SameRegisters s t ∧ ∀ g < 2 ^ 20, ∀ j < 1024,
    words t.mem g j = if g = f ∧ j < i then absentEntry else words s.mem g j
  have hstep : ∀ i u, 0 ≤ i → i < entriesPerPage → P i u →
      ∃ v, store i u = some v ∧ P (i + 1) v := by
    rintro i u - hi ⟨hregs, hwords⟩
    refine ⟨setWord u f i 2, hstore i u hi hregs fun g hg hne j hj => ?_,
      ⟨hregs.cr3_eq, hregs.pools_eq⟩, fun g hg j hj => ?_⟩
    · rw [hwords g hg j hj, if_neg fun hc => hne hc.1]
    · rw [setsWord_setWord hf hi g hg j hj, hwords g hg j hj]
      by_cases hgf : g = f
      · rcases Nat.lt_trichotomy j i with hlt | heq | hgt
        · rw [if_neg (by omega), if_pos ⟨hgf, hlt⟩, if_pos ⟨hgf, by omega⟩]
        · rw [if_pos ⟨hgf, heq⟩, if_pos ⟨hgf, by omega⟩]
          rfl
        · rw [if_neg (by omega), if_neg (by omega), if_neg (by omega)]
      · rw [if_neg fun hc => hgf hc.1, if_neg fun hc => hgf hc.1, if_neg fun hc => hgf hc.1]
  have hzero : P 0 s := ⟨⟨rfl, rfl⟩, fun g _ j _ => by rw [if_neg (by omega)]⟩
  obtain ⟨t, ht, hregs, hwords⟩ := forRange?_completes (Nat.zero_le entriesPerPage) hzero hstep
  refine ⟨t, ht, hregs, fun g hg j hj => ?_⟩
  rw [hwords g hg j hj]
  by_cases hgf : g = f
  · rw [if_pos ⟨hgf, hj⟩, if_pos hgf]
  · rw [if_neg fun hc => hgf hc.1, if_neg hgf]

end TeachingKernel.Paging
