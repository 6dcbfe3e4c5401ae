import TeachingKernel.Lib.ByteMemory

/-!
# Two-level page tables

The translation of a 32-bit machine with 4 KB pages: a directory and tables of
1024 entries each, an entry holding a frame number above its low twelve bits and
the present bit below. Page tables are read as words `(frame, index)`, so that a
store changes one word and a lookup depends on two.
-/

namespace TeachingKernel.Mmu

/-- The frame number that an entry, or a page-aligned address, holds. -/
def frameOf (e : Word) : Nat := e.toNat / 4096

/-- The lowest bit of an entry. -/
def Present (e : Word) : Prop := e.toNat % 2 = 1

instance (e : Word) : Decidable (Present e) := inferInstanceAs (Decidable (_ = _))

def slot (f i : Nat) : Word := BitVec.ofNat 32 (4096 * f + 4 * i)

def words (m : Memory) (f i : Nat) : Word := m.readWord (slot f i)

def lookup (w : Nat → Nat → Word) (d v : Nat) : Option Nat :=
  let pde := w d (v / 1024)
  if Present pde then
    let pte := w (frameOf pde) (v % 1024)
    if Present pte then some (frameOf pte) else none
  else none

def pageOf (va : Word) : Nat := va.toNat / 4096

/-- The physical address that the machine uses for `va`, or none on a page fault. -/
def translate (m : Memory) (cr3 va : Word) : Option Word :=
  (lookup (words m) (frameOf cr3) (pageOf va)).map fun f =>
    BitVec.ofNat 32 (4096 * f + va.toNat % 4096)

theorem frameOf_lt (e : Word) : frameOf e < 2 ^ 20 := by
  have h := e.isLt
  unfold frameOf
  omega

theorem pageOf_lt (va : Word) : pageOf va < 2 ^ 20 := frameOf_lt va

/-! ## Words of frames -/

section

variable {m : Memory} {f g i j : Nat} {v : Word}

theorem slot_toNat (hf : f < 2 ^ 20) (hi : i < 1024) : (slot f i).toNat = 4096 * f + 4 * i :=
  toNat_ofNat_of_lt (by omega)

private theorem slot_apart (hf : f < 2 ^ 20) (hi : i < 1024) (hg : g < 2 ^ 20) (hj : j < 1024)
    (hne : ¬(g = f ∧ j = i)) : Memory.Apart (slot f i) (slot g j) := by
  have h1 := slot_toNat hf hi
  have h2 := slot_toNat hg hj
  constructor
  · rw [BitVec.toNat_sub]
    omega
  · rw [BitVec.toNat_sub]
    omega

theorem words_writeWord (hf : f < 2 ^ 20) (hi : i < 1024) (hg : g < 2 ^ 20) (hj : j < 1024) :
    words (m.writeWord (slot f i) v) g j = if g = f ∧ j = i then v else words m g j := by
  unfold words
  by_cases heq : g = f ∧ j = i
  · rw [if_pos heq, heq.1, heq.2, Memory.readWord_writeWord_same]
  · rw [if_neg heq, Memory.readWord_writeWord_apart (slot_apart hf hi hg hj heq)]

end

/-! ## Lookups -/

section

variable {w w' : Nat → Nat → Word} {d v f : Nat}

theorem lookup_of_absent (h : ¬ Present (w d (v / 1024))) : lookup w d v = none := if_neg h

theorem lookup_of_present (h : Present (w d (v / 1024))) :
    lookup w d v = if Present (w (frameOf (w d (v / 1024))) (v % 1024)) then
      some (frameOf (w (frameOf (w d (v / 1024))) (v % 1024))) else none := if_pos h

/-- The page of entry `k` in the table of directory entry `i`. -/
theorem lookup_entry {i k : Nat} (hp : Present (w d i)) (hk : k < 1024) :
    lookup w d (1024 * i + k) =
      if Present (w (frameOf (w d i)) k) then some (frameOf (w (frameOf (w d i)) k)) else none := by
  have hdiv : (1024 * i + k) / 1024 = i := by omega
  have hrem : (1024 * i + k) % 1024 = k := by omega
  rw [lookup_of_present (by rwa [hdiv]), hdiv, hrem]

theorem lookup_congr (hdir : w' d (v / 1024) = w d (v / 1024))
    (htable : Present (w d (v / 1024)) → w' (frameOf (w d (v / 1024))) (v % 1024) =
      w (frameOf (w d (v / 1024))) (v % 1024)) : lookup w' d v = lookup w d v := by
  unfold lookup
  dsimp only
  rw [hdir]
  by_cases h : Present (w d (v / 1024))
  · rw [if_pos h, if_pos h, htable h]
  · rw [if_neg h, if_neg h]

theorem lookup_lt (h : lookup w d v = some f) : f < 2 ^ 20 := by
  unfold lookup at h
  dsimp only at h
  split at h
  · split at h
    · cases h
      exact frameOf_lt _
    · cases h
  · cases h

end

theorem translate_eq_none {m : Memory} {cr3 va : Word} :
    translate m cr3 va = none ↔ lookup (words m) (frameOf cr3) (pageOf va) = none :=
  Option.map_eq_none_iff

theorem translate_of_lookup {m : Memory} {cr3 va : Word} {f : Nat}
    (h : lookup (words m) (frameOf cr3) (pageOf va) = some f) :
    translate m cr3 va = some (BitVec.ofNat 32 (4096 * f + va.toNat % 4096)) := by
  rw [translate, h]
  rfl

theorem eq_of_translate {m : Memory} {cr3 va va' pa : Word} (hpage : pageOf va = pageOf va')
    (h : translate m cr3 va = some pa) (h' : translate m cr3 va' = some pa) : va = va' := by
  obtain ⟨f, hf, hpa⟩ := Option.map_eq_some_iff.mp h
  obtain ⟨f', hf', hpa'⟩ := Option.map_eq_some_iff.mp h'
  rw [← hpage, hf] at hf'
  cases hf'
  have hlt := lookup_lt hf
  have hoff := congrArg BitVec.toNat (hpa.trans hpa'.symm)
  rw [toNat_ofNat_of_lt (by omega), toNat_ofNat_of_lt (by omega)] at hoff
  apply BitVec.eq_of_toNat_eq
  unfold pageOf at hpage
  omega

theorem lookup_of_translate {m : Memory} {cr3 va pa : Word} (h : translate m cr3 va = some pa) :
    lookup (words m) (frameOf cr3) (pageOf va) = some (pageOf pa) := by
  obtain ⟨f, hf, rfl⟩ := Option.map_eq_some_iff.mp h
  have hlt := lookup_lt hf
  rw [hf, pageOf, toNat_ofNat_of_lt (by omega)]
  congr 1
  omega

theorem translate_self {m : Memory} {cr3 va : Word}
    (h : lookup (words m) (frameOf cr3) (pageOf va) = some (pageOf va)) :
    translate m cr3 va = some va := by
  rw [translate_of_lookup h, pageOf, Nat.div_add_mod, BitVec.ofNat_toNat, BitVec.setWidth_eq]

/-! ## Entries -/

def entryOf (f : Word) : Word := (4096#32 * f) ||| 3#32

def absentEntry : Word := 2#32

theorem not_present_absentEntry : ¬ Present absentEntry := by decide

theorem frame_toNat {f : Word} (hf : f.toNat < 2 ^ 20) : (4096#32 * f).toNat = 4096 * f.toNat := by
  rw [BitVec.toNat_mul, BitVec.toNat_ofNat]
  omega

theorem or_three_toNat {a : Word} (h : a.toNat % 4 = 0) : (a ||| 3#32).toNat = a.toNat + 3 := by
  have hquad : a.toNat = 2 ^ 2 * (a.toNat / 4) := by omega
  rw [BitVec.toNat_or, hquad, BitVec.toNat_ofNat, ← Nat.two_pow_add_eq_or_of_lt (by decide)]

theorem entryOf_toNat {f : Word} (hf : f.toNat < 2 ^ 20) :
    (entryOf f).toNat = 4096 * f.toNat + 3 := by
  have hmul := frame_toNat hf
  rw [entryOf, or_three_toNat (by omega), hmul]

theorem present_entryOf {f : Word} (hf : f.toNat < 2 ^ 20) : Present (entryOf f) := by
  rw [Present, entryOf_toNat hf]
  omega

theorem frameOf_entryOf {f : Word} (hf : f.toNat < 2 ^ 20) : frameOf (entryOf f) = f.toNat := by
  rw [frameOf, entryOf_toNat hf]
  omega

/-- The address `e & ~0xFFF` of a program. -/
theorem and_frame_mask (e : Word) :
    e &&& ~~~(0xFFF#32) = 4096#32 * BitVec.ofNat 32 (frameOf e) := by
  have hmask : ∀ i < 32, (~~~(0xFFF#32)).getLsbD i = decide (12 ≤ i) := by decide
  have hbits : e &&& ~~~(0xFFF#32) = (e >>> 12) <<< 12 := by
    apply BitVec.eq_of_getLsbD_eq
    intro i hi
    rw [BitVec.getLsbD_and, hmask i hi, BitVec.getLsbD_shiftLeft, BitVec.getLsbD_ushiftRight]
    by_cases h12 : 12 ≤ i
    · simp [h12, hi, Nat.add_sub_cancel' h12]
    · simp [h12, show i < 12 by omega]
  have hlt := frameOf_lt e
  have hframe : (BitVec.ofNat 32 (frameOf e)).toNat = frameOf e := toNat_ofNat_of_lt (by omega)
  apply BitVec.eq_of_toNat_eq
  rw [hbits, frame_toNat (by omega), hframe, BitVec.toNat_shiftLeft, BitVec.toNat_ushiftRight,
    Nat.shiftLeft_eq, Nat.shiftRight_eq_div_pow]
  unfold frameOf at *
  omega

/-- The test `e & 1` of a program. -/
theorem and_one_eq_zero_iff {e : Word} : e &&& 1#32 = 0 ↔ ¬ Present e := by
  have h : (e &&& 1#32).toNat = e.toNat % 2 := by
    rw [BitVec.toNat_and]
    exact Nat.and_two_pow_sub_one_eq_mod _ 1
  rw [Present, ← BitVec.toNat_inj, h]
  show e.toNat % 2 = 0 ↔ _
  omega

end TeachingKernel.Mmu
