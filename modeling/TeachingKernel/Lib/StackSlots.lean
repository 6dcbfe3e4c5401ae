import TeachingKernel.Lib.X86

/-!
# A descending stack as slots

The words of a stack, counted downwards from a fixed top. A stack pointer is the slot
it points to; a push writes the next slot, and an interrupt keeps every slot from the
stack pointer up, whatever it writes below.
-/

namespace TeachingKernel.X86

def stackSlot (top : Word) (j : Nat) : Word := top - 4 * BitVec.ofNat 32 j

def stackWord (m : Memory) (top : Word) (j : Nat) : Word := m.readWord (stackSlot top j)

/-- The bytes of `n` slots and of the interrupts that are taken on them. -/
def Handlers.Reach (h : Handlers) (top : Word) (n : Nat) (b : Word) : Prop :=
  (top + 3 - b).toNat < 4 * n + h.depth ∨ h.owned b

def Handlers.Away (h : Handlers) (top : Word) (n : Nat) (a : Word) : Prop :=
  ∀ b : Word, (b - a).toNat < 4 → ¬ h.Reach top n b

/-- `n` slots that belong to the stack alone, with room for interrupts below. -/
structure Handlers.Room (h : Handlers) (top : Word) (n : Nat) : Prop where
  fits : 4 * n + h.depth ≤ 2 ^ 32
  free : ∀ b : Word, (top + 3 - b).toNat < 4 * n → ¬ h.owned b

section

variable {h : Handlers} {m : Memory} {s t : Cpu} {top a v : Word} {i j k n : Nat}

theorem toNat_four_mul (hj : j < 2 ^ 30) : (4 * BitVec.ofNat 32 j : Word).toNat = 4 * j := by
  rw [BitVec.toNat_mul, toNat_ofNat_of_lt (by omega)]
  simp
  omega

theorem stackSlot_zero (top : Word) : stackSlot top 0 = top := by
  rw [stackSlot]
  simp

theorem stackSlot_succ (top : Word) (j : Nat) : stackSlot top (j + 1) = stackSlot top j - 4 := by
  rw [stackSlot, stackSlot, BitVec.ofNat_add, BitVec.mul_add, BitVec.sub_sub]
  rfl

theorem stackSlot_add (top : Word) (j k : Nat) :
    stackSlot top (j + k) + 4 * BitVec.ofNat 32 k = stackSlot top j := by
  rw [stackSlot, stackSlot, BitVec.ofNat_add, BitVec.mul_add, ← BitVec.sub_sub,
    BitVec.sub_add_cancel]

theorem stackSlot_sub (top : Word) (j k : Nat) :
    stackSlot top j - 4 * BitVec.ofNat 32 k = stackSlot top (j + k) := by
  rw [stackSlot, stackSlot, BitVec.ofNat_add, BitVec.mul_add, BitVec.sub_sub]

theorem stackSlot_stackSlot (top : Word) (j k : Nat) :
    stackSlot (stackSlot top j) k = stackSlot top (j + k) := stackSlot_sub top j k

theorem stackWord_stackSlot (m : Memory) (top : Word) (j k : Nat) :
    stackWord m (stackSlot top j) k = stackWord m top (j + k) := by
  rw [stackWord, stackWord, stackSlot_stackSlot]

theorem stackSlot_apart (hj : j < 2 ^ 29) (hk : k < 2 ^ 29) (hne : j ≠ k) :
    Memory.Apart (stackSlot top k) (stackSlot top j) := by
  have h1 := toNat_four_mul (j := j) (by omega)
  have h2 := toNat_four_mul (j := k) (by omega)
  unfold stackSlot
  generalize (4 * BitVec.ofNat 32 j : Word) = x at h1 ⊢
  generalize (4 * BitVec.ofNat 32 k : Word) = y at h2 ⊢
  constructor <;> bv_omega

theorem stackWord_writeWord (hj : j < 2 ^ 29) (hk : k < 2 ^ 29) :
    stackWord (m.writeWord (stackSlot top k) v) top j = if j = k then v else stackWord m top j := by
  unfold stackWord
  split
  · rename_i heq
    rw [heq, Memory.readWord_writeWord_same]
  · rename_i hne
    rw [Memory.readWord_writeWord_apart (stackSlot_apart hj hk hne)]

theorem Handlers.Away.apart (ha : h.Away top n a) (hj : j < n) (hn : 4 * n ≤ 2 ^ 32) :
    Memory.Apart (stackSlot top j) a := by
  have hmul := toNat_four_mul (j := j) (by omega)
  have h1 : ¬ (stackSlot top j - a).toNat < 4 := fun hlt =>
    ha _ hlt (.inl (by
      unfold stackSlot
      bv_omega))
  have h2 : ¬ (a - stackSlot top j).toNat < 4 := by
    intro hlt
    refine ha a (by simp) (.inl ?_)
    unfold stackSlot at hlt
    bv_omega
  exact ⟨by omega, by omega⟩

theorem Handlers.Room.below (hroom : h.Room top (j + n)) : h.Room (stackSlot top j) n := by
  have hfits := hroom.fits
  have hframe := h.frame_fits
  have hmul := toNat_four_mul (j := j) (by omega)
  refine ⟨by omega, fun b hb => hroom.free b ?_⟩
  unfold stackSlot at hb
  bv_omega

theorem Handlers.reach_of_scratch {b : Word} (hfits : 4 * n + h.depth ≤ 2 ^ 32) (hj : j < n)
    (hb : h.Scratch (stackSlot top j) b) : h.Reach top n b := by
  have hmul := toNat_four_mul (j := j) (by omega)
  refine hb.imp_left fun hstack => ?_
  unfold stackSlot at hstack
  bv_omega

theorem Interrupted.readWord_eq (hirq : Interrupted h i s t) (hroom : h.Room top n)
    (hesp : s.reg .esp = stackSlot top j) (hj : j < n) (ha : h.Away top n a) :
    t.mem.readWord a = s.mem.readWord a := by
  refine Memory.readWord_congr fun b hb => hirq.kept b fun hscratch => ha b hb ?_
  rw [hesp] at hscratch
  exact Handlers.reach_of_scratch hroom.fits hj hscratch

theorem Interrupted.stackWord_eq (hirq : Interrupted h i s t) (hroom : h.Room top n)
    (hesp : s.reg .esp = stackSlot top j) (hj : j < n) (hk : k ≤ j) :
    stackWord t.mem top k = stackWord s.mem top k := by
  have hfits := hroom.fits
  have hmul := toNat_four_mul (j := j) (by omega)
  have hmul' := toNat_four_mul (j := k) (by omega)
  refine Memory.readWord_congr fun b hb => hirq.kept b ?_
  unfold stackSlot at hb
  rintro (hstack | howned)
  · rw [hesp] at hstack
    unfold stackSlot at hstack
    bv_omega
  · exact hroom.free b (by bv_omega) howned

theorem Interrupted.pushed (hirq : Interrupted h i s t) (hesp : s.reg .esp = stackSlot top j) :
    stackWord t.mem top (j + 1) = s.eflags ∧ stackWord t.mem top (j + 2) = s.cs.setWidth 32 ∧
      stackWord t.mem top (j + 3) = h.code i := by
  have h1 := hirq.pushed_eflags
  have h2 := hirq.pushed_cs
  have h3 := hirq.pushed_eip
  have h12 : stackSlot top (j + 2) = stackSlot top j - 8 := by
    rw [stackSlot_succ, stackSlot_succ, BitVec.sub_sub]
    rfl
  have h13 : stackSlot top (j + 3) = stackSlot top j - 12 := by
    rw [stackSlot_succ, h12, BitVec.sub_sub]
    rfl
  rw [hesp] at h1 h2 h3
  refine ⟨?_, ?_, ?_⟩
  · rw [stackWord, stackSlot_succ, h1]
  · rw [stackWord, h12, h2]
  · rw [stackWord, h13, h3]

/-! ## Pushes and pops -/

theorem reg_push (hesp : s.reg .esp = stackSlot top j) (r : Reg) :
    (s.push v).reg r = if r = .esp then stackSlot top (j + 1) else s.reg r := by
  rw [Cpu.push, hesp, ← stackSlot_succ]
  exact Cpu.reg_setReg ..

theorem mem_push (hesp : s.reg .esp = stackSlot top j) :
    (s.push v).mem = s.mem.writeWord (stackSlot top (j + 1)) v := by
  rw [Cpu.push, hesp, ← stackSlot_succ]
  rfl

theorem stackWord_push (hesp : s.reg .esp = stackSlot top j) (hj : j < 2 ^ 28) (hk : k < 2 ^ 28) :
    stackWord (s.push v).mem top k = if k = j + 1 then v else stackWord s.mem top k := by
  rw [mem_push hesp, stackWord_writeWord (by omega) (by omega)]

theorem peek_eq (hesp : s.reg .esp = stackSlot top n) (hn : j + k = n) :
    s.peek k = stackWord s.mem top j := by
  rw [Cpu.peek, hesp, ← hn, stackSlot_add, stackWord]

theorem reg_drop (hesp : s.reg .esp = stackSlot top n) (hn : j + k = n) (r : Reg) :
    (s.drop k).reg r = if r = .esp then stackSlot top j else s.reg r := by
  rw [Cpu.drop, Cpu.reg_setReg, hesp, ← hn, stackSlot_add]

end

end TeachingKernel.X86
