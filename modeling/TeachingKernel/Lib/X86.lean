import Mathlib.Logic.Function.Basic
import TeachingKernel.Lib.ByteMemory

/-!
# A fragment of the 32-bit x86

The instructions that a routine which saves and restores whole register sets is made
of, one hardware interrupt at a time. A routine is a list of instructions; a
processor is in front of one of them or has left for an address. An interrupt that is
taken between two instructions and returns restores every register, and what it
leaves behind is memory: its return frame just below the stack pointer, and whatever
its handler wrote below that or to its own data.
-/

namespace TeachingKernel.X86

inductive Reg where
  | eax | ecx | edx | ebx | esp | ebp | esi | edi
  deriving DecidableEq

inductive Seg where
  | ds | es | fs | gs
  deriving DecidableEq

abbrev Selector := BitVec 16

/-- In front of an instruction of the routine, or at an address after it left. -/
inductive Place where
  | inside (i : Nat)
  | outside (a : Word)
  deriving DecidableEq

structure Cpu where
  place : Place
  reg : Reg → Word
  seg : Seg → Selector
  cs : Selector
  eflags : Word
  mem : Memory

inductive Instr where
  | cmpMem (a imm : Word)
  | je (target : Nat)
  | pushReg (r : Reg)
  | pushSeg (r : Seg)
  | pushImm (v : Word)
  | pushfd
  | pushad
  | popSeg (r : Seg)
  | popad
  | load (r base : Reg) (disp : Word)
  | store (base : Reg) (disp : Word) (r : Reg)
  | loadAbs (r : Reg) (a : Word)
  | storeAbs (a : Word) (r : Reg)
  | addImm (r : Reg) (imm : Word)
  | subImm (r : Reg) (imm : Word)
  | iret

/-! ## Flags -/

/-- CF, PF, AF, ZF, SF and OF. -/
def statusMask : Word := 0x8D5

def withStatus (eflags status : Word) : Word :=
  (eflags &&& ~~~statusMask) ||| (status &&& statusMask)

def flagBit (i : Nat) (b : Bool) : Word := if b then 1#32 <<< i else 0

def parity (a : Word) : Bool :=
  !((List.range 8).foldl (fun odd i => xor odd (a.getLsbD i)) false)

def resultStatus (result : Word) : Word :=
  flagBit 2 (parity result) ||| flagBit 6 (result = 0) ||| flagBit 7 result.msb

def addStatus (a b : Word) : Word :=
  resultStatus (a + b) ||| flagBit 0 (a + b < a) ||| flagBit 4 ((a &&& 0xF) + (b &&& 0xF) > 0xF) |||
    flagBit 11 (a.msb = b.msb ∧ (a + b).msb ≠ a.msb)

def subStatus (a b : Word) : Word :=
  resultStatus (a - b) ||| flagBit 0 (a < b) ||| flagBit 4 ((a &&& 0xF) < (b &&& 0xF)) |||
    flagBit 11 (a.msb ≠ b.msb ∧ (a - b).msb ≠ a.msb)

def zeroFlag (eflags : Word) : Bool := eflags.getLsbD 6

def interruptFlag (eflags : Word) : Bool := eflags.getLsbD 9

/-- The same word up to the status flags. -/
def SameControl (e e' : Word) : Prop := e &&& ~~~statusMask = e' &&& ~~~statusMask

/-! ## Instructions -/

namespace Cpu

def setReg (s : Cpu) (r : Reg) (v : Word) : Cpu := { s with reg := Function.update s.reg r v }

def setSeg (s : Cpu) (r : Seg) (v : Selector) : Cpu := { s with seg := Function.update s.seg r v }

def goto (s : Cpu) (i : Nat) : Cpu := { s with place := .inside i }

def write (s : Cpu) (a v : Word) : Cpu := { s with mem := s.mem.writeWord a v }

def push (s : Cpu) (v : Word) : Cpu :=
  (s.setReg .esp (s.reg .esp - 4)).write (s.reg .esp - 4) v

/-- A selector takes a word on the stack, but only its lower half is written. -/
def pushSelector (s : Cpu) (v : Selector) : Cpu :=
  { s.setReg .esp (s.reg .esp - 4) with mem := s.mem.writeHalf (s.reg .esp - 4) v }

def above (s : Cpu) (k : Nat) : Word := s.reg .esp + 4 * BitVec.ofNat 32 k

def below (s : Cpu) (k : Nat) : Word := s.reg .esp - 4 * BitVec.ofNat 32 k

def peek (s : Cpu) (k : Nat) : Word := s.mem.readWord (s.reg .esp + 4 * BitVec.ofNat 32 k)

def drop (s : Cpu) (k : Nat) : Cpu := s.setReg .esp (s.reg .esp + 4 * BitVec.ofNat 32 k)

/-- The word pushed for the stack pointer is the one before the instruction. -/
def pushad (s : Cpu) : Cpu :=
  [s.reg .eax, s.reg .ecx, s.reg .edx, s.reg .ebx, s.reg .esp, s.reg .ebp, s.reg .esi,
    s.reg .edi].foldl push s

/-- The word popped for the stack pointer is dropped. -/
def popad (s : Cpu) : Cpu :=
  (((((((s.setReg .edi (s.peek 0)).setReg .esi (s.peek 1)).setReg .ebp (s.peek 2)).setReg .ebx
    (s.peek 4)).setReg .edx (s.peek 5)).setReg .ecx (s.peek 6)).setReg .eax (s.peek 7)).drop 8

end Cpu

def Cpu.ret (s : Cpu) : Cpu := { s.drop 1 with place := .outside (s.peek 0) }

/-- Instruction `i` of the routine. Left out are the checks of popped selectors, and an
`iret` with NT set, or one that pops a set VM or another privilege. -/
def exec (i : Nat) (s : Cpu) : Instr → Cpu
  | .cmpMem a imm =>
      { s.goto (i + 1) with eflags := withStatus s.eflags (subStatus (s.mem.readWord a) imm) }
  | .je target => if zeroFlag s.eflags then s.goto target else s.goto (i + 1)
  | .pushReg r => (s.push (s.reg r)).goto (i + 1)
  | .pushSeg r => (s.pushSelector (s.seg r)).goto (i + 1)
  | .pushImm v => (s.push v).goto (i + 1)
  | .pushfd => (s.push s.eflags).goto (i + 1)
  | .pushad => s.pushad.goto (i + 1)
  | .popSeg r => ((s.setSeg r ((s.peek 0).setWidth 16)).drop 1).goto (i + 1)
  | .popad => s.popad.goto (i + 1)
  | .load r base disp => (s.setReg r (s.mem.readWord (s.reg base + disp))).goto (i + 1)
  | .store base disp r => (s.write (s.reg base + disp) (s.reg r)).goto (i + 1)
  | .loadAbs r a => (s.setReg r (s.mem.readWord a)).goto (i + 1)
  | .storeAbs a r => (s.write a (s.reg r)).goto (i + 1)
  | .addImm r imm =>
      { (s.setReg r (s.reg r + imm)).goto (i + 1) with
        eflags := withStatus s.eflags (addStatus (s.reg r) imm) }
  | .subImm r imm =>
      { (s.setReg r (s.reg r - imm)).goto (i + 1) with
        eflags := withStatus s.eflags (subStatus (s.reg r) imm) }
  | .iret =>
      { s.drop 3 with
        place := .outside (s.peek 0), cs := (s.peek 1).setWidth 16, eflags := s.peek 2 }

/-- The addresses of the words that an instruction reads. -/
def reads (s : Cpu) : Instr → List Word
  | .cmpMem a _ | .loadAbs _ a => [a]
  | .popSeg _ => [s.above 0]
  | .popad => [0, 1, 2, 4, 5, 6, 7].map s.above
  | .load _ base disp => [s.reg base + disp]
  | .iret => [0, 1, 2].map s.above
  | _ => []

/-- The addresses of the words that an instruction writes. -/
def writes (s : Cpu) : Instr → List Word
  | .pushReg _ | .pushSeg _ | .pushImm _ | .pushfd => [s.below 1]
  | .pushad => [1, 2, 3, 4, 5, 6, 7, 8].map s.below
  | .store base disp _ => [s.reg base + disp]
  | .storeAbs a _ => [a]
  | _ => []

def advance (program : List Instr) (s : Cpu) : Option Cpu :=
  match s.place with
  | .inside i => program[i]?.map (exec i s)
  | .outside _ => none

/-! ## Interrupts -/

/-- Where the instructions of a routine lie, and what an interrupt may write: up to
`depth` bytes below the stack pointer, and the data of the handlers. -/
structure Handlers where
  code : Nat → Word
  depth : Nat
  owned : Word → Prop
  frame_fits : 12 ≤ depth

def Handlers.Scratch (h : Handlers) (esp b : Word) : Prop :=
  (1 ≤ (esp - b).toNat ∧ (esp - b).toNat ≤ h.depth) ∨ h.owned b

structure Interrupted (h : Handlers) (i : Nat) (s t : Cpu) : Prop where
  enabled : interruptFlag s.eflags = true
  inside : s.place = .inside i
  place_eq : t.place = s.place
  reg_eq : t.reg = s.reg
  seg_eq : t.seg = s.seg
  cs_eq : t.cs = s.cs
  eflags_eq : t.eflags = s.eflags
  pushed_eflags : t.mem.readWord (s.reg .esp - 4) = s.eflags
  pushed_cs : t.mem.readWord (s.reg .esp - 8) = s.cs.setWidth 32
  pushed_eip : t.mem.readWord (s.reg .esp - 12) = h.code i
  kept : ∀ b, ¬ h.Scratch (s.reg .esp) b → t.mem b = s.mem b

inductive Event where
  | instr
  | irq
  deriving DecidableEq

inductive Step (program : List Instr) (h : Handlers) : Cpu → Event → Cpu → Prop
  | instr {s t} (hrun : advance program s = some t) : Step program h s .instr t
  | irq {s t i} (hirq : Interrupted h i s t) : Step program h s .irq t

/-- The interrupt that writes its return frame and nothing else. -/
def interrupt (h : Handlers) (i : Nat) (s : Cpu) : Cpu :=
  { s with mem := ((s.mem.writeWord (s.reg .esp - 4) s.eflags).writeWord (s.reg .esp - 8)
      (s.cs.setWidth 32)).writeWord (s.reg .esp - 12) (h.code i) }

/-! ## What instructions and interrupts do to registers -/

section

variable {s t : Cpu} {h : Handlers} {i : Nat} {e e' e'' : Word}

theorem SameControl.trans (h₁ : SameControl e e') (h₂ : SameControl e' e'') : SameControl e e'' :=
  Eq.trans h₁ h₂

theorem getLsbD_withStatus (status : Word) {j : Nat} (hj : j < 32) :
    (withStatus e status).getLsbD j =
      if statusMask.getLsbD j then status.getLsbD j else e.getLsbD j := by
  rw [withStatus, BitVec.getLsbD_or, BitVec.getLsbD_and, BitVec.getLsbD_and, BitVec.getLsbD_not]
  cases statusMask.getLsbD j <;> simp [hj]

theorem sameControl_withStatus (status : Word) : SameControl (withStatus e status) e := by
  apply BitVec.eq_of_getLsbD_eq
  intro j hj
  rw [BitVec.getLsbD_and, BitVec.getLsbD_and, getLsbD_withStatus status hj, BitVec.getLsbD_not]
  cases statusMask.getLsbD j <;> simp

theorem interruptFlag_of_sameControl (hsame : SameControl e e') :
    interruptFlag e = interruptFlag e' := by
  have hbit := congrArg (BitVec.getLsbD · 9) hsame
  have hmask : (~~~statusMask).getLsbD 9 = true := by decide
  rw [interruptFlag, interruptFlag]
  simpa only [BitVec.getLsbD_and, hmask, Bool.and_true] using hbit

theorem zeroFlag_subStatus (a b : Word) :
    zeroFlag (withStatus e (subStatus a b)) = decide (a = b) := by
  have hbit : ∀ j c, j < 32 → (flagBit j c).getLsbD 6 = (decide (j = 6) && c) := by
    intro j c hj
    have hone : ∀ j < 32, (1#32 <<< j).getLsbD 6 = decide (j = 6) := by decide
    cases c
    · simp [flagBit]
    · simpa [flagBit] using hone j hj
  have hsub : a - b = 0 ↔ a = b := by
    constructor <;> intro heq <;> bv_omega
  rw [zeroFlag, getLsbD_withStatus _ (by decide), if_pos (by decide), subStatus, resultStatus]
  simp only [BitVec.getLsbD_or, hbit 0 _ (by decide), hbit 2 _ (by decide), hbit 4 _ (by decide),
    hbit 6 _ (by decide), hbit 7 _ (by decide), hbit 11 _ (by decide), hsub]
  simp

section

variable (s : Cpu) (a v : Word) (i k : Nat)

@[simp] theorem Cpu.reg_goto : (s.goto i).reg = s.reg := rfl
@[simp] theorem Cpu.seg_goto : (s.goto i).seg = s.seg := rfl
@[simp] theorem Cpu.mem_goto : (s.goto i).mem = s.mem := rfl

@[simp] theorem Cpu.mem_write : (s.write a v).mem = s.mem.writeWord a v := rfl

@[simp] theorem Cpu.seg_drop : (s.drop k).seg = s.seg := rfl

end

@[simp] theorem Cpu.reg_setReg (r r' : Reg) (v : Word) :
    (s.setReg r v).reg r' = if r' = r then v else s.reg r' := Function.update_apply ..

@[simp] theorem Cpu.seg_setSeg (r r' : Seg) (v : Selector) :
    (s.setSeg r v).seg r' = if r' = r then v else s.seg r' := Function.update_apply ..

theorem Cpu.push_keeps (s : Cpu) (v : Word) {b : Word} (hb : 4 ≤ (b - s.below 1).toNat) :
    (s.push v).mem b = s.mem b := Memory.writeWord_apply_of_le hb

/-- The slot of a selector holds it in its lower half. -/
theorem Cpu.pushSelector_eq (s : Cpu) (v : Selector) :
    ∃ w : Word, s.pushSelector v = s.push w ∧ w.setWidth 16 = v := by
  refine ⟨(s.mem.readWord (s.reg .esp - 4)).extractLsb' 16 16 ++ v, ?_, ?_⟩
  · rw [pushSelector, Memory.writeHalf_eq, push, write]
    rfl
  · apply BitVec.eq_of_getLsbD_eq
    intro i hi
    rw [BitVec.getLsbD_setWidth, BitVec.getLsbD_append, if_pos hi]
    simp [hi]

theorem Cpu.foldl_push_keeps (vs : List Word) {b : Word}
    (hb : ∀ k, 1 ≤ k → k ≤ vs.length → 4 ≤ (b - s.below k).toNat) :
    (vs.foldl push s).mem b = s.mem b := by
  induction vs generalizing s with
  | nil => rfl
  | cons v vs ih =>
      have hbelow : ∀ k, (s.push v).below k = s.below (k + 1) := by
        intro k
        have hesp : (s.push v).reg .esp = s.reg .esp - 4 := rfl
        rw [below, below, hesp, BitVec.ofNat_add, BitVec.mul_add]
        bv_omega
      rw [List.length_cons] at hb
      rw [List.foldl_cons, ih fun k _ hk => ?_, push_keeps s v (hb 1 (by decide) (by omega))]
      rw [hbelow]
      exact hb _ (by omega) (by omega)

/-- An instruction changes no byte outside the words that it writes. -/
theorem exec_keeps {ins : Instr} {b : Word} (hb : ∀ a ∈ writes s ins, 4 ≤ (b - a).toNat) :
    (exec i s ins).mem b = s.mem b := by
  cases ins with
  | je target =>
      rw [exec]
      split <;> rfl
  | pushReg r => exact s.push_keeps _ (hb _ (List.mem_singleton_self _))
  | pushSeg r =>
      obtain ⟨w, hw, -⟩ := s.pushSelector_eq (s.seg r)
      rw [exec, hw]
      exact s.push_keeps _ (hb _ (List.mem_singleton_self _))
  | pushImm v => exact s.push_keeps _ (hb _ (List.mem_singleton_self _))
  | pushfd => exact s.push_keeps _ (hb _ (List.mem_singleton_self _))
  | pushad =>
      rw [exec, Cpu.mem_goto, Cpu.pushad]
      refine Cpu.foldl_push_keeps _ fun k hk hle => hb _ (List.mem_map_of_mem ?_)
      simp only [List.length_cons, List.length_nil] at hle
      simp only [List.mem_cons, List.not_mem_nil, or_false]
      omega
  | store base disp r => exact Memory.writeWord_apply_of_le (hb _ (List.mem_singleton_self _))
  | storeAbs a r => exact Memory.writeWord_apply_of_le (hb _ (List.mem_singleton_self _))
  | _ => rfl

theorem interrupted_interrupt (henabled : interruptFlag s.eflags = true)
    (hplace : s.place = .inside i) : Interrupted h i s (interrupt h i s) := by
  have hfit := h.frame_fits
  have h84 : Memory.Apart (s.reg .esp - 8) (s.reg .esp - 4) := by
    constructor <;> bv_omega
  have h124 : Memory.Apart (s.reg .esp - 12) (s.reg .esp - 4) := by
    constructor <;> bv_omega
  have h128 : Memory.Apart (s.reg .esp - 12) (s.reg .esp - 8) := by
    constructor <;> bv_omega
  refine ⟨henabled, hplace, rfl, rfl, rfl, rfl, rfl, ?_, ?_, ?_, fun b hb => ?_⟩
  · rw [interrupt, Memory.readWord_writeWord_apart h124, Memory.readWord_writeWord_apart h84,
      Memory.readWord_writeWord_same]
  · rw [interrupt, Memory.readWord_writeWord_apart h128, Memory.readWord_writeWord_same]
  · exact Memory.readWord_writeWord_same ..
  · have hout : ¬ (1 ≤ (s.reg .esp - b).toNat ∧ (s.reg .esp - b).toNat ≤ h.depth) := fun hc =>
      hb (.inl hc)
    unfold interrupt
    dsimp only
    rw [Memory.writeWord_apply_of_le (by bv_omega), Memory.writeWord_apply_of_le (by bv_omega),
      Memory.writeWord_apply_of_le (by bv_omega)]

end

end TeachingKernel.X86
