import TeachingKernel.Lib.Runs
import TeachingKernel.Lib.StackSlots

/-!
# Routines that call functions

A routine of the fragment with moves, jumps and calls of compiled functions. A call is one
step, of which only the calling convention is known: the function comes back with its
saved registers, and has written below the return address, to its argument or to its own
data.
-/

namespace TeachingKernel.X86

inductive Line where
  | instr (ins : Instr)
  | jmp (target : Nat)
  | movReg (r source : Reg)
  | movImm (r : Reg) (v : Word)
  | popReg (r : Reg)
  | callReg (r : Reg)

def execLine (i : Nat) (s : Cpu) : Line → Option Cpu
  | .instr ins => some (exec i s ins)
  | .jmp target => some (s.goto target)
  | .movReg r source => some ((s.setReg r (s.reg source)).goto (i + 1))
  | .movImm r v => some ((s.setReg r v).goto (i + 1))
  | .popReg r => some (((s.drop 1).setReg r (s.peek 0)).goto (i + 1))
  | .callReg _ => none

inductive LineEvent where
  | line
  | call (a : Word)
  | irq
  deriving DecidableEq

/-- One line, one whole call, or an interrupt in front of a line. `callee a s t`: the
function at `a` starts in `s`, its return address on the stack, and has returned in `t`. -/
inductive LineStep (program : List Line) (code : Nat → Word) (callee : Word → Cpu → Cpu → Prop)
    (h : Handlers) : Cpu → LineEvent → Cpu → Prop
  | line {s t i l} (hplace : s.place = .inside i) (hline : program[i]? = some l)
      (hexec : execLine i s l = some t) : LineStep program code callee h s .line t
  | call {s t i r} (hplace : s.place = .inside i) (hline : program[i]? = some (.callReg r))
      (hcall : callee (s.reg r) (s.push (code (i + 1))) t) :
      LineStep program code callee h s (.call (s.reg r)) (t.goto (i + 1))
  | irq {s t i} (hirq : Interrupted h i s t) : LineStep program code callee h s .irq t

/-- The bytes that a function with one argument may write: `depth` bytes below its return
address, the two words, and its own data. -/
def CalleeScratch (depth : Nat) (owned : Word → Prop) (esp b : Word) : Prop :=
  (1 ≤ (esp + 8 - b).toNat ∧ (esp + 8 - b).toNat ≤ depth + 8) ∨ owned b

structure Convention (depth : Nat) (owned : Word → Prop) (s t : Cpu) : Prop where
  esp : t.reg .esp = s.reg .esp + 4
  ebx : t.reg .ebx = s.reg .ebx
  ebp : t.reg .ebp = s.reg .ebp
  esi : t.reg .esi = s.reg .esi
  edi : t.reg .edi = s.reg .edi
  seg : t.seg = s.seg
  cs : t.cs = s.cs
  interruptFlag : interruptFlag t.eflags = interruptFlag s.eflags
  kept : ∀ b, ¬ CalleeScratch depth owned (s.reg .esp) b → t.mem b = s.mem b

section

variable {program : List Line} {code : Nat → Word} {callee : Word → Cpu → Cpu → Prop}
  {h : Handlers} {s t : Cpu} {e : LineEvent} {i j k n depth : Nat} {owned : Word → Prop}
  {top : Word}

theorem LineStep.eq_of_line {l : Line} {u : Cpu} (hstep : LineStep program code callee h s e t)
    (hplace : s.place = .inside i) (hline : program[i]? = some l) (hexec : execLine i s l = some u)
    (hmasked : interruptFlag s.eflags = false) : e = .line ∧ t = u := by
  cases hstep with
  | line hplace' hline' hexec' =>
      cases hplace.symm.trans hplace'
      cases hline.symm.trans hline'
      exact ⟨rfl, Option.some.inj (hexec'.symm.trans hexec)⟩
  | call hplace' hline' hcall =>
      cases hplace.symm.trans hplace'
      cases hline.symm.trans hline'
      cases hexec
  | irq hirq => cases hmasked.symm.trans hirq.enabled

theorem LineStep.of_call {r : Reg} (hstep : LineStep program code callee h s e t)
    (hplace : s.place = .inside i) (hline : program[i]? = some (.callReg r))
    (hmasked : interruptFlag s.eflags = false) :
    e = .call (s.reg r) ∧ ∃ u, callee (s.reg r) (s.push (code (i + 1))) u ∧ t = u.goto (i + 1) := by
  cases hstep with
  | line hplace' hline' hexec' =>
      cases hplace.symm.trans hplace'
      cases hline.symm.trans hline'
      cases hexec'
  | call hplace' hline' hcall =>
      cases hplace.symm.trans hplace'
      cases hline.symm.trans hline'
      exact ⟨rfl, _, hcall, rfl⟩
  | irq hirq => cases hmasked.symm.trans hirq.enabled

theorem LineStep.false_of_outside {a : Word} (hstep : LineStep program code callee h s e t)
    (hplace : s.place = .outside a) : False := by
  cases hstep with
  | line hplace' => cases hplace.symm.trans hplace'
  | call hplace' => cases hplace.symm.trans hplace'
  | irq hirq => cases hplace.symm.trans hirq.inside

theorem scratch_of_calleeScratch {b : Word} (hn : 1 ≤ n) (hesp : s.reg .esp = stackSlot top (n + 1))
    (hdepth : 4 * (n + 1) + depth ≤ h.depth) (hfits : h.depth < 2 ^ 32)
    (hb : CalleeScratch depth h.owned (s.reg .esp) b) : h.Scratch top b := by
  refine hb.imp_left fun hstack => ?_
  have hmul := toNat_four_mul (j := n + 1) (by omega)
  rw [hesp] at hstack
  unfold stackSlot at hstack
  generalize (4 * BitVec.ofNat 32 (n + 1) : Word) = x at hmul hstack
  bv_omega

/-- A function keeps the slots above its argument. -/
theorem Convention.stackWord_eq (hc : Convention depth h.owned s t)
    (hesp : s.reg .esp = stackSlot top (n + 1)) (hdepth : 4 * (n + 1) + depth ≤ h.depth)
    (hfits : h.depth < 2 ^ 32)
    (hfree : ∀ b, 1 ≤ (top - b).toNat → (top - b).toNat ≤ h.depth → ¬ h.owned b)
    (hj : 1 ≤ j) (hlt : j < n) : stackWord t.mem top j = stackWord s.mem top j := by
  have hmul := toNat_four_mul (j := n + 1) (by omega)
  have hmul' := toNat_four_mul (j := j) (by omega)
  refine Memory.readWord_congr fun b hb => hc.kept b ?_
  unfold stackSlot at hb
  generalize (4 * BitVec.ofNat 32 j : Word) = y at hmul' hb
  rintro (hstack | howned)
  · rw [hesp] at hstack
    unfold stackSlot at hstack
    generalize (4 * BitVec.ofNat 32 (n + 1) : Word) = x at hmul hstack
    bv_omega
  · exact hfree b (by bv_omega) (by bv_omega) howned

end

end TeachingKernel.X86
