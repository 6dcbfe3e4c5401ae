import Mathlib.Tactic.IntervalCases
import TeachingKernel.Interrupts.Stubs

/-!
# The stubs are transparent

In front of every line of a stub it is known which words are pushed and where the stack
pointer is. So the dispatcher finds the registers of the interrupted code in the frame,
and the interrupt return goes on with them. No interrupt is taken on the way, since the
gates turn interrupts off and the dispatcher leaves them off.
-/

namespace TeachingKernel.Interrupts

open X86 Runs Switch

/-- Room for the frame and the dispatcher on the interrupted stack, and a dispatcher that
follows the calling convention. -/
structure Setting (h : Handlers) (callee : Word → Cpu → Cpu → Prop) (s₀ : Cpu) (words : List Word)
    (dispatch : Word) (depth : Nat) : Prop where
  lower : 5 ≤ words.length
  upper : words.length ≤ 6
  depth_fits : 4 * (words.length + 14) + depth ≤ h.depth
  fits : h.depth < 2 ^ 32
  free : ∀ b, 1 ≤ (s₀.reg .esp - b).toNat → (s₀.reg .esp - b).toNat ≤ h.depth → ¬ h.owned b
  convention : ∀ s t, callee dispatch s t → Convention depth h.owned s t

/-- Where the processor is on its way through the stub, in front of a line of it or
behind the last one, after the words `pushed` by the gate. -/
inductive Stage (h : Handlers) (s₀ : Cpu) (pushed bytes : List Word) (dispatch : Word) :
    Nat → Cpu → Prop
  | numbers {s} (i : Nat) (hi : i ≤ bytes.length) (place : s.place = .inside i)
      (masked : interruptFlag s.eflags = false)
      (filled : Filled h s₀ (pushed ++ bytes) (pushed.length + i) s) :
      Stage h s₀ pushed bytes dispatch i s
  | save {s} (place : s.place = .inside (bytes.length + 1))
      (masked : interruptFlag s.eflags = false)
      (filled : Filled h s₀ (pushed ++ bytes) (pushed ++ bytes).length s) :
      Stage h s₀ pushed bytes dispatch (bytes.length + 1) s
  | segments {s} (i : Nat) (hi : i ≤ 4) (place : s.place = .inside (bytes.length + 1 + (1 + i)))
      (masked : interruptFlag s.eflags = false)
      (filled : Filled h s₀ (pushed ++ bytes) ((pushed ++ bytes).length + 8 + i) s) :
      Stage h s₀ pushed bytes dispatch (bytes.length + 1 + (1 + i)) s
  | pointer {s} (place : s.place = .inside (bytes.length + 1 + 6))
      (masked : interruptFlag s.eflags = false)
      (esp : s.reg .esp = stackSlot (s₀.reg .esp) ((pushed ++ bytes).length + 12))
      (framed : Framed h s₀ (pushed ++ bytes) ((pushed ++ bytes).length + 12) s.mem)
      (eax : s.reg .eax = stackSlot (s₀.reg .esp) ((pushed ++ bytes).length + 12)) :
      Stage h s₀ pushed bytes dispatch (bytes.length + 1 + 6) s
  | argument {s} (place : s.place = .inside (bytes.length + 1 + 7))
      (masked : interruptFlag s.eflags = false)
      (esp : s.reg .esp = stackSlot (s₀.reg .esp) ((pushed ++ bytes).length + 13))
      (framed : Framed h s₀ (pushed ++ bytes) ((pushed ++ bytes).length + 13) s.mem) :
      Stage h s₀ pushed bytes dispatch (bytes.length + 1 + 7) s
  | target {s} (place : s.place = .inside (bytes.length + 1 + 8))
      (masked : interruptFlag s.eflags = false)
      (esp : s.reg .esp = stackSlot (s₀.reg .esp) ((pushed ++ bytes).length + 13))
      (framed : Framed h s₀ (pushed ++ bytes) ((pushed ++ bytes).length + 13) s.mem)
      (eax : s.reg .eax = dispatch) : Stage h s₀ pushed bytes dispatch (bytes.length + 1 + 8) s
  | returned {s} (place : s.place = .inside (bytes.length + 1 + 9))
      (masked : interruptFlag s.eflags = false)
      (esp : s.reg .esp = stackSlot (s₀.reg .esp) ((pushed ++ bytes).length + 13))
      (framed : Framed h s₀ (pushed ++ bytes) ((pushed ++ bytes).length + 12) s.mem) :
      Stage h s₀ pushed bytes dispatch (bytes.length + 1 + 9) s
  | restoring {s} (i : Nat) (hi : i < 7) (masked : interruptFlag s.eflags = false)
      (framed : Framed h s₀ (pushed ++ bytes) ((pushed ++ bytes).length + 12) s.mem)
      (restoring : Restoring (bytes.length + 1 + 10) (frameTop s₀ (pushed ++ bytes))
        (frameContext s₀ (pushed ++ bytes)) i s) :
      Stage h s₀ pushed bytes dispatch (bytes.length + 1 + 10 + i) s
  | left {s}
      (resumed : Resumed (frameTop s₀ (pushed ++ bytes)) (frameContext s₀ (pushed ++ bytes)) s)
      (framed : Framed h s₀ (pushed ++ bytes) ((pushed ++ bytes).length + 12) s.mem) :
      Stage h s₀ pushed bytes dispatch (bytes.length + 1 + 17) s

section

variable {h : Handlers} {callee : Word → Cpu → Cpu → Prop} {code : Nat → Word} {s₀ s t : Cpu}
  {pushed bytes : List Word} {dispatch : Word} {depth i n : Nat} {e : LineEvent} {v : Word}

theorem stage_enter (hset : Setting h callee s₀ (pushed ++ bytes) dispatch depth)
    (cs : X86.Selector) : Stage h s₀ pushed bytes dispatch 0 (enter s₀ pushed cs true) := by
  have hlen : (pushed ++ bytes).length = pushed.length + bytes.length := List.length_append
  have hlower := hset.lower
  have hupper := hset.upper
  have hdepth := hset.depth_fits
  have hstart : Filled h s₀ (pushed ++ bytes) 0 s₀ :=
    ⟨(stackSlot_zero _).symm, ⟨fun j hj => absurd hj (Nat.not_lt_zero j), fun _ _ => rfl⟩,
      fun _ _ => rfl, rfl⟩
  have hpushed := hstart.foldl_push pushed (fun j hj => by
    rw [Nat.zero_add, frame_words (by omega), List.getD_append _ _ _ _ hj]) (by omega) hset.fits
    (by omega)
  rw [Nat.zero_add] at hpushed
  refine .numbers 0 (Nat.zero_le _) rfl ?_ ⟨hpushed.esp, hpushed.framed, hpushed.reg, hpushed.seg⟩
  rw [interruptFlag, enter, BitVec.getLsbD_and, BitVec.getLsbD_not]
  have hmask : (gateMask true).getLsbD 9 = true := by decide
  rw [hmask]
  simp

/-! ## Single lines -/

theorem Filled.goto {words : List Word} (hf : Filled h s₀ words n s) (i : Nat) :
    Filled h s₀ words n (s.goto i) := ⟨hf.esp, hf.framed, hf.reg, hf.seg⟩

theorem eflags_foldl_push (vs : List Word) (s : Cpu) : (vs.foldl Cpu.push s).eflags = s.eflags := by
  induction vs generalizing s with
  | nil => rfl
  | cons v vs ih => exact ih (s.push v)

theorem Filled.pushad {words : List Word} (hf : Filled h s₀ words words.length s)
    (hdepth : 4 * (words.length + 8) ≤ h.depth) (hfits : h.depth < 2 ^ 32)
    (hupper : words.length ≤ 6) :
    Filled h s₀ words (words.length + 8) s.pushad := by
  refine hf.foldl_push [s.reg .eax, s.reg .ecx, s.reg .edx, s.reg .ebx, s.reg .esp, s.reg .ebp,
    s.reg .esi, s.reg .edi] (fun j hj => ?_) hdepth hfits ?_
  · have hlt : j < 8 := hj
    rw [frame_registers (by omega)]
    interval_cases j
    · exact hf.reg .eax (by decide)
    · exact hf.reg .ecx (by decide)
    · exact hf.reg .edx (by decide)
    · exact hf.reg .ebx (by decide)
    · exact hf.esp
    · exact hf.reg .ebp (by decide)
    · exact hf.reg .esi (by decide)
    · exact hf.reg .edi (by decide)
  · exact Nat.lt_of_le_of_lt (Nat.add_le_add_right hupper 8) (by decide)

theorem numbers_step (hset : Setting h callee s₀ (pushed ++ bytes) dispatch depth)
    (hi : i ≤ bytes.length) (hplace : s.place = .inside i)
    (hmasked : interruptFlag s.eflags = false)
    (hfilled : Filled h s₀ (pushed ++ bytes) (pushed.length + i) s)
    (hstep : LineStep (stub bytes dispatch) code callee h s e t) :
    e = .line ∧ Stage h s₀ pushed bytes dispatch (i + 1) t := by
  have hlen : (pushed ++ bytes).length = pushed.length + bytes.length := List.length_append
  have hupper := hset.upper
  have hdepth := hset.depth_fits
  rcases Nat.lt_or_ge i bytes.length with hlt | hge
  · obtain ⟨rfl, rfl⟩ := hstep.eq_of_line hplace (stub_bytes hlt) rfl hmasked
    have hv : bytes.getD i 0 = (frameWords s₀ (pushed ++ bytes)).getD (pushed.length + i) 0 := by
      rw [frame_words (by omega), List.getD_append_right _ _ _ _ (Nat.le_add_right ..),
        Nat.add_sub_cancel_left]
    exact ⟨rfl, .numbers (i + 1) hlt rfl hmasked
      ((hfilled.push (sameSlot_of_eq hv) (by omega) hset.fits (by omega)).goto _)⟩
  · obtain rfl : i = bytes.length := by omega
    obtain ⟨rfl, rfl⟩ := hstep.eq_of_line hplace stub_jmp rfl hmasked
    rw [← hlen] at hfilled
    exact ⟨rfl, .save rfl hmasked (hfilled.goto _)⟩

theorem save_step (hset : Setting h callee s₀ (pushed ++ bytes) dispatch depth)
    (hplace : s.place = .inside (bytes.length + 1)) (hmasked : interruptFlag s.eflags = false)
    (hfilled : Filled h s₀ (pushed ++ bytes) (pushed ++ bytes).length s)
    (hstep : LineStep (stub bytes dispatch) code callee h s e t) :
    e = .line ∧ Stage h s₀ pushed bytes dispatch (bytes.length + 1 + 1) t := by
  have hdepth := hset.depth_fits
  have hline : (stub bytes dispatch)[bytes.length + 1]? = some (.instr .pushad) :=
    stub_common (j := 0)
  have hnext := (hfilled.pushad (by omega) hset.fits hset.upper).goto (bytes.length + 1 + 1)
  have hmasked' : interruptFlag (s.pushad.goto (bytes.length + 1 + 1)).eflags = false := by
    rw [show (s.pushad.goto (bytes.length + 1 + 1)).eflags = s.eflags from eflags_foldl_push _ s]
    exact hmasked
  obtain ⟨he, ht⟩ := hstep.eq_of_line (u := s.pushad.goto (bytes.length + 1 + 1)) hplace hline rfl
    hmasked
  rw [he, ht]
  exact ⟨rfl, .segments 0 (by decide) rfl hmasked' hnext⟩

theorem segments_step (hset : Setting h callee s₀ (pushed ++ bytes) dispatch depth) (hi : i ≤ 4)
    (hplace : s.place = .inside (bytes.length + 1 + (1 + i)))
    (hmasked : interruptFlag s.eflags = false)
    (hfilled : Filled h s₀ (pushed ++ bytes) ((pushed ++ bytes).length + 8 + i) s)
    (hstep : LineStep (stub bytes dispatch) code callee h s e t) :
    e = .line ∧ Stage h s₀ pushed bytes dispatch (bytes.length + 1 + (1 + i) + 1) t := by
  have hdepth := hset.depth_fits
  have hupper := hset.upper
  have hpush : ∀ r : Seg, i < 4 → (registerWords s₀ (pushed ++ bytes).length).getD (8 + i) 0 =
      (s₀.seg r).setWidth 32 → Filled h s₀ (pushed ++ bytes)
        ((pushed ++ bytes).length + 8 + (i + 1)) (s.pushSelector (s.seg r)) := by
    intro r hlt hword
    obtain ⟨w, hw, hlow⟩ := s.pushSelector_eq (s.seg r)
    rw [hw]
    refine hfilled.push ?_ (by omega) hset.fits (by omega)
    rw [SameSlot, if_pos (by omega), hlow, hfilled.seg, Nat.add_assoc,
      frame_registers (by omega), hword, selector_setWidth]
  have hline : ∀ l u, (commonStub dispatch)[1 + i]? = some l →
      execLine (bytes.length + 1 + (1 + i)) s l = some u → e = .line ∧ t = u := fun l u hl hu =>
    hstep.eq_of_line hplace (stub_common.trans hl) hu hmasked
  have hnext : ∀ r : Seg, i < 4 → (registerWords s₀ (pushed ++ bytes).length).getD (8 + i) 0 =
      (s₀.seg r).setWidth 32 → (commonStub dispatch)[1 + i]? = some (.instr (.pushSeg r)) →
        e = .line ∧ Stage h s₀ pushed bytes dispatch (bytes.length + 1 + (1 + i) + 1) t := by
    intro r hlt hword hl
    obtain ⟨rfl, rfl⟩ := hline _ _ hl rfl
    exact ⟨rfl, .segments (i + 1) (by omega) rfl hmasked ((hpush r hlt hword).goto _)⟩
  interval_cases i
  · exact hnext .ds (by decide) rfl rfl
  · exact hnext .es (by decide) rfl rfl
  · exact hnext .fs (by decide) rfl rfl
  · exact hnext .gs (by decide) rfl rfl
  · obtain ⟨rfl, rfl⟩ := hline _ _ rfl rfl
    refine ⟨rfl, .pointer rfl hmasked ?_ hfilled.framed ?_⟩
    · rw [Cpu.reg_goto, Cpu.reg_setReg, if_neg (by decide)]
      exact hfilled.esp
    · rw [Cpu.reg_goto, Cpu.reg_setReg, if_pos rfl]
      exact hfilled.esp

theorem pointer_step (hset : Setting h callee s₀ (pushed ++ bytes) dispatch depth)
    (hplace : s.place = .inside (bytes.length + 1 + 6)) (hmasked : interruptFlag s.eflags = false)
    (hesp : s.reg .esp = stackSlot (s₀.reg .esp) ((pushed ++ bytes).length + 12))
    (hframed : Framed h s₀ (pushed ++ bytes) ((pushed ++ bytes).length + 12) s.mem)
    (heax : s.reg .eax = stackSlot (s₀.reg .esp) ((pushed ++ bytes).length + 12))
    (hstep : LineStep (stub bytes dispatch) code callee h s e t) :
    e = .line ∧ Stage h s₀ pushed bytes dispatch (bytes.length + 1 + 6 + 1) t := by
  have hdepth := hset.depth_fits
  have hupper := hset.upper
  have hline : (stub bytes dispatch)[bytes.length + 1 + 6]? = some (.instr (.pushReg .eax)) :=
    stub_common
  obtain ⟨rfl, rfl⟩ := hstep.eq_of_line hplace hline rfl hmasked
  refine ⟨rfl, .argument rfl hmasked ?_ ?_⟩
  · exact (reg_push (v := s.reg .eax) hesp .esp).trans (if_pos rfl)
  · exact hframed.push hesp (sameSlot_of_eq (heax.trans frame_pointer.symm)) (by omega)
      hset.fits (by omega)

theorem argument_step (hplace : s.place = .inside (bytes.length + 1 + 7))
    (hmasked : interruptFlag s.eflags = false)
    (hesp : s.reg .esp = stackSlot (s₀.reg .esp) ((pushed ++ bytes).length + 13))
    (hframed : Framed h s₀ (pushed ++ bytes) ((pushed ++ bytes).length + 13) s.mem)
    (hstep : LineStep (stub bytes dispatch) code callee h s e t) :
    e = .line ∧ Stage h s₀ pushed bytes dispatch (bytes.length + 1 + 7 + 1) t := by
  have hline : (stub bytes dispatch)[bytes.length + 1 + 7]? = some (.movImm .eax dispatch) :=
    stub_common
  obtain ⟨rfl, rfl⟩ := hstep.eq_of_line hplace hline rfl hmasked
  exact ⟨rfl, .target rfl hmasked hesp hframed rfl⟩

theorem target_step (hset : Setting h callee s₀ (pushed ++ bytes) dispatch depth)
    (hplace : s.place = .inside (bytes.length + 1 + 8)) (hmasked : interruptFlag s.eflags = false)
    (hesp : s.reg .esp = stackSlot (s₀.reg .esp) ((pushed ++ bytes).length + 13))
    (hframed : Framed h s₀ (pushed ++ bytes) ((pushed ++ bytes).length + 13) s.mem)
    (heax : s.reg .eax = dispatch) (hstep : LineStep (stub bytes dispatch) code callee h s e t) :
    e = .call dispatch ∧ (readRegs s.mem (s.mem.readWord (s.reg .esp))).pushed =
      frameRegs s₀ (pushed ++ bytes) ∧
      Stage h s₀ pushed bytes dispatch (bytes.length + 1 + 8 + 1) t := by
  have hdepth := hset.depth_fits
  have hlower := hset.lower
  have hupper := hset.upper
  have hline : (stub bytes dispatch)[bytes.length + 1 + 8]? = some (.callReg .eax) := stub_common
  obtain ⟨he, u, hcall, rfl⟩ := hstep.of_call hplace hline hmasked
  rw [heax] at he hcall
  have hc := hset.convention _ _ hcall
  have hentry : (s.push (code (bytes.length + 1 + 8 + 1))).reg .esp =
      stackSlot (s₀.reg .esp) ((pushed ++ bytes).length + 13 + 1) :=
    (reg_push hesp .esp).trans (if_pos rfl)
  refine ⟨he, ?_, .returned rfl ?_ ?_ ⟨fun j hj => ?_, fun b hb => ?_⟩⟩
  · have hpointer : s.mem.readWord (s.reg .esp) =
        stackSlot (s₀.reg .esp) ((pushed ++ bytes).length + 12) := by
      rw [hesp]
      exact (hframed.word (by omega) (by omega)).trans frame_pointer
    rw [hpointer]
    exact Framed.readRegs ⟨fun j hj => hframed.slots j (by omega), hframed.kept⟩ hlower
  · exact hc.interruptFlag.trans hmasked
  · rw [Cpu.reg_goto, hc.esp, hentry, stackSlot_succ, BitVec.sub_add_cancel]
  · rw [Cpu.mem_goto, hc.stackWord_eq hentry (by omega) hset.fits hset.free (by omega) (by omega),
      stackWord_push hesp (by omega) (by omega), if_neg (by omega)]
    exact hframed.slots j (by omega)
  · have hslot := slot_of_not_scratch (n := (pushed ++ bytes).length + 13 + 1) hb (by omega)
      (by omega) hset.fits
    have hpush := Cpu.push_keeps s (code (bytes.length + 1 + 8 + 1)) (b := b) (by
      rw [Cpu.below, hesp, stackSlot_sub]
      exact hslot)
    rw [Cpu.mem_goto, hc.kept b fun hscratch => hb (scratch_of_calleeScratch (by omega) hentry
      (by omega) hset.fits hscratch), hpush]
    exact hframed.kept b hb

theorem returned_step (hset : Setting h callee s₀ (pushed ++ bytes) dispatch depth)
    (hplace : s.place = .inside (bytes.length + 1 + 9)) (hmasked : interruptFlag s.eflags = false)
    (hesp : s.reg .esp = stackSlot (s₀.reg .esp) ((pushed ++ bytes).length + 13))
    (hframed : Framed h s₀ (pushed ++ bytes) ((pushed ++ bytes).length + 12) s.mem)
    (hstep : LineStep (stub bytes dispatch) code callee h s e t) :
    e = .line ∧ Stage h s₀ pushed bytes dispatch (bytes.length + 1 + 9 + 1) t := by
  have hlower := hset.lower
  have hline : (stub bytes dispatch)[bytes.length + 1 + 9]? = some (.popReg .eax) := stub_common
  obtain ⟨rfl, rfl⟩ := hstep.eq_of_line hplace hline rfl hmasked
  refine ⟨rfl, .restoring 0 (by decide) hmasked hframed ⟨rfl, ?_, hframed.savedTo hlower,
    fun r _ hlt => ?_, fun r hlt => ?_⟩⟩
  · rw [Cpu.reg_goto, Cpu.reg_setReg, if_neg (by decide), frameTop, stackSlot_stackSlot,
      show (pushed ++ bytes).length - 5 + slotsLeft 0 = (pushed ++ bytes).length + 12 by
        rw [slotsLeft]
        omega]
    exact (reg_drop (j := (pushed ++ bytes).length + 12) hesp rfl .esp).trans (if_pos rfl)
  · have hslot := (regSlot_bounds r).2
    rw [slotsLeft] at hlt
    omega
  · have hslot := (segSlot_bounds r).2
    rw [slotsLeft] at hlt
    exact absurd hlt (Nat.not_lt.mpr hslot)

/-- The frame is popped, and the last line leaves. -/
theorem restoring_step (hi : i < 7) (hmasked : interruptFlag s.eflags = false)
    (hframed : Framed h s₀ (pushed ++ bytes) ((pushed ++ bytes).length + 12) s.mem)
    (hr : Restoring (bytes.length + 1 + 10) (frameTop s₀ (pushed ++ bytes))
      (frameContext s₀ (pushed ++ bytes)) i s)
    (hstep : LineStep (stub bytes dispatch) code callee h s e t) :
    e = .line ∧ Stage h s₀ pushed bytes dispatch (bytes.length + 1 + 10 + i + 1) t := by
  have hp := hr.popped
  have hline : ∀ ins, (restoreRegisters ++ [Instr.iret])[i]? = some ins →
      e = .line ∧ t = exec (bytes.length + 1 + 10 + i) s ins := by
    intro ins hins
    have hlookup : (stub bytes dispatch)[bytes.length + 1 + (10 + i)]? = some (.instr ins) := by
      rw [stub_common]
      interval_cases i <;> exact congrArg (Option.map Line.instr) hins
    rw [← Nat.add_assoc] at hlookup
    exact hstep.eq_of_line hr.place hlookup rfl hmasked
  interval_cases i
  · obtain ⟨rfl, rfl⟩ := hline _ rfl
    exact ⟨rfl, .restoring 1 (by decide) hmasked hframed ⟨rfl, hp.popSeg rfl _⟩⟩
  · obtain ⟨rfl, rfl⟩ := hline _ rfl
    exact ⟨rfl, .restoring 2 (by decide) hmasked hframed ⟨rfl, hp.popSeg rfl _⟩⟩
  · obtain ⟨rfl, rfl⟩ := hline _ rfl
    exact ⟨rfl, .restoring 3 (by decide) hmasked hframed ⟨rfl, hp.popSeg rfl _⟩⟩
  · obtain ⟨rfl, rfl⟩ := hline _ rfl
    exact ⟨rfl, .restoring 4 (by decide) hmasked hframed ⟨rfl, hp.popSeg rfl _⟩⟩
  · obtain ⟨rfl, rfl⟩ := hline _ rfl
    exact ⟨rfl, .restoring 5 (by decide) hmasked hframed ⟨rfl, hp.popad _⟩⟩
  · obtain ⟨rfl, rfl⟩ := hline _ rfl
    refine ⟨rfl, .restoring 6 (by decide) ?_ hframed ⟨rfl, hp.skip _⟩⟩
    exact (interruptFlag_of_sameControl (sameControl_withStatus _)).trans hmasked
  · obtain ⟨rfl, rfl⟩ := hline _ rfl
    exact ⟨rfl, .left (hp.iret _) hframed⟩

/-! ## Runs -/

/-- No interrupt is taken, and the only call is that of the dispatcher, whose argument
points to the given registers. -/
def CallsDispatcher (dispatch : Word) (regs : Regs) (s : Cpu) (e : LineEvent) : Prop :=
  e = .line ∨ e = .call dispatch ∧ (readRegs s.mem (s.mem.readWord (s.reg .esp))).pushed = regs

theorem Stage.step (hset : Setting h callee s₀ (pushed ++ bytes) dispatch depth)
    (hs : Stage h s₀ pushed bytes dispatch i s)
    (hstep : LineStep (stub bytes dispatch) code callee h s e t) :
    Stage h s₀ pushed bytes dispatch (i + 1) t ∧
      CallsDispatcher dispatch (frameRegs s₀ (pushed ++ bytes)) s e := by
  have hline : ∀ {n}, e = .line ∧ Stage h s₀ pushed bytes dispatch n t →
      Stage h s₀ pushed bytes dispatch n t ∧
        CallsDispatcher dispatch (frameRegs s₀ (pushed ++ bytes)) s e := fun hnext =>
    ⟨hnext.2, .inl hnext.1⟩
  cases hs with
  | numbers _ hi place masked filled => exact hline (numbers_step hset hi place masked filled hstep)
  | save place masked filled => exact hline (save_step hset place masked filled hstep)
  | segments j hi place masked filled =>
      exact hline (segments_step hset hi place masked filled hstep)
  | pointer place masked esp framed eax =>
      exact hline (pointer_step hset place masked esp framed eax hstep)
  | argument place masked esp framed => exact hline (argument_step place masked esp framed hstep)
  | target place masked esp framed eax =>
      obtain ⟨he, hregs, hnext⟩ := target_step hset place masked esp framed eax hstep
      exact ⟨hnext, .inr ⟨he, hregs⟩⟩
  | returned place masked esp framed =>
      exact hline (returned_step hset place masked esp framed hstep)
  | restoring j hi masked framed hr =>
      exact hline (restoring_step hi masked framed hr hstep)
  | left resumed framed => exact (hstep.false_of_outside resumed.place).elim

theorem Stage.place_eq (hs : Stage h s₀ pushed bytes dispatch i s) :
    (i < bytes.length + 18 ∧ s.place = .inside i) ∨ (i = bytes.length + 18 ∧
      Resumed (frameTop s₀ (pushed ++ bytes)) (frameContext s₀ (pushed ++ bytes)) s ∧
      Framed h s₀ (pushed ++ bytes) ((pushed ++ bytes).length + 12) s.mem) := by
  cases hs with
  | numbers _ hi place => exact .inl ⟨by omega, place⟩
  | save place => exact .inl ⟨by omega, place⟩
  | segments j hi place => exact .inl ⟨by omega, place⟩
  | pointer place => exact .inl ⟨by omega, place⟩
  | argument place => exact .inl ⟨by omega, place⟩
  | target place => exact .inl ⟨by omega, place⟩
  | returned place => exact .inl ⟨by omega, place⟩
  | restoring j hi masked framed hr => exact .inl ⟨by omega, hr.place⟩
  | left resumed framed => exact .inr ⟨by omega, resumed, framed⟩

/-- There is a line at every place of the stub, and it can be executed. -/
theorem exists_step (hplace : s.place = .inside i) (hi : i < bytes.length + 18)
    (htotal : ∀ a s, ∃ t, callee a s t) :
    ∃ e t, LineStep (stub bytes dispatch) code callee h s e t := by
  have hlen : (stub bytes dispatch).length = bytes.length + 18 := by
    rw [stub, List.length_append, List.length_append, List.length_map]
    rfl
  obtain ⟨l, hl⟩ : ∃ l, (stub bytes dispatch)[i]? = some l :=
    ⟨_, List.getElem?_eq_getElem (hlen ▸ hi)⟩
  cases l with
  | callReg r =>
      obtain ⟨t, ht⟩ := htotal (s.reg r) (s.push (code (i + 1)))
      exact ⟨_, _, .call hplace hl ht⟩
  | instr ins => exact ⟨_, _, .line hplace hl rfl⟩
  | jmp target => exact ⟨_, _, .line hplace hl rfl⟩
  | movReg r source => exact ⟨_, _, .line hplace hl rfl⟩
  | movImm r v => exact ⟨_, _, .line hplace hl rfl⟩
  | popReg r => exact ⟨_, _, .line hplace hl rfl⟩

theorem Stage.leaves (hset : Setting h callee s₀ (pushed ++ bytes) dispatch depth)
    (htotal : ∀ a s, ∃ t, callee a s t) (hs : Stage h s₀ pushed bytes dispatch i s) :
    ∃ run a, IsRun (LineStep (stub bytes dispatch) code callee h) s run ∧
      (last s run).place = .outside a := by
  obtain ⟨n, hn⟩ : ∃ n, n = bytes.length + 18 - i := ⟨_, rfl⟩
  induction n generalizing i s with
  | zero =>
      rcases hs.place_eq with ⟨hlt, -⟩ | ⟨-, hres, -⟩
      · omega
      · exact ⟨[], _, trivial, hres.place⟩
  | succ n ih =>
      rcases hs.place_eq with ⟨hlt, hplace⟩ | ⟨heq, -⟩
      · obtain ⟨e, t, hstep⟩ : ∃ e t, LineStep (stub bytes dispatch) code callee h s e t :=
          exists_step hplace hlt htotal
        obtain ⟨run, a, hrun, hleft⟩ := ih (hs.step hset hstep).1 (by omega)
        exact ⟨(e, t) :: run, a, ⟨hstep, hrun⟩, hleft⟩
      · omega

theorem Stage.call_of_eq (hset : Setting h callee s₀ (pushed ++ bytes) dispatch depth)
    (hs : Stage h s₀ pushed bytes dispatch i s) (hi : i = bytes.length + 9)
    (hstep : LineStep (stub bytes dispatch) code callee h s e t) : e = .call dispatch := by
  cases hs with
  | target place masked esp framed eax =>
      exact (target_step hset place masked esp framed eax hstep).1
  | _ => omega

/-- The line of the call is on every way out of the stub. -/
theorem Stage.calls {run : List (LineEvent × Cpu)} {a : Word}
    (hset : Setting h callee s₀ (pushed ++ bytes) dispatch depth)
    (hs : Stage h s₀ pushed bytes dispatch i s) (hi : i ≤ bytes.length + 9)
    (hrun : IsRun (LineStep (stub bytes dispatch) code callee h) s run)
    (ha : (last s run).place = .outside a) : ∃ t, (.call dispatch, t) ∈ run := by
  induction run generalizing i s with
  | nil =>
      rcases hs.place_eq with ⟨-, hplace⟩ | ⟨heq, -⟩
      · cases hplace.symm.trans ha
      · omega
  | cons x rest ih =>
      obtain ⟨e, t⟩ := x
      by_cases heq : i = bytes.length + 9
      · rw [hs.call_of_eq hset heq hrun.1]
        exact ⟨t, List.mem_cons_self⟩
      · obtain ⟨u, hu⟩ := ih (hs.step hset hrun.1).1 (by omega) hrun.2 ha
        exact ⟨u, List.mem_cons_of_mem _ hu⟩

theorem exists_call (hset : Setting h callee s₀ (pushed ++ bytes) dispatch depth)
    (htotal : ∀ a s, ∃ t, callee a s t) (cs : X86.Selector) :
    ∃ run t, IsRun (LineStep (stub bytes dispatch) code callee h) (enter s₀ pushed cs true)
      (run ++ [(.call dispatch, t)]) := by
  have hstart := stage_enter hset cs
  obtain ⟨run, a, hrun, hleft⟩ : ∃ run a, IsRun (LineStep (stub bytes dispatch) code callee h)
      (enter s₀ pushed cs true) run ∧ (last (enter s₀ pushed cs true) run).place = .outside a :=
    hstart.leaves hset htotal
  obtain ⟨t, ht⟩ := hstart.calls hset (Nat.zero_le _) hrun hleft
  obtain ⟨before, rest, rfl⟩ := List.append_of_mem ht
  rw [List.append_cons] at hrun
  exact ⟨before, t, hrun.left_of_append⟩

/-- From the gate on, a run of the stub calls the dispatcher with the frame, and where it
has left, it has done so and the context of the frame goes on. -/
theorem stub_run {run : List (LineEvent × Cpu)}
    (hset : Setting h callee s₀ (pushed ++ bytes) dispatch depth) (cs : X86.Selector)
    (hrun : IsRun (LineStep (stub bytes dispatch) code callee h) (enter s₀ pushed cs true) run) :
    EveryTransition (fun s e _ => CallsDispatcher dispatch (frameRegs s₀ (pushed ++ bytes)) s e)
      (enter s₀ pushed cs true) run ∧
    ∀ a, (last (enter s₀ pushed cs true) run).place = .outside a →
      (∃ t, (.call dispatch, t) ∈ run) ∧
      Resumed (frameTop s₀ (pushed ++ bytes)) (frameContext s₀ (pushed ++ bytes))
        (last (enter s₀ pushed cs true) run) ∧
      Framed h s₀ (pushed ++ bytes) ((pushed ++ bytes).length + 12)
        (last (enter s₀ pushed cs true) run).mem := by
  have hstart : ∃ i, Stage h s₀ pushed bytes dispatch i (enter s₀ pushed cs true) :=
    ⟨0, stage_enter hset cs⟩
  have hnext : ∀ s e t, (∃ i, Stage h s₀ pushed bytes dispatch i s) →
      LineStep (stub bytes dispatch) code callee h s e t →
      (∃ i, Stage h s₀ pushed bytes dispatch i t) ∧
        CallsDispatcher dispatch (frameRegs s₀ (pushed ++ bytes)) s e := by
    rintro s e t ⟨i, hi⟩ hstep
    obtain ⟨hi', hcalls⟩ := hi.step hset hstep
    exact ⟨⟨i + 1, hi'⟩, hcalls⟩
  refine ⟨everyTransition_of_step hnext hstart hrun, fun a ha => ?_⟩
  · obtain ⟨i, hi⟩ := last_of_everyState
      (everyState_of_step (fun s e t hs hstep => (hnext s e t hs hstep).1) hstart hrun)
    rcases hi.place_eq with ⟨-, hplace⟩ | ⟨-, hres, hframed⟩
    · cases hplace.symm.trans ha
    · exact ⟨(stage_enter hset cs).calls hset (Nat.zero_le _) hrun ha, hres, hframed⟩

end

/-! ## Interrupts -/

/-- The registers of code interrupted in state `s`, as a handler is to find them: of the
fields of the selectors only the lower halves count. -/
def interruptedRegs (s : Cpu) (intNo errCode eip eflags : Word) : Regs where
  gs := (s.seg .gs).setWidth 32
  fs := (s.seg .fs).setWidth 32
  es := (s.seg .es).setWidth 32
  ds := (s.seg .ds).setWidth 32
  edi := s.reg .edi
  esi := s.reg .esi
  ebp := s.reg .ebp
  esp := stackSlot (s.reg .esp) 5
  ebx := s.reg .ebx
  edx := s.reg .edx
  ecx := s.reg .ecx
  eax := s.reg .eax
  intNo := intNo
  errCode := errCode
  eip := eip
  cs := s.cs.setWidth 32
  eflags := eflags

/-- A dispatcher that follows the calling convention, and room for it and the frame on
the interrupted stack. -/
structure Dispatcher (h : Handlers) (callee : Word → Cpu → Cpu → Prop) (s : Cpu)
    (dispatch : Word) (depth : Nat) : Prop where
  returns : ∀ a s, ∃ t, callee a s t
  convention : ∀ s t, callee dispatch s t → Convention depth h.owned s t
  depth_fits : 80 + depth ≤ h.depth
  fits : h.depth < 2 ^ 32
  free : ∀ b, 1 ≤ (s.reg .esp - b).toNat → (s.reg .esp - b).toNat ≤ h.depth → ¬ h.owned b

section

variable {h : Handlers} {callee : Word → Cpu → Cpu → Prop} {code : Nat → Word} {s : Cpu}
  {isr irq : Nat → Word} {tables : Tables} {dispatch eip eflags : Word} {depth i n : Nat}

theorem Dispatcher.setting {words : List Word} (hd : Dispatcher h callee s dispatch depth)
    (hlower : 5 ≤ words.length) (hupper : words.length ≤ 6) :
    Setting h callee s words dispatch depth := by
  have hdepth := hd.depth_fits
  exact ⟨hlower, hupper, by omega, hd.fits, hd.free, hd.convention⟩

/-- An interrupt of the controllers, in front of any instruction of any routine with
interrupts on, goes through its gate and its stub to the dispatcher, which gets the number
of the interrupt and the registers of the routine. No other interrupt is taken meanwhile,
the stub comes back from its call, and then the routine goes on as if nothing had happened
but writes below its stack pointer and to the data of the handlers. -/
theorem interrupt_transparent (hn : n < 16) (hd : Dispatcher h callee s dispatch depth)
    (henabled : interruptFlag s.eflags = true) (hplace : s.place = .inside i) :
    ∃ cs clearIf, protectedModeInt (mainTables isr irq tables) (BitVec.ofNat 8 (32 + n)) =
        .ok (.gate32 cs (irq n) clearIf, mainTables isr irq tables) ∧
      (∃ run a, IsRun (LineStep (irqStub dispatch n) code callee h)
        (enter s (interruptWords s (h.code i)) cs clearIf) run ∧
        (last (enter s (interruptWords s (h.code i)) cs clearIf) run).place = .outside a) ∧
      ∀ run, IsRun (LineStep (irqStub dispatch n) code callee h)
        (enter s (interruptWords s (h.code i)) cs clearIf) run →
        EveryTransition (fun u e _ => CallsDispatcher dispatch
          (interruptedRegs s (BitVec.ofNat 32 (32 + n)) 0 (h.code i) s.eflags) u e)
          (enter s (interruptWords s (h.code i)) cs clearIf) run ∧
        ∀ a, (last (enter s (interruptWords s (h.code i)) cs clearIf) run).place = .outside a →
          a = h.code i ∧ (∃ t, (.call dispatch, t) ∈ run) ∧ Interrupted h i s
            { last (enter s (interruptWords s (h.code i)) cs clearIf) run with
              place := s.place } := by
  have hset : Setting h callee s
      (interruptWords s (h.code i) ++ [0, BitVec.ofNat 32 (32 + n)]) dispatch depth :=
    hd.setting (by simp [interruptWords]) (by simp [interruptWords])
  have hgate := deliveries_enter_stubs isr irq tables (BitVec.ofNat 8 (32 + n))
  have hvector : (BitVec.ofNat 8 (32 + n)).toNat = 32 + n := by
    rw [BitVec.toNat_ofNat, Nat.mod_eq_of_lt (by omega)]
  rw [hvector, if_neg (by omega), if_pos (by omega), Nat.add_sub_cancel_left] at hgate
  refine ⟨_, _, hgate, (stage_enter hset _).leaves hset hd.returns, fun run hrun => ?_⟩
  obtain ⟨hcalls, hleft⟩ := stub_run hset _ hrun
  refine ⟨hcalls, fun a ha => ?_⟩
  obtain ⟨hcall, hres, hframed⟩ := hleft a ha
  have heip : a = h.code i := Place.outside.inj (ha.symm.trans hres.place)
  have hword : ∀ j < 3, stackWord (last (enter s (interruptWords s (h.code i)) 8 true) run).mem
      (s.reg .esp) (j + 1) = (interruptWords s (h.code i)).getD j 0 := by
    intro j hj
    have hthree : 3 ≤ (interruptWords s (h.code i) ++ [0, BitVec.ofNat 32 (32 + n)]).length := by
      rw [List.length_append]
      exact Nat.le_add_right 3 _
    rw [hframed.word (by omega) (by omega), frame_words (by omega),
      List.getD_append _ _ _ _ hj]
  have hslot : ∀ j, stackSlot (s.reg .esp) j = s.reg .esp - 4 * BitVec.ofNat 32 j := fun _ => rfl
  refine ⟨heip, hcall, henabled, hplace, rfl, ?_, hres.seg, ?_, hres.eflags, hword 0 (by decide),
    hword 1 (by decide), hword 2 (by decide), hframed.kept⟩
  · funext r
    by_cases hr : r = .esp
    · rw [hr]
      exact hres.esp.trans (stackSlot_zero _)
    · exact hres.reg r hr
  · exact hres.cs.trans (selector_setWidth s.cs)

/-! ## Exceptions -/

/-- The processor and the stub together push five words, but for the exception 17, whose
error code the stub does not expect. -/
theorem exception_words (hn : n < 32) (errorCode : BitVec 16) :
    exceptionWords s eflags eip n errorCode ++ isrBytes n =
      if n = 17 then
        [eflags, s.cs.setWidth 32, eip, errorCode.setWidth 32, 0, BitVec.ofNat 32 17]
      else [eflags, s.cs.setWidth 32, eip, if pushError n then errorCode.setWidth 32 else 0,
        BitVec.ofNat 32 n] := by
  interval_cases n <;> rfl

/-- An exception goes through its gate and its stub to the dispatcher. The dispatcher finds
the vector, the error code and the registers of the faulting code for every exception but
17, whose stub takes the error code for a word of its own; and for every exception but 17
the stub comes back and the code goes on with its registers. -/
theorem exception_registers_iff (hn : n < 32) (hd : Dispatcher h callee s dispatch depth)
    (eflags eip : Word) (errorCode : BitVec 16) :
    ∃ cs clearIf regs, protectedModeInt (mainTables isr irq tables) (BitVec.ofNat 8 n) =
        .ok (.gate32 cs (isr n) clearIf, mainTables isr irq tables) ∧
      (regs = interruptedRegs s (BitVec.ofNat 32 n)
        (if pushError n then errorCode.setWidth 32 else 0) eip eflags ↔ n ≠ 17) ∧
      (∀ run, IsRun (LineStep (isrStub dispatch n) code callee h)
        (enter s (exceptionWords s eflags eip n errorCode) cs clearIf) run →
        EveryTransition (fun u e _ => CallsDispatcher dispatch regs u e)
          (enter s (exceptionWords s eflags eip n errorCode) cs clearIf) run) ∧
      (∃ run t, IsRun (LineStep (isrStub dispatch n) code callee h)
        (enter s (exceptionWords s eflags eip n errorCode) cs clearIf)
        (run ++ [(.call dispatch, t)])) ∧
      (n ≠ 17 →
        (∃ run a, IsRun (LineStep (isrStub dispatch n) code callee h)
          (enter s (exceptionWords s eflags eip n errorCode) cs clearIf) run ∧
          (last (enter s (exceptionWords s eflags eip n errorCode) cs clearIf) run).place =
            .outside a) ∧
        ∀ run a, IsRun (LineStep (isrStub dispatch n) code callee h)
          (enter s (exceptionWords s eflags eip n errorCode) cs clearIf) run →
          (last (enter s (exceptionWords s eflags eip n errorCode) cs clearIf) run).place =
            .outside a →
          (∃ t, (.call dispatch, t) ∈ run) ∧
          Resumed (s.reg .esp) ⟨eip, s.cs, eflags, s.reg, s.seg⟩
            (last (enter s (exceptionWords s eflags eip n errorCode) cs clearIf) run)) := by
  have hwords : exceptionWords s eflags eip n errorCode ++ isrBytes n = _ :=
    exception_words hn errorCode
  have hset : Setting h callee s (exceptionWords s eflags eip n errorCode ++ isrBytes n) dispatch
      depth := by
    rw [hwords]
    split
    · exact hd.setting (by simp) (by simp)
    · exact hd.setting (by simp) (by simp)
  have hgate := deliveries_enter_stubs isr irq tables (BitVec.ofNat 8 n)
  have hvector : (BitVec.ofNat 8 n).toNat = n := by
    rw [BitVec.toNat_ofNat, Nat.mod_eq_of_lt (by omega)]
  rw [hvector, if_pos hn] at hgate
  refine ⟨_, _, frameRegs s (exceptionWords s eflags eip n errorCode ++ isrBytes n), hgate, ?_,
    fun run hrun => (stub_run hset _ hrun).1, exists_call hset hd.returns _,
    fun h17 => ⟨(stage_enter hset _).leaves hset hd.returns, fun run a hrun ha => ?_⟩⟩
  · rw [hwords]
    by_cases h17 : n = 17
    · rw [if_pos h17]
      refine iff_of_false (fun heq => ?_) (not_not_intro h17)
      have hesp : stackSlot (s.reg .esp) 6 = stackSlot (s.reg .esp) 5 := congrArg Regs.esp heq
      unfold stackSlot at hesp
      bv_omega
    · rw [if_neg h17]
      exact iff_of_true rfl h17
  · obtain ⟨hcall, hres, -⟩ := (stub_run hset _ hrun).2 a ha
    rw [hwords, if_neg h17] at hres
    exact ⟨hcall, hres.place, hres.esp.trans (stackSlot_zero _), hres.reg, hres.seg,
      hres.cs.trans (selector_setWidth s.cs), hres.eflags⟩

end

/-! ## A dispatcher that returns at once -/

def sampleHandlers : Handlers :=
  ⟨fun i => 0x1000 + BitVec.ofNat 32 i, 100, fun _ => False, by decide⟩

def sampleInterrupted : Cpu :=
  { place := .inside 3, reg := fun _ => 0x9000, seg := fun _ => 0x10, cs := 0x08, eflags := 0x202
    mem := fun _ => 0 }

def sampleCallee (_ : Word) (s t : Cpu) : Prop := t = s.drop 1

theorem sampleDispatcher (a : Word) :
    Dispatcher sampleHandlers sampleCallee sampleInterrupted a 8 := by
  refine ⟨fun _ s => ⟨_, rfl⟩, ?_, by decide, by decide, fun _ _ _ => id⟩
  rintro s t rfl
  exact ⟨rfl, rfl, rfl, rfl, rfl, rfl, rfl, rfl, fun _ _ => rfl⟩

theorem interrupt_transparent_sample : ∃ run a t,
    IsRun (LineStep (irqStub 0x2000 1) (fun i => BitVec.ofNat 32 i) sampleCallee sampleHandlers)
      (enter sampleInterrupted (interruptWords sampleInterrupted 0x1003) 0x08 true) run ∧
    (.call 0x2000, t) ∈ run ∧
    (last (enter sampleInterrupted (interruptWords sampleInterrupted 0x1003) 0x08 true) run).place =
      .outside a ∧ a = 0x1003 := by
  obtain ⟨cs, clearIf, hgate, ⟨run, a, hrun, hleft⟩, hall⟩ :=
    @interrupt_transparent sampleHandlers sampleCallee (fun i => BitVec.ofNat 32 i)
      sampleInterrupted (fun _ => 0) (fun _ => 0)
      ⟨fun _ => ⟨0, 0, 0, 0, 0, 0⟩, 0, fun _ => ⟨0, 0, 0, 0, 0⟩, 0⟩ 0x2000 8 3 1 (by decide)
      (sampleDispatcher 0x2000) (show interruptFlag sampleInterrupted.eflags = true by decide)
      (show sampleInterrupted.place = .inside 3 from rfl)
  rw [deliveries_enter_stubs, if_neg (by decide), if_pos (by decide)] at hgate
  cases hgate
  obtain ⟨hplace, ⟨t, ht⟩, -⟩ := (hall run hrun).2 a hleft
  exact ⟨run, a, t, hrun, ht, hleft, hplace⟩

theorem exception_registers_iff_pageFault : ∃ run a t,
    IsRun (LineStep (isrStub 0x2000 14) (fun i => BitVec.ofNat 32 i) sampleCallee sampleHandlers)
      (enter sampleInterrupted (exceptionWords sampleInterrupted 0x202 0x1003 14 2) 0x08 true) run ∧
    EveryTransition (fun u e _ => CallsDispatcher 0x2000
      (interruptedRegs sampleInterrupted 14 2 0x1003 0x202) u e)
      (enter sampleInterrupted (exceptionWords sampleInterrupted 0x202 0x1003 14 2) 0x08 true) run ∧
    (.call 0x2000, t) ∈ run ∧
    (last (enter sampleInterrupted (exceptionWords sampleInterrupted 0x202 0x1003 14 2) 0x08 true)
      run).place = .outside a ∧ a = 0x1003 := by
  obtain ⟨cs, clearIf, regs, hgate, hregs, hcalls, -, hreturns⟩ :=
    @exception_registers_iff sampleHandlers sampleCallee (fun i => BitVec.ofNat 32 i)
      sampleInterrupted (fun _ => 0) (fun _ => 0)
      ⟨fun _ => ⟨0, 0, 0, 0, 0, 0⟩, 0, fun _ => ⟨0, 0, 0, 0, 0⟩, 0⟩ 0x2000 8 14 (by decide)
      (sampleDispatcher 0x2000) 0x202 0x1003 2
  rw [deliveries_enter_stubs, if_pos (by decide)] at hgate
  cases hgate
  obtain ⟨⟨run, a, hrun, hleft⟩, hall⟩ := hreturns (by decide)
  obtain ⟨⟨t, ht⟩, hres⟩ := hall run a hrun hleft
  cases hregs.mpr (by decide)
  exact ⟨run, a, t, hrun, hcalls run hrun, ht, hleft,
    Place.outside.inj (hleft.symm.trans hres.place)⟩

end TeachingKernel.Interrupts
