import Mathlib.Tactic.IntervalCases
import TeachingKernel.Lib.Runs
import TeachingKernel.Switch.Model

/-!
# Restoring a context

The frame is popped from its lowest slot up, and an interrupt writes below the stack
pointer, where the frame was popped already. So whatever interrupts are taken, the
thread goes on with the context that its frame holds.
-/

namespace TeachingKernel.Switch

open X86 Runs

structure Popped (top : Word) (c : Context) (n : Nat) (s : Cpu) : Prop where
  esp : s.reg .esp = stackSlot top n
  saved : SavedTo s.mem top c n
  reg : ∀ r, r ≠ .esp → n < regSlot r → s.reg r = c.reg r
  seg : ∀ r, n < segSlot r → s.seg r = c.seg r

/-- The thread goes on with its context, on the stack above the frame. -/
structure Resumed (top : Word) (c : Context) (s : Cpu) : Prop where
  place : s.place = .outside c.eip
  esp : s.reg .esp = top
  reg : ∀ r, r ≠ .esp → s.reg r = c.reg r
  seg : s.seg = c.seg
  cs : s.cs = c.cs
  eflags : s.eflags = c.eflags

def slotsLeft : Nat → Nat
  | 0 => 17
  | 1 => 16
  | 2 => 15
  | 3 => 14
  | 4 => 13
  | 5 => 5
  | _ => 3

def RestoresAt (program : List Instr) (first : Nat) : Prop :=
  ∀ k < 7, program[first + k]? = (restoreRegisters ++ [Instr.iret])[k]?

structure Restoring (first : Nat) (top : Word) (c : Context) (k : Nat) (s : Cpu) : Prop where
  place : s.place = .inside (first + k)
  popped : Popped top c (slotsLeft k) s

section

variable {program : List Instr} {h : Handlers} {s t : Cpu} {top : Word} {c : Context}
  {first i k n : Nat}

theorem Popped.popSeg {r : Seg} (hp : Popped top c (n + 1) s) (hr : segSlot r = n + 1)
    (i : Nat) : Popped top c n (exec i s (.popSeg r)) := by
  obtain ⟨h14, h17⟩ := segSlot_bounds r
  have hword : (s.peek 0).setWidth 16 = c.seg r := by
    rw [peek_eq hp.esp (Nat.add_zero _), ← hr]
    exact hp.saved.seg r (by omega)
  have hesp : (s.setSeg r ((s.peek 0).setWidth 16)).reg .esp = stackSlot top (n + 1) := hp.esp
  rw [exec]
  constructor
  · rw [Cpu.reg_goto, reg_drop hesp rfl, if_pos rfl]
  · exact hp.saved.mono (by omega)
  · intro r' hr' hlt
    have hslot := (regSlot_bounds r').2
    omega
  · intro r' hlt
    rw [Cpu.seg_goto, Cpu.seg_drop, Cpu.seg_setSeg]
    split
    · rename_i heq
      rw [heq, hword]
    · rename_i hne
      refine hp.seg r' ?_
      have : segSlot r' ≠ segSlot r := fun heq =>
        hne (by revert heq; cases r' <;> cases r <;> decide)
      omega

theorem Popped.popad (hp : Popped top c 13 s) (i : Nat) : Popped top c 5 (exec i s .popad) := by
  have hword : ∀ r, r ≠ .esp → ∀ k, k + regSlot r = 13 → s.peek k = c.reg r := by
    intro r hr k hk
    rw [peek_eq (j := regSlot r) hp.esp (by omega)]
    exact hp.saved.reg r hr (by omega)
  have hpopped : ∀ r, s.popad.reg r = if r = .esp then stackSlot top 5 else c.reg r := by
    intro r
    have hesp := hp.esp
    rw [Cpu.popad, reg_drop (j := 5) (show _ = stackSlot top 13 by simpa using hesp) rfl]
    split
    · rfl
    · rename_i hr
      cases r with
      | esp => exact absurd rfl hr
      | eax => simp [hword .eax (by decide) 7 rfl]
      | ecx => simp [hword .ecx (by decide) 6 rfl]
      | edx => simp [hword .edx (by decide) 5 rfl]
      | ebx => simp [hword .ebx (by decide) 4 rfl]
      | ebp => simp [hword .ebp (by decide) 2 rfl]
      | esi => simp [hword .esi (by decide) 1 rfl]
      | edi => simp [hword .edi (by decide) 0 rfl]
  rw [exec]
  constructor
  · rw [Cpu.reg_goto, hpopped, if_pos rfl]
  · exact hp.saved.mono (by decide)
  · intro r hr _
    rw [Cpu.reg_goto, hpopped, if_neg hr]
  · intro r _
    have hslot := (segSlot_bounds r).1
    exact hp.seg r (by omega)

theorem Popped.skip (hp : Popped top c 5 s) (i : Nat) :
    Popped top c 3 (exec i s (.addImm .esp 8)) := by
  rw [exec]
  constructor
  · rw [Cpu.reg_goto, Cpu.reg_setReg, if_pos rfl, hp.esp]
    exact stackSlot_add top 3 2
  · exact hp.saved.mono (by decide)
  · intro r hr _
    have hslot := (regSlot_bounds r).1
    rw [Cpu.reg_goto, Cpu.reg_setReg, if_neg hr]
    exact hp.reg r hr (by omega)
  · intro r _
    have hslot := (segSlot_bounds r).1
    exact hp.seg r (by omega)

theorem Popped.iret (hp : Popped top c 3 s) (i : Nat) : Resumed top c (exec i s .iret) := by
  have hsaved := hp.saved
  have heip : s.peek 0 = stackWord s.mem top 3 := peek_eq hp.esp rfl
  have hcs : s.peek 1 = stackWord s.mem top 2 := peek_eq hp.esp rfl
  have heflags : s.peek 2 = stackWord s.mem top 1 := peek_eq hp.esp rfl
  have hreg := reg_drop (j := 0) (k := 3) hp.esp rfl
  rw [exec]
  constructor
  · rw [heip, hsaved.eip]
  · rw [hreg, if_pos rfl, stackSlot_zero]
  · intro r hr
    rw [hreg, if_neg hr]
    have hslot := (regSlot_bounds r).1
    exact hp.reg r hr (by omega)
  · funext r
    have hslot := (segSlot_bounds r).1
    exact hp.seg r (by omega)
  · rw [hcs, hsaved.cs]
  · rw [heflags, hsaved.eflags]

/-- Each instruction pops its part of the frame, and the last one leaves. -/
theorem Restoring.instr (hcode : RestoresAt program first) (hr : Restoring first top c k s)
    (hk : k < 7) (hrun : advance program s = some t) :
    (k < 6 ∧ Restoring first top c (k + 1) t) ∨ (k = 6 ∧ Resumed top c t) := by
  have hp := hr.popped
  rw [advance, hr.place] at hrun
  dsimp only at hrun
  rw [hcode k hk] at hrun
  interval_cases k <;> cases hrun
  · exact .inl ⟨by decide, rfl, hp.popSeg rfl _⟩
  · exact .inl ⟨by decide, rfl, hp.popSeg rfl _⟩
  · exact .inl ⟨by decide, rfl, hp.popSeg rfl _⟩
  · exact .inl ⟨by decide, rfl, hp.popSeg rfl _⟩
  · exact .inl ⟨by decide, rfl, hp.popad _⟩
  · exact .inl ⟨by decide, rfl, hp.skip _⟩
  · exact .inr ⟨rfl, hp.iret _⟩

theorem Restoring.irq (hr : Restoring first top c k s) (hroom : h.Room top 18)
    (hirq : Interrupted h i s t) : Restoring first top c k t := by
  have hp := hr.popped
  have hleft : 3 ≤ slotsLeft k ∧ slotsLeft k < 18 := by
    unfold slotsLeft
    split <;> omega
  refine ⟨hirq.place_eq.trans hr.place, ?_, ?_, ?_, ?_⟩
  · rw [hirq.reg_eq]
    exact hp.esp
  · exact hp.saved.congr hleft.1 fun j _ hj => hirq.stackWord_eq hroom hp.esp hleft.2 hj
  · rw [hirq.reg_eq]
    exact hp.reg
  · rw [hirq.seg_eq]
    exact hp.seg

def OnTheWay (first : Nat) (top : Word) (c : Context) (s : Cpu) : Prop :=
  (∃ k < 7, Restoring first top c k s) ∨ Resumed top c s

theorem OnTheWay.step {e : Event} (hcode : RestoresAt program first) (hroom : h.Room top 18)
    (hs : OnTheWay first top c s) (hstep : Step program h s e t) : OnTheWay first top c t := by
  rcases hs with ⟨k, hk, hr⟩ | hr
  · cases hstep with
    | instr hrun =>
        rcases hr.instr hcode hk hrun with ⟨hlt, hnext⟩ | ⟨-, hres⟩
        · exact .inl ⟨k + 1, by omega, hnext⟩
        · exact .inr hres
    | irq hirq => exact .inl ⟨k, hk, hr.irq hroom hirq⟩
  · cases hstep with
    | instr hrun =>
        rw [advance, hr.place] at hrun
        cases hrun
    | irq hirq =>
        have hinside := hirq.inside
        rw [hr.place] at hinside
        cases hinside

/-- Whatever interrupts are taken, a run that leaves goes on with the saved context. -/
theorem Restoring.run {run : List (Event × Cpu)} {a : Word} (hcode : RestoresAt program first)
    (hroom : h.Room top 18) (hk : k < 7) (hr : Restoring first top c k s)
    (hrun : IsRun (Step program h) s run) (hleft : (last s run).place = .outside a) :
    Resumed top c (last s run) := by
  have hway : OnTheWay first top c (last s run) := last_of_everyState
    (everyState_of_step (fun _ _ _ hs hstep => hs.step hcode hroom hstep) (.inl ⟨k, hk, hr⟩) hrun)
  rcases hway with ⟨j, -, hinside⟩ | hres
  · rw [hinside.place] at hleft
    cases hleft
  · exact hres

end

end TeachingKernel.Switch
