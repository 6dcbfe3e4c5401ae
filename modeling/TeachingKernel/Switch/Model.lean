import TeachingKernel.Lib.StackSlots

/-!
# The context switch

`_threads_low_switch_to` of P5 and of P6, which are the same text. The routine turns
its call frame into the frame of an interrupt return, pushes all registers below it,
leaves the stack pointer in the control block of the current thread, and pops the
registers of the next thread from its stack.
-/

namespace TeachingKernel.Switch

open X86

def kernelCs : Word := 8

def interruptStateSize : Word := 68

def saveRegisters : List Instr :=
  [.pushad, .pushSeg .ds, .pushSeg .es, .pushSeg .fs, .pushSeg .gs]

def restoreRegisters : List Instr :=
  [.popSeg .gs, .popSeg .fs, .popSeg .es, .popSeg .ds, .popad, .addImm .esp 8]

/-- The label `.context_load_only`. -/
def contextLoadOnly : Nat := 29

/-- The instruction that leaves the stack of the outgoing thread. -/
def stackSwitch : Nat := 21

/-- Up to `save_registers`: the call frame becomes the frame of an interrupt return.
`currentThread` is the address of `_current_thread`. -/
def buildFrame (currentThread : Word) : List Instr :=
  [.cmpMem currentThread 0, .je contextLoadOnly,
    .pushReg .eax, .load .eax .esp 4,
    .store .esp (-4) .eax, .addImm .esp 8, .pushfd, .load .eax .esp (-4), .pushImm kernelCs,
    .subImm .esp 4,
    .pushImm 0, .pushImm 0]

def changeThread (currentThread : Word) : List Instr :=
  [.loadAbs .eax currentThread, .store .eax 0 .esp,
    .load .eax .esp interruptStateSize,
    .storeAbs currentThread .eax, .load .esp .eax 0]

def loadContext (currentThread : Word) : List Instr :=
  [.load .eax .esp 4, .storeAbs currentThread .eax, .load .esp .eax 0]

def threadsLowSwitchTo (currentThread : Word) : List Instr :=
  buildFrame currentThread ++ saveRegisters ++ changeThread currentThread ++ restoreRegisters ++
    [.iret] ++ loadContext currentThread ++ restoreRegisters ++ [.iret]

/-! ## Saved contexts -/

structure Context where
  eip : Word
  cs : Selector
  eflags : Word
  reg : Reg → Word
  seg : Seg → Selector

/-- The slot of a register in the exception frame. Slot 0 lies above the frame. -/
def regSlot : Reg → Nat
  | .eax => 6
  | .ecx => 7
  | .edx => 8
  | .ebx => 9
  | .esp => 10
  | .ebp => 11
  | .esi => 12
  | .edi => 13

def segSlot : Seg → Nat
  | .ds => 14
  | .es => 15
  | .fs => 16
  | .gs => 17

def frameSlots : Nat := 17

/-- Slots 1 to `n` of the exception frame hold their part of the context. The word
pushed for the stack pointer is not used. -/
structure SavedTo (m : Memory) (top : Word) (c : Context) (n : Nat) : Prop where
  eflags : stackWord m top 1 = c.eflags
  cs : (stackWord m top 2).setWidth 16 = c.cs
  eip : stackWord m top 3 = c.eip
  reg : ∀ r, r ≠ .esp → regSlot r ≤ n → stackWord m top (regSlot r) = c.reg r
  seg : ∀ r, segSlot r ≤ n → (stackWord m top (segSlot r)).setWidth 16 = c.seg r

section

variable {m m' : Memory} {top v : Word} {c : Context} {n : Nat}

theorem segSlot_bounds (r : Seg) : 14 ≤ segSlot r ∧ segSlot r ≤ frameSlots := by
  cases r <;> decide

theorem regSlot_bounds (r : Reg) : 6 ≤ regSlot r ∧ regSlot r ≤ 13 := by
  cases r <;> decide

theorem SavedTo.congr (h : SavedTo m top c n) (hn : 3 ≤ n)
    (hwords : ∀ j, 1 ≤ j → j ≤ n → stackWord m' top j = stackWord m top j) :
    SavedTo m' top c n := by
  refine ⟨?_, ?_, ?_, fun r hr hle => ?_, fun r hle => ?_⟩
  · rw [hwords 1 (by decide) (by omega)]
    exact h.eflags
  · rw [hwords 2 (by decide) (by omega)]
    exact h.cs
  · rw [hwords 3 (by decide) hn]
    exact h.eip
  · have hbounds := regSlot_bounds r
    rw [hwords _ (by omega) hle]
    exact h.reg r hr hle
  · have hbounds := segSlot_bounds r
    rw [hwords _ (by omega) hle]
    exact h.seg r hle

theorem SavedTo.mono {k : Nat} (h : SavedTo m top c n) (hk : k ≤ n) : SavedTo m top c k :=
  ⟨h.eflags, h.cs, h.eip, fun r hr hle => h.reg r hr (by omega), fun r hle => h.seg r (by omega)⟩

theorem SavedTo.push (h : SavedTo m top c n) (hn : 3 ≤ n) (hlt : n < frameSlots)
    (hreg : ∀ r, r ≠ .esp → regSlot r = n + 1 → v = c.reg r)
    (hseg : ∀ r, segSlot r = n + 1 → v.setWidth 16 = c.seg r) :
    SavedTo (m.writeWord (stackSlot top (n + 1)) v) top c (n + 1) := by
  unfold frameSlots at hlt
  have hword : ∀ j ≤ n + 1, stackWord (m.writeWord (stackSlot top (n + 1)) v) top j =
      if j = n + 1 then v else stackWord m top j := fun j hj =>
    stackWord_writeWord (by omega) (by omega)
  have hold : SavedTo (m.writeWord (stackSlot top (n + 1)) v) top c n := h.congr hn fun j _ hj => by
    rw [hword j (by omega), if_neg (by omega)]
  refine ⟨hold.eflags, hold.cs, hold.eip, fun r hr hle => ?_, fun r hle => ?_⟩
  · rcases Nat.lt_or_eq_of_le hle with hlt | heq
    · exact hold.reg r hr (by omega)
    · rw [hword _ hle, if_pos heq]
      exact hreg r hr heq
  · rcases Nat.lt_or_eq_of_le hle with hlt | heq
    · exact hold.seg r (by omega)
    · rw [hword _ hle, if_pos heq]
      exact hseg r heq

end

end TeachingKernel.Switch
