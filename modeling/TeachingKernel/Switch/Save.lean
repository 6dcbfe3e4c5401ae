import TeachingKernel.Switch.Restore

/-!
# Saving the context of the outgoing thread

In front of every instruction of the first half it is known which slot the stack
pointer points to and which words of the new frame lie in memory. Between the store
of the return address and the subtraction that moves the stack pointer below it,
words in use lie below the stack pointer, and an interrupt overwrites them with its
own return frame.
-/

namespace TeachingKernel.Switch

open X86 Runs

def callTop (s : Cpu) : Word := s.reg .esp + 4

def parameter (s : Cpu) : Word := stackWord s.mem (callTop s) 0

def returnAddress (s : Cpu) : Word := stackWord s.mem (callTop s) 1

/-- `thread` calls the routine on a stack with room for its context and for interrupts,
away from its control block and from `_current_thread`. -/
structure Entered (h : Handlers) (currentThread thread : Word) (s : Cpu) : Prop where
  place : s.place = .inside 0
  current : s.mem.readWord currentThread = thread
  running : thread ≠ 0
  room : h.Room (callTop s) 18
  current_away : h.Away (callTop s) 18 currentThread
  thread_away : h.Away (callTop s) 18 thread
  cells_apart : Memory.Apart thread currentThread

structure Called (currentThread thread : Word) (s : Cpu) : Prop where
  place : s.place = .inside 0
  current : s.mem.readWord currentThread = thread
  running : thread ≠ 0
  current_apart : ∀ j < 18, Memory.Apart (stackSlot (callTop s) j) currentThread
  thread_apart : ∀ j < 18, Memory.Apart (stackSlot (callTop s) j) thread
  cells_apart : Memory.Apart thread currentThread

/-- The context that a frame with return address `eip`, and with `eax` as the saved
register, gives to the caller `s₀`. -/
def callerContext (s₀ : Cpu) (eip eax eflags : Word) : Context :=
  ⟨eip, kernelCs.setWidth 16, eflags, Function.update s₀.reg .eax eax, s₀.seg⟩

/-- What the routine has not changed yet, with the stack pointer at slot `n`. -/
structure Live (currentThread thread : Word) (s₀ : Cpu) (n : Nat) (s : Cpu) : Prop where
  esp : s.reg .esp = stackSlot (callTop s₀) n
  others : ∀ r, r ≠ .eax → r ≠ .esp → s.reg r = s₀.reg r
  seg : s.seg = s₀.seg
  cs : s.cs = s₀.cs
  eflags : SameControl s.eflags s₀.eflags
  parameter : stackWord s.mem (callTop s₀) 0 = parameter s₀
  current : s.mem.readWord currentThread = thread

def Written (s₀ : Cpu) (eip eax : Word) (n : Nat) (s : Cpu) : Prop :=
  ∃ eflags, SameControl eflags s₀.eflags ∧
    SavedTo s.mem (callTop s₀) (callerContext s₀ eip eax eflags) n

def slotsUsed : Nat → Nat
  | 0 | 1 | 2 => 1
  | 3 | 4 | 5 => 2
  | 6 => 0
  | 7 | 8 => 1
  | 9 => 2
  | 10 => 3
  | 11 => 4
  | 12 => 5
  | 13 => 13
  | 14 => 14
  | 15 => 15
  | 16 => 16
  | _ => 17

/-- What lies where in front of instruction `i`: `x` is the return address to be saved
and `y` the value of `eax` to be saved. -/
def Facts (thread : Word) (s₀ : Cpu) (x y : Word) (i : Nat) (s : Cpu) : Prop :=
  let word := stackWord s.mem (callTop s₀)
  match i with
  | 0 | 2 => word 1 = x ∧ s.reg .eax = y
  | 1 => word 1 = x ∧ s.reg .eax = y ∧ zeroFlag s.eflags = false
  | 3 => word 1 = x ∧ word 2 = y
  | 4 => s.reg .eax = x ∧ word 2 = y
  | 5 | 6 => word 3 = x ∧ word 2 = y
  | 7 => word 3 = x ∧ word 2 = y ∧ SameControl (word 1) s₀.eflags
  | 8 => word 3 = x ∧ s.reg .eax = y ∧ SameControl (word 1) s₀.eflags
  | 9 => word 3 = x ∧ s.reg .eax = y ∧ SameControl (word 1) s₀.eflags ∧ word 2 = kernelCs
  | 10 | 11 | 12 => s.reg .eax = y ∧ Written s₀ x y (slotsUsed i) s
  | 18 => s.reg .eax = thread ∧ Written s₀ x y 17 s
  | 19 => s.mem.readWord thread = stackSlot (callTop s₀) 17 ∧ Written s₀ x y 17 s
  | 20 => s.reg .eax = parameter s₀ ∧ s.mem.readWord thread = stackSlot (callTop s₀) 17 ∧
      Written s₀ x y 17 s
  | _ => Written s₀ x y (slotsUsed i) s

structure Saving (currentThread thread : Word) (s₀ : Cpu) (x y : Word) (i : Nat) (s : Cpu) :
    Prop where
  place : s.place = .inside i
  live : Live currentThread thread s₀ (slotsUsed i) s
  facts : Facts thread s₀ x y i s

/-- The context lies in the frame, the control block points to it, and the stack is
about to be left. -/
structure ContextSaved (thread : Word) (s₀ : Cpu) (x y : Word) (s : Cpu) : Prop where
  place : s.place = .inside stackSwitch
  esp : s.reg .esp = stackSlot (callTop s₀) frameSlots
  cell : s.mem.readWord thread = stackSlot (callTop s₀) frameSlots
  frame : Written s₀ x y frameSlots s

section

variable {h : Handlers} {currentThread thread : Word} {s₀ s t : Cpu} {x y v a : Word} {i j n : Nat}

theorem Entered.called (he : Entered h currentThread thread s₀) :
    Called currentThread thread s₀ :=
  ⟨he.place, he.current, he.running, fun _ hj => he.current_away.apart hj (by decide),
    fun _ hj => he.thread_away.apart hj (by decide), he.cells_apart⟩

theorem Called.saving (he : Called currentThread thread s₀) :
    Saving currentThread thread s₀ (returnAddress s₀) (s₀.reg .eax) 0 s₀ := by
  refine ⟨he.place, ⟨?_, fun _ _ _ => rfl, rfl, rfl, rfl, rfl, he.current⟩, rfl, rfl⟩
  show s₀.reg .esp = stackSlot (s₀.reg .esp + 4) 1
  unfold stackSlot
  bv_omega

/-! ## Single changes -/

theorem Live.setEax (hl : Live currentThread thread s₀ n s) (v : Word) :
    Live currentThread thread s₀ n (s.setReg .eax v) := by
  refine ⟨?_, fun r hr hr' => ?_, hl.seg, hl.cs, hl.eflags, hl.parameter, hl.current⟩
  · rw [Cpu.reg_setReg, if_neg (by decide)]
    exact hl.esp
  · rw [Cpu.reg_setReg, if_neg hr]
    exact hl.others r hr hr'

theorem Live.moveEsp (hl : Live currentThread thread s₀ n s)
    (hv : v = stackSlot (callTop s₀) j) : Live currentThread thread s₀ j (s.setReg .esp v) := by
  refine ⟨?_, fun r hr hr' => ?_, hl.seg, hl.cs, hl.eflags, hl.parameter, hl.current⟩
  · rw [Cpu.reg_setReg, if_pos rfl]
    exact hv
  · rw [Cpu.reg_setReg, if_neg hr']
    exact hl.others r hr hr'

theorem Live.goto (hl : Live currentThread thread s₀ n s) (i : Nat) :
    Live currentThread thread s₀ n (s.goto i) :=
  ⟨hl.esp, hl.others, hl.seg, hl.cs, hl.eflags, hl.parameter, hl.current⟩

theorem Live.writeSlot (hl : Live currentThread thread s₀ n s)
    (he : Called currentThread thread s₀) (hj : 1 ≤ j) (hlt : j < 18)
    (ha : a = stackSlot (callTop s₀) j) : Live currentThread thread s₀ n (s.write a v) := by
  refine ⟨hl.esp, hl.others, hl.seg, hl.cs, hl.eflags, ?_, ?_⟩
  · rw [Cpu.mem_write, ha, stackWord_writeWord (by decide) (by omega), if_neg (by omega)]
    exact hl.parameter
  · rw [Cpu.mem_write, ha,
      Memory.readWord_writeWord_apart (he.current_apart _ hlt)]
    exact hl.current

theorem Live.push (hl : Live currentThread thread s₀ n s) (he : Called currentThread thread s₀)
    (hn : n < 17) (v : Word) : Live currentThread thread s₀ (n + 1) (s.push v) := by
  have hesp : s.reg .esp - 4 = stackSlot (callTop s₀) (n + 1) := by rw [hl.esp, stackSlot_succ]
  exact (hl.moveEsp hesp).writeSlot he (by omega) (by omega) hesp

theorem Written.push (hw : Written s₀ x y n s) (hesp : s.reg .esp = stackSlot (callTop s₀) n)
    (hn : 3 ≤ n) (hlt : n < 17)
    (hreg : ∀ r, r ≠ .esp → regSlot r = n + 1 → v = if r = .eax then y else s₀.reg r)
    (hseg : ∀ r, segSlot r = n + 1 → v.setWidth 16 = s₀.seg r) :
    Written s₀ x y (n + 1) (s.push v) := by
  obtain ⟨eflags, hsame, hsaved⟩ := hw
  refine ⟨eflags, hsame, ?_⟩
  rw [mem_push hesp]
  exact hsaved.push hn hlt (fun r hr hslot => by
    rw [hreg r hr hslot]
    exact (Function.update_apply ..).symm) hseg

theorem Written.congr (hw : Written s₀ x y n s) (hn : 3 ≤ n)
    (hwords : ∀ j ≤ n, stackWord t.mem (callTop s₀) j = stackWord s.mem (callTop s₀) j) :
    Written s₀ x y n t := by
  obtain ⟨eflags, hsame, hsaved⟩ := hw
  exact ⟨eflags, hsame, hsaved.congr hn fun j _ => hwords j⟩

/-! ## Single instructions -/

theorem Live.status (hl : Live currentThread thread s₀ n s) (i : Nat) (status : Word) :
    Live currentThread thread s₀ n
      { s.goto i with eflags := withStatus s.eflags status } :=
  ⟨hl.esp, hl.others, hl.seg, hl.cs, (sameControl_withStatus status).trans hl.eflags, hl.parameter,
    hl.current⟩

theorem Live.read (hl : Live currentThread thread s₀ n s)
    (ha : stackSlot (callTop s₀) n + a = stackSlot (callTop s₀) j) :
    s.mem.readWord (s.reg .esp + a) = stackWord s.mem (callTop s₀) j := by
  rw [hl.esp, ha, stackWord]

theorem Live.stackWord_push (hl : Live currentThread thread s₀ n s) (hn : n < 17) (v : Word)
    (hj : j < 18) : stackWord (s.push v).mem (callTop s₀) j =
      if j = n + 1 then v else stackWord s.mem (callTop s₀) j :=
  X86.stackWord_push hl.esp (by omega) (by omega)

theorem stackSlot_neg (top : Word) (n : Nat) : stackSlot top n + (-4) = stackSlot top (n + 1) := by
  rw [stackSlot_succ, BitVec.sub_eq_add_neg]

theorem Saving.compare (he : Called currentThread thread s₀)
    (hs : Saving currentThread thread s₀ x y 0 s) :
    Saving currentThread thread s₀ x y 1 (exec 0 s (.cmpMem currentThread 0)) := by
  obtain ⟨hret, heax⟩ := hs.facts
  refine ⟨rfl, hs.live.status 1 _, hret, heax, ?_⟩
  rw [exec, zeroFlag_subStatus, hs.live.current]
  exact decide_eq_false he.running

theorem Saving.je (hs : Saving currentThread thread s₀ x y 1 s) :
    Saving currentThread thread s₀ x y 2 (exec 1 s (.je contextLoadOnly)) := by
  obtain ⟨hret, heax, hzero⟩ := hs.facts
  rw [exec, hzero, if_neg (by decide)]
  exact ⟨rfl, hs.live.goto 2, hret, heax⟩

theorem Saving.pushEax (he : Called currentThread thread s₀)
    (hs : Saving currentThread thread s₀ x y 2 s) :
    Saving currentThread thread s₀ x y 3 (exec 2 s (.pushReg .eax)) := by
  obtain ⟨hret, heax⟩ := hs.facts
  have hpush := fun j hj => hs.live.stackWord_push (by decide) (s.reg .eax) (j := j) hj
  refine ⟨rfl, (hs.live.push he (by decide) _).goto 3, ?_, ?_⟩
  · exact (hpush 1 (by decide)).trans hret
  · exact (hpush 2 (by decide)).trans heax

theorem Saving.loadReturn (hs : Saving currentThread thread s₀ x y 3 s) :
    Saving currentThread thread s₀ x y 4 (exec 3 s (.load .eax .esp 4)) := by
  obtain ⟨hret, heax⟩ := hs.facts
  have hread : s.mem.readWord (s.reg .esp + 4) = x :=
    (hs.live.read (stackSlot_add _ 1 1)).trans hret
  exact ⟨rfl, (hs.live.setEax _).goto 4, hread, heax⟩

theorem Saving.storeReturn (he : Called currentThread thread s₀)
    (hs : Saving currentThread thread s₀ x y 4 s) :
    Saving currentThread thread s₀ x y 5 (exec 4 s (.store .esp (-4) .eax)) := by
  obtain ⟨hret, heax⟩ := hs.facts
  have haddr : s.reg .esp + (-4) = stackSlot (callTop s₀) 3 := by
    rw [hs.live.esp]
    exact stackSlot_neg _ 2
  have hword : ∀ j < 18, stackWord (s.write (s.reg .esp + (-4)) (s.reg .eax)).mem (callTop s₀) j =
      if j = 3 then s.reg .eax else stackWord s.mem (callTop s₀) j := by
    intro j hj
    rw [Cpu.mem_write, haddr, stackWord_writeWord (by omega) (by decide)]
  refine ⟨rfl, (hs.live.writeSlot he (by decide) (by decide) haddr).goto 5, ?_, ?_⟩
  · exact (hword 3 (by decide)).trans hret
  · exact (hword 2 (by decide)).trans heax

theorem Saving.raise (hs : Saving currentThread thread s₀ x y 5 s) :
    Saving currentThread thread s₀ x y 6 (exec 5 s (.addImm .esp 8)) := by
  refine ⟨rfl, (hs.live.moveEsp (j := 0) ?_).status 6 _, hs.facts⟩
  rw [hs.live.esp]
  exact stackSlot_add _ 0 2

theorem Saving.pushfd (he : Called currentThread thread s₀)
    (hs : Saving currentThread thread s₀ x y 6 s) :
    Saving currentThread thread s₀ x y 7 (exec 6 s .pushfd) := by
  obtain ⟨hret, heax⟩ := hs.facts
  have hpush := fun j hj => hs.live.stackWord_push (by decide) s.eflags (j := j) hj
  refine ⟨rfl, (hs.live.push he (by decide) _).goto 7, ?_, ?_, ?_⟩
  · exact (hpush 3 (by decide)).trans hret
  · exact (hpush 2 (by decide)).trans heax
  · exact (congrArg (SameControl · s₀.eflags) (hpush 1 (by decide))).mpr hs.live.eflags

theorem Saving.reloadEax (hs : Saving currentThread thread s₀ x y 7 s) :
    Saving currentThread thread s₀ x y 8 (exec 7 s (.load .eax .esp (-4))) := by
  obtain ⟨hret, heax, hflags⟩ := hs.facts
  have hread : s.mem.readWord (s.reg .esp + (-4)) = y :=
    (hs.live.read (stackSlot_neg _ 1)).trans heax
  exact ⟨rfl, (hs.live.setEax _).goto 8, hret, hread, hflags⟩

theorem Saving.pushCs (he : Called currentThread thread s₀)
    (hs : Saving currentThread thread s₀ x y 8 s) :
    Saving currentThread thread s₀ x y 9 (exec 8 s (.pushImm kernelCs)) := by
  obtain ⟨hret, heax, hflags⟩ := hs.facts
  have hpush := fun j hj => hs.live.stackWord_push (by decide) kernelCs (j := j) hj
  refine ⟨rfl, (hs.live.push he (by decide) _).goto 9, ?_, ?_, ?_, ?_⟩
  · exact (hpush 3 (by decide)).trans hret
  · exact (reg_push (v := kernelCs) hs.live.esp .eax).trans heax
  · exact (congrArg (SameControl · s₀.eflags) (hpush 1 (by decide))).mpr hflags
  · exact hpush 2 (by decide)

theorem Saving.lower (hs : Saving currentThread thread s₀ x y 9 s) :
    Saving currentThread thread s₀ x y 10 (exec 9 s (.subImm .esp 4)) := by
  obtain ⟨hret, heax, hflags, hcs⟩ := hs.facts
  refine ⟨rfl, (hs.live.moveEsp (j := 3) ?_).status 10 _, heax, _, hflags, rfl, ?_, hret,
    fun r _ hle => ?_, fun r hle => ?_⟩
  · rw [hs.live.esp]
    exact (stackSlot_succ _ 2).symm
  · exact congrArg (BitVec.setWidth 16) hcs
  · have hslot := (regSlot_bounds r).1
    have hused : slotsUsed 10 = 3 := rfl
    omega
  · have hslot := (segSlot_bounds r).1
    have hused : slotsUsed 10 = 3 := rfl
    omega

private theorem fill (he : Called currentThread thread s₀) (hn : 3 ≤ n) (hlt : n < 17)
    (hl : Live currentThread thread s₀ n s) (hw : Written s₀ x y n s)
    (hreg : ∀ r, r ≠ .esp → regSlot r = n + 1 → v = if r = .eax then y else s₀.reg r)
    (hseg : ∀ r, segSlot r = n + 1 → v.setWidth 16 = s₀.seg r) :
    Live currentThread thread s₀ (n + 1) (s.push v) ∧ Written s₀ x y (n + 1) (s.push v) :=
  ⟨hl.push he hlt v, hw.push hl.esp hn hlt hreg hseg⟩

/-- The error code and the interrupt number, whose slots belong to no register. -/
theorem Saving.pushZero (he : Called currentThread thread s₀) (hi : i = 10 ∨ i = 11)
    (hs : Saving currentThread thread s₀ x y i s) :
    Saving currentThread thread s₀ x y (i + 1) (exec i s (.pushImm 0)) := by
  have hreg : ∀ n r, n ≤ 4 → regSlot r ≠ n + 1 := by
    intro n r hn
    have hslot := (regSlot_bounds r).1
    omega
  have hseg : ∀ n r, n ≤ 4 → segSlot r ≠ n + 1 := by
    intro n r hn
    have hslot := (segSlot_bounds r).1
    omega
  have heax : s.reg .eax = y → (s.push 0).reg .eax = y := (reg_push hs.live.esp .eax).trans
  rcases hi with rfl | rfl
  · obtain ⟨hy, hw⟩ := hs.facts
    obtain ⟨hl, hw'⟩ := fill he (v := 0) (by decide) (by decide) hs.live hw
      (fun r _ hr => absurd hr (hreg 3 r (by decide))) fun r hr => absurd hr (hseg 3 r (by decide))
    exact ⟨rfl, hl.goto 11, heax hy, hw'⟩
  · obtain ⟨hy, hw⟩ := hs.facts
    obtain ⟨hl, hw'⟩ := fill he (v := 0) (by decide) (by decide) hs.live hw
      (fun r _ hr => absurd hr (hreg 4 r (by decide))) fun r hr => absurd hr (hseg 4 r (by decide))
    exact ⟨rfl, hl.goto 12, heax hy, hw'⟩

private theorem fillReg (he : Called currentThread thread s₀) {r : Reg} (hr : regSlot r = n + 1)
    (hl : Live currentThread thread s₀ n s) (hw : Written s₀ x y n s)
    (hv : r ≠ .esp → v = if r = .eax then y else s₀.reg r) :
    Live currentThread thread s₀ (n + 1) (s.push v) ∧ Written s₀ x y (n + 1) (s.push v) := by
  have hbounds := regSlot_bounds r
  refine fill he (by omega) (by omega) hl hw (fun r' hr' hslot => ?_) fun g hslot => ?_
  · have heq : r' = r := by
      revert hslot
      rw [← hr]
      cases r <;> cases r' <;> decide
    subst heq
    exact hv hr'
  · have hseg := (segSlot_bounds g).1
    omega

theorem Saving.pushad (he : Called currentThread thread s₀)
    (hs : Saving currentThread thread s₀ x y 12 s) :
    Saving currentThread thread s₀ x y 13 (exec 12 s .pushad) := by
  obtain ⟨heax, hw⟩ := hs.facts
  have hl := hs.live
  have hold : ∀ r, r ≠ .eax → r ≠ .esp → s.reg r = if r = .eax then y else s₀.reg r := by
    intro r hr hr'
    rw [if_neg hr]
    exact hl.others r hr hr'
  obtain ⟨hl₁, hw₁⟩ := fillReg he (r := .eax) (v := s.reg .eax) rfl hl hw fun _ => heax
  obtain ⟨hl₂, hw₂⟩ := fillReg he (r := .ecx) rfl hl₁ hw₁ fun h => hold .ecx (by decide) h
  obtain ⟨hl₃, hw₃⟩ := fillReg he (r := .edx) rfl hl₂ hw₂ fun h => hold .edx (by decide) h
  obtain ⟨hl₄, hw₄⟩ := fillReg he (r := .ebx) rfl hl₃ hw₃ fun h => hold .ebx (by decide) h
  obtain ⟨hl₅, hw₅⟩ := fillReg he (r := .esp) (v := s.reg .esp) rfl hl₄ hw₄ fun h => absurd rfl h
  obtain ⟨hl₆, hw₆⟩ := fillReg he (r := .ebp) rfl hl₅ hw₅ fun h => hold .ebp (by decide) h
  obtain ⟨hl₇, hw₇⟩ := fillReg he (r := .esi) rfl hl₆ hw₆ fun h => hold .esi (by decide) h
  obtain ⟨hl₈, hw₈⟩ := fillReg he (r := .edi) rfl hl₇ hw₇ fun h => hold .edi (by decide) h
  exact ⟨rfl, hl₈.goto 13, hw₈⟩

theorem slotsUsed_seg (h₁ : 13 ≤ i) (h₂ : i ≤ 17) : slotsUsed i = i := by
  interval_cases i <;> rfl

theorem facts_seg (h₁ : 13 ≤ i) (h₂ : i ≤ 17) : Facts thread s₀ x y i s = Written s₀ x y i s := by
  interval_cases i <;> rfl

theorem Saving.pushSeg {r : Seg} (he : Called currentThread thread s₀)
    (hr : segSlot r = i + 1) (hs : Saving currentThread thread s₀ x y i s) :
    Saving currentThread thread s₀ x y (i + 1) (exec i s (.pushSeg r)) := by
  have hbounds := segSlot_bounds r
  unfold frameSlots at hbounds
  obtain ⟨w, hpush, hlow⟩ := s.pushSelector_eq (s.seg r)
  have hseg : ∀ g : Seg, segSlot g = i + 1 → w.setWidth 16 = s₀.seg g := by
    intro g hslot
    have heq : g = r := by
      revert hslot
      rw [← hr]
      cases r <;> cases g <;> decide
    rw [heq, hlow, hs.live.seg]
  have hreg : ∀ (r' : Reg), r' ≠ .esp → regSlot r' = i + 1 →
      w = if r' = .eax then y else s₀.reg r' := by
    intro r' _ hslot
    have hslot' := (regSlot_bounds r').2
    omega
  have hl := hs.live
  have hw := hs.facts
  rw [slotsUsed_seg (by omega) (by omega)] at hl
  rw [facts_seg (by omega) (by omega)] at hw
  obtain ⟨hl', hw'⟩ := fill he (by omega) (by omega) hl hw hreg hseg
  rw [exec, hpush]
  refine ⟨rfl, ?_, ?_⟩
  · rw [slotsUsed_seg (by omega) (by omega)]
    exact hl'.goto _
  · rw [facts_seg (by omega) (by omega)]
    exact hw'

theorem Saving.loadCurrent (hs : Saving currentThread thread s₀ x y 17 s) :
    Saving currentThread thread s₀ x y 18 (exec 17 s (.loadAbs .eax currentThread)) :=
  ⟨rfl, (hs.live.setEax _).goto 18, hs.live.current, hs.facts⟩

/-- The stack pointer goes to the control block of the outgoing thread. -/
theorem Saving.storeEsp (he : Called currentThread thread s₀)
    (hs : Saving currentThread thread s₀ x y 18 s) :
    Saving currentThread thread s₀ x y 19 (exec 18 s (.store .eax 0 .esp)) := by
  obtain ⟨heax, hw⟩ := hs.facts
  have haddr : s.reg .eax + 0 = thread := by
    rw [heax]
    simp
  have hmem : (s.write (s.reg .eax + 0) (s.reg .esp)).mem =
      s.mem.writeWord thread (stackSlot (callTop s₀) 17) := by
    rw [Cpu.mem_write, haddr, hs.live.esp]
    rfl
  have hwords : ∀ j < 18, stackWord (s.mem.writeWord thread (stackSlot (callTop s₀) 17))
      (callTop s₀) j = stackWord s.mem (callTop s₀) j := by
    intro j hj
    have hapart := he.thread_apart _ hj
    exact Memory.readWord_writeWord_apart ⟨hapart.2, hapart.1⟩
  have hl : Live currentThread thread s₀ 17 (s.write (s.reg .eax + 0) (s.reg .esp)) := by
    refine ⟨hs.live.esp, hs.live.others, hs.live.seg, hs.live.cs, hs.live.eflags, ?_, ?_⟩
    · rw [hmem, hwords 0 (by decide)]
      exact hs.live.parameter
    · rw [hmem, Memory.readWord_writeWord_apart he.cells_apart]
      exact hs.live.current
  refine ⟨rfl, hl.goto 19, ?_, hw.congr (by decide) fun j hj => ?_⟩
  · exact (congrArg (Memory.readWord · thread) hmem).trans (Memory.readWord_writeWord_same ..)
  · exact (congrArg (stackWord · (callTop s₀) j) hmem).trans (hwords j (by omega))

theorem Saving.loadParameter (hs : Saving currentThread thread s₀ x y 19 s) :
    Saving currentThread thread s₀ x y 20 (exec 19 s (.load .eax .esp interruptStateSize)) := by
  obtain ⟨hcell, hw⟩ := hs.facts
  have hread : s.mem.readWord (s.reg .esp + interruptStateSize) = parameter s₀ :=
    (hs.live.read (stackSlot_add _ 0 17)).trans hs.live.parameter
  exact ⟨rfl, (hs.live.setEax _).goto 20, hread, hcell, hw⟩

theorem Saving.storeCurrent (he : Called currentThread thread s₀)
    (hs : Saving currentThread thread s₀ x y 20 s) :
    ContextSaved thread s₀ x y (exec 20 s (.storeAbs currentThread .eax)) := by
  obtain ⟨heax, hcell, hw⟩ := hs.facts
  refine ⟨rfl, hs.live.esp, ?_, hw.congr (by decide) fun j hj => ?_⟩
  · rw [exec, Cpu.mem_goto, Cpu.mem_write,
      Memory.readWord_writeWord_apart ⟨he.cells_apart.2, he.cells_apart.1⟩]
    exact hcell
  · have hlt : j < 18 := by omega
    have hapart := he.current_apart _ hlt
    exact Memory.readWord_writeWord_apart ⟨hapart.2, hapart.1⟩

theorem Saving.instr (he : Called currentThread thread s₀)
    (hs : Saving currentThread thread s₀ x y i s) (hi : i ≤ 20)
    (hrun : advance (threadsLowSwitchTo currentThread) s = some t) :
    (i < 20 ∧ Saving currentThread thread s₀ x y (i + 1) t) ∨
      (i = 20 ∧ ContextSaved thread s₀ x y t) := by
  rw [advance, hs.place] at hrun
  interval_cases i <;> cases hrun
  · exact .inl ⟨by decide, hs.compare he⟩
  · exact .inl ⟨by decide, hs.je⟩
  · exact .inl ⟨by decide, hs.pushEax he⟩
  · exact .inl ⟨by decide, hs.loadReturn⟩
  · exact .inl ⟨by decide, hs.storeReturn he⟩
  · exact .inl ⟨by decide, hs.raise⟩
  · exact .inl ⟨by decide, hs.pushfd he⟩
  · exact .inl ⟨by decide, hs.reloadEax⟩
  · exact .inl ⟨by decide, hs.pushCs he⟩
  · exact .inl ⟨by decide, hs.lower⟩
  · exact .inl ⟨by decide, hs.pushZero he (.inl rfl)⟩
  · exact .inl ⟨by decide, hs.pushZero he (.inr rfl)⟩
  · exact .inl ⟨by decide, hs.pushad he⟩
  · exact .inl ⟨by decide, hs.pushSeg he rfl⟩
  · exact .inl ⟨by decide, hs.pushSeg he rfl⟩
  · exact .inl ⟨by decide, hs.pushSeg he rfl⟩
  · exact .inl ⟨by decide, hs.pushSeg he rfl⟩
  · exact .inl ⟨by decide, hs.loadCurrent⟩
  · exact .inl ⟨by decide, hs.storeEsp he⟩
  · exact .inl ⟨by decide, hs.loadParameter⟩
  · exact .inr ⟨rfl, hs.storeCurrent he⟩

/-! ## Interrupts -/

/-- The instructions in front of which words in use lie below the stack pointer. -/
def Exposed (i : Nat) : Prop := 5 ≤ i ∧ i ≤ 9

instance (i : Nat) : Decidable (Exposed i) := inferInstanceAs (Decidable (_ ∧ _))

theorem Live.irq (he : Entered h currentThread thread s₀) (hn : n < 18)
    (hl : Live currentThread thread s₀ n s) (hirq : Interrupted h i s t) :
    Live currentThread thread s₀ n t := by
  refine ⟨?_, ?_, hirq.seg_eq.trans hl.seg, hirq.cs_eq.trans hl.cs, ?_, ?_, ?_⟩
  · rw [hirq.reg_eq]
    exact hl.esp
  · rw [hirq.reg_eq]
    exact hl.others
  · rw [hirq.eflags_eq]
    exact hl.eflags
  · rw [hirq.stackWord_eq he.room hl.esp hn (Nat.zero_le _)]
    exact hl.parameter
  · rw [hirq.readWord_eq he.room hl.esp hn he.current_away]
    exact hl.current

theorem slotsUsed_lt (i : Nat) : slotsUsed i < 18 := by
  unfold slotsUsed
  split <;> omega

/-- Elsewhere every word in use lies above the stack pointer, and an interrupt changes
nothing that matters. -/
theorem Saving.irq (he : Entered h currentThread thread s₀)
    (hs : Saving currentThread thread s₀ x y i s) (hi : i ≤ 20) (hsafe : ¬ Exposed i)
    (hirq : Interrupted h j s t) : Saving currentThread thread s₀ x y i t := by
  have hl := hs.live
  have hword : ∀ k ≤ slotsUsed i, stackWord t.mem (callTop s₀) k =
      stackWord s.mem (callTop s₀) k := fun k hk =>
    hirq.stackWord_eq he.room hl.esp (slotsUsed_lt i) hk
  have hcell := hirq.readWord_eq he.room hl.esp (slotsUsed_lt i) he.thread_away
  refine ⟨hirq.place_eq.trans hs.place, hl.irq he (slotsUsed_lt i) hirq, ?_⟩
  have hfacts := hs.facts
  unfold Exposed at hsafe
  have hwritten : ∀ n, 3 ≤ n → n ≤ slotsUsed i → Written s₀ x y n s → Written s₀ x y n t :=
    fun n hn hle hw => hw.congr hn fun k hk => hword k (by omega)
  have heax : t.reg .eax = s.reg .eax := congrFun hirq.reg_eq .eax
  interval_cases i
  case «0» | «2» =>
    exact ⟨(hword 1 (by decide)).trans hfacts.1, heax.trans hfacts.2⟩
  case «1» =>
    exact ⟨(hword 1 (by decide)).trans hfacts.1, heax.trans hfacts.2.1,
      (congrArg zeroFlag hirq.eflags_eq).trans hfacts.2.2⟩
  case «3» =>
    exact ⟨(hword 1 (by decide)).trans hfacts.1, (hword 2 (by decide)).trans hfacts.2⟩
  case «4» => exact ⟨heax.trans hfacts.1, (hword 2 (by decide)).trans hfacts.2⟩
  case «5» | «6» | «7» | «8» | «9» => exact absurd ⟨by decide, by decide⟩ hsafe
  case «10» | «11» | «12» =>
    exact ⟨heax.trans hfacts.1, hwritten _ (by decide) (Nat.le_refl _) hfacts.2⟩
  case «18» => exact ⟨heax.trans hfacts.1, hwritten 17 (by decide) (by decide) hfacts.2⟩
  case «19» => exact ⟨hcell.trans hfacts.1, hwritten 17 (by decide) (by decide) hfacts.2⟩
  case «20» =>
    exact ⟨heax.trans hfacts.1, hcell.trans hfacts.2.1,
      hwritten 17 (by decide) (by decide) hfacts.2.2⟩
  all_goals exact hwritten _ (by decide) (Nat.le_refl _) hfacts

/-- A word that an interrupt inside the routine pushes: the flags up to the status
flags, CS, or the address of an instruction of the routine. -/
def Pushed (h : Handlers) (s₀ : Cpu) (w : Word) : Prop :=
  SameControl w s₀.eflags ∨ w = s₀.cs.setWidth 32 ∨ ∃ i, w = h.code i

/-- In front of the five instructions an interrupt replaces the return address that is
to be saved by a word of its own frame. -/
theorem Saving.exposed (he : Entered h currentThread thread s₀)
    (hs : Saving currentThread thread s₀ x y i s) (hexposed : Exposed i)
    (hirq : Interrupted h j s t) :
    ∃ x' y', Pushed h s₀ x' ∧ Saving currentThread thread s₀ x' y' i t := by
  have hl := hs.live
  have hword : ∀ k ≤ slotsUsed i, stackWord t.mem (callTop s₀) k =
      stackWord s.mem (callTop s₀) k := fun k hk =>
    hirq.stackWord_eq he.room hl.esp (slotsUsed_lt i) hk
  have hplace := hirq.place_eq.trans hs.place
  have hlive := hl.irq he (slotsUsed_lt i) hirq
  obtain ⟨hflags, hcs, heip⟩ := hirq.pushed hl.esp
  have hfacts := hs.facts
  have heax : t.reg .eax = s.reg .eax := congrFun hirq.reg_eq .eax
  have hpushed : Pushed h s₀ s.eflags := .inl hl.eflags
  have hpushed' : Pushed h s₀ (s.cs.setWidth 32) := .inr (.inl (by rw [hl.cs]))
  obtain ⟨h5, h9⟩ := hexposed
  interval_cases i
  case «5» =>
    exact ⟨s.eflags, y, hpushed, hplace, hlive, hflags, (hword 2 (by decide)).trans hfacts.2⟩
  case «6» =>
    exact ⟨h.code j, s.cs.setWidth 32, .inr (.inr ⟨j, rfl⟩), hplace, hlive, heip, hcs⟩
  case «7» =>
    exact ⟨s.cs.setWidth 32, s.eflags, hpushed', hplace, hlive, hcs, hflags,
      (congrArg (SameControl · s₀.eflags) (hword 1 (by decide))).mpr hfacts.2.2⟩
  case «8» =>
    exact ⟨s.cs.setWidth 32, y, hpushed', hplace, hlive, hcs, heax.trans hfacts.2.1,
      (congrArg (SameControl · s₀.eflags) (hword 1 (by decide))).mpr hfacts.2.2⟩
  case «9» =>
    exact ⟨s.eflags, y, hpushed, hplace, hlive, hflags, heax.trans hfacts.2.1,
      (congrArg (SameControl · s₀.eflags) (hword 1 (by decide))).mpr hfacts.2.2.1,
      (hword 2 (by decide)).trans hfacts.2.2.2⟩

theorem ContextSaved.irq (he : Entered h currentThread thread s₀)
    (hs : ContextSaved thread s₀ x y s) (hirq : Interrupted h j s t) :
    ContextSaved thread s₀ x y t := by
  refine ⟨hirq.place_eq.trans hs.place, ?_, ?_, hs.frame.congr (by decide) fun k hk => ?_⟩
  · rw [hirq.reg_eq]
    exact hs.esp
  · rw [hirq.readWord_eq he.room hs.esp (by decide) he.thread_away]
    exact hs.cell
  · exact hirq.stackWord_eq he.room hs.esp (by decide) hk

/-! ## Whole runs of the first half -/

/-- No interrupt is taken in front of the exposed instructions. -/
def Unexposed (s : Cpu) (e : Event) : Prop := e = .irq → ∀ i, s.place = .inside i → ¬ Exposed i

def Left (s : Cpu) : Prop := ∀ i, s.place = .inside i → stackSwitch < i

/-- The only jump of the routine is its second instruction. -/
theorem ne_je {ins : Instr} (h : (threadsLowSwitchTo currentThread)[i]? = some ins) (hi : 2 ≤ i)
    (target : Nat) : ins ≠ .je target := by
  have hmem : ins ∈ (threadsLowSwitchTo currentThread).drop 2 := by
    refine List.mem_of_getElem? (i := i - 2) ?_
    rw [List.getElem?_drop, Nat.add_sub_cancel' hi]
    exact h
  rintro rfl
  simp [threadsLowSwitchTo, buildFrame, saveRegisters, changeThread, restoreRegisters, loadContext]
    at hmem

theorem place_exec {ins : Instr} (hje : ∀ target, ins ≠ .je target) :
    (exec i s ins).place = .inside (i + 1) ∨ ∃ a, (exec i s ins).place = .outside a := by
  cases ins with
  | je target => exact absurd rfl (hje target)
  | iret => exact .inr ⟨_, rfl⟩
  | _ => exact .inl rfl

/-- The routine only goes forward, and not beyond its last instruction. -/
theorem place_advance (hplace : s.place = .inside i)
    (hrun : advance (threadsLowSwitchTo currentThread) s = some t) :
    (∃ k, i < k ∧ k < 39 ∧ t.place = .inside k) ∨ ∃ a, t.place = .outside a := by
  rw [advance, hplace] at hrun
  obtain ⟨ins, hins, rfl⟩ := Option.map_eq_some_iff.mp hrun
  have hlast : i < 39 := (List.getElem?_eq_some_iff.mp hins).1
  rcases Nat.lt_or_ge i 2 with hi | hi
  · interval_cases i <;> cases hins
    · exact .inl ⟨1, by decide, by decide, rfl⟩
    · rw [exec]
      split
      · exact .inl ⟨contextLoadOnly, by decide, by decide, rfl⟩
      · exact .inl ⟨2, by decide, by decide, rfl⟩
  · rcases Nat.lt_or_eq_of_le (Nat.le_of_lt_succ hlast) with hlt | rfl
    · exact (place_exec (ne_je hins hi)).imp_left fun h => ⟨i + 1, by omega, by omega, h⟩
    · cases hins
      exact .inr ⟨_, rfl⟩

/-- From every instruction the routine leaves. -/
theorem routine_leaves (currentThread : Word) (h : Handlers) (hplace : s.place = .inside i)
    (hi : i < 39) : ∃ run a, IsRun (Step (threadsLowSwitchTo currentThread) h) s run ∧
      (last s run).place = .outside a := by
  obtain ⟨n, hn⟩ : ∃ n, i + n = 38 := ⟨38 - i, by omega⟩
  induction n using Nat.strong_induction_on generalizing i s with
  | _ n ih =>
    obtain ⟨t, ht⟩ : ∃ t, advance (threadsLowSwitchTo currentThread) s = some t := by
      have hlength : (threadsLowSwitchTo currentThread).length = 39 := rfl
      rw [advance, hplace]
      dsimp only
      rw [List.getElem?_eq_getElem (by omega)]
      exact ⟨_, rfl⟩
    rcases place_advance hplace ht with ⟨k, hk, hlast, hnext⟩ | ⟨a, hout⟩
    · obtain ⟨run, a, hrun, hout⟩ := ih (38 - k) (by omega) hnext hlast (by omega)
      exact ⟨(.instr, t) :: run, a, ⟨.instr ht, hrun⟩, hout⟩
    · exact ⟨[(.instr, t)], a, ⟨.instr ht, trivial⟩, hout⟩

theorem Left.of_advance (hplace : s.place = .inside i) (hi : stackSwitch ≤ i)
    (hrun : advance (threadsLowSwitchTo currentThread) s = some t) : Left t := by
  intro k hk
  rcases place_advance hplace hrun with ⟨j, hj, -, hnext⟩ | ⟨a, hleft⟩
  · cases hnext.symm.trans hk
    omega
  · cases hleft.symm.trans hk

theorem Left.step {e : Event} (hs : Left s)
    (hstep : Step (threadsLowSwitchTo currentThread) h s e t) : Left t := by
  cases hstep with
  | instr hrun =>
      cases hplace : s.place with
      | inside i => exact Left.of_advance hplace (hs i hplace).le hrun
      | outside a =>
          rw [advance, hplace] at hrun
          cases hrun
  | irq hirq =>
      intro i hi
      exact hs i (hirq.place_eq ▸ hi)

theorem Left.run {run : List (Event × Cpu)} (hs : Left s)
    (hrun : IsRun (Step (threadsLowSwitchTo currentThread) h) s run) :
    (last s run).place ≠ .inside stackSwitch := by
  have hleft : Left (last s run) := last_of_everyState
    (everyState_of_step (fun _ _ _ hs hstep => hs.step hstep) hs hrun)
  intro hplace
  exact absurd (hleft _ hplace) (Nat.lt_irrefl _)

def FirstHalf (currentThread thread : Word) (s₀ : Cpu) (x y : Word) (s : Cpu) : Prop :=
  (∃ i ≤ 20, Saving currentThread thread s₀ x y i s) ∨ ContextSaved thread s₀ x y s

/-- The frame holds the return address and `eax` if no interrupt hit an exposed
instruction, and else a word that an interrupt pushed in place of the return address. -/
theorem FirstHalf.run {run : List (Event × Cpu)} (he : Entered h currentThread thread s₀)
    (hs : FirstHalf currentThread thread s₀ x y s)
    (hrun : IsRun (Step (threadsLowSwitchTo currentThread) h) s run)
    (hend : (last s run).place = .inside stackSwitch) :
    ∃ x' y', ContextSaved thread s₀ x' y' (last s run) ∧
      (EveryStep Unexposed s run → x' = x ∧ y' = y) ∧
      (¬ EveryStep Unexposed s run → Pushed h s₀ x') := by
  induction run generalizing s x y with
  | nil =>
      rcases hs with ⟨i, hi, hs⟩ | hs
      · cases hs.place.symm.trans hend
        exact absurd hi (by decide)
      · exact ⟨x, y, hs, fun _ => ⟨rfl, rfl⟩, fun hno => absurd trivial hno⟩
  | cons e rest ih =>
      obtain ⟨e, t⟩ := e
      obtain ⟨hstep, hrest⟩ := hrun
      have hkept : Unexposed s e → FirstHalf currentThread thread s₀ x y t →
          ∃ x' y', ContextSaved thread s₀ x' y' (last t rest) ∧
            (EveryStep Unexposed s ((e, t) :: rest) → x' = x ∧ y' = y) ∧
            (¬ EveryStep Unexposed s ((e, t) :: rest) → Pushed h s₀ x') := by
        intro hsafe ht
        obtain ⟨x', y', hsaved, hall, hsome⟩ := ih ht hrest hend
        exact ⟨x', y', hsaved, fun h => hall h.2, fun h => hsome fun h' => h ⟨hsafe, h'⟩⟩
      rcases hs with ⟨i, hi, hs⟩ | hs
      · cases hstep with
        | instr hadvance =>
            have hsafe : Unexposed s .instr := fun hc => by cases hc
            rcases hs.instr he.called hi hadvance with ⟨hlt, hnext⟩ | ⟨-, hsaved⟩
            · exact hkept hsafe (.inl ⟨i + 1, hlt, hnext⟩)
            · exact hkept hsafe (.inr hsaved)
        | irq hirq =>
            by_cases hexposed : Exposed i
            · obtain ⟨x₁, y₁, hpushed, hnext⟩ := hs.exposed he hexposed hirq
              obtain ⟨x', y', hsaved, hall, hsome⟩ := ih (.inl ⟨i, hi, hnext⟩) hrest hend
              refine ⟨x', y', hsaved, fun h => absurd hexposed (h.1 rfl i hs.place), fun _ => ?_⟩
              by_cases hrest' : EveryStep Unexposed t rest
              · rw [(hall hrest').1]
                exact hpushed
              · exact hsome hrest'
            · refine hkept (fun _ k hk => ?_) (.inl ⟨i, hi, hs.irq he hi hexposed hirq⟩)
              cases hs.place.symm.trans hk
              exact hexposed
      · cases hstep with
        | instr hadvance =>
            exact absurd hend ((Left.of_advance hs.place (Nat.le_refl _) hadvance).run hrest)
        | irq hirq =>
            refine hkept (fun _ k hk => ?_) (.inr (hs.irq he hirq))
            cases hs.place.symm.trans hk
            exact fun hc => absurd hc.2 (by decide)

end

end TeachingKernel.Switch
