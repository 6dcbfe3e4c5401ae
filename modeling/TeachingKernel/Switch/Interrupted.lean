import TeachingKernel.Switch.Footprint

/-!
# Context switches with interrupts on

Interrupts may hit the routine in front of any of its instructions. When the thread is
switched back in, it goes on behind its call with its registers exactly when none of
them hit an exposed instruction.
-/

namespace TeachingKernel.Switch

open X86 Runs

/-- The control block's stack pointer and the 68 bytes from the saved stack pointer on. -/
def InContext (thread : Word) (m : Memory) (b : Word) : Prop :=
  (b - thread).toNat < 4 ∨ (b - m.readWord thread).toNat < 68

/-- In state `u` the routine, in whatever call of it, is about to switch to the stack of
`thread`, whose context in `m` was not written since. -/
structure SwitchedTo (h : Handlers) (thread : Word) (m : Memory) (u : Cpu) : Prop where
  place : u.place = .inside stackSwitch
  eax : u.reg .eax = thread
  kept : ∀ b, InContext thread m b → u.mem b = m b
  apart : ∀ b, InContext thread m b → ¬ h.Scratch (u.reg .esp) b

/-- The caller of the routine in state `s` goes on: behind the call, with the stack
pointer just above the return address, and with its registers. -/
structure GoesOn (s u : Cpu) : Prop where
  place : u.place = .outside (returnAddress s)
  esp : u.reg .esp = s.reg .esp + 4
  reg : ∀ r, r ≠ .esp → u.reg r = s.reg r
  seg : u.seg = s.seg

/-- Whenever `thread` is switched back in, from the context that `m` holds, the routine
leaves, and whatever interrupts are taken then, the caller of state `s` goes on. -/
def ResumesCaller (h : Handlers) (currentThread thread : Word) (s : Cpu) (m : Memory) : Prop :=
  ∀ u, SwitchedTo h thread m u →
    (∃ run a, IsRun (Step (threadsLowSwitchTo currentThread) h) u run ∧
      (last u run).place = .outside a) ∧
    ∀ run a, IsRun (Step (threadsLowSwitchTo currentThread) h) u run →
      (last u run).place = .outside a → GoesOn s (last u run)

section

variable {h : Handlers} {currentThread thread : Word} {s₀ s t u : Cpu} {x y : Word} {m : Memory}
  {i : Nat}

theorem SwitchedTo.irq (hu : SwitchedTo h thread m u) (hirq : Interrupted h i u t) :
    SwitchedTo h thread m t := by
  refine ⟨hirq.place_eq.trans hu.place, ?_, fun b hb => ?_, fun b hb => ?_⟩
  · rw [hirq.reg_eq]
    exact hu.eax
  · rw [hirq.kept b (hu.apart b hb)]
    exact hu.kept b hb
  · rw [hirq.reg_eq]
    exact hu.apart b hb

theorem SwitchedTo.words (hu : SwitchedTo h thread m u)
    (hcell : m.readWord thread = stackSlot (callTop s₀) frameSlots) :
    u.mem.readWord thread = stackSlot (callTop s₀) frameSlots ∧
      ∀ j, 1 ≤ j → j ≤ frameSlots →
        stackWord u.mem (callTop s₀) j = stackWord m (callTop s₀) j := by
  constructor
  · rw [← hcell]
    exact Memory.readWord_congr fun b hb => hu.kept b (.inl hb)
  · intro j hj hle
    unfold frameSlots at hle
    have hmul := toNat_four_mul (j := j) (by omega)
    refine Memory.readWord_congr fun b hb => hu.kept b (.inr ?_)
    rw [hcell]
    unfold stackSlot frameSlots at *
    bv_omega

theorem SwitchedTo.advance (hu : SwitchedTo h thread m u) {c : Context}
    (hcell : m.readWord thread = stackSlot (callTop s₀) frameSlots)
    (hsaved : SavedTo m (callTop s₀) c frameSlots)
    (hrun : X86.advance (threadsLowSwitchTo currentThread) u = some t) :
    Restoring 22 (callTop s₀) c 0 t := by
  obtain ⟨hcell', hwords⟩ := hu.words hcell
  exact restoring_of_load hu.place rfl hu.eax hcell' (hsaved.congr (by decide) hwords) hrun

/-- A run from the switch on that leaves goes on with the saved context. -/
theorem SwitchedTo.run {c : Context} {a : Word} {run : List (Event × Cpu)}
    (hu : SwitchedTo h thread m u) (hroom : h.Room (callTop s₀) 18)
    (hcell : m.readWord thread = stackSlot (callTop s₀) frameSlots)
    (hsaved : SavedTo m (callTop s₀) c frameSlots)
    (hrun : IsRun (Step (threadsLowSwitchTo currentThread) h) u run)
    (hleft : (last u run).place = .outside a) : Resumed (callTop s₀) c (last u run) := by
  induction run generalizing u with
  | nil => cases hu.place.symm.trans hleft
  | cons e rest ih =>
      obtain ⟨e, t⟩ := e
      obtain ⟨hstep, hrest⟩ := hrun
      cases hstep with
      | instr hadvance =>
          have hnext := hu.advance hcell hsaved hadvance
          show Resumed _ c (last t rest)
          exact hnext.run restoresAt_switch hroom (by decide) hrest hleft
      | irq hirq => exact ih (hu.irq hirq) hrest hleft

/-- The switch itself, as a state right before it on the thread's own stack. -/
theorem ContextSaved.switchedTo (he : Entered h currentThread thread s₀)
    (hs : ContextSaved thread s₀ x y t) :
    SwitchedTo h thread t.mem (t.setReg .eax thread) := by
  have hesp : (t.setReg .eax thread).reg .esp = stackSlot (callTop s₀) 17 := hs.esp
  have hfits := he.room.fits
  have hmul := toNat_four_mul (j := 17) (by decide)
  refine ⟨hs.place, rfl, fun b _ => rfl, fun b hb => ?_⟩
  rw [hesp]
  rcases hb with hb | hb
  · have haway := he.thread_away b hb
    rintro (hstack | howned)
    · refine haway (.inl ?_)
      unfold stackSlot at hstack
      bv_omega
    · exact haway (.inr howned)
  · rw [hs.cell] at hb
    unfold stackSlot frameSlots at hb
    rintro (hstack | howned)
    · unfold stackSlot at hstack
      bv_omega
    · exact he.room.free b (by bv_omega) howned

/-- The caller goes on whenever it is switched back in, if and only if its return address
and its `eax` lie in the frame. -/
theorem ContextSaved.resumes_iff (he : Entered h currentThread thread s₀)
    (hs : ContextSaved thread s₀ x y t) :
    (x = returnAddress s₀ → y = s₀.reg .eax →
      ResumesCaller h currentThread thread s₀ t.mem) ∧
    (ResumesCaller h currentThread thread s₀ t.mem → x = returnAddress s₀) := by
  obtain ⟨eflags, -, hsaved⟩ := hs.frame
  constructor
  · rintro rfl rfl u hu
    refine ⟨routine_leaves currentThread h hu.place (by decide), fun run a hrun hleft => ?_⟩
    have hres := hu.run he.room hs.cell hsaved hrun hleft
    refine ⟨hres.place, hres.esp, fun r hr => ?_, hres.seg⟩
    rw [hres.reg r hr]
    show Function.update s₀.reg .eax (s₀.reg .eax) r = _
    rw [Function.update_eq_self]
  · intro hresumes
    have hu := hs.switchedTo he
    obtain ⟨run, a, hrun, hleft⟩ := routine_leaves currentThread h hu.place (by decide)
    have hres := hu.run he.room hs.cell hsaved hrun hleft
    have hgoes := (hresumes _ hu).2 run a hrun hleft
    exact Place.outside.inj (hres.place.symm.trans hgoes.place)

theorem Entered.firstHalf (he : Entered h currentThread thread s) :
    FirstHalf currentThread thread s (returnAddress s) (s.reg .eax) s :=
  .inl ⟨0, by decide, he.called.saving⟩

/-- After an interrupt in front of an exposed instruction the caller is lost, unless its
return address happens to be a word that an interrupt pushes. -/
theorem not_resumesCaller_of_exposed {run : List (Event × Cpu)}
    (he : Entered h currentThread thread s)
    (hrun : IsRun (Step (threadsLowSwitchTo currentThread) h) s run)
    (hend : (last s run).place = .inside stackSwitch) (hret : ¬ Pushed h s (returnAddress s))
    (hexposed : ¬ EveryStep Unexposed s run) :
    ¬ ResumesCaller h currentThread thread s (last s run).mem := by
  obtain ⟨x, y, hsaved, -, hsome⟩ := he.firstHalf.run he hrun hend
  intro hresumes
  exact hret ((hsaved.resumes_iff he).2 hresumes ▸ hsome hexposed)

/-- A call of the routine by a running thread, with interrupts in front of any of its
instructions until the stack is switched. If none of them hits an exposed instruction,
the caller goes on when it is switched back in; and unless its return address happens to
be a word that an interrupt pushes, it goes on only then. -/
theorem resumesCaller_iff {run : List (Event × Cpu)} (he : Entered h currentThread thread s)
    (hrun : IsRun (Step (threadsLowSwitchTo currentThread) h) s run)
    (hend : (last s run).place = .inside stackSwitch) :
    (EveryStep Unexposed s run →
      ResumesCaller h currentThread thread s (last s run).mem) ∧
    (¬ Pushed h s (returnAddress s) →
      ResumesCaller h currentThread thread s (last s run).mem → EveryStep Unexposed s run) := by
  constructor
  · intro hsteps
    obtain ⟨x, y, hsaved, hall, -⟩ := he.firstHalf.run he hrun hend
    obtain ⟨hx, hy⟩ := hall hsteps
    exact (hsaved.resumes_iff he).1 hx hy
  · intro hret hresumes
    by_contra hsteps
    exact not_resumesCaller_of_exposed he hrun hend hret hsteps hresumes

end

/-! ## Sample runs -/

instance (s : Cpu) (e : Event) : Decidable (Unexposed s e) :=
  match hplace : s.place with
  | .inside i => decidable_of_iff (e = .irq → ¬ Exposed i) (by simp [Unexposed, hplace])
  | .outside _ => .isTrue fun _ i hi => by simp [hplace] at hi

def take (program : List Instr) (h : Handlers) (s : Cpu) : Event → Option Cpu
  | .instr => advance program s
  | .irq =>
      match s.place with
      | .inside i => if interruptFlag s.eflags then some (interrupt h i s) else none
      | .outside _ => none

theorem step_of_take {program : List Instr} {h : Handlers} {s t : Cpu} {e : Event}
    (htake : take program h s e = some t) : Step program h s e t := by
  cases e with
  | instr => exact .instr htake
  | irq =>
      cases hplace : s.place with
      | outside a =>
          simp only [take, hplace] at htake
          cases htake
      | inside i =>
          simp only [take, hplace] at htake
          split at htake
          · rename_i henabled
            cases htake
            exact .irq (interrupted_interrupt henabled hplace)
          · cases htake

def sampleHandlers : Handlers where
  code i := 0x101000 + BitVec.ofNat 32 (i % 256)
  depth := 1024
  owned _ := False
  frame_fits := by decide

def sampleCall : Cpu where
  place := .inside 0
  reg r := if r = .esp then 0x400000 else 7
  seg _ := 0x10
  cs := 8
  eflags := 0x202
  mem := Memory.writeWord (Memory.writeWord (Memory.writeWord (fun _ => 0) 0x200000 0x300000)
    0x400000 0x102000) 0x400004 0x300100

theorem sampleCall_entered : Entered sampleHandlers 0x200000 0x300000 sampleCall := by
  have htop : callTop sampleCall = 0x400004 := by decide
  refine ⟨rfl, by decide +kernel, by decide, ⟨by decide, fun _ _ hb => hb⟩, ?_, ?_,
    ⟨by decide, by decide⟩⟩
  · rw [htop]
    rintro b hb (hstack | hb')
    · have hdepth : sampleHandlers.depth = 1024 := rfl
      bv_omega
    · exact hb'
  · rw [htop]
    rintro b hb (hstack | hb')
    · have hdepth : sampleHandlers.depth = 1024 := rfl
      bv_omega
    · exact hb'

theorem sampleCall_not_pushed : ¬ Pushed sampleHandlers sampleCall (returnAddress sampleCall) := by
  have hret : returnAddress sampleCall = 0x102000 := by decide +kernel
  rw [hret]
  rintro (hflags | hcs | ⟨i, hi⟩)
  · exact absurd hflags (by unfold SameControl; decide)
  · exact absurd hcs (by decide)
  · have hcode : sampleHandlers.code i = 0x101000 + BitVec.ofNat 32 (i % 256) := rfl
    rw [hcode] at hi
    bv_omega

def sampleRun (interrupted : List Nat) : Option (List (Event × Cpu)) :=
  runOf (take (threadsLowSwitchTo 0x200000) sampleHandlers) sampleCall
    ((List.range stackSwitch).flatMap fun i =>
      if i ∈ interrupted then [.irq, .instr] else [.instr])

theorem sampleRun_spec (interrupted : List Nat) (good : Bool)
    (h : (sampleRun interrupted).map (fun run => ((last sampleCall run).place,
      decide (EveryStep Unexposed sampleCall run))) = some (.inside stackSwitch, good)) :
    ∃ run, IsRun (Step (threadsLowSwitchTo 0x200000) sampleHandlers) sampleCall run ∧
      (last sampleCall run).place = .inside stackSwitch ∧
      (EveryStep Unexposed sampleCall run ↔ good = true) := by
  obtain ⟨run, hrun, hspec⟩ := Option.map_eq_some_iff.mp h
  obtain ⟨hplace, hgood⟩ := Prod.mk.inj hspec
  exact ⟨run, isRun_of_runOf (fun _ _ _ => step_of_take) hrun, hplace, by rw [← hgood]; simp⟩

theorem resumesCaller_sampleRun : ∃ run,
    IsRun (Step (threadsLowSwitchTo 0x200000) sampleHandlers) sampleCall run ∧
      ResumesCaller sampleHandlers 0x200000 0x300000 sampleCall (last sampleCall run).mem := by
  obtain ⟨run, hrun, hend, hgood⟩ :=
    sampleRun_spec [2, 17] true (by decide +kernel)
  exact ⟨run, hrun, (resumesCaller_iff sampleCall_entered hrun hend).1 (hgood.mpr rfl)⟩

/-- One interrupt behind `add esp, 8` loses the caller. -/
theorem caller_lost : ∃ run,
    Entered sampleHandlers 0x200000 0x300000 sampleCall ∧
      IsRun (Step (threadsLowSwitchTo 0x200000) sampleHandlers) sampleCall run ∧
      (last sampleCall run).place = .inside stackSwitch ∧
      ¬ ResumesCaller sampleHandlers 0x200000 0x300000 sampleCall (last sampleCall run).mem := by
  obtain ⟨run, hrun, hend, hgood⟩ :=
    sampleRun_spec [6] false (by decide +kernel)
  refine ⟨run, sampleCall_entered, hrun, hend, not_resumesCaller_of_exposed sampleCall_entered hrun
    hend sampleCall_not_pushed fun hall => ?_⟩
  exact Bool.false_ne_true (hgood.mp hall)

end TeachingKernel.Switch
