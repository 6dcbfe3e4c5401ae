import TeachingKernel.Switch.Interrupted

/-!
# A context switch and back

The threads of P5 run with the interrupt flag clear. A thread calls the routine; others
run, call it themselves and leave the stack of the first one alone, until one of them
switches back. The first thread then goes on behind its call, as if nothing had happened.
-/

namespace TeachingKernel.Switch

open X86 Runs

/-- The threads by the addresses of their control blocks, the bytes of each one's stack,
and the address of `_current_thread`. A control block starts with the stack pointer. -/
structure Layout where
  currentThread : Word
  IsThread : Word → Prop
  stack : Word → Word → Prop
  nonzero : ∀ x, IsThread x → x ≠ 0
  stacks_apart : ∀ x y b, IsThread x → IsThread y → stack x b → stack y b → x = y
  blocks_apart : ∀ x y, IsThread x → IsThread y → x ≠ y → Memory.Apart x y
  stack_block : ∀ x y b, IsThread x → IsThread y → stack x b → ¬ InWord y b
  stack_current : ∀ x b, IsThread x → stack x b → ¬ InWord currentThread b
  block_current : ∀ x, IsThread x → Memory.Apart x currentThread

/-- Thread `x` is about to execute the routine for another thread or for itself, with room
for its frame on its own stack: eighteen words from the parameter down. -/
structure Calls (L : Layout) (x : Word) (s : Cpu) : Prop where
  place : s.place = .inside 0
  current : s.mem.readWord L.currentThread = x
  isThread : L.IsThread x
  next : L.IsThread (parameter s)
  disabled : interruptFlag s.eflags = false
  room : ∀ b, InSlots (callTop s + 4) 18 b → L.stack x b

/-- The caller of the routine in state `s` goes on: behind the call, with the stack pointer
just above the return address, its registers, its interrupt flag and its stack, of which
only the words below the stack pointer changed. -/
structure Continues (L : Layout) (x : Word) (s u : Cpu) : Prop where
  place : u.place = .outside (returnAddress s)
  esp : u.reg .esp = s.reg .esp + 4
  reg : ∀ r, r ≠ .esp → u.reg r = s.reg r
  seg : u.seg = s.seg
  flag : interruptFlag u.eflags = interruptFlag s.eflags
  stack : ∀ b, L.stack x b → ¬ InSlots (u.reg .esp) 17 b → u.mem b = s.mem b
  current : u.mem.readWord L.currentThread = x

inductive LaterEvent where
  | routine (e : Event)
  | work

/-- What happens after thread `x` called the routine: the instructions of the routine, and
the work of another thread, which may change its registers and all memory but the stack
and the stack pointer of `x` and `_current_thread`, and may call the routine. -/
inductive Later (L : Layout) (h : Handlers) (x : Word) : Cpu → LaterEvent → Cpu → Prop
  | routine {s t e} (hstep : Step (threadsLowSwitchTo L.currentThread) h s e t) :
      Later L h x s (.routine e) t
  | work {s t a} (hplace : s.place = .outside a) (hother : s.mem.readWord L.currentThread ≠ x)
      (hkeeps : ∀ b, L.stack x b ∨ InWord x b ∨ InWord L.currentThread b → t.mem b = s.mem b)
      (hthen : (∃ a', t.place = .outside a') ∨ Calls L (t.mem.readWord L.currentThread) t) :
      Later L h x s .work t

def ComesBack (L : Layout) (h : Handlers) (x : Word) (s u : Cpu) : Prop :=
  (∃ run a, IsRun (Step (threadsLowSwitchTo L.currentThread) h) u run ∧
      (last u run).place = .outside a) ∧
    ∀ run a, IsRun (Step (threadsLowSwitchTo L.currentThread) h) u run →
      (last u run).place = .outside a → Continues L x s (last u run)

/-- Whoever calls the routine for `x` brings it back, and `x` only runs again so. -/
structure BringsBack (L : Layout) (h : Handlers) (x : Word) (s u : Cpu) : Prop where
  called : u.place = .inside 0 → parameter u = x → ComesBack L h x s u
  resumed : ∀ a, u.place = .outside a → u.mem.readWord L.currentThread = x → Continues L x s u

/-! ## The invariant -/

/-- The frame of the call in state `s` lies on the stack of `x`, whose other words are as
they were, and its control block points to the frame. -/
structure Suspended (L : Layout) (x : Word) (s : Cpu) (m : Memory) : Prop where
  cell : m.readWord x = stackSlot (callTop s) frameSlots
  frame : ∃ eflags, SameControl eflags s.eflags ∧
    SavedTo m (callTop s) (callerContext s (returnAddress s) (s.reg .eax) eflags) frameSlots
  stack : ∀ b, L.stack x b → ¬ InSlots (callTop s) frameSlots b → m b = s.mem b

def Reentering (x : Word) (s : Cpu) (i : Nat) (u : Cpu) : Prop :=
  (i = stackSwitch ∧ u.reg .eax = x) ∨ ∃ k eflags, i = 22 + k ∧ SameControl eflags s.eflags ∧
    Restoring 22 (callTop s) (callerContext s (returnAddress s) (s.reg .eax) eflags) k u

/-- In front of instruction `i` of a call for thread `z`: the call of `x` in state `s`, a
later call of another thread, or the second half of a call. -/
inductive InCall (L : Layout) (x : Word) (s : Cpu) (z : Word) (i : Nat) (u : Cpu) : Prop
  | own (hi : i ≤ 20) (hz : parameter s = z)
      (hs : Saving L.currentThread x s (returnAddress s) (s.reg .eax) i u)
      (hstack : ∀ b, L.stack x b → ¬ InSlots (callTop s) frameSlots b → u.mem b = s.mem b)
  | other {y : Word} {s' : Cpu} (hi : i ≤ 20) (hy : y ≠ x) (hcalls : Calls L y s')
      (hz : parameter s' = z)
      (hs : Saving L.currentThread y s' (returnAddress s') (s'.reg .eax) i u)
      (hsuspended : Suspended L x s u.mem)
  | second (hlo : stackSwitch ≤ i) (hhi : i ≤ 28) (hplace : u.place = .inside i)
      (hz : L.IsThread z) (hcurrent : u.mem.readWord L.currentThread = z)
      (hdisabled : interruptFlag u.eflags = false) (hsuspended : Suspended L x s u.mem)
      (hback : z = x → Reentering x s i u)

structure Running (L : Layout) (x : Word) (s : Cpu) (z : Word) (u : Cpu) : Prop where
  place : ∃ a, u.place = .outside a
  current : u.mem.readWord L.currentThread = z
  suspended : z ≠ x → Suspended L x s u.mem
  resumed : z = x → Continues L x s u

section

variable {L : Layout} {h : Handlers} {x y z : Word} {s s' t u : Cpu} {i k : Nat} {b : Word}
  {e : Event}

theorem advance_of_step {program : List Instr} (hdisabled : interruptFlag s.eflags = false)
    (hstep : Step program h s e t) : advance program s = some t := by
  cases hstep with
  | instr hrun => exact hrun
  | irq hirq => exact absurd (hirq.enabled.symm.trans hdisabled) (by decide)

/-! ## Whose bytes are whose -/

theorem Calls.inSlots (hc : Calls L x s) (hb : InSlots (callTop s) frameSlots b) : L.stack x b := by
  refine hc.room b ?_
  unfold InSlots frameSlots at *
  bv_omega

theorem Calls.inWord (hc : Calls L x s) {j : Nat} (hj : j < 18)
    (hb : InWord (stackSlot (callTop s) j) b) : L.stack x b := by
  have hmul := toNat_four_mul (j := j) (by omega)
  refine hc.room b ?_
  unfold InWord stackSlot at hb
  unfold InSlots
  bv_omega

theorem Calls.called (hc : Calls L x s) : Called L.currentThread x s := by
  refine ⟨hc.place, hc.current, L.nonzero x hc.isThread, fun j hj => ?_, fun j hj => ?_,
    L.block_current x hc.isThread⟩
  · exact apart_of_inWord fun b hb => L.stack_current x b hc.isThread (hc.inWord hj hb)
  · exact apart_of_inWord fun b hb => L.stack_block x x b hc.isThread hc.isThread (hc.inWord hj hb)

/-- A call of `y` writes nothing that belongs to another thread. -/
theorem Calls.not_footprint (hc : Calls L y s') (hx : L.IsThread x) (hne : y ≠ x)
    (hb : L.stack x b ∨ InWord x b) : ¬ Footprint L.currentThread y s' b := by
  have hy := hc.isThread
  rcases hb with hb | hb
  · rintro (hslot | hblock | hcurrent)
    · exact hne (L.stacks_apart y x b hy hx (hc.inSlots hslot) hb)
    · exact L.stack_block x y b hx hy hb hblock
    · exact L.stack_current x b hx hb hcurrent
  · rintro (hslot | hblock | hcurrent)
    · exact L.stack_block y x b hy hx (hc.inSlots hslot) hb
    · exact not_inWord_of_apart (L.blocks_apart y x hy hx hne) hblock hb
    · exact not_inWord_of_apart (L.block_current x hx) hb hcurrent

theorem Suspended.congr {m m' : Memory} (hc : Calls L x s) (hs : Suspended L x s m)
    (hkeeps : ∀ b, L.stack x b ∨ InWord x b → m' b = m b) : Suspended L x s m' := by
  obtain ⟨eflags, hsame, hsaved⟩ := hs.frame
  refine ⟨?_, ⟨eflags, hsame, hsaved.congr (by decide) fun j _ hj => ?_⟩, fun b hb hout => ?_⟩
  · rw [← hs.cell]
    exact Memory.readWord_congr fun b hb => hkeeps b (.inr hb)
  · unfold frameSlots at hj
    exact stackWord_keeps fun b hb => hkeeps b (.inl (hc.inWord (by omega) hb))
  · rw [hkeeps b (.inl hb)]
    exact hs.stack b hb hout

/-! ## Steps -/

theorem Saving.disabled (hc : Calls L y s')
    (hs : Saving L.currentThread y s' (returnAddress s') (s'.reg .eax) i u) :
    interruptFlag u.eflags = false :=
  (interruptFlag_of_sameControl hs.live.eflags).trans hc.disabled

theorem ContextSaved.suspended
    (hs : ContextSaved x s (returnAddress s) (s.reg .eax) u)
    (hstack : ∀ b, L.stack x b → ¬ InSlots (callTop s) frameSlots b → u.mem b = s.mem b) :
    Suspended L x s u.mem := ⟨hs.cell, hs.frame, hstack⟩

theorem InCall.begin (hc : Calls L y s') (hz : parameter s' = z)
    (hs : Saving L.currentThread y s' (returnAddress s') (s'.reg .eax) 20 u)
    (hplace : t.place = .inside stackSwitch)
    (hrun : advance (threadsLowSwitchTo L.currentThread) u = some t)
    (hsuspended : Suspended L x s t.mem) : InCall L x s z stackSwitch t := by
  obtain ⟨heax, hcurrent, hflags⟩ := hs.next hrun
  rw [hz] at heax hcurrent
  exact .second (Nat.le_refl _) (by decide) hplace (hz ▸ hc.next) hcurrent
    ((interruptFlag_of_sameControl hflags).trans hc.disabled) hsuspended
    fun hzx => .inl ⟨rfl, heax.trans hzx⟩

theorem InCall.stepOwn (hc : Calls L x s) (hi : i ≤ 20) (hz : parameter s = z)
    (hs : Saving L.currentThread x s (returnAddress s) (s.reg .eax) i u)
    (hstack : ∀ b, L.stack x b → ¬ InSlots (callTop s) frameSlots b → u.mem b = s.mem b)
    (hrun : advance (threadsLowSwitchTo L.currentThread) u = some t) :
    InCall L x s z (i + 1) t := by
  have hstack' : ∀ b, L.stack x b → ¬ InSlots (callTop s) frameSlots b → t.mem b = s.mem b := by
    intro b hb hout
    rw [hs.keeps hi hrun, hstack b hb hout]
    rintro (hslot | hblock | hcurrent)
    · exact hout hslot
    · exact L.stack_block x x b hc.isThread hc.isThread hb hblock
    · exact L.stack_current x b hc.isThread hb hcurrent
  rcases hs.instr hc.called hi hrun with ⟨hlt, hnext⟩ | ⟨rfl, hsaved⟩
  · exact .own (by omega) hz hnext hstack'
  · exact .begin hc hz hs hsaved.place hrun (hsaved.suspended hstack')

theorem InCall.stepOther (hc : Calls L x s) (hi : i ≤ 20) (hy : y ≠ x) (hcalls : Calls L y s')
    (hz : parameter s' = z)
    (hs : Saving L.currentThread y s' (returnAddress s') (s'.reg .eax) i u)
    (hsuspended : Suspended L x s u.mem)
    (hrun : advance (threadsLowSwitchTo L.currentThread) u = some t) :
    InCall L x s z (i + 1) t := by
  have hsuspended' : Suspended L x s t.mem := hsuspended.congr hc fun b hb =>
    hs.keeps hi hrun (hcalls.not_footprint hc.isThread hy hb)
  rcases hs.instr hcalls.called hi hrun with ⟨hlt, hnext⟩ | ⟨rfl, hsaved⟩
  · exact .other (by omega) hy hcalls hz hnext hsuspended'
  · exact .begin hcalls hz hs hsaved.place hrun hsuspended'

theorem Resumed.continues {eflags : Word} (hsame : SameControl eflags s.eflags)
    (hr : Resumed (callTop s) (callerContext s (returnAddress s) (s.reg .eax) eflags) u)
    (hsuspended : Suspended L x s u.mem) (hcurrent : u.mem.readWord L.currentThread = x) :
    Continues L x s u := by
  refine ⟨hr.place, hr.esp, fun r hr' => ?_, hr.seg, ?_, fun b hb hout => ?_, hcurrent⟩
  · rw [hr.reg r hr']
    exact congrFun (Function.update_eq_self ..) r
  · rw [hr.eflags]
    exact interruptFlag_of_sameControl hsame
  · rw [hr.esp] at hout
    exact hsuspended.stack b hb hout

theorem InCall.stepSecond (hlo : stackSwitch ≤ i) (hhi : i ≤ 28)
    (hplace : u.place = .inside i) (hz : L.IsThread z)
    (hcurrent : u.mem.readWord L.currentThread = z)
    (hdisabled : interruptFlag u.eflags = false) (hsuspended : Suspended L x s u.mem)
    (hback : z = x → Reentering x s i u)
    (hrun : advance (threadsLowSwitchTo L.currentThread) u = some t) :
    (i < 28 ∧ InCall L x s z (i + 1) t) ∨ (i = 28 ∧ Running L x s z t) := by
  rcases Nat.lt_or_eq_of_le hlo with hlt | rfl
  · obtain ⟨k, rfl⟩ := Nat.exists_eq_add_of_le (show 22 ≤ i from hlt)
    obtain ⟨hmem, hcases⟩ := restore_advance restoresAt_switch hplace (by omega) hrun
    have hsuspended' : Suspended L x s t.mem := hmem ▸ hsuspended
    have hcurrent' : t.mem.readWord L.currentThread = z := hmem ▸ hcurrent
    -- where the frame of `x` is restored
    have hrestoring : z = x → ∃ eflags, SameControl eflags s.eflags ∧ Restoring 22 (callTop s)
        (callerContext s (returnAddress s) (s.reg .eax) eflags) k u := by
      intro hzx
      rcases hback hzx with ⟨hat, -⟩ | ⟨j, eflags, hj, hsame, hr⟩
      · exact absurd hat (by unfold stackSwitch; omega)
      · obtain rfl : k = j := by omega
        exact ⟨eflags, hsame, hr⟩
    rcases hcases with ⟨hk, hplace', hflags⟩ | ⟨rfl, a, hplace'⟩
    · refine .inl ⟨by omega, .second (by omega) (by omega) hplace' hz hcurrent'
        ((interruptFlag_of_sameControl hflags).trans hdisabled) hsuspended' fun hzx => ?_⟩
      obtain ⟨eflags, hsame, hr⟩ := hrestoring hzx
      rcases hr.instr restoresAt_switch (by omega) hrun with ⟨-, hnext⟩ | ⟨hlast, -⟩
      · exact .inr ⟨k + 1, eflags, rfl, hsame, hnext⟩
      · omega
    · refine .inr ⟨rfl, ⟨a, hplace'⟩, hcurrent', fun _ => hsuspended', fun hzx => ?_⟩
      obtain ⟨eflags, hsame, hr⟩ := hrestoring hzx
      rcases hr.instr restoresAt_switch (by omega) hrun with ⟨hlast, -⟩ | ⟨-, hres⟩
      · omega
      · exact hres.continues hsame hsuspended' (hcurrent'.trans hzx)
  · have ht := switch_advance hplace hrun
    refine .inl ⟨by decide, .second (by decide) (by decide) (by rw [ht]; rfl) hz
      (by rw [ht]; exact hcurrent) (by rw [ht]; exact hdisabled) (by rw [ht]; exact hsuspended)
      fun hzx => ?_⟩
    obtain ⟨eflags, hsame, hsaved⟩ := hsuspended.frame
    rcases hback hzx with ⟨-, heax⟩ | ⟨k, -, hk, -⟩
    · exact .inr ⟨0, eflags, rfl, hsame,
        restoring_of_load hplace rfl heax hsuspended.cell hsaved hrun⟩
    · exact absurd hk (by unfold stackSwitch; omega)

theorem InCall.place (hu : InCall L x s z i u) : i ≤ 28 ∧ u.place = .inside i := by
  cases hu with
  | own hi _ hs => exact ⟨by omega, hs.place⟩
  | other hi _ _ _ hs => exact ⟨by omega, hs.place⟩
  | second _ hhi hplace => exact ⟨hhi, hplace⟩

theorem InCall.advance_eq (hc : Calls L x s) (hu : InCall L x s z i u)
    (hstep : Step (threadsLowSwitchTo L.currentThread) h u e t) :
    advance (threadsLowSwitchTo L.currentThread) u = some t := by
  refine advance_of_step ?_ hstep
  cases hu with
  | own _ _ hs => exact hs.disabled hc
  | other _ _ hcalls _ hs => exact hs.disabled hcalls
  | second _ _ _ _ _ hdisabled => exact hdisabled

theorem InCall.step (hc : Calls L x s) (hu : InCall L x s z i u)
    (hrun : advance (threadsLowSwitchTo L.currentThread) u = some t) :
    (i < 28 ∧ InCall L x s z (i + 1) t) ∨ (i = 28 ∧ Running L x s z t) := by
  cases hu with
  | own hi hz hs hstack => exact .inl ⟨by omega, .stepOwn hc hi hz hs hstack hrun⟩
  | other hi hy hcalls hz hs hsuspended =>
      exact .inl ⟨by omega, .stepOther hc hi hy hcalls hz hs hsuspended hrun⟩
  | second hlo hhi hplace hz hcurrent hdisabled hsuspended hback =>
      exact InCall.stepSecond hlo hhi hplace hz hcurrent hdisabled hsuspended hback hrun

/-! ## Runs -/

def Towards (L : Layout) (x : Word) (s : Cpu) (z : Word) (u : Cpu) : Prop :=
  (∃ i, InCall L x s z i u) ∨ Running L x s z u

theorem Towards.step (hc : Calls L x s) (hu : Towards L x s z u)
    (hstep : Step (threadsLowSwitchTo L.currentThread) h u e t) : Towards L x s z t := by
  rcases hu with ⟨i, hu⟩ | hu
  · rcases hu.step hc (hu.advance_eq hc hstep) with ⟨-, hnext⟩ | ⟨-, hrunning⟩
    · exact .inl ⟨i + 1, hnext⟩
    · exact .inr hrunning
  · obtain ⟨a, hplace⟩ := hu.place
    cases hstep with
    | instr hrun =>
        rw [advance, hplace] at hrun
        cases hrun
    | irq hirq => cases hplace.symm.trans hirq.inside

/-- Another thread works on, or calls the routine. -/
theorem Running.work (hc : Calls L x s) (hu : Running L x s z u)
    (hother : u.mem.readWord L.currentThread ≠ x)
    (hkeeps : ∀ b, L.stack x b ∨ InWord x b ∨ InWord L.currentThread b → t.mem b = u.mem b)
    (hthen : (∃ a, t.place = .outside a) ∨ Calls L (t.mem.readWord L.currentThread) t) :
    ∃ z', Towards L x s z' t := by
  have hcurrent : t.mem.readWord L.currentThread = z := by
    rw [← hu.current]
    exact Memory.readWord_congr fun b hb => hkeeps b (.inr (.inr hb))
  rw [hu.current] at hother
  have hsuspended : Suspended L x s t.mem := (hu.suspended hother).congr hc fun b hb =>
    hkeeps b (hb.imp_right .inl)
  rcases hthen with hplace | hcalls
  · exact ⟨z, .inr ⟨hplace, hcurrent, fun _ => hsuspended, fun hzx => absurd hzx hother⟩⟩
  · rw [hcurrent] at hcalls
    exact ⟨parameter t, .inl ⟨0, .other (by decide) hother hcalls rfl hcalls.called.saving
      hsuspended⟩⟩

theorem Calls.towards (hc : Calls L x s) : Towards L x s (parameter s) s :=
  .inl ⟨0, .own (by decide) rfl hc.called.saving fun _ _ _ => rfl⟩

theorem Towards.later {ev : LaterEvent} (hc : Calls L x s) (hu : ∃ z, Towards L x s z u)
    (hstep : Later L h x u ev t) : ∃ z, Towards L x s z t := by
  obtain ⟨z, hu⟩ := hu
  cases hstep with
  | routine hstep => exact ⟨z, hu.step hc hstep⟩
  | work hplace hother hkeeps hthen =>
      rcases hu with ⟨i, hu⟩ | hu
      · cases hu.place.2.symm.trans hplace
      · exact hu.work hc hother hkeeps hthen

/-- A call for `x` brings `x` back. -/
theorem InCall.comesBack (hc : Calls L x s) (hu : InCall L x s x i u) : ComesBack L h x s u := by
  obtain ⟨hi, hplace⟩ := hu.place
  refine ⟨routine_leaves _ h hplace (by omega), fun run a hrun hleft => ?_⟩
  have hend : Towards L x s x (last u run) := last_of_everyState
    (everyState_of_step (fun _ _ _ hs hstep => hs.step hc hstep) (.inl ⟨i, hu⟩) hrun)
  rcases hend with ⟨j, hinside⟩ | hrunning
  · cases hinside.place.2.symm.trans hleft
  · exact hrunning.resumed rfl

theorem Saving.parameter_eq
    (hs : Saving L.currentThread y s' (returnAddress s') (s'.reg .eax) 0 u) :
    parameter u = parameter s' := by
  have htop : callTop u = callTop s' := by
    rw [callTop, hs.live.esp]
    exact (stackSlot_add _ 0 1).trans (stackSlot_zero _)
  rw [parameter, htop]
  exact hs.live.parameter

theorem Towards.bringsBack (hc : Calls L x s) (hu : Towards L x s z u) :
    BringsBack L h x s u := by
  rcases hu with ⟨i, hu⟩ | hu
  · have hplace := hu.place.2
    refine ⟨fun hentry hparameter => ?_, fun a hout => ?_⟩
    · cases hplace.symm.trans hentry
      have hzx : z = x := by
        cases hu with
        | own _ hz hs => exact hz.symm.trans (hs.parameter_eq.symm.trans hparameter)
        | other _ _ _ hz hs => exact hz.symm.trans (hs.parameter_eq.symm.trans hparameter)
        | second hlo => exact absurd hlo (by decide)
      exact (hzx ▸ hu).comesBack hc
    · cases hplace.symm.trans hout
  · obtain ⟨a, hplace⟩ := hu.place
    refine ⟨fun hentry => ?_, fun _ _ hcurrent => hu.resumed (hu.current.symm.trans hcurrent)⟩
    cases hplace.symm.trans hentry

/-- After thread `x` called the routine with the interrupt flag clear, whatever thread it
called it for and whatever the other threads do apart from its stack: whoever calls the
routine for `x` brings it back, and it only runs again behind its call. -/
theorem switch_round_trip {run : List (LaterEvent × Cpu)} (hc : Calls L x s)
    (hrun : IsRun (Later L h x) s run) : EveryState (BringsBack L h x s) s run :=
  (everyState_of_step (P := fun u => ∃ z, Towards L x s z u)
    (fun _ _ _ hu hstep => Towards.later hc hu hstep) ⟨_, hc.towards⟩ hrun).imp
    fun _ hu => hu.elim fun _ hu => hu.bringsBack hc

end

def sampleLayout : Layout where
  currentThread := 0x200000
  IsThread x := x = 0x300000 ∨ x = 0x300100
  stack x b := if x = 0x300000 then (b - 0x3FF000).toNat < 0x2000 else (b - 0x500000).toNat < 0x1000
  nonzero := by
    rintro x (rfl | rfl) <;> decide
  stacks_apart := by
    rintro x y b (rfl | rfl) (rfl | rfl) hx hy
    · rfl
    · simp at hx hy
      bv_omega
    · simp at hx hy
      bv_omega
    · rfl
  blocks_apart := by
    rintro x y (rfl | rfl) (rfl | rfl) hne
    · exact absurd rfl hne
    · exact ⟨by decide, by decide⟩
    · exact ⟨by decide, by decide⟩
    · exact absurd rfl hne
  stack_block := by
    rintro x y b (rfl | rfl) (rfl | rfl) hb hc <;> unfold InWord at hc <;> simp at hb <;> bv_omega
  stack_current := by
    rintro x b (rfl | rfl) hb hc <;> unfold InWord at hc <;> simp at hb <;> bv_omega
  block_current := by
    rintro x (rfl | rfl) <;> exact ⟨by decide, by decide⟩

def suspendedSecond (m : Memory) : Memory :=
  [(0x300100, 0x500100), (0x500108, 0x10), (0x50010C, 0x10), (0x500138, 0x103000),
    (0x50013C, 8), (0x500140, 2)].foldl (fun m w => Memory.writeWord m w.1 w.2) m

def sampleSwitch : Cpu := { sampleCall with eflags := 2, mem := suspendedSecond sampleCall.mem }

theorem sampleSwitch_calls : Calls sampleLayout 0x300000 sampleSwitch := by
  refine ⟨rfl, by decide +kernel, .inl rfl, .inr (by decide +kernel), by decide, fun b hb => ?_⟩
  have htop : callTop sampleSwitch = 0x400004 := by decide
  rw [htop] at hb
  unfold InSlots at hb
  show (b - 0x3FF000).toNat < 0x2000
  bv_omega

def sampleWork (s : Cpu) : Cpu :=
  { s.setReg .esp 0x500800 with
    place := .inside 0
    eflags := 2
    mem := (s.mem.writeWord 0x500800 0x104000).writeWord 0x500804 0x300000 }

def sampleLater (s : Cpu) : LaterEvent → Option Cpu
  | .routine e => take (threadsLowSwitchTo 0x200000) sampleHandlers s e
  | .work =>
      match s.place with
      | .inside _ => none
      | .outside _ =>
          if s.mem.readWord 0x200000 = 0x300100 then some (sampleWork s) else none

theorem later_sampleWork {s : Cpu} {a : Word} (hplace : s.place = .outside a)
    (hcurrent : s.mem.readWord 0x200000 = 0x300100) :
    Later sampleLayout sampleHandlers 0x300000 s .work (sampleWork s) := by
  have hkeeps : ∀ b : Word, 8 ≤ (b - 0x500800).toNat → (sampleWork s).mem b = s.mem b := by
    intro b hb
    show (s.mem.writeWord 0x500800 0x104000).writeWord 0x500804 0x300000 b = s.mem b
    rw [Memory.writeWord_apply_of_le (by bv_omega), Memory.writeWord_apply_of_le (by bv_omega)]
  have hcurrent' : (sampleWork s).mem.readWord 0x200000 = 0x300100 := by
    rw [← hcurrent]
    exact Memory.readWord_congr fun b hb => hkeeps b (by bv_omega)
  have hcell : sampleLayout.currentThread = 0x200000 := rfl
  have htop : callTop (sampleWork s) = 0x500804 := by
    show (s.setReg .esp 0x500800).reg .esp + 4 = 0x500804
    rw [Cpu.reg_setReg, if_pos rfl]
    decide
  have hparameter : parameter (sampleWork s) = 0x300000 := by
    rw [parameter, htop, stackWord, stackSlot_zero]
    exact Memory.readWord_writeWord_same ..
  refine .work hplace ?_ (fun b hb => hkeeps b ?_) (.inr ?_)
  · rw [hcell, hcurrent]
    decide
  · rcases hb with hb | hb | hb
    · have hb : (b - 0x3FF000).toNat < 0x2000 := hb
      bv_omega
    · unfold InWord at hb
      bv_omega
    · rw [InWord, hcell] at hb
      bv_omega
  · rw [hcell, hcurrent']
    have hdisabled : interruptFlag (2 : Word) = false := by decide
    refine ⟨rfl, hcurrent', .inr rfl, .inl hparameter, hdisabled, fun b hb => ?_⟩
    rw [htop] at hb
    unfold InSlots at hb
    show (b - 0x500000).toNat < 0x1000
    bv_omega

theorem later_of_sampleLater {s t : Cpu} {ev : LaterEvent} (hrun : sampleLater s ev = some t) :
    Later sampleLayout sampleHandlers 0x300000 s ev t := by
  cases ev with
  | routine e => exact .routine (step_of_take hrun)
  | work =>
      simp only [sampleLater] at hrun
      split at hrun
      · cases hrun
      · rename_i a hplace
        split at hrun
        · cases hrun
          exact later_sampleWork hplace (by assumption)
        · cases hrun

/-- The routine leaves for the second thread, which calls it in its turn, and then for the
first one behind its call. -/
theorem switch_round_trip_sampleSwitch : ∃ run,
    IsRun (Later sampleLayout sampleHandlers 0x300000) sampleSwitch run ∧
      run[28]?.map (fun e => e.2.place) = some (.outside 0x103000) ∧
      (last sampleSwitch run).place = .outside 0x102000 ∧
      EveryState (BringsBack sampleLayout sampleHandlers 0x300000 sampleSwitch) sampleSwitch
        run := by
  have h : (runOf sampleLater sampleSwitch (List.replicate 29 (.routine .instr) ++ [.work] ++
      List.replicate 29 (.routine .instr))).map
      (fun run => (run[28]?.map (fun e => e.2.place), (last sampleSwitch run).place)) =
        some (some (.outside 0x103000), .outside 0x102000) := by decide +kernel
  obtain ⟨run, hrun, hplaces⟩ := Option.map_eq_some_iff.mp h
  obtain ⟨hsecond, hfirst⟩ := Prod.mk.inj hplaces
  have hsteps := isRun_of_runOf (fun _ _ _ => later_of_sampleLater) hrun
  exact ⟨run, hsteps, hsecond, hfirst, switch_round_trip sampleSwitch_calls hsteps⟩

end TeachingKernel.Switch
