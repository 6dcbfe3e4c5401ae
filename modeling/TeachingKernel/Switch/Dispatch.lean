import TeachingKernel.Switch.Interrupted
import TeachingKernel.Switch.NewThread

/-!
# The first dispatch of a thread

The routine is called for a thread that never ran, by another thread or by the startup
code. Whichever half of the routine restores the frame, it pops what the constructor
pushed, down to the two addresses at which the thread and its function return.
-/

namespace TeachingKernel.Switch

open X86 Runs

namespace NewThread

/-- The startup code calls the routine while there is no current thread. If interrupts are
on, they spare the new thread. -/
structure FromStartup (n : NewThread) (y : Symbols) (h : Handlers) (s : Cpu) : Prop where
  current : s.mem.readWord y.currentThread = 0
  undisturbed : interruptFlag s.eflags = true → h.Room (callTop s) 2 ∧
    h.Away (callTop s) 2 y.currentThread ∧ ∀ b, n.Guarded b → ¬ h.Reach (callTop s) 2 b

/-- Thread `x` calls the routine, on another stack. If interrupts are on, they spare the new
thread. -/
structure FromThread (n : NewThread) (y : Symbols) (h : Handlers) (x : Word) (s : Cpu) :
    Prop where
  called : Called y.currentThread x s
  apart : ∀ b, n.Guarded b → ¬ Footprint y.currentThread x s b
  undisturbed : interruptFlag s.eflags = true → Entered h y.currentThread x s ∧
    ∀ b, n.Guarded b → ¬ h.Reach (callTop s) 18 b

/-- The routine is called for the thread that was constructed in memory `m`, and whose
frame and stack pointer nobody wrote since. If interrupts are on, the frame holds no data
of their handlers. -/
structure Dispatched (n : NewThread) (y : Symbols) (h : Handlers) (m : Memory) (s : Cpu) :
    Prop where
  place : s.place = .inside 0
  parameter : parameter s = n.thread
  outgoing : n.FromStartup y h s ∨ ∃ x, n.FromThread y h x s
  kept : ∀ b, n.Guarded b → s.mem b = n.construct y m b
  current_apart : ∀ b, n.Guarded b → ¬ InWord y.currentThread b
  undisturbed : interruptFlag s.eflags = true → h.Room (stackSlot n.top 1) contextSlots

/-- The function that was entered in state `u` is about to return: the stack pointer is
back, and the `k` words from there up are as they were. -/
structure AboutToReturn (k : Nat) (u w : Cpu) : Prop where
  esp : w.reg .esp = u.reg .esp
  words : ∀ j < k, w.peek j = u.peek j

/-- The thread is in front of `thread_start`, which returns to the thread function, which
returns to `thread_shutdown`. -/
structure Starts (n : NewThread) (y : Symbols) (u : Cpu) : Prop where
  place : u.place = .outside y.threadStart
  cs : u.cs = kernelCs.setWidth 16
  ds : u.seg .ds = kernelDs.setWidth 16
  es : u.seg .es = kernelDs.setWidth 16
  reg : ∀ r, r ≠ .esp → u.reg r = 0
  flag : interruptFlag u.eflags = false
  esp : u.reg .esp = n.top - 12
  returns : ∀ w, AboutToReturn 2 u w → n.InArea (w.reg .esp) ∧
    w.ret.place = .outside n.tfunction ∧
      ∀ w', AboutToReturn 1 w.ret w' → n.InArea (w'.reg .esp) ∧
        w'.ret.place = .outside y.threadShutdown

def Unwinding (i : Nat) : Prop := ∃ first k, (first = 22 ∨ first = 32) ∧ k < 7 ∧ i = first + k

structure Unwinds (n : NewThread) (y : Symbols) (h : Handlers) (u : Cpu) : Prop where
  accesses : ∀ i ins, u.place = .inside i → Unwinding i →
    (threadsLowSwitchTo y.currentThread)[i]? = some ins →
      ∀ a ∈ reads u ins ++ writes u ins, n.InArea a
  leaves : ∀ i, u.place = .inside i → ∃ run a,
    IsRun (Step (threadsLowSwitchTo y.currentThread) h) u run ∧ (last u run).place = .outside a
  starts : ∀ a, u.place = .outside a → n.Starts y u

/-! ## The invariant -/

structure Loading (n : NewThread) (y : Symbols) (s : Cpu) (i : Nat) (u : Cpu) : Prop where
  place : u.place = .inside i
  esp : u.reg .esp = stackSlot (callTop s) 1
  eflags : SameControl u.eflags s.eflags
  facts : match i with
    | 0 => stackWord u.mem (callTop s) 0 = n.thread ∧ u.mem.readWord y.currentThread = 0
    | 1 => stackWord u.mem (callTop s) 0 = n.thread ∧ zeroFlag u.eflags = true
    | 29 => stackWord u.mem (callTop s) 0 = n.thread
    | 30 => u.reg .eax = n.thread
    | _ => False

/-- The words that are left on the stack in `thread_start`. -/
structure Returns (n : NewThread) (y : Symbols) (m : Memory) : Prop where
  shutdown : stackWord m n.top 2 = y.threadShutdown
  tfunction : stackWord m n.top 3 = n.tfunction

inductive Coming (n : NewThread) (y : Symbols) (h : Handlers) (s : Cpu) : Cpu → Prop
  | saving {x a v : Word} {i : Nat} {u : Cpu} (hfrom : n.FromThread y h x s) (hi : i ≤ 20)
      (hs : Saving y.currentThread x s a v i u) (hc : n.Constructed y u.mem) : Coming n y h s u
  | loading {i : Nat} {u : Cpu} (hfrom : n.FromStartup y h s) (hs : n.Loading y s i u)
      (hc : n.Constructed y u.mem) : Coming n y h s u
  | switching {i : Nat} {u : Cpu} (hi : i = stackSwitch ∨ i = 31) (hplace : u.place = .inside i)
      (heax : u.reg .eax = n.thread) (hflags : SameControl u.eflags s.eflags)
      (hspared : interruptFlag s.eflags = true → ∀ b, n.Guarded b → ¬ h.Scratch (u.reg .esp) b)
      (hc : n.Constructed y u.mem) : Coming n y h s u
  | restoring {first k : Nat} {u : Cpu} (hfirst : first = 22 ∨ first = 32) (hk : k < 7)
      (hr : Restoring first n.startTop (context y) k u) (hflags : SameControl u.eflags s.eflags)
      (hreturns : n.Returns y u.mem) : Coming n y h s u
  | started {u : Cpu} (hr : Resumed n.startTop (context y) u) (hreturns : n.Returns y u.mem) :
      Coming n y h s u

section

variable {n : NewThread} {y : Symbols} {h : Handlers} {m : Memory} {s t u : Cpu} {x a v : Word}
  {first i j k : Nat}

theorem Constructed.returns (hc : n.Constructed y m) : n.Returns y m := ⟨hc.shutdown, hc.tfunction⟩

theorem Constructed.irq (hc : n.Constructed y u.mem)
    (hspared : ∀ b, n.Guarded b → ¬ h.Scratch (u.reg .esp) b) (hirq : Interrupted h i u t) :
    n.Constructed y t.mem := hc.congr fun b hb => hirq.kept b (hspared b hb)

theorem FromThread.spared (hfrom : n.FromThread y h x s) (hon : interruptFlag s.eflags = true)
    (hesp : u.reg .esp = stackSlot (callTop s) j) (hj : j < 18) :
    ∀ b, n.Guarded b → ¬ h.Scratch (u.reg .esp) b := by
  obtain ⟨he, haway⟩ := hfrom.undisturbed hon
  intro b hb hscratch
  rw [hesp] at hscratch
  exact haway b hb (Handlers.reach_of_scratch he.room.fits hj hscratch)

theorem FromStartup.spared (hfrom : n.FromStartup y h s) (hon : interruptFlag s.eflags = true)
    (hesp : u.reg .esp = stackSlot (callTop s) 1) :
    ∀ b, n.Guarded b → ¬ h.Scratch (u.reg .esp) b := by
  obtain ⟨hroom, -, haway⟩ := hfrom.undisturbed hon
  intro b hb hscratch
  rw [hesp] at hscratch
  exact haway b hb (Handlers.reach_of_scratch hroom.fits (by decide) hscratch)

/-! ## On the stack of the caller -/

theorem enabled_of_irq (hflags : SameControl u.eflags s.eflags) (hirq : Interrupted h i u t) :
    interruptFlag s.eflags = true := (interruptFlag_of_sameControl hflags).symm.trans hirq.enabled

theorem Coming.stepSaving (hs₀ : n.Dispatched y h m s) (hfrom : n.FromThread y h x s) (hi : i ≤ 20)
    (hs : Saving y.currentThread x s a v i u) (hc : n.Constructed y u.mem)
    (hrun : advance (threadsLowSwitchTo y.currentThread) u = some t) : n.Coming y h s t := by
  have hc' : n.Constructed y t.mem := hc.congr fun b hb => hs.keeps hi hrun (hfrom.apart b hb)
  rcases hs.instr hfrom.called hi hrun with ⟨hlt, hnext⟩ | ⟨rfl, hsaved⟩
  · exact .saving hfrom hlt hnext hc'
  · obtain ⟨heax, -, hflags⟩ := hs.next hrun
    exact .switching (.inl rfl) hsaved.place (heax.trans hs₀.parameter) hflags
      (fun hon => hfrom.spared hon hsaved.esp (by decide)) hc'

theorem Coming.irqSaving (hfrom : n.FromThread y h x s) (hi : i ≤ 20)
    (hs : Saving y.currentThread x s a v i u) (hc : n.Constructed y u.mem)
    (hirq : Interrupted h j u t) : n.Coming y h s t := by
  have hon := enabled_of_irq hs.live.eflags hirq
  have hc' := hc.irq (hfrom.spared hon hs.live.esp (slotsUsed_lt i)) hirq
  have he := (hfrom.undisturbed hon).1
  by_cases hexposed : Exposed i
  · obtain ⟨a', v', -, hnext⟩ := hs.exposed he hexposed hirq
    exact .saving hfrom hi hnext hc'
  · exact .saving hfrom hi (hs.irq he hi hexposed hirq) hc'

theorem Loading.place_cases (hs : n.Loading y s i u) : i = 0 ∨ i = 1 ∨ i = 29 ∨ i = 30 := by
  have hfacts := hs.facts
  split at hfacts
  · exact .inl rfl
  · exact .inr (.inl rfl)
  · exact .inr (.inr (.inl rfl))
  · exact .inr (.inr (.inr rfl))
  · exact hfacts.elim

theorem Coming.stepLoading (hs₀ : n.Dispatched y h m s) (hfrom : n.FromStartup y h s)
    (hs : n.Loading y s i u) (hc : n.Constructed y u.mem)
    (hrun : advance (threadsLowSwitchTo y.currentThread) u = some t) : n.Coming y h s t := by
  obtain ⟨hplace, hesp, hflags, hfacts⟩ := hs
  rw [advance, hplace] at hrun
  rcases Loading.place_cases ⟨hplace, hesp, hflags, hfacts⟩ with rfl | rfl | rfl | rfl <;>
    cases hrun
  · refine .loading hfrom (i := 1) ?_ hc
    refine ⟨rfl, hesp, (sameControl_withStatus _).trans hflags, hfacts.1, ?_⟩
    rw [exec, zeroFlag_subStatus, hfacts.2]
    rfl
  · refine .loading hfrom (i := 29) ?_ ?_
    · rw [exec, hfacts.2, if_pos rfl]
      exact ⟨rfl, hesp, hflags, hfacts.1⟩
    · rw [exec, hfacts.2, if_pos rfl]
      exact hc
  · refine .loading hfrom (i := 30) ⟨rfl, hesp, hflags, ?_⟩ hc
    show u.mem.readWord (u.reg .esp + 4) = n.thread
    rw [hesp, ← hfacts]
    exact congrArg u.mem.readWord (stackSlot_add _ 0 1)
  · refine .switching (.inr rfl) rfl hfacts hflags (fun hon => hfrom.spared hon hesp) ?_
    refine hc.congr fun b hb => ?_
    exact writeWord_keeps _ (hs₀.current_apart b hb)

theorem Coming.irqLoading (hfrom : n.FromStartup y h s) (hs : n.Loading y s i u)
    (hc : n.Constructed y u.mem) (hirq : Interrupted h j u t) : n.Coming y h s t := by
  obtain ⟨hplace, hesp, hflags, hfacts⟩ := hs
  have hon := enabled_of_irq hflags hirq
  obtain ⟨hroom, haway, -⟩ := hfrom.undisturbed hon
  have hword := hirq.stackWord_eq hroom hesp (by decide) (Nat.zero_le 1)
  have hcurrent := hirq.readWord_eq hroom hesp (by decide) haway
  refine .loading hfrom (i := i) ⟨hirq.place_eq.trans hplace, ?_, ?_, ?_⟩
    (hc.irq (hfrom.spared hon hesp) hirq)
  · rw [hirq.reg_eq]
    exact hesp
  · rw [hirq.eflags_eq]
    exact hflags
  · rcases Loading.place_cases ⟨hplace, hesp, hflags, hfacts⟩ with rfl | rfl | rfl | rfl
    · exact ⟨hword.trans hfacts.1, hcurrent.trans hfacts.2⟩
    · exact ⟨hword.trans hfacts.1, (congrArg zeroFlag hirq.eflags_eq).trans hfacts.2⟩
    · exact hword.trans hfacts
    · exact (congrFun hirq.reg_eq .eax).trans hfacts

theorem Coming.stepSwitching (hi : i = stackSwitch ∨ i = 31) (hplace : u.place = .inside i)
    (heax : u.reg .eax = n.thread) (hflags : SameControl u.eflags s.eflags)
    (hc : n.Constructed y u.mem)
    (hrun : advance (threadsLowSwitchTo y.currentThread) u = some t) : n.Coming y h s t := by
  have hins : (threadsLowSwitchTo y.currentThread)[i]? = some (.load .esp .eax 0) := by
    rcases hi with rfl | rfl <;> rfl
  have hr := restoring_of_load hplace hins heax hc.esp hc.saved hrun
  have hfirst : i + 1 = 22 ∨ i + 1 = 32 := by
    unfold stackSwitch at hi
    omega
  rw [advance, hplace] at hrun
  dsimp only at hrun
  rw [hins] at hrun
  cases hrun
  exact .restoring hfirst (by decide) hr hflags hc.returns

theorem Coming.irqSwitching (hi : i = stackSwitch ∨ i = 31) (hplace : u.place = .inside i)
    (heax : u.reg .eax = n.thread) (hflags : SameControl u.eflags s.eflags)
    (hspared : interruptFlag s.eflags = true → ∀ b, n.Guarded b → ¬ h.Scratch (u.reg .esp) b)
    (hc : n.Constructed y u.mem) (hirq : Interrupted h j u t) : n.Coming y h s t := by
  refine .switching hi (hirq.place_eq.trans hplace) ?_ ?_ ?_
    (hc.irq (hspared (enabled_of_irq hflags hirq)) hirq)
  · rw [hirq.reg_eq]
    exact heax
  · rw [hirq.eflags_eq]
    exact hflags
  · rw [hirq.reg_eq]
    exact hspared

/-! ## On the stack of the new thread -/

theorem restoresAt (hfirst : first = 22 ∨ first = 32) :
    RestoresAt (threadsLowSwitchTo y.currentThread) first := by
  rcases hfirst with rfl | rfl
  · exact restoresAt_switch
  · exact restoresAt_load

theorem Coming.stepRestoring (hfirst : first = 22 ∨ first = 32) (hk : k < 7)
    (hr : Restoring first n.startTop (context y) k u) (hflags : SameControl u.eflags s.eflags)
    (hreturns : n.Returns y u.mem)
    (hrun : advance (threadsLowSwitchTo y.currentThread) u = some t) : n.Coming y h s t := by
  have hcode := restoresAt (y := y) hfirst
  obtain ⟨hmem, hcases⟩ := restore_advance hcode hr.place hk hrun
  rcases hr.instr hcode hk hrun with ⟨hlt, hnext⟩ | ⟨-, hres⟩
  · rcases hcases with ⟨-, -, hflags'⟩ | ⟨hlast, -⟩
    · exact .restoring hfirst (by omega) hnext (hflags'.trans hflags) (hmem ▸ hreturns)
    · omega
  · exact .started hres (hmem ▸ hreturns)

/-- An interrupt writes below the stack pointer, where the frame was popped already. -/
theorem Coming.irqRestoring (hs₀ : n.Dispatched y h m s) (hfirst : first = 22 ∨ first = 32)
    (hk : k < 7) (hr : Restoring first n.startTop (context y) k u)
    (hflags : SameControl u.eflags s.eflags) (hreturns : n.Returns y u.mem)
    (hirq : Interrupted h j u t) : n.Coming y h s t := by
  have hroom := hs₀.undisturbed (enabled_of_irq hflags hirq)
  have htop : stackSlot (stackSlot n.top 1) 2 = n.startTop := stackSlot_stackSlot ..
  have hesp : u.reg .esp = stackSlot (stackSlot n.top 1) (2 + slotsLeft k) := by
    rw [hr.popped.esp, ← htop, stackSlot_stackSlot]
  have hleft : 2 + slotsLeft k < contextSlots := by
    unfold slotsLeft contextSlots
    split <;> decide
  have hword : ∀ i ≤ 2, stackWord t.mem n.top (1 + i) = stackWord u.mem n.top (1 + i) := by
    intro i hi
    rw [← stackWord_stackSlot, ← stackWord_stackSlot]
    exact hirq.stackWord_eq hroom hesp hleft (by omega)
  refine .restoring hfirst hk (hr.irq (htop ▸ hroom.below (j := 2)) hirq) ?_ ⟨?_, ?_⟩
  · rw [hirq.eflags_eq]
    exact hflags
  · exact (hword 1 (by decide)).trans hreturns.shutdown
  · exact (hword 2 (by decide)).trans hreturns.tfunction

/-! ## Runs -/

theorem Coming.place (hu : n.Coming y h s u) :
    (∃ i < 39, u.place = .inside i) ∨ u.place = .outside y.threadStart := by
  cases hu with
  | saving _ hi hs => exact .inl ⟨_, by omega, hs.place⟩
  | loading _ hs =>
      refine .inl ⟨_, ?_, hs.place⟩
      have hcases := hs.place_cases
      omega
  | switching hi hplace =>
      unfold stackSwitch at hi
      exact .inl ⟨_, by omega, hplace⟩
  | restoring hfirst hk hr => exact .inl ⟨_, by omega, hr.place⟩
  | started hr => exact .inr hr.place

theorem Coming.step {e : Event} (hs₀ : n.Dispatched y h m s) (hu : n.Coming y h s u)
    (hstep : Step (threadsLowSwitchTo y.currentThread) h u e t) : n.Coming y h s t := by
  cases hu with
  | saving hfrom hi hs hc =>
      cases hstep with
      | instr hrun => exact .stepSaving hs₀ hfrom hi hs hc hrun
      | irq hirq => exact .irqSaving hfrom hi hs hc hirq
  | loading hfrom hs hc =>
      cases hstep with
      | instr hrun => exact .stepLoading hs₀ hfrom hs hc hrun
      | irq hirq => exact .irqLoading hfrom hs hc hirq
  | switching hi hplace heax hflags hspared hc =>
      cases hstep with
      | instr hrun => exact .stepSwitching hi hplace heax hflags hc hrun
      | irq hirq => exact .irqSwitching hi hplace heax hflags hspared hc hirq
  | restoring hfirst hk hr hflags hreturns =>
      cases hstep with
      | instr hrun => exact .stepRestoring hfirst hk hr hflags hreturns hrun
      | irq hirq => exact .irqRestoring hs₀ hfirst hk hr hflags hreturns hirq
  | started hr =>
      cases hstep with
      | instr hrun =>
          rw [advance, hr.place] at hrun
          cases hrun
      | irq hirq => cases hr.place.symm.trans hirq.inside

theorem inArea_above (hn : n.Placed) (hesp : u.reg .esp = stackSlot n.top i)
    (hi : i ≤ contextSlots) (hj : j < i) : n.InArea (u.above j) := by
  obtain ⟨k, rfl⟩ := Nat.exists_eq_add_of_lt hj
  rw [Cpu.above, hesp, show j + k + 1 = k + 1 + j by omega, stackSlot_add]
  exact fun b hb => inStack_of_inSlots hn (inSlots_of_stackSlot (by omega) (by omega) hb)

/-- Popping stays above the stack pointer and in the frame. -/
theorem inArea_of_restoring {ins : Instr} (hn : n.Placed) (hfirst : first = 22 ∨ first = 32)
    (hk : k < 7) (hr : Restoring first n.startTop (context y) k u)
    (hins : (threadsLowSwitchTo y.currentThread)[first + k]? = some ins) :
    ∀ a ∈ reads u ins ++ writes u ins, n.InArea a := by
  have hesp : u.reg .esp = stackSlot n.top (3 + slotsLeft k) := by
    rw [hr.popped.esp, startTop, stackSlot_stackSlot]
  have habove : ∀ l : List Nat, (∀ j ∈ l, j < 3 + slotsLeft k) →
      ∀ a ∈ l.map u.above, n.InArea a := by
    intro l hl a ha
    obtain ⟨j, hj, rfl⟩ := List.mem_map.mp ha
    refine inArea_above hn hesp ?_ (hl j hj)
    unfold slotsLeft contextSlots
    split <;> decide
  rw [restoresAt hfirst k hk] at hins
  interval_cases k <;> cases hins
  case «4» => exact habove [0, 1, 2, 4, 5, 6, 7] (by decide)
  case «5» => exact habove [] (by decide)
  case «6» => exact habove [0, 1, 2] (by decide)
  all_goals exact habove [0] (by decide)

theorem starts_of_resumed (hn : n.Placed) (hr : Resumed n.startTop (context y) u)
    (hreturns : n.Returns y u.mem) : n.Starts y u := by
  have hesp : u.reg .esp = stackSlot n.top 3 := hr.esp
  refine ⟨hr.place, hr.cs, congrFun hr.seg .ds, congrFun hr.seg .es, hr.reg, ?_, hesp, ?_⟩
  · rw [hr.eflags]
    exact (by decide : interruptFlag 0 = false)
  · intro w hw
    have hespw : w.reg .esp = stackSlot n.top 3 := hw.esp.trans hesp
    have hespret : w.ret.reg .esp = stackSlot n.top 2 := by
      rw [Cpu.ret, reg_drop hespw rfl, if_pos rfl]
    have harea : ∀ u' : Cpu, ∀ j, 1 ≤ j → j ≤ 3 → u'.reg .esp = stackSlot n.top j →
        n.InArea (u'.reg .esp) := by
      intro u' j hj hle heq
      have hslots : j ≤ contextSlots := Nat.le_trans hle (by decide)
      rw [heq]
      exact fun b hb => inStack_of_inSlots hn (inSlots_of_stackSlot hj hslots hb)
    refine ⟨harea w 3 (by decide) (by decide) hespw, ?_, fun w' hw' => ?_⟩
    · show Place.outside (w.peek 0) = _
      rw [hw.words 0 (by decide), peek_eq hesp rfl, hreturns.tfunction]
    · refine ⟨harea w' 2 (by decide) (by decide) (hw'.esp.trans hespret), ?_⟩
      show Place.outside (w'.peek 0) = _
      rw [hw'.words 0 (by decide), peek_eq hespret rfl]
      show Place.outside (stackWord w.mem n.top 2) = _
      rw [← peek_eq (k := 1) hespw rfl, hw.words 1 (by decide), peek_eq hesp rfl, hreturns.shutdown]

theorem Coming.unwinds (hn : n.Placed) (hu : n.Coming y h s u) : n.Unwinds y h u := by
  refine ⟨fun i ins hplace hi hins => ?_, fun i hplace => ?_, fun a hplace => ?_⟩
  · obtain ⟨first, k, hfirst, hk, rfl⟩ := hi
    cases hu with
    | saving _ hi hs =>
        cases hs.place.symm.trans hplace
        omega
    | loading _ hs =>
        have hcases := hs.place_cases
        cases hs.place.symm.trans hplace
        omega
    | switching hi hplace' =>
        unfold stackSwitch at hi
        cases hplace'.symm.trans hplace
        omega
    | restoring hfirst' hk' hr =>
        have heq := Place.inside.inj (hr.place.symm.trans hplace)
        rw [← heq] at hins
        exact inArea_of_restoring hn hfirst' hk' hr hins
    | started hr => cases hr.place.symm.trans hplace
  · rcases hu.place with ⟨j, hj, hinside⟩ | hout
    · exact routine_leaves _ h hinside hj
    · cases hout.symm.trans hplace
  · cases hu with
    | saving _ _ hs => cases hs.place.symm.trans hplace
    | loading _ hs => cases hs.place.symm.trans hplace
    | switching _ hplace' => cases hplace'.symm.trans hplace
    | restoring _ _ hr => cases hr.place.symm.trans hplace
    | started hr hreturns => exact starts_of_resumed hn hr hreturns

theorem Dispatched.coming (hn : n.Placed) (hs : n.Dispatched y h m s) : n.Coming y h s s := by
  have hc : n.Constructed y s.mem := (constructed_construct hn y m).congr hs.kept
  rcases hs.outgoing with hfrom | ⟨x, hfrom⟩
  · refine .loading (i := 0) hfrom ⟨hs.place, ?_, rfl, hs.parameter, hfrom.current⟩ hc
    unfold callTop stackSlot
    bv_omega
  · exact .saving hfrom (Nat.zero_le _) hfrom.called.saving hc

/-- The constructor lays out the words of the frame in the stack area and writes only there,
in the object and in the counter of thread ids; its pushes access the stack area and the
member `esp` only. When the routine is called for the new
thread, by whomever and whatever interrupts are taken, it leaves, wherever it leaves the
thread starts, and the instructions that pop the frame stay in the stack area. -/
theorem first_dispatch {run : List (Event × Cpu)} (hn : n.Placed) (hs : n.Dispatched y h m s)
    (hrun : IsRun (Step (threadsLowSwitchTo y.currentThread) h) s run) :
    (∀ j v, (n.contextWords y)[j]? = some v → stackWord (n.construct y m) n.top (j + 1) = v) ∧
    (∀ b, n.construct y m b ≠ m b → n.InStack b ∨ n.InObject b ∨ InWord y.nextFreePid b) ∧
    ((n.setupContextWatched y (n.setMembers y m)).mem = n.construct y m ∧
      ∀ a ∈ (n.setupContextWatched y (n.setMembers y m)).accessed,
        a = n.espAt ∨ n.InArea a) ∧
    EveryState (n.Unwinds y h) s run := by
  refine ⟨fun j v hv => stackWord_construct hn y m hv, fun b hb => ?_,
    accessed_construct hn y m, ?_⟩
  · by_contra hout
    refine hb (construct_keeps hn (fun hc => hout (.inl (inStack_of_inSlots hn hc)))
      (fun hc => hout (.inr (.inl hc))) (fun hc => hout (.inr (.inr hc))))
  · exact (everyState_of_step (fun _ _ _ hu hstep => hu.step hs hstep) (hs.coming hn) hrun).imp
      fun _ hu => hu.unwinds hn

end

end NewThread

def sampleSymbols : Symbols where
  nextFreePid := 0x200004
  currentThread := 0x200000
  threadStart := 0x101800
  threadShutdown := 0x101900

def sampleThread : NewThread where
  thread := 0x300000
  tfunction := 0x102000
  stack := 0x400000
  stackSize := 80

theorem sampleThread_placed : sampleThread.Placed := by
  refine ⟨by decide, fun j hj hle => ?_⟩
  unfold NewThread.contextSlots at hle
  interval_cases j <;> exact ⟨by decide, by decide⟩

def sampleMemory : Memory := Memory.writeWord (fun _ => 0) 0x500004 0x300000

def sampleDispatch (m : Memory) (eflags : Word) : Cpu where
  place := .inside 0
  reg _ := 0x500000
  seg _ := 0x10
  cs := 8
  eflags := eflags
  mem := sampleThread.construct sampleSymbols m

def sampleStartup : Cpu := sampleDispatch sampleMemory 0x202

def sampleRunning : Memory := sampleMemory.writeWord 0x200000 0x310000

theorem sampleDispatch_mem (m : Memory) (eflags : Word) :
    (sampleDispatch m eflags).mem = sampleThread.construct sampleSymbols m := by
  rw [sampleDispatch]

theorem sampleThread_guarded {b : Word} (hb : sampleThread.Guarded b) :
    (b - 0x400000).toNat < 80 ∨ (b - 0x300000).toNat < 4 := by
  refine hb.imp (fun hslot => ?_) id
  have htop : sampleThread.top = 0x400050 := by decide
  unfold InSlots NewThread.contextSlots at hslot
  rw [htop] at hslot
  bv_omega

theorem sampleDispatch_readWord {a : Word} (m : Memory) (eflags : Word)
    (ha : a = 0x200000 ∨ a = 0x500004) :
    (sampleDispatch m eflags).mem.readWord a = m.readWord a := by
  refine Memory.readWord_congr fun b hb => ?_
  rw [sampleDispatch_mem]
  refine NewThread.construct_keeps sampleThread_placed (fun hslot => ?_) (fun hobject => ?_)
    fun hpid => ?_
  · have hguarded := sampleThread_guarded (b := b) (.inl hslot)
    rcases ha with rfl | rfl <;> bv_omega
  · have hobject : (b - 0x300000).toNat < 16 := hobject
    rcases ha with rfl | rfl <;> bv_omega
  · have hat : sampleSymbols.nextFreePid = 0x200004 := rfl
    rw [InWord, hat] at hpid
    rcases ha with rfl | rfl <;> bv_omega

theorem sampleDispatch_dispatched {m : Memory} {eflags : Word}
    (hparameter : m.readWord 0x500004 = 0x300000)
    (hfrom : sampleThread.FromStartup sampleSymbols sampleHandlers (sampleDispatch m eflags) ∨
      ∃ x, sampleThread.FromThread sampleSymbols sampleHandlers x (sampleDispatch m eflags)) :
    sampleThread.Dispatched sampleSymbols sampleHandlers m (sampleDispatch m eflags) := by
  have htop : callTop (sampleDispatch m eflags) = 0x500004 := rfl
  have hcell : sampleSymbols.currentThread = 0x200000 := rfl
  refine ⟨rfl, ?_, hfrom, fun b _ => congrFun (sampleDispatch_mem m eflags) b,
    fun b hb hcurrent => ?_, fun _ => ⟨by decide, fun _ _ hb => hb⟩⟩
  · rw [parameter, htop, stackWord, stackSlot_zero, sampleDispatch_readWord m eflags (.inr rfl)]
    exact hparameter
  · rw [InWord, hcell] at hcurrent
    rcases sampleThread_guarded hb with hb | hb <;> bv_omega

theorem sampleStartup_dispatched :
    sampleThread.Dispatched sampleSymbols sampleHandlers sampleMemory sampleStartup := by
  have hdepth : sampleHandlers.depth = 1024 := rfl
  have htop : callTop sampleStartup = 0x500004 := rfl
  have hcell : sampleSymbols.currentThread = 0x200000 := rfl
  have haway : ∀ b : Word, (b - 0x200000).toNat < 0x200050 →
      ¬ sampleHandlers.Reach (callTop sampleStartup) 2 b := by
    rintro b hb (hstack | howned)
    · rw [htop, hdepth] at hstack
      bv_omega
    · exact howned
  have hroom : sampleHandlers.Room (callTop sampleStartup) 2 := ⟨by decide, fun _ _ hb => hb⟩
  refine sampleDispatch_dispatched (Memory.readWord_writeWord_same ..)
    (.inl ⟨?_, fun _ => ⟨hroom, fun b hb => ?_, fun b hb => haway b ?_⟩⟩)
  · rw [hcell, sampleDispatch_readWord _ _ (.inl rfl)]
    decide +kernel
  · rw [hcell] at hb
    exact haway b (Nat.lt_of_lt_of_le hb (by decide))
  · rcases sampleThread_guarded hb with hb | hb <;> bv_omega

theorem sampleRunning_dispatched : sampleThread.Dispatched sampleSymbols sampleHandlers
    sampleRunning (sampleDispatch sampleRunning 2) := by
  have htop : callTop (sampleDispatch sampleRunning 2) = 0x500004 := rfl
  have hcell : sampleSymbols.currentThread = 0x200000 := rfl
  have hcurrent : (sampleDispatch sampleRunning 2).mem.readWord 0x200000 = 0x310000 :=
    (sampleDispatch_readWord _ _ (.inl rfl)).trans (Memory.readWord_writeWord_same ..)
  have hcalled : Called 0x200000 0x310000 (sampleDispatch sampleRunning 2) := by
    refine ⟨rfl, hcurrent, by decide, fun j hj => ?_, fun j hj => ?_, ⟨by decide, by decide⟩⟩
    · rw [htop]
      interval_cases j <;> exact ⟨by decide, by decide⟩
    · rw [htop]
      interval_cases j <;> exact ⟨by decide, by decide⟩
  refine sampleDispatch_dispatched (by decide +kernel)
    (.inr ⟨0x310000, hcalled, fun b hb hfoot => ?_, fun hon => absurd hon (by decide)⟩)
  have hguarded := sampleThread_guarded hb
  rcases hfoot with hslot | hblock | hcurrent
  · rw [InSlots, htop, frameSlots] at hslot
    rcases hguarded with hb | hb <;> bv_omega
  · unfold InWord at hblock
    rcases hguarded with hb | hb <;> bv_omega
  · rw [InWord, hcell] at hcurrent
    rcases hguarded with hb | hb <;> bv_omega

/-- Every push reads and writes the member `esp`, which lies in the object. -/
theorem pushes_access_member :
    sampleThread.Placed ∧
      0x300000 ∈ (sampleThread.setupContextWatched sampleSymbols
        (sampleThread.setMembers sampleSymbols sampleMemory)).accessed ∧
      ¬ sampleThread.InArea 0x300000 := by
  refine ⟨sampleThread_placed, by decide +kernel, fun h => ?_⟩
  exact absurd (h 0x300000 (show ((0x300000 : Word) - 0x300000).toNat < 4 by decide))
    (show ¬ ((0x300000 : Word) - sampleThread.stack).toNat < sampleThread.stackSize.toNat
      by decide)

theorem first_dispatch_sampleThread :
    (∃ run, IsRun (Step (threadsLowSwitchTo 0x200000) sampleHandlers) sampleStartup run ∧
      sampleThread.Starts sampleSymbols (last sampleStartup run)) ∧
    ∃ run, IsRun (Step (threadsLowSwitchTo 0x200000) sampleHandlers)
        (sampleDispatch sampleRunning 2) run ∧
      sampleThread.Starts sampleSymbols (last (sampleDispatch sampleRunning 2) run) := by
  constructor
  · obtain ⟨run, a, hrun, hout⟩ := routine_leaves 0x200000 sampleHandlers
      (s := sampleStartup) (i := 0) rfl (by decide)
    obtain ⟨-, -, -, hstates⟩ := NewThread.first_dispatch sampleThread_placed
      sampleStartup_dispatched hrun
    exact ⟨run, hrun, (last_of_everyState hstates).starts a hout⟩
  · obtain ⟨run, a, hrun, hout⟩ := routine_leaves 0x200000 sampleHandlers
      (s := sampleDispatch sampleRunning 2) (i := 0) rfl (by decide)
    obtain ⟨-, -, -, hstates⟩ := NewThread.first_dispatch sampleThread_placed
      sampleRunning_dispatched hrun
    exact ⟨run, hrun, (last_of_everyState hstates).starts a hout⟩

end TeachingKernel.Switch
