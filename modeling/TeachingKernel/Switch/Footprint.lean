import TeachingKernel.Switch.Save

/-!
# What the routine writes

A call writes the seventeen slots of its frame, the stack pointer in the control block of
the caller, and `_current_thread`. From the instruction that leaves the stack of the
caller on it writes nothing.
-/

namespace TeachingKernel.Switch

open X86 Runs

def InWord (a b : Word) : Prop := (b - a).toNat < 4

def InSlots (top : Word) (n : Nat) (b : Word) : Prop := (top - 1 - b).toNat < 4 * n

/-- The bytes that a call of `thread` in state `s` may write. -/
def Footprint (currentThread thread : Word) (s : Cpu) (b : Word) : Prop :=
  InSlots (callTop s) frameSlots b ∨ InWord thread b ∨ InWord currentThread b

section

variable {program : List Instr} {currentThread thread : Word} {s₀ s t : Cpu}
  {x y v a b top : Word} {i j k n first : Nat}

theorem apart_of_inWord (h : ∀ b, InWord a b → ¬ InWord v b) : Memory.Apart a v := by
  constructor
  · have ha := h a (by simp [InWord])
    unfold InWord at ha
    omega
  · by_contra hlt
    exact h v (by unfold InWord; omega) (by simp [InWord])

theorem not_inWord_of_apart (h : Memory.Apart a v) (hb : InWord a b) : ¬ InWord v b := by
  obtain ⟨h1, h2⟩ := h
  unfold InWord at *
  bv_omega

theorem inSlots_of_inWord (hj : 1 ≤ j) (hjn : j ≤ n) (hn : n < 2 ^ 28)
    (hb : InWord (stackSlot top j) b) : InSlots top n b := by
  have hmul := toNat_four_mul (j := j) (by omega)
  unfold InWord stackSlot at hb
  unfold InSlots
  bv_omega

theorem writeWord_keeps (m : Memory) (hb : ¬ InWord a b) : m.writeWord a v b = m b :=
  Memory.writeWord_apply_of_le (by unfold InWord at hb; omega)

theorem stackWord_keeps {m m' : Memory} (hb : ∀ b, InWord (stackSlot top j) b → m' b = m b) :
    stackWord m' top j = stackWord m top j := Memory.readWord_congr hb

/-! ## The first half -/

theorem inSlots_of_below (hesp : s.reg .esp = stackSlot top n) (hk : 1 ≤ k)
    (hle : n + k ≤ frameSlots) (hb : InWord (s.below k) b) : InSlots top frameSlots b := by
  have hslot : s.below k = stackSlot top (n + k) := by
    rw [Cpu.below, hesp, stackSlot_sub]
  rw [hslot] at hb
  exact inSlots_of_inWord (by omega) hle (by decide) hb

theorem Saving.writes {ins : Instr} (hs : Saving currentThread thread s₀ x y i s) (hi : i ≤ 20)
    (hins : (threadsLowSwitchTo currentThread)[i]? = some ins) (ha : a ∈ writes s ins)
    (hb : InWord a b) : Footprint currentThread thread s₀ b := by
  have hesp := hs.live.esp
  have hfacts := hs.facts
  have hbelow : ∀ k, 1 ≤ k → slotsUsed i + k ≤ frameSlots → InWord (s.below k) b →
      Footprint currentThread thread s₀ b := fun k hk hle hc =>
    .inl (inSlots_of_below hesp hk hle hc)
  interval_cases i <;> cases hins
  case «2» | «6» | «8» | «10» | «11» | «13» | «14» | «15» | «16» =>
    rw [List.mem_singleton.mp ha] at hb
    exact hbelow 1 (by decide) (by decide) hb
  case «4» =>
    rw [List.mem_singleton.mp ha] at hb
    refine hbelow 1 (by decide) (by decide) ?_
    rwa [show s.below 1 = s.reg .esp + (-4) from (BitVec.sub_eq_add_neg ..)]
  case «12» =>
    obtain ⟨k, hk, rfl⟩ := List.mem_map.mp ha
    simp only [List.mem_cons, List.not_mem_nil, or_false] at hk
    have hused : slotsUsed 12 + 8 ≤ frameSlots := by decide
    exact hbelow k (by omega) (by omega) hb
  case «18» =>
    rw [List.mem_singleton.mp ha] at hb
    rw [hfacts.1] at hb
    exact .inr (.inl (by simpa using hb))
  case «20» =>
    rw [List.mem_singleton.mp ha] at hb
    exact .inr (.inr hb)
  all_goals cases ha

theorem Saving.keeps (hs : Saving currentThread thread s₀ x y i s) (hi : i ≤ 20)
    (hrun : advance (threadsLowSwitchTo currentThread) s = some t)
    (hb : ¬ Footprint currentThread thread s₀ b) : t.mem b = s.mem b := by
  rw [advance, hs.place] at hrun
  obtain ⟨ins, hins, rfl⟩ := Option.map_eq_some_iff.mp hrun
  refine exec_keeps fun a ha => ?_
  by_contra hlt
  exact hb (hs.writes hi hins ha (by unfold InWord; omega))

theorem Saving.next (hs : Saving currentThread thread s₀ x y 20 s)
    (hrun : advance (threadsLowSwitchTo currentThread) s = some t) :
    t.reg .eax = parameter s₀ ∧ t.mem.readWord currentThread = parameter s₀ ∧
      SameControl t.eflags s₀.eflags := by
  obtain ⟨heax, -, -⟩ := hs.facts
  rw [advance, hs.place] at hrun
  cases hrun
  refine ⟨heax, ?_, hs.live.eflags⟩
  rw [← heax]
  exact Memory.readWord_writeWord_same ..

/-! ## The second half -/

theorem restoresAt_switch : RestoresAt (threadsLowSwitchTo currentThread) 22 := by
  intro k hk
  interval_cases k <;> rfl

theorem restoresAt_load : RestoresAt (threadsLowSwitchTo currentThread) 32 := by
  intro k hk
  interval_cases k <;> rfl

/-- The instruction that leaves the stack of the caller. -/
theorem switch_advance (hplace : s.place = .inside stackSwitch)
    (hrun : advance (threadsLowSwitchTo currentThread) s = some t) :
    t = (s.setReg .esp (s.mem.readWord (s.reg .eax + 0))).goto 22 := by
  rw [advance, hplace] at hrun
  cases hrun
  rfl

/-- A restoring sequence only reads, and its last instruction leaves. -/
theorem restore_advance (hcode : RestoresAt program first) (hplace : s.place = .inside (first + k))
    (hk : k < 7) (hrun : advance program s = some t) : t.mem = s.mem ∧
      ((k < 6 ∧ t.place = .inside (first + k + 1) ∧ SameControl t.eflags s.eflags) ∨
        (k = 6 ∧ ∃ a, t.place = .outside a)) := by
  rw [advance, hplace] at hrun
  dsimp only at hrun
  rw [hcode k hk] at hrun
  interval_cases k <;> cases hrun
  case «5» => exact ⟨rfl, .inl ⟨by decide, rfl, sameControl_withStatus _⟩⟩
  case «6» => exact ⟨rfl, .inr ⟨rfl, _, rfl⟩⟩
  all_goals exact ⟨rfl, .inl ⟨by decide, rfl, rfl⟩⟩

theorem restoring_of_load {c : Context} (hplace : s.place = .inside i)
    (hins : program[i]? = some (.load .esp .eax 0)) (heax : s.reg .eax = thread)
    (hcell : s.mem.readWord thread = stackSlot top frameSlots)
    (hsaved : SavedTo s.mem top c frameSlots) (hrun : advance program s = some t) :
    Restoring (i + 1) top c 0 t := by
  rw [advance, hplace] at hrun
  dsimp only at hrun
  rw [hins] at hrun
  cases hrun
  refine ⟨rfl, ?_, hsaved, fun r _ hlt => ?_, fun r hlt => ?_⟩
  · show s.mem.readWord (s.reg .eax + 0) = stackSlot top frameSlots
    rw [heax, ← hcell]
    simp
  · have hbounds := (regSlot_bounds r).2
    have hall : slotsLeft 0 = 17 := rfl
    omega
  · have hbounds := (segSlot_bounds r).2
    have hall : slotsLeft 0 = frameSlots := rfl
    omega

end

end TeachingKernel.Switch
