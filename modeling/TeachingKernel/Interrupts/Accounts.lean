import TeachingKernel.Interrupts.Delivery

/-!
# Accounts of a line

From the first command to the controller of a line on, the interrupts dispatched for
the line and the request that waits, if any, add up to the rising edges of the line.
-/

namespace TeachingKernel.Interrupts

open LineRegister Runs

namespace Kernel

variable {H : Type} {k k' : Kernel H} {L : Nat → Prop} {i line : Nat}

/-- The devices of the lines in `L` withdraw no request. Where the cascade is among
them, no line of the slave goes up while only the master is reset. -/
def Holds (L : Nat → Prop) (k : Kernel H) : Event H → Prop
  | .raise line => L 2 → 7 < line → k.writes ≠ irqRemap.drop 1
  | .lower line => L line → k.pics.requested line = false
  | _ => True

def reset (line : Nat) (k : Kernel H) : Bool :=
  decide (k.writes ≠ irqRemap) && (decide (line ≤ 7) || decide (k.writes ≠ irqRemap.drop 1))

def newEdge (line : Nat) (k : Kernel H) : Event H → Bool
  | .raise l => k.reset line && (decide (line = l) && !k.pics.high l)
  | _ => false

/-- How often the line was dispatched. -/
def served (k : Kernel H) (line : Nat) : Nat :=
  k.dispatched.countP fun d => d.1 = BitVec.ofNat 32 line

def account (line : Nat) (k : Kernel H) : Nat :=
  if k.reset line then k.served line + (k.pics.requested line).toNat else 0

/-- From the reset of its controller on, no request of a line in `L` was withdrawn. -/
structure HeldFrom (L : Nat → Prop) (k : Kernel H) : Prop where
  masterEdge : k.writes = irqRemap → ∀ i < 8, L i → k.pics.master.edgeLevel.getLsbD i = false
  slaveEdge : k.writes = irqRemap ∨ k.writes = irqRemap.drop 1 →
    ∀ i < 8, L (8 + i) → k.pics.slave.edgeLevel.getLsbD i = false
  master : k.writes = irqRemap.drop 1 → ∀ i < 8, L i → k.pics.master.Held i
  cascade : k.writes = irqRemap.drop 1 → L 2 → k.pics.master.irr.getLsbD 2 = false
  rest : k.writes ≠ irqRemap → k.writes ≠ irqRemap.drop 1 → k.pics.HeldOn L

theorem Phase.writes_ne (h : k.Phase) : k.writes ≠ irqRemap ∧ k.writes ≠ irqRemap.drop 1 := by
  cases h with
  | idle hwrites => constructor <;> rw [hwrites] <;> decide
  | master _ _ _ _ hwrites => constructor <;> rw [hwrites] <;> decide
  | slave _ _ _ hwrites => constructor <;> rw [hwrites] <;> decide
  | cascade _ _ _ hwrites => constructor <;> rw [hwrites] <;> decide

theorem drop_one_ne : irqRemap.drop 1 ≠ irqRemap := by decide

theorem reset_of_ne (h : k.writes ≠ irqRemap) (h' : k.writes ≠ irqRemap.drop 1) (line : Nat) :
    k.reset line = true := by
  rw [reset, decide_eq_true h, decide_eq_true h', Bool.or_true]
  rfl

theorem Started.nested (hs : k.Started) (h : k.writes ≠ irqRemap)
    (h' : k.writes ≠ irqRemap.drop 1) : k.pics.Nested := by
  rcases hs with ⟨hb, -⟩ | hr
  · cases hb with
    | first hwrites => exact absurd hwrites h
    | second hwrites => exact absurd hwrites h'
    | rest _ _ _ _ hmaster hslave => exact ⟨hmaster.nested, hslave.nested⟩
  · exact hr.programmed.nested

theorem Started.master_nested (hs : k.Started) (h : k.writes ≠ irqRemap) :
    k.pics.master.Nested := by
  rcases hs with ⟨hb, -⟩ | hr
  · cases hb with
    | first hwrites => exact absurd hwrites h
    | second _ hmaster => exact hmaster.nested
    | rest _ _ _ _ hmaster => exact hmaster.nested
  · exact hr.programmed.nested.master

theorem HeldFrom.high (h : k.HeldFrom L) (hreset : k.reset i = true) (hi : i < 16) (hL : L i)
    (hreq : k.pics.requested i = true) : k.pics.high i = true := by
  have hne : k.writes ≠ irqRemap := by
    intro heq
    simp [reset, heq] at hreset
  by_cases hle : i ≤ 7
  · rw [Pics.requested, if_pos hle] at hreq
    rw [Pics.high, if_pos hle]
    by_cases hdrop : k.writes = irqRemap.drop 1
    · exact (h.master hdrop i (by omega) hL).pin hreq
    · exact ((h.rest hne hdrop).master i (by omega) hL).pin hreq
  · have hdrop : k.writes ≠ irqRemap.drop 1 := by
      intro heq
      simp [reset, heq, hle] at hreset
    rw [Pics.requested, if_neg hle] at hreq
    rw [Pics.high, if_neg hle]
    exact ((h.rest hne hdrop).slave (i % 8) (by omega)
      (by rwa [show 8 + i % 8 = i by omega])).pin hreq

/-! ## Devices -/

theorem serviceSlavePic_master_held {s : Pics} (hn : s.master.Nested) (hi : i < 8)
    (h : s.master.Held i) : s.serviceSlavePic.master.Held i := by
  unfold Pics.serviceSlavePic
  split
  · exact h
  · exact Pics.raiseMaster_held (s := { s with slave := s.slave.signal _ }) hn hi h 2

theorem raiseIrq_master_held {s : Pics} (hn : s.master.Nested) (hi : i < 8)
    (h : s.master.Held i) (line : Nat) : (s.raiseIrq line).master.Held i := by
  unfold Pics.raiseIrq
  split
  · exact Pics.raiseMaster_held hn hi h line
  · split
    · split
      · exact h
      · exact serviceSlavePic_master_held (s := { s with slave := s.slave.raise _ }) hn hi h
    · exact h

theorem HeldFrom.raise (h : k.HeldFrom L) (hs : k.Started) (hline : DeviceLine line)
    (hguard : L 2 → 7 < line → k.writes ≠ irqRemap.drop 1) :
    ({ k with pics := k.pics.raiseIrq line } : Kernel H).HeldFrom L := by
  have hsame := Pics.sameSetup_raiseIrq k.pics line
  refine ⟨fun hw i hi hL => ?_, fun hw i hi hL => ?_, fun hw i hi hL => ?_, fun hw hL => ?_,
    fun hw hw' => ?_⟩
  · rw [hsame.master.edge]
    exact h.masterEdge hw i hi hL
  · rw [hsame.slave.edge]
    exact h.slaveEdge hw i hi hL
  · have hn := hs.master_nested (hw.trans_ne drop_one_ne)
    exact raiseIrq_master_held hn hi (h.master hw i hi hL) line
  · have hle : line ≤ 7 := by
      refine Nat.le_of_not_lt fun hlt => ?_
      exact hguard hL hlt hw
    have hirr := Pics.raiseMaster_irr (s := k.pics) (i := 2) (by decide) line
    rw [h.cascade hw hL, decide_eq_false hline.2.symm] at hirr
    rw [Pics.raiseIrq, if_pos hle, hirr]
    rfl
  · exact (h.rest hw hw').raiseIrq (hs.nested hw hw') line

theorem lowerIrq_master_held {s : Pics} (hi : i < 8) (hL : L i) (h : s.master.Held i)
    (hguard : L line → s.requested line = false) : (s.lowerIrq line).master.Held i := by
  unfold Pics.lowerIrq
  split
  · rename_i hle
    split
    · refine h.lower hi fun heq => ?_
      have hnone := hguard (heq ▸ hL)
      rw [Pics.requested, if_pos hle, heq] at hnone
      exact hnone
    · exact h
  · split
    · split <;> exact h
    · exact h

theorem HeldFrom.lower (h : k.HeldFrom L)
    (hguard : L line → k.pics.requested line = false) :
    ({ k with pics := k.pics.lowerIrq line } : Kernel H).HeldFrom L := by
  have hsame := Pics.sameSetup_lowerIrq k.pics line
  refine ⟨fun hw i hi hL => ?_, fun hw i hi hL => ?_, fun hw i hi hL => ?_, fun hw hL => ?_,
    fun hw hw' => ?_⟩
  · rw [hsame.master.edge]
    exact h.masterEdge hw i hi hL
  · rw [hsame.slave.edge]
    exact h.slaveEdge hw i hi hL
  · exact lowerIrq_master_held hi hL (h.master hw i hi hL) hguard
  · have hnone := h.cascade hw hL
    dsimp only
    unfold Pics.lowerIrq
    split
    · split
      · rw [Pic.lower, getLsbD_clearLine (by decide), hnone, Bool.false_and]
      · exact hnone
    · split
      · split <;> exact hnone
      · exact hnone
  · exact (h.rest hw hw').lowerIrq hguard

theorem account_raise (h : k.HeldFrom L) (hline : DeviceLine line) (hi : DeviceLine i)
    (hL : L i) : account i ({ k with pics := k.pics.raiseIrq line } : Kernel H) =
      account i k + (newEdge i k (.raise line : Event H)).toNat := by
  have hreset : reset i ({ k with pics := k.pics.raiseIrq line } : Kernel H) = k.reset i := rfl
  have hserved : served ({ k with pics := k.pics.raiseIrq line } : Kernel H) i = k.served i := rfl
  rw [account, account, newEdge, hreset, hserved]
  cases hres : k.reset i with
  | false => simp
  | true =>
      rw [if_pos rfl, if_pos rfl, Pics.requested_raiseIrq hi hline, Bool.true_and]
      by_cases heq : i = line
      · subst heq
        cases hreq : k.pics.requested i with
        | true => simp [h.high hres hi.1 hL hreq]
        | false => simp
      · simp [heq]

theorem account_lower (hline : DeviceLine line) (hi : DeviceLine i) (hL : L i)
    (hguard : L line → k.pics.requested line = false) :
    account i ({ k with pics := k.pics.lowerIrq line } : Kernel H) = account i k := by
  have hreset : reset i ({ k with pics := k.pics.lowerIrq line } : Kernel H) = k.reset i := rfl
  have hserved : served ({ k with pics := k.pics.lowerIrq line } : Kernel H) i = k.served i := rfl
  have hreq := Pics.requested_lowerIrq (s := k.pics) hi hline fun heq => by
    rw [← heq]
    exact hguard (heq ▸ hL)
  rw [account, account, hreset, hserved, hreq]

/-! ## Port writes -/

theorem Held.of_reset {p : Pic} (hirr : p.irr = 0#8) (hint : p.int = false)
    (hedge : p.edgeLevel.getLsbD i = false) : p.Held i := by
  refine ⟨fun h => ?_, fun h => ?_, hedge⟩
  · rw [hirr, BitVec.getLsbD_zero] at h
    cases h
  · cases h.symm.trans hint

/-- Behind the first two commands, the commands leave the requests alone. -/
theorem Kept.step (hkept : k.pics.Kept k'.pics) (h : k.HeldFrom L) (hw : k.writes ≠ irqRemap)
    (hw' : k.writes ≠ irqRemap.drop 1) (hnext : k'.writes ≠ irqRemap)
    (hnext' : k'.writes ≠ irqRemap.drop 1) (hsame : k'.dispatched = k.dispatched)
    (hi : DeviceLine i) : k'.HeldFrom L ∧ account i k' = account i k := by
  refine ⟨⟨fun heq => absurd heq hnext, fun heq => ?_, fun heq => absurd heq hnext',
    fun heq => absurd heq hnext', fun _ _ => hkept.held L (h.rest hw hw')⟩, ?_⟩
  · rcases heq with heq | heq
    · exact absurd heq hnext
    · exact absurd heq hnext'
  · rw [account, account, reset_of_ne hw hw', reset_of_ne hnext hnext', served, served, hsame,
      hkept.requested i hi]

theorem HeldFrom.first_command (h : k.HeldFrom L) (hwrites : k.writes = irqRemap)
    (hspecial : k.pics.master.specialMask = false) (hnone : k.dispatched = [])
    (hstep : k.outportb = some k') (i : Nat) : k'.HeldFrom L ∧ account i k' = account i k := by
  obtain ⟨t, hwrite, -, -, hslave, hirr, hint, hedge⟩ := write_first k.pics hspecial
  cases (Kernel.outportb_eq hwrites hwrite).symm.trans hstep
  have hne : ∀ rest, rest = irqRemap.drop 1 → rest ≠ irqRemap := fun rest heq =>
    heq.trans_ne drop_one_ne
  have hbefore : k.reset i = false := by
    rw [reset, hwrites]
    rfl
  refine ⟨⟨fun heq => absurd heq (hne _ rfl), fun _ j hj hL => ?_, fun _ j hj hL => ?_,
    fun _ _ => ?_, fun _ heq => absurd rfl heq⟩, ?_⟩
  · rw [hslave]
    exact h.slaveEdge (.inl hwrites) j hj hL
  · refine Held.of_reset hirr hint ?_
    rw [hedge]
    exact h.masterEdge hwrites j hj hL
  · rw [hirr]
    rfl
  · rw [account, account, hbefore, if_neg Bool.false_ne_true]
    split
    · rename_i hafter
      by_cases hle : i ≤ 7
      · rw [served, Pics.requested, if_pos hle, hirr, BitVec.getLsbD_zero]
        rw [hnone]
        rfl
      · rw [reset, decide_eq_false hle] at hafter
        simp [irqRemap] at hafter
    · rfl

theorem HeldFrom.second_command (h : k.HeldFrom L) (hwrites : k.writes = irqRemap.drop 1)
    (hmaster : k.pics.master.Starting 0x20 1) (hwired : k.pics.MasterWired)
    (hspecial : k.pics.slave.specialMask = false) (hnone : k.dispatched = [])
    (hstep : k.outportb = some k') (i : Nat) : k'.HeldFrom L ∧ account i k' = account i k := by
  obtain ⟨t, hwrite, -, -, -, -, hirr, hint, hedge, hm⟩ := write_second hmaster hwired hspecial
  cases (Kernel.outportb_eq hwrites hwrite).symm.trans hstep
  have hnext : irqRemap.drop 2 ≠ irqRemap ∧ irqRemap.drop 2 ≠ irqRemap.drop 1 := by decide
  refine ⟨⟨fun heq => absurd heq hnext.1, fun heq => ?_, fun heq => absurd heq hnext.2,
    fun heq => absurd heq hnext.2, fun _ _ => ⟨fun j hj hL => ?_, fun j hj hL => ?_⟩⟩, ?_⟩
  · rcases heq with heq | heq
    · exact absurd heq hnext.1
    · exact absurd heq hnext.2
  · have hheld := h.master hwrites j hj hL
    rw [hm]
    refine ⟨fun hreq => ?_, hheld.signal, hheld.edge⟩
    have hne : j ≠ 2 := by
      intro heq
      subst heq
      rw [show ({ k.pics.master with irqIn := clearLine k.pics.master.irqIn 2 } : Pic).irr =
        k.pics.master.irr from rfl, h.cascade hwrites hL] at hreq
      cases hreq
    rw [getLsbD_clearLine hj, decide_eq_false hne, Bool.not_false, Bool.and_true]
    exact hheld.pin hreq
  · refine Held.of_reset hirr hint ?_
    rw [hedge]
    exact h.slaveEdge (.inr hwrites) j hj hL
  · have hbefore : k.reset i = decide (i ≤ 7) := by
      rw [reset, hwrites]
      simp [irqRemap]
    rw [account, account, reset_of_ne hnext.1 hnext.2, if_pos rfl, hbefore]
    rw [served, served, Pics.requested, Pics.requested, hnone]
    by_cases hle : i ≤ 7
    · rw [if_pos hle, if_pos hle, if_pos (decide_eq_true hle), hm]
    · rw [if_neg hle, if_neg (by simp [hle]), hirr, BitVec.getLsbD_zero]
      rfl

/-- The commands of `irq_remap` change no account. -/
theorem HeldFrom.booting (h : k.HeldFrom L) (hb : k.Booting) (hnone : k.dispatched = [])
    (hstep : k.outportb = some k') (hi : DeviceLine i) :
    k'.HeldFrom L ∧ account i k' = account i k := by
  obtain ⟨next, heq, hsame, -, hkept⟩ := hb.outportb_eq
  cases heq.symm.trans hstep
  cases hb with
  | first hwrites hmaster => exact h.first_command hwrites hmaster hnone hstep i
  | second hwrites hmaster hwired hslave =>
      exact h.second_command hwrites hmaster hwired hslave hnone hstep i
  | rest n hn hlt hwrites =>
      have hne : k.writes ≠ irqRemap ∧ k.writes ≠ irqRemap.drop 1 := by
        rw [hwrites]
        interval_cases n <;> decide
      obtain ⟨hnext, hnext', hkept⟩ := hkept hne.1 hne.2
      exact Kept.step hkept h hne.1 hne.2 hnext hnext' hsame hi

theorem HeldFrom.running (h : k.HeldFrom L) (hr : k.Running) (hstep : k.outportb = some k')
    (hi : DeviceLine i) : k'.HeldFrom L ∧ account i k' = account i k := by
  have hn := hr.programmed.nested
  have hnext := (hr.step (a := .outportb) hstep).phase.writes_ne
  obtain ⟨hw, hw'⟩ := hr.phase.writes_ne
  have hmaster : ∀ rest, k.writes = (0x20, 0x20) :: rest →
      k'.HeldFrom L ∧ account i k' = account i k := by
    intro rest hwrites
    cases (Kernel.outportb_eq hwrites (write_master_eoi k.pics)).symm.trans hstep
    exact Kept.step (kept_masterEoi hn) h hw hw' hnext.1 hnext.2 rfl hi
  have hslave : ∀ rest, k.writes = (0xA0, 0x20) :: rest →
      k'.HeldFrom L ∧ account i k' = account i k := by
    intro rest hwrites
    cases (Kernel.outportb_eq hwrites (write_slave_eoi k.pics)).symm.trans hstep
    exact Kept.step (kept_slaveEoi hn) h hw hw' hnext.1 hnext.2 rfl hi
  cases hr.phase with
  | idle hwrites =>
      rw [outportb, hwrites] at hstep
      cases hstep
  | master _ _ _ _ hwrites => exact hmaster _ hwrites
  | slave _ _ _ hwrites => exact hslave _ hwrites
  | cascade _ _ _ hwrites => exact hmaster _ hwrites

/-! ## Acknowledgements -/

/-- A line on which a dispatch is never spurious: either the controllers report no
withdrawn request on it, or no device withdraws one. -/
def Trusted (L : Nat → Prop) (i : Nat) : Prop := L i ∧ (i ≠ 7 ∧ i ≠ 15 ∨ ∀ j < 16, L j)

theorem requested_of_int {s : Pics} (hc : s.Cascaded) (h : s.HeldOn L) (hall : ∀ j < 16, L j)
    (hint : s.master.int = true) :
    s.master.irr ≠ 0#8 ∧ (s.master.irq = 2 → s.slave.irr ≠ 0#8) := by
  have hlt := hc.master_irq hint
  have hheld := h.master _ hlt (hall _ (by omega))
  have hset := hheld.signal hint rfl
  refine ⟨fun hzero => ?_, fun hirq hzero => ?_⟩
  · rw [hzero, BitVec.getLsbD_zero] at hset
    cases hset
  · have hpin := hheld.pin hset
    rw [hirq, hc.pin_eq] at hpin
    have hslt := hc.slave_irq hpin
    have hsset := (h.slave _ hslt (hall _ (by omega))).signal hpin rfl
    rw [hzero, BitVec.getLsbD_zero] at hsset
    cases hsset

theorem ofNat_eq_ofNat {m n : Nat} (hm : m < 16) (hn : n < 16) :
    (BitVec.ofNat 32 m : Word) = BitVec.ofNat 32 n ↔ m = n := by
  rw [← BitVec.toNat_inj, toNat_ofNat_of_lt (by omega), toNat_ofNat_of_lt (by omega)]

theorem HeldFrom.acknowledge (h : k.HeldFrom L) (hr : k.Running)
    (hstep : k.acknowledge = some k') (hi : DeviceLine i) (htrusted : Trusted L i) :
    k'.HeldFrom L ∧ account i k' = account i k := by
  have hready : k.writes = [] ∧ k.pics.intr = true := by
    by_cases hready : k.writes = [] ∧ k.pics.intr = true
    · exact hready
    · rw [Kernel.acknowledge, if_neg hready] at hstep
      cases hstep
  obtain ⟨n, pics, hdel, heq⟩ := hr.acknowledge_eq hready.1 hready.2
  obtain ⟨hw, hw'⟩ := hr.phase.writes_ne
  have hnext := (hr.step (a := .acknowledge) hstep).phase.writes_ne
  cases heq.symm.trans hstep
  have hheld := h.rest hw hw'
  have hint := hr.cascaded.intr_eq.symm.trans hready.2
  have hreq := hdel.requested hr.programmed hint hheld hi htrusted.1
    (fun h7 => by
      rcases htrusted.2 with ⟨hne, -⟩ | hall
      · exact absurd h7 hne
      · exact (requested_of_int hr.cascaded hheld hall hint).1)
    (fun h15 => by
      rcases htrusted.2 with ⟨-, hne⟩ | hall
      · exact absurd h15 hne
      · exact (requested_of_int hr.cascaded hheld hall hint).2)
  refine ⟨⟨fun heq => absurd heq hnext.1, fun heq => ?_, fun heq => absurd heq hnext.2,
    fun heq => absurd heq hnext.2, fun _ _ => hdel.held hr.programmed hheld⟩, ?_⟩
  · rcases heq with heq | heq
    · exact absurd heq hnext.1
    · exact absurd heq hnext.2
  · rw [account, account, reset_of_ne hw hw', reset_of_ne hnext.1 hnext.2, if_pos rfl, if_pos rfl,
      served, served, List.countP_append, List.countP_singleton]
    simp only [ofNat_eq_ofNat hdel.deviceLine.1 hi.1]
    have hcount : (if decide (n = i) = true then 1 else 0) = (decide (n = i)).toNat := by
      cases decide (n = i) <;> rfl
    rw [hcount]
    omega

/-! ## Runs -/

/-- One step adds to the account of the line exactly when the line goes up. -/
theorem account_step {a : Event H} (hs : k.Started) (h : k.HeldFrom L) (hguard : Holds L k a)
    (hstep : k.step a k') (hi : DeviceLine i) (htrusted : Trusted L i) :
    (k'.Started ∧ k'.HeldFrom L) ∧ account i k' = account i k + (newEdge i k a).toNat := by
  have hs' := hs.step hstep
  have hkeep : k'.HeldFrom L ∧ account i k' = account i k + (newEdge i k a).toNat := by
    unfold Kernel.step at hstep
    cases a with
    | raise line =>
        rw [exec] at hstep
        split at hstep
        · rename_i hline
          cases hstep
          exact ⟨h.raise hs hline hguard, account_raise h hline hi htrusted.1⟩
        · cases hstep
    | lower line =>
        rw [exec] at hstep
        split at hstep
        · rename_i hline
          cases hstep
          exact ⟨h.lower hguard, account_lower hline hi htrusted.1 hguard⟩
        · cases hstep
    | acknowledge =>
        rcases hs with ⟨hb, -⟩ | hr
        · rw [exec, Kernel.acknowledge, if_neg fun hready => hb.not_idle hready.1] at hstep
          cases hstep
        · exact h.acknowledge hr hstep hi htrusted
    | outportb =>
        rcases hs with ⟨hb, hnone⟩ | hr
        · exact h.booting hb hnone hstep hi
        · exact h.running hr hstep hi
    | registerHandler irqCode handler =>
        rw [exec, registerHandler] at hstep
        split at hstep
        · cases hstep
          exact ⟨⟨h.masterEdge, h.slaveEdge, h.master, h.cascade, h.rest⟩, rfl⟩
        · cases hstep
    | deregisterHandler irqCode =>
        rw [exec, deregisterHandler] at hstep
        split at hstep
        · cases hstep
          exact ⟨⟨h.masterEdge, h.slaveEdge, h.master, h.cascade, h.rest⟩, rfl⟩
        · cases hstep
  exact ⟨⟨hs', hkeep.1⟩, hkeep.2⟩

end Kernel

end TeachingKernel.Interrupts
