import TeachingKernel.Interrupts.Requests

/-!
# Programming the controllers

`irq_remap` from whatever the firmware left behind, with the devices raising and
lowering their lines between any two of its port writes. The first command to a
controller drops its old requests and resets its signal; the first command to the
slave resets the pin of the cascade, too, and from then on the wiring of the two is
in order.
-/

namespace TeachingKernel.Interrupts

open LineRegister Runs

namespace Pic

/-- `stage` of the commands to a controller are written. -/
structure Starting (offset : Byte) (stage : Nat) (p : Pic) : Prop where
  nested : p.Nested
  isr : p.isr = 0#8
  requires4 : p.requires4 = true
  inInit : p.inInit = decide (stage < 4)
  expected : stage < 4 → p.byteExpected = stage + 1
  offset_eq : 2 ≤ stage → p.interruptOffset = offset

variable {p q : Pic} {offset w : Byte} {stage : Nat}

def initCommand (offset wiring : Byte) : Nat → Byte
  | 1 => offset
  | 2 => wiring
  | 3 => 0x01
  | _ => 0x00

theorem Starting.congr (hs : p.Starting offset stage) (h : p.SameSetup q) :
    q.Starting offset stage :=
  ⟨hs.nested.congr h, h.isr.trans hs.isr, h.requires4.trans hs.requires4, h.inInit.trans hs.inInit,
    fun hlt => h.expected.trans (hs.expected hlt), fun hle => h.offset.trans (hs.offset_eq hle)⟩

theorem starting_init1 (hspecial : p.specialMask = false) (offset : Byte) :
    ∃ q, p.init1 0x11#8 = some q ∧ q.Starting offset 1 ∧ q.irr = 0#8 ∧ q.int = false ∧
      q.edgeLevel = p.edgeLevel := by
  refine ⟨_, rfl, ?_, rfl, rfl, rfl⟩
  exact ⟨⟨rfl, hspecial, rfl, rfl⟩, rfl, rfl, rfl, fun _ => rfl, fun h => absurd h (by decide)⟩

theorem Starting.data (hs : p.Starting offset stage) (hoffset : offset &&& 0xF8#8 = offset)
    (hpos : 1 ≤ stage) (hle : stage ≤ 4) :
    ∃ q b, p.data (initCommand offset w stage) = some (q, b) ∧
      q.Starting offset (stage + 1) ∧ p.SameRequests q ∧ q.edgeLevel = p.edgeLevel := by
  obtain ⟨⟨hlow, hspec, hman, himr⟩, hisr, hreq, hinit, hexp, hoff⟩ := hs
  interval_cases stage
  · refine ⟨{ p with interruptOffset := offset &&& 0xF8#8, byteExpected := 3 }, false, ?_, ?_, ?_⟩
    · simp [Pic.data, hinit, hexp (by decide), initCommand]
    · exact ⟨⟨hlow, hspec, hman, himr⟩, hisr, hreq, hinit, fun _ => rfl, fun _ => hoffset⟩
    · exact ⟨⟨rfl, rfl, rfl, rfl⟩, rfl⟩
  · refine ⟨{ p with byteExpected := 4 }, false, ?_, ?_, ?_⟩
    · simp [Pic.data, hinit, hexp (by decide), hreq]
    · exact ⟨⟨hlow, hspec, hman, himr⟩, hisr, hreq, hinit, fun _ => rfl,
        fun _ => hoff (by decide)⟩
    · exact ⟨⟨rfl, rfl, rfl, rfl⟩, rfl⟩
  · refine ⟨{ p with autoEoi := false, inInit := false }, false, ?_, ?_, ?_⟩
    · simp [Pic.data, hinit, hexp (by decide), initCommand]
    · exact ⟨⟨hlow, hspec, rfl, himr⟩, hisr, hreq, rfl, fun h => absurd h (by decide),
        fun _ => hoff (by decide)⟩
    · exact ⟨⟨rfl, rfl, rfl, rfl⟩, rfl⟩
  · refine ⟨{ p with imr := 0#8 }, true, ?_, ?_, ?_⟩
    · simp [Pic.data, hinit, initCommand]
    · exact ⟨⟨hlow, hspec, hman, rfl⟩, hisr, hreq, hinit, fun h => absurd h (by decide),
        fun _ => hoff (by decide)⟩
    · exact ⟨⟨rfl, rfl, rfl, rfl⟩, rfl⟩

theorem Starting.programmed (hs : p.Starting offset 5) : p.Programmed offset :=
  ⟨hs.nested, hs.offset_eq (by decide), hs.inInit⟩

/-- What is signalled depends on the requests and on what is in service. -/
theorem SameRequests.signalled (h : p.SameRequests q) (hn : p.Nested) (hn' : q.Nested)
    (hisr : q.isr = p.isr) (hnone : p.signalled = none) : q.signalled = none := by
  rw [hn'.signalled_eq, h.int, h.irr, level_eq_of_isr_eq hisr, ← hn.signalled_eq]
  exact hnone

end Pic

namespace Pics

variable {s : Pics} {line : Nat}

/-- The master is in order while the slave is not programmed yet. -/
structure MasterWired (s : Pics) : Prop where
  nested : s.master.Nested
  intr_eq : s.intr = s.master.int
  irq : s.master.int = true → s.master.irq < 8
  settled : s.master.signalled = none

theorem masterWired_service (hn : s.master.Nested) (hintr : s.intr = s.master.int)
    (hirq : s.master.int = true → s.master.irq < 8) : s.serviceMasterPic.MasterWired := by
  have hset := serviceMasterPic_settled s
  have hn' := hn.congr (sameSetup_serviceMasterPic s).master
  unfold serviceMasterPic at hset hn' ⊢
  cases h : s.master.signalled with
  | none => exact ⟨hn, hintr, hirq, h⟩
  | some irq =>
      rw [h] at hset hn'
      have hlt := (hn.signalled_eq_some.mp h).2.1
      have hle := s.master.level_le
      exact ⟨hn', rfl, fun _ => Nat.lt_of_lt_of_le hlt hle, hset⟩

theorem MasterWired.raiseMaster (hw : s.MasterWired) (line : Nat) :
    (s.raiseMaster line).MasterWired := by
  unfold Pics.raiseMaster
  split
  · exact hw
  · exact masterWired_service (hw.nested.congr (s.master.sameSetup_raise line)) hw.intr_eq hw.irq

theorem MasterWired.setSlave (hw : s.MasterWired) (p : Pic) :
    ({ s with slave := p } : Pics).MasterWired :=
  ⟨hw.nested, hw.intr_eq, hw.irq, hw.settled⟩

theorem MasterWired.serviceSlavePic (hw : s.MasterWired) : s.serviceSlavePic.MasterWired := by
  unfold Pics.serviceSlavePic
  split
  · exact hw
  · exact (hw.setSlave _).raiseMaster 2

theorem MasterWired.raiseIrq (hw : s.MasterWired) (line : Nat) :
    (s.raiseIrq line).MasterWired := by
  unfold Pics.raiseIrq
  split
  · exact hw.raiseMaster line
  · split
    · split
      · exact hw
      · exact (hw.setSlave _).serviceSlavePic
    · exact hw

theorem MasterWired.lowerIrq (hw : s.MasterWired) (line : Nat) :
    (s.lowerIrq line).MasterWired := by
  unfold Pics.lowerIrq
  split
  · split
    · exact ⟨hw.nested.congr (s.master.sameSetup_lower line), hw.intr_eq, hw.irq,
        lower_settled hw.nested hw.settled line⟩
    · exact hw
  · split
    · split
      · exact hw.setSlave _
      · exact hw
    · exact hw

theorem Cascaded.congr {m p : Pic} (hc : s.Cascaded) (hm : s.master.SameRequests m)
    (hp : s.slave.SameRequests p) : ({ s with master := m, slave := p } : Pics).Cascaded := by
  refine ⟨hc.intr_eq.trans hm.int.symm, fun h => ?_, fun h => ?_, ?_, fun h => ?_⟩
  · rw [hm.irq]
    exact hc.master_irq (hm.int.symm.trans h)
  · rw [hp.irq]
    exact hc.slave_irq (hp.int.symm.trans h)
  · rw [hm.irqIn, hp.int]
    exact hc.pin_eq
  · rw [hm.irr]
    exact hc.requested (hp.int.symm.trans h)

end Pics

namespace Kernel

variable {H : Type} {k k' : Kernel H} {pics : Pics} {handlerTable : Word → Option H} {n line : Nat}

inductive Booting (k : Kernel H) : Prop
  | first (hwrites : k.writes = irqRemap) (hmaster : k.pics.master.specialMask = false)
      (hslave : k.pics.slave.specialMask = false)
  | second (hwrites : k.writes = irqRemap.drop 1) (hmaster : k.pics.master.Starting 0x20 1)
      (hwired : k.pics.MasterWired) (hslave : k.pics.slave.specialMask = false)
  | rest (n : Nat) (hn : 2 ≤ n) (hlt : n < 10) (hwrites : k.writes = irqRemap.drop n)
      (hmaster : k.pics.master.Starting 0x20 ((n + 1) / 2))
      (hslave : k.pics.slave.Starting 0x28 (n / 2)) (hcascaded : k.pics.Cascaded)
      (hsettled : k.pics.Settled)

theorem Booting.not_idle (hb : k.Booting) : ¬ k.Idle := by
  intro hidle
  have hlength : ∀ n < 10, k.writes ≠ irqRemap.drop n := by
    intro n hn h
    have hlen := congrArg List.length (h.symm.trans hidle)
    rw [List.length_drop] at hlen
    have hten : irqRemap.length = 10 := rfl
    rw [List.length_nil] at hlen
    omega
  cases hb with
  | first hwrites => exact hlength 0 (by decide) hwrites
  | second hwrites => exact hlength 1 (by decide) hwrites
  | rest n _ hlt hwrites => exact hlength n hlt hwrites

/-! ## Devices -/

theorem Booting.raise (hb : k.Booting) (hline : DeviceLine line) :
    ({ k with pics := k.pics.raiseIrq line } : Kernel H).Booting := by
  have hsame := Pics.sameSetup_raiseIrq k.pics line
  cases hb with
  | first hwrites hmaster hslave =>
      exact .first hwrites (hsame.master.special.trans hmaster) (hsame.slave.special.trans hslave)
  | second hwrites hmaster hwired hslave =>
      exact .second hwrites (hmaster.congr hsame.master) (hwired.raiseIrq line)
        (hsame.slave.special.trans hslave)
  | rest n hn hlt hwrites hmaster hslave hcascaded hsettled =>
      exact .rest n hn hlt hwrites (hmaster.congr hsame.master) (hslave.congr hsame.slave)
        (hcascaded.raiseIrq ⟨hmaster.nested, hslave.nested⟩ hline)
        ⟨Pics.raiseIrq_master_settled hsettled.master, Pics.raiseIrq_slave_settled hsettled.slave⟩

theorem Booting.lower (hb : k.Booting) (hline : DeviceLine line) :
    ({ k with pics := k.pics.lowerIrq line } : Kernel H).Booting := by
  have hsame := Pics.sameSetup_lowerIrq k.pics line
  cases hb with
  | first hwrites hmaster hslave =>
      exact .first hwrites (hsame.master.special.trans hmaster) (hsame.slave.special.trans hslave)
  | second hwrites hmaster hwired hslave =>
      exact .second hwrites (hmaster.congr hsame.master) (hwired.lowerIrq line)
        (hsame.slave.special.trans hslave)
  | rest n hn hlt hwrites hmaster hslave hcascaded hsettled =>
      have hnested : k.pics.Nested := ⟨hmaster.nested, hslave.nested⟩
      exact .rest n hn hlt hwrites (hmaster.congr hsame.master) (hslave.congr hsame.slave)
        (hcascaded.lowerIrq hline) ⟨Pics.lowerIrq_master_settled hnested hsettled.master,
          Pics.lowerIrq_slave_settled hnested hsettled.slave⟩

/-! ## Port writes -/

theorem write_master_data {s : Pics} {stage : Nat} {value : Byte} (hpos : 1 ≤ stage)
    (hle : stage ≤ 4) (hmaster : s.master.Starting 0x20 stage)
    (hcascaded : s.Cascaded) (hsettled : s.Settled)
    (hvalue : value = Pic.initCommand 0x20 0x04 stage) :
    ∃ t, s.write 0x21 value = some t ∧ t.master.Starting 0x20 (stage + 1) ∧ t.slave = s.slave ∧
      t.Cascaded ∧ t.Settled ∧ s.Kept t := by
  obtain ⟨q, b, hdata, hq, hsame, hedge⟩ := hmaster.data (w := 0x04) rfl hpos hle
  have hc := hcascaded.congr hsame (p := s.slave) ⟨rfl, rfl, rfl, rfl⟩
  have hset := hsame.signalled hmaster.nested hq.nested (hq.isr.trans hmaster.isr.symm)
    hsettled.master
  refine ⟨s.afterMaster (q, b), ?_, ?_⟩
  · rw [Pics.write, if_neg (by decide), if_pos rfl, hvalue, hdata, Option.map_some]
  · cases b with
    | false =>
        refine ⟨hq, rfl, hc, ⟨hset, hsettled.slave⟩, fun L h => ?_, fun i _ => ?_⟩
        · exact ⟨fun i hi hL => (h.master i hi hL).congr hsame hedge, h.slave⟩
        · rw [Pics.afterMaster, if_neg Bool.false_ne_true, Pics.requested, Pics.requested,
            hsame.irr]
    | true =>
        have hsetup := Pics.sameSetup_serviceMasterPic { s with master := q }
        refine ⟨hq.congr hsetup.master, Pics.serviceMasterPic_slave _,
          hc.serviceMasterPic hq.nested, ⟨Pics.serviceMasterPic_settled _, ?_⟩,
          Pics.kept_serviceMasterPic hsame hedge hq.nested⟩
        rw [Pics.afterMaster, if_pos rfl, Pics.serviceMasterPic_slave]
        exact hsettled.slave

theorem write_slave_data {s : Pics} {stage mstage : Nat} {value : Byte} (hpos : 1 ≤ stage)
    (hle : stage ≤ 4) (hmaster : s.master.Starting 0x20 mstage)
    (hslave : s.slave.Starting 0x28 stage) (hcascaded : s.Cascaded) (hsettled : s.Settled)
    (hvalue : value = Pic.initCommand 0x28 0x02 stage) :
    ∃ t, s.write 0xA1 value = some t ∧ t.slave.Starting 0x28 (stage + 1) ∧
      t.master.Starting 0x20 mstage ∧ t.Cascaded ∧ t.Settled ∧ s.Kept t := by
  obtain ⟨q, b, hdata, hq, hsame, hedge⟩ := hslave.data (w := 0x02) rfl hpos hle
  have hc := hcascaded.congr (m := s.master) ⟨rfl, rfl, rfl, rfl⟩ hsame
  have hset := hsame.signalled hslave.nested hq.nested (hq.isr.trans hslave.isr.symm)
    hsettled.slave
  refine ⟨s.afterSlave (q, b), ?_, ?_⟩
  · rw [Pics.write, if_neg (by decide), if_neg (by decide), if_neg (by decide), if_pos rfl, hvalue,
      hdata, Option.map_some]
  · cases b with
    | false =>
        refine ⟨hq, hmaster, hc, ⟨hsettled.master, hset⟩, fun L h => ?_, fun i _ => ?_⟩
        · exact ⟨h.master, fun i hi hL => (h.slave i hi hL).congr hsame hedge⟩
        · rw [Pics.afterSlave, if_neg Bool.false_ne_true, Pics.requested, Pics.requested, hsame.irr]
    | true =>
        have hsetup := Pics.sameSetup_serviceSlavePic { s with slave := q }
        exact ⟨hq.congr hsetup.slave, hmaster.congr hsetup.master,
          hc.serviceSlavePic ⟨hmaster.nested, hq.nested⟩,
          ⟨Pics.serviceSlavePic_master_settled hsettled.master, Pics.serviceSlavePic_settled _⟩,
          Pics.kept_serviceSlavePic hsame hedge hmaster.nested hq.nested⟩

theorem write_first (s : Pics) (hspecial : s.master.specialMask = false) :
    ∃ t, s.write 0x20 0x11#8 = some t ∧ t.master.Starting 0x20 1 ∧ t.MasterWired ∧
      t.slave = s.slave ∧ t.master.irr = 0#8 ∧ t.master.int = false ∧
      t.master.edgeLevel = s.master.edgeLevel := by
  obtain ⟨q, hinit, hq, hirr, hint, hedge⟩ := Pic.starting_init1 hspecial 0x20
  refine ⟨{ s with master := q, intr := false }, ?_, hq, ⟨hq.nested, hint.symm, ?_, ?_⟩, rfl,
    hirr, hint, hedge⟩
  · rw [Pics.write, if_pos rfl, if_pos (by decide), hinit, Option.map_some]
  · intro h
    cases h.symm.trans hint
  · refine hq.nested.signalled_eq_none.mpr (.inr fun i _ => ?_)
    rw [hirr]
    exact BitVec.getLsbD_zero

theorem write_second {s : Pics} (hmaster : s.master.Starting 0x20 1) (hwired : s.MasterWired)
    (hspecial : s.slave.specialMask = false) :
    ∃ t, s.write 0xA0 0x11#8 = some t ∧ t.master.Starting 0x20 1 ∧ t.slave.Starting 0x28 1 ∧
      t.Cascaded ∧ t.Settled ∧ t.slave.irr = 0#8 ∧ t.slave.int = false ∧
      t.slave.edgeLevel = s.slave.edgeLevel ∧
      t.master = { s.master with irqIn := clearLine s.master.irqIn 2 } := by
  obtain ⟨q, hinit, hq, hirr, hint, hedge⟩ := Pic.starting_init1 hspecial 0x28
  have hpin : s.master.SameSetup { s.master with irqIn := clearLine s.master.irqIn 2 } := by
    constructor <;> rfl
  refine ⟨{ s with slave := q, master := { s.master with irqIn := clearLine s.master.irqIn 2 } },
    ?_, hmaster.congr hpin, hq, ?_, ⟨?_, ?_⟩, hirr, hint, hedge, rfl⟩
  · rw [Pics.write, if_neg (by decide), if_neg (by decide), if_pos rfl, if_pos (by decide), hinit,
      Option.map_some]
  · refine ⟨hwired.intr_eq, hwired.irq, fun h => ?_, ?_, fun h => ?_⟩
    · cases h.symm.trans hint
    · rw [hint, getLsbD_clearLine (by decide)]
      simp
    · cases h.symm.trans hint
  · have hnested := hmaster.nested.congr hpin
    exact hnested.signalled_eq_none.mpr (hmaster.nested.signalled_eq_none.mp hwired.settled)
  · refine hq.nested.signalled_eq_none.mpr (.inr fun i _ => ?_)
    rw [hirr]
    exact BitVec.getLsbD_zero

theorem booting_or_running {s : Pics} {n : Nat} (hn : 2 ≤ n) (hle : n ≤ 10)
    (hmaster : s.master.Starting 0x20 ((n + 1) / 2)) (hslave : s.slave.Starting 0x28 (n / 2))
    (hcascaded : s.Cascaded) (hsettled : s.Settled) :
    ({ k with pics := s, writes := irqRemap.drop n } : Kernel H).Booting ∨
      ({ k with pics := s, writes := irqRemap.drop n } : Kernel H).Running := by
  rcases Nat.lt_or_eq_of_le hle with hlt | rfl
  · exact .inl (.rest n hn hlt rfl hmaster hslave hcascaded hsettled)
  · exact .inr ⟨⟨hmaster.programmed, hslave.programmed⟩, hcascaded, hsettled.slave,
      .idle rfl hmaster.isr hslave.isr hsettled.master⟩

/-- Every port write of `irq_remap` is accepted. -/
theorem Booting.outportb_eq (hb : k.Booting) :
    ∃ k', k.outportb = some k' ∧ k'.dispatched = k.dispatched ∧ (k'.Booting ∨ k'.Running) ∧
      (k.writes ≠ irqRemap → k.writes ≠ irqRemap.drop 1 →
        k'.writes ≠ irqRemap ∧ k'.writes ≠ irqRemap.drop 1 ∧ k.pics.Kept k'.pics) := by
  cases hb with
  | first hwrites hmaster hslave =>
      obtain ⟨t, hwrite, hstart, hwired, hsame, -⟩ := write_first k.pics hmaster
      refine ⟨_, Kernel.outportb_eq hwrites hwrite, rfl, .inl (.second rfl hstart hwired ?_),
        fun h => absurd hwrites h⟩
      rw [hsame]
      exact hslave
  | second hwrites hmaster hwired hslave =>
      obtain ⟨t, hwrite, hm, hs, hc, hset, -⟩ := write_second hmaster hwired hslave
      exact ⟨_, Kernel.outportb_eq hwrites hwrite, rfl,
        .inl (.rest 2 (by decide) (by decide) rfl hm hs hc hset), fun _ h => absurd hwrites h⟩
  | rest n hn hlt hwrites hmaster hslave hcascaded hsettled =>
      have hnext : irqRemap.drop (n + 1) ≠ irqRemap ∧
          irqRemap.drop (n + 1) ≠ irqRemap.drop 1 := by
        interval_cases n <;> decide
      -- even writes go to the master, odd ones to the slave
      have heven : ∀ stage, n = 2 * stage → ∃ k', k.outportb = some k' ∧
          k'.dispatched = k.dispatched ∧ (k'.Booting ∨ k'.Running) ∧
          (k.writes ≠ irqRemap → k.writes ≠ irqRemap.drop 1 →
            k'.writes ≠ irqRemap ∧ k'.writes ≠ irqRemap.drop 1 ∧ k.pics.Kept k'.pics) := by
        intro stage hstage
        obtain ⟨value, hdrop, hvalue⟩ : ∃ value, irqRemap.drop n =
            (0x21, value) :: irqRemap.drop (n + 1) ∧ value = Pic.initCommand 0x20 0x04 stage := by
          have hstages : 1 ≤ stage ∧ stage ≤ 4 := by omega
          obtain ⟨h1, h4⟩ := hstages
          subst hstage
          interval_cases stage <;> exact ⟨_, rfl, rfl⟩
        rw [show (n + 1) / 2 = stage by omega] at hmaster
        rw [show n / 2 = stage by omega] at hslave
        obtain ⟨t, hwrite, hm, hs, hc, hset, hkept⟩ :=
          write_master_data (by omega) (by omega) hmaster hcascaded hsettled hvalue
        refine ⟨_, Kernel.outportb_eq (hwrites.trans hdrop) hwrite, rfl,
          booting_or_running (by omega) (by omega) ?_ ?_ hc hset,
          fun _ _ => ⟨hnext.1, hnext.2, hkept⟩⟩
        · rw [show (n + 1 + 1) / 2 = stage + 1 by omega]
          exact hm
        · rw [hs, show (n + 1) / 2 = stage by omega]
          exact hslave
      have hodd : ∀ stage, n = 2 * stage + 1 → ∃ k', k.outportb = some k' ∧
          k'.dispatched = k.dispatched ∧ (k'.Booting ∨ k'.Running) ∧
          (k.writes ≠ irqRemap → k.writes ≠ irqRemap.drop 1 →
            k'.writes ≠ irqRemap ∧ k'.writes ≠ irqRemap.drop 1 ∧ k.pics.Kept k'.pics) := by
        intro stage hstage
        obtain ⟨value, hdrop, hvalue⟩ : ∃ value, irqRemap.drop n =
            (0xA1, value) :: irqRemap.drop (n + 1) ∧ value = Pic.initCommand 0x28 0x02 stage := by
          have hstages : 1 ≤ stage ∧ stage ≤ 4 := by omega
          obtain ⟨h1, h4⟩ := hstages
          subst hstage
          interval_cases stage <;> exact ⟨_, rfl, rfl⟩
        rw [show n / 2 = stage by omega] at hslave
        obtain ⟨t, hwrite, hs, hm, hc, hset, hkept⟩ :=
          write_slave_data (by omega) (by omega) hmaster hslave hcascaded hsettled hvalue
        refine ⟨_, Kernel.outportb_eq (hwrites.trans hdrop) hwrite, rfl,
          booting_or_running (by omega) (by omega) ?_ ?_ hc hset,
          fun _ _ => ⟨hnext.1, hnext.2, hkept⟩⟩
        · rw [show (n + 1 + 1) / 2 = (n + 1) / 2 by omega]
          exact hm
        · rw [show (n + 1) / 2 = stage + 1 by omega]
          exact hs
      rcases Nat.mod_two_eq_zero_or_one n with hmod | hmod
      · exact heven (n / 2) (by omega)
      · exact hodd (n / 2) (by omega)

/-! ## Runs -/

/-- In the course of `irq_remap`, with no interrupt dispatched yet, or behind it. -/
def Started (k : Kernel H) : Prop := k.Booting ∧ k.dispatched = [] ∨ k.Running

theorem Booting.setTable (hb : k.Booting) (table : Word → Option H) :
    ({ k with handlerTable := table } : Kernel H).Booting := by
  cases hb with
  | first h1 h2 h3 => exact .first h1 h2 h3
  | second h1 h2 h3 h4 => exact .second h1 h2 h3 h4
  | rest n h1 h2 h3 h4 h5 h6 h7 => exact .rest n h1 h2 h3 h4 h5 h6 h7

theorem Started.step {a : Event H} (hs : k.Started) (hstep : k.step a k') : k'.Started := by
  rcases hs with ⟨hb, hnone⟩ | hr
  · unfold Kernel.step at hstep
    cases a with
    | raise line =>
        rw [exec] at hstep
        split at hstep
        · rename_i hline
          cases hstep
          exact .inl ⟨hb.raise hline, hnone⟩
        · cases hstep
    | lower line =>
        rw [exec] at hstep
        split at hstep
        · rename_i hline
          cases hstep
          exact .inl ⟨hb.lower hline, hnone⟩
        · cases hstep
    | acknowledge =>
        rw [exec, acknowledge, if_neg fun h => hb.not_idle h.1] at hstep
        cases hstep
    | outportb =>
        obtain ⟨next, heq, hsame, hnext, -⟩ := hb.outportb_eq
        cases heq.symm.trans hstep
        exact hnext.imp (fun h => ⟨h, hsame.trans hnone⟩) id
    | registerHandler irqCode handler =>
        rw [exec, registerHandler] at hstep
        split at hstep
        · cases hstep
          exact .inl ⟨hb.setTable _, hnone⟩
        · cases hstep
    | deregisterHandler irqCode =>
        rw [exec, deregisterHandler] at hstep
        split at hstep
        · cases hstep
          exact .inl ⟨hb.setTable _, hnone⟩
        · cases hstep
  · exact .inr (hr.step hstep)

theorem started_of_run {run : List (Event H × Kernel H)}
    (hmaster : pics.master.specialMask = false) (hslave : pics.slave.specialMask = false)
    (hrun : IsRun Kernel.step (boot pics handlerTable) run) :
    (last (boot pics handlerTable) run).Started :=
  last_of_everyState (everyState_of_step (fun _ _ _ hs hstep => hs.step hstep)
    (.inl ⟨.first rfl hmaster hslave, rfl⟩) hrun)

theorem Started.running (hs : k.Started) (h : k.Idle ∨ k.dispatched ≠ []) : k.Running := by
  rcases hs with ⟨hb, hnone⟩ | hr
  · rcases h with hidle | hsome
    · exact absurd hidle hb.not_idle
    · exact absurd hnone hsome
  · exact hr

end Kernel

end TeachingKernel.Interrupts
