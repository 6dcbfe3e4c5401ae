import TeachingKernel.Disk.Blocks

/-!
# Two ways to wait for a disk

`SimpleDisk` and `BlockingDisk` of P6 on any device behind ports, with a log of their
port accesses and scheduler calls. The classes repeat the transfer code and differ in
`wait_until_ready`. That of `SimpleDisk` asserts false in the body of its loop, so it
only waits where assertions are turned off.
-/

namespace TeachingKernel.Disk

open ForLoop Ata

structure Device (δ : Type) where
  outb : BitVec 16 → Byte → δ → δ
  inb : BitVec 16 → δ → Byte × δ
  outw : BitVec 16 → BitVec 16 → δ → δ
  inw : BitVec 16 → δ → BitVec 16 × δ

inductive Event where
  | outb (port : BitVec 16) (v : Byte)
  | inb (port : BitVec 16) (v : Byte)
  | outw (port : BitVec 16) (v : BitVec 16)
  | inw (port : BitVec 16) (v : BitVec 16)
  | add
  | yield
  deriving DecidableEq

/-- Neither a status poll nor a call of the scheduler. -/
def Event.transfers : Event → Bool
  | .outb _ _ | .outw _ _ | .inw _ _ => true
  | .inb _ _ | .add | .yield => false

structure Bus (δ : Type) where
  device : δ
  log : List Event

section

variable {δ : Type} (D : Device δ)

namespace Bus

def outportb (port : BitVec 16) (v : Byte) (s : Bus δ) : Bus δ :=
  ⟨D.outb port v s.device, s.log ++ [.outb port v]⟩

def inportb (port : BitVec 16) (s : Bus δ) : Byte × Bus δ :=
  let r := D.inb port s.device
  (r.1, ⟨r.2, s.log ++ [.inb port r.1]⟩)

def outportw (port : BitVec 16) (v : BitVec 16) (s : Bus δ) : Bus δ :=
  ⟨D.outw port v s.device, s.log ++ [.outw port v]⟩

def inportw (port : BitVec 16) (s : Bus δ) : BitVec 16 × Bus δ :=
  let r := D.inw port s.device
  (r.1, ⟨r.2, s.log ++ [.inw port r.1]⟩)

def call (e : Event) (s : Bus δ) : Bus δ := { s with log := s.log ++ [e] }

end Bus

/-- The macro `assert`. A failed assertion does not return; `-DNDEBUG` turns it off. -/
def assert (ndebug m : Bool) : Option Unit := if ndebug || m then some () else none

namespace SimpleDisk

def issueOperation (id : DiskId) (op : DiskOperation) (blockNo : Word) (s : Bus δ) : Bus δ :=
  (commandWrites id op blockNo).foldl (fun s w => s.outportb D w.1 w.2) s

def isReady (s : Bus δ) : Bool × Bus δ :=
  let r := s.inportb D 0x1F7
  (r.1 &&& 0x08 != 0, r.2)

/-- `while (!is_ready()) { assert(false); }` -/
def waitUntilReady (ndebug : Bool) : Nat → Bus δ → Option (Bus δ)
  | 0, _ => none
  | fuel + 1, s =>
      let r := isReady D s
      if r.1 then some r.2
      else (assert ndebug false).bind fun _ => waitUntilReady ndebug fuel r.2

def read (ndebug : Bool) (fuel : Nat) (id : DiskId) (blockNo : Word) (buf : Buffer) (s : Bus δ) :
    Option (Bus δ × Buffer) :=
  (waitUntilReady D ndebug fuel (issueOperation D id .read blockNo s)).map fun s =>
    forRange 0 256 (fun i p =>
      let r := p.1.inportw D 0x1F0
      (r.2, unpack i r.1 p.2)) (s, buf)

def write (ndebug : Bool) (fuel : Nat) (id : DiskId) (blockNo : Word) (buf : Buffer) (s : Bus δ) :
    Option (Bus δ) :=
  (waitUntilReady D ndebug fuel (issueOperation D id .write blockNo s)).map fun s =>
    forRange 0 256 (fun i s => s.outportw D 0x1F0 (pack buf i)) s

def perform (ndebug : Bool) (fuel : Nat) (o : BlockOp) (s : Bus δ) : Option (Bus δ × Buffer) :=
  match o.op with
  | .read => read D ndebug fuel o.id o.blockNo o.buf s
  | .write => (write D ndebug fuel o.id o.blockNo o.buf s).map (·, o.buf)

end SimpleDisk

namespace BlockingDisk

/-- The thread goes to the end of the ready queue and yields while the disk is not ready. -/
def waitUntilReady : Nat → Bus δ → Option (Bus δ)
  | 0, _ => none
  | fuel + 1, s =>
      let r := SimpleDisk.isReady D s
      if r.1 then some r.2 else waitUntilReady fuel ((r.2.call .add).call .yield)

def read (fuel : Nat) (id : DiskId) (blockNo : Word) (buf : Buffer) (s : Bus δ) :
    Option (Bus δ × Buffer) :=
  (waitUntilReady D fuel (SimpleDisk.issueOperation D id .read blockNo s)).map fun s =>
    forRange 0 256 (fun i p =>
      let r := p.1.inportw D 0x1F0
      (r.2, unpack i r.1 p.2)) (s, buf)

def write (fuel : Nat) (id : DiskId) (blockNo : Word) (buf : Buffer) (s : Bus δ) :
    Option (Bus δ) :=
  (waitUntilReady D fuel (SimpleDisk.issueOperation D id .write blockNo s)).map fun s =>
    forRange 0 256 (fun i s => s.outportw D 0x1F0 (pack buf i)) s

def perform (fuel : Nat) (o : BlockOp) (s : Bus δ) : Option (Bus δ × Buffer) :=
  match o.op with
  | .read => read D fuel o.id o.blockNo o.buf s
  | .write => (write D fuel o.id o.blockNo o.buf s).map (·, o.buf)

end BlockingDisk

/-- The status port answers without data request `k` times, then with it. -/
def Device.NotReadyFor : Nat → δ → Prop
  | 0, d => (D.inb 0x1F7 d).1 &&& 0x08 ≠ 0
  | k + 1, d => (D.inb 0x1F7 d).1 &&& 0x08 = 0 ∧ NotReadyFor k (D.inb 0x1F7 d).2

instance Device.NotReadyFor.decidable (D : Device δ) :
    (k : Nat) → (d : δ) → Decidable (D.NotReadyFor k d)
  | 0, d => inferInstanceAs (Decidable ((D.inb 0x1F7 d).1 &&& 0x08 ≠ 0))
  | k + 1, d =>
      have := NotReadyFor.decidable D k (D.inb 0x1F7 d).2
      inferInstanceAs (Decidable ((D.inb 0x1F7 d).1 &&& 0x08 = 0 ∧ D.NotReadyFor k _))

structure SameTransfers (s t : Bus δ) : Prop where
  device_eq : s.device = t.device
  log_eq : s.log.filter Event.transfers = t.log.filter Event.transfers

def Agree (ndebug : Bool) (o : BlockOp) (s : Bus δ) : Prop :=
  ∃ bound r r', (∀ fuel ≥ bound, SimpleDisk.perform D ndebug fuel o s = some r ∧
      BlockingDisk.perform D fuel o s = some r') ∧ SameTransfers r.1 r'.1 ∧ r.2 = r'.2

end

section

variable {δ : Type} {D : Device δ} {s t : Bus δ} {k fuel : Nat} {ndebug : Bool} {o : BlockOp}
  {p q : Bus δ × Buffer}

/-! ## Transfers of two buses -/

theorem SameTransfers.refl (s : Bus δ) : SameTransfers s s := ⟨rfl, rfl⟩

theorem SameTransfers.append (h : SameTransfers s t) (d : δ) {es es' : List Event}
    (hes : es.filter Event.transfers = es'.filter Event.transfers) :
    SameTransfers ⟨d, s.log ++ es⟩ ⟨d, t.log ++ es'⟩ := by
  refine ⟨rfl, ?_⟩
  rw [List.filter_append, List.filter_append, h.log_eq, hes]

theorem SameTransfers.outportw (h : SameTransfers s t) (port v : BitVec 16) :
    SameTransfers (s.outportw D port v) (t.outportw D port v) := by
  rw [Bus.outportw, Bus.outportw, h.device_eq]
  exact h.append _ rfl

theorem SameTransfers.inportw (h : SameTransfers s t) (port : BitVec 16) :
    (s.inportw D port).1 = (t.inportw D port).1 ∧
      SameTransfers (s.inportw D port).2 (t.inportw D port).2 := by
  unfold Bus.inportw
  rw [h.device_eq]
  exact ⟨rfl, h.append _ rfl⟩

theorem SameTransfers.isReady (h : SameTransfers s t) :
    (SimpleDisk.isReady D s).1 = (SimpleDisk.isReady D t).1 ∧
      SameTransfers (SimpleDisk.isReady D s).2 (SimpleDisk.isReady D t).2 := by
  unfold SimpleDisk.isReady Bus.inportb
  rw [h.device_eq]
  exact ⟨rfl, h.append _ rfl⟩

theorem SameTransfers.call (h : SameTransfers s t) {e : Event} (he : e.transfers = false) :
    SameTransfers s (t.call e) := by
  refine ⟨h.device_eq, ?_⟩
  rw [Bus.call, List.filter_append, List.filter_cons_of_neg (by rw [he]; exact Bool.false_ne_true),
    List.filter_nil, List.append_nil]
  exact h.log_eq

/-! ## Waiting -/

theorem isReady_of_notReadyFor_zero (hk : D.NotReadyFor 0 s.device) :
    (SimpleDisk.isReady D s).1 = true := bne_iff_ne.mpr hk

theorem isReady_of_notReadyFor_succ (hk : D.NotReadyFor (k + 1) s.device) :
    (SimpleDisk.isReady D s).1 = false ∧
      D.NotReadyFor k (SimpleDisk.isReady D s).2.device :=
  ⟨bne_eq_false_iff_eq.mpr hk.1, hk.2⟩

/-- With assertions off the two loops poll equally often. -/
theorem waits_agree (hk : D.NotReadyFor k s.device) (h : SameTransfers s t) :
    ∃ s' t', SameTransfers s' t' ∧ ∀ fuel, k < fuel →
      SimpleDisk.waitUntilReady D true fuel s = some s' ∧
        BlockingDisk.waitUntilReady D fuel t = some t' := by
  induction k generalizing s t with
  | zero =>
      obtain ⟨hanswer, hpoll⟩ := h.isReady (D := D)
      have hready := isReady_of_notReadyFor_zero hk
      refine ⟨_, _, hpoll, fun fuel hfuel => ?_⟩
      obtain ⟨fuel, rfl⟩ := Nat.exists_eq_add_of_lt hfuel
      rw [SimpleDisk.waitUntilReady, BlockingDisk.waitUntilReady]
      exact ⟨if_pos hready, if_pos (hanswer ▸ hready)⟩
  | succ k ih =>
      obtain ⟨hanswer, hpoll⟩ := h.isReady (D := D)
      obtain ⟨hbusy, hrest⟩ := isReady_of_notReadyFor_succ hk
      have hcalls := (hpoll.call (e := .add) rfl).call (e := .yield) rfl
      obtain ⟨s', t', hsame, hloops⟩ := ih hrest hcalls
      refine ⟨s', t', hsame, fun fuel hfuel => ?_⟩
      obtain ⟨fuel, rfl⟩ : ∃ n, fuel = n + 1 := ⟨fuel - 1, by omega⟩
      obtain ⟨hsimple, hblocking⟩ := hloops fuel (by omega)
      rw [SimpleDisk.waitUntilReady, BlockingDisk.waitUntilReady, hbusy, ← hanswer, hbusy]
      exact ⟨hsimple, hblocking⟩

theorem waitUntilReady_ready (hk : D.NotReadyFor 0 s.device) (hfuel : 0 < fuel) :
    SimpleDisk.waitUntilReady D ndebug fuel s = some (SimpleDisk.isReady D s).2 := by
  obtain ⟨fuel, rfl⟩ : ∃ n, fuel = n + 1 := ⟨fuel - 1, by omega⟩
  rw [SimpleDisk.waitUntilReady]
  exact if_pos (isReady_of_notReadyFor_zero hk)

/-- The first answer without data request ends in the assertion. -/
theorem waitUntilReady_aborts (hk : D.NotReadyFor (k + 1) s.device) :
    SimpleDisk.waitUntilReady D false fuel s = none := by
  cases fuel with
  | zero => rfl
  | succ fuel =>
      rw [SimpleDisk.waitUntilReady, (isReady_of_notReadyFor_succ hk).1]
      rfl

/-! ## The transfers -/

def Bus.transfer (D : Device δ) (o : BlockOp) (s : Bus δ) : Bus δ × Buffer :=
  match o.op with
  | .read => forRange 0 256 (fun i p =>
      let r := p.1.inportw D 0x1F0
      (r.2, unpack i r.1 p.2)) (s, o.buf)
  | .write => (forRange 0 256 (fun i s => s.outportw D 0x1F0 (pack o.buf i)) s, o.buf)

theorem SimpleDisk.perform_eq : SimpleDisk.perform D ndebug fuel o s =
    (SimpleDisk.waitUntilReady D ndebug fuel
      (SimpleDisk.issueOperation D o.id o.op o.blockNo s)).map (Bus.transfer D o) := by
  obtain ⟨id, op, blockNo, buf⟩ := o
  cases op with
  | read => rfl
  | write => exact Option.map_map ..

theorem BlockingDisk.perform_eq : BlockingDisk.perform D fuel o s =
    (BlockingDisk.waitUntilReady D fuel
      (SimpleDisk.issueOperation D o.id o.op o.blockNo s)).map (Bus.transfer D o) := by
  obtain ⟨id, op, blockNo, buf⟩ := o
  cases op with
  | read => rfl
  | write => exact Option.map_map ..

theorem SameTransfers.transfer (h : SameTransfers s t) :
    SameTransfers (s.transfer D o).1 (t.transfer D o).1 ∧
      (s.transfer D o).2 = (t.transfer D o).2 := by
  obtain ⟨id, op, blockNo, buf⟩ := o
  cases op with
  | read =>
      refine forRange_rel (R := fun p q : Bus δ × Buffer => SameTransfers p.1 q.1 ∧ p.2 = q.2)
        ⟨h, rfl⟩ fun i p q hpq => ?_
      obtain ⟨hword, hbus⟩ := hpq.1.inportw (D := D) 0x1F0
      dsimp only
      rw [hword, hpq.2]
      exact ⟨hbus, rfl⟩
  | write =>
      dsimp only [Bus.transfer]
      refine ⟨forRange_rel (R := SameTransfers) h fun i u v huv => ?_, rfl⟩
      exact huv.outportw 0x1F0 (pack buf i)

theorem agree_of_waits {s' t' : Bus δ} (bound : Nat) (hsame : SameTransfers s' t')
    (hwaits : ∀ fuel ≥ bound,
      SimpleDisk.waitUntilReady D ndebug fuel (SimpleDisk.issueOperation D o.id o.op o.blockNo s) =
          some s' ∧
        BlockingDisk.waitUntilReady D fuel (SimpleDisk.issueOperation D o.id o.op o.blockNo s) =
          some t') : Agree D ndebug o s := by
  obtain ⟨htransfers, hbuf⟩ := hsame.transfer (D := D) (o := o)
  refine ⟨bound, _, _, fun fuel hfuel => ?_, htransfers, hbuf⟩
  obtain ⟨hsimple, hblocking⟩ := hwaits fuel hfuel
  rw [SimpleDisk.perform_eq, BlockingDisk.perform_eq, hsimple, hblocking]
  exact ⟨Option.map_some .., Option.map_some ..⟩

theorem perform_aborts (hk : D.NotReadyFor (k + 1)
      (SimpleDisk.issueOperation D o.id o.op o.blockNo s).device) :
    SimpleDisk.perform D false fuel o s = none := by
  rw [SimpleDisk.perform_eq, waitUntilReady_aborts hk, Option.map_none]

/-- The two classes do the same transfers for every device, operation and number of
answers without data request if assertions are turned off. Otherwise they do so exactly
where the disk is ready at the first poll. -/
theorem disks_agree_iff (D : Device δ) (ndebug : Bool) (o : BlockOp) (s : Bus δ) (k : Nat)
    (hk : D.NotReadyFor k (SimpleDisk.issueOperation D o.id o.op o.blockNo s).device) :
    Agree D ndebug o s ↔ ndebug = true ∨ k = 0 := by
  constructor
  · rintro ⟨bound, r, r', hperform, -⟩
    by_contra hneither
    obtain ⟨hndebug, hpos⟩ := not_or.mp hneither
    obtain ⟨k, rfl⟩ := Nat.exists_eq_succ_of_ne_zero hpos
    have hsimple := (hperform bound (Nat.le_refl _)).1
    rw [Bool.not_eq_true _ |>.mp hndebug, perform_aborts hk] at hsimple
    cases hsimple
  · intro hcase
    obtain ⟨s', t', hsame, hloops⟩ := waits_agree hk (.refl _)
    rcases hcase with rfl | rfl
    · exact agree_of_waits (k + 1) hsame fun fuel hfuel => hloops fuel hfuel
    · refine agree_of_waits 1 hsame fun fuel hfuel => ⟨?_, (hloops fuel hfuel).2⟩
      rw [← (hloops fuel hfuel).1, waitUntilReady_ready hk hfuel, waitUntilReady_ready hk hfuel]

end

/-! ## On the controller -/

/-- The ports of an LBA28 controller. Its data port is 0x1F0. -/
def controller : Device Controller where
  outb port v c := c.outb port v
  inb port c := c.inb port
  outw port v c := if port = 0x1F0 then c.outw v else c
  inw port c := if port = 0x1F0 then c.inw else (0, c)

theorem waitUntilReady_controller (fuel : Nat) (s : Bus Controller) :
    (BlockingDisk.waitUntilReady controller fuel s).map Bus.device =
      waitUntilReady fuel s.device := by
  induction fuel generalizing s with
  | zero => rfl
  | succ fuel ih =>
      rw [BlockingDisk.waitUntilReady, waitUntilReady, apply_ite (Option.map Bus.device),
        Option.map_some, ih]
      rfl

theorem transfer_controller (o : BlockOp) (s : Bus Controller) :
    ((s.transfer controller o).1.device, (s.transfer controller o).2) = o.transfer s.device := by
  obtain ⟨id, op, blockNo, buf⟩ := o
  cases op with
  | read =>
      dsimp only [Bus.transfer, BlockOp.transfer, readData]
      refine forRange_rel (R := fun (p : Bus Controller × Buffer) q => (p.1.device, p.2) = q) rfl
        fun i p q hpq => ?_
      rw [← hpq]
      rfl
  | write =>
      dsimp only [Bus.transfer, BlockOp.transfer, writeData]
      refine congrArg (·, buf) (forRange_rel (R := fun (u : Bus Controller) v => u.device = v) rfl
        fun i u v huv => ?_)
      rw [← huv]
      rfl

theorem perform_controller (fuel : Nat) (o : BlockOp) (s : Bus Controller) :
    (BlockingDisk.perform controller fuel o s).map (fun r => (r.1.device, r.2)) =
      o.perform fuel s.device := by
  have hissue : (SimpleDisk.issueOperation controller o.id o.op o.blockNo s).device =
      issueOperation o.id o.op o.blockNo s.device := rfl
  rw [BlockingDisk.perform_eq, Option.map_map, BlockOp.perform, ← hissue,
    ← waitUntilReady_controller, Option.map_map]
  exact congrArg (Option.map · _) (funext fun s => transfer_controller o s)

theorem numberedDisk_notReady : controller.NotReadyFor 1
    (SimpleDisk.issueOperation controller .master .read 5 ⟨numberedDisk, []⟩).device := by
  decide

theorem disks_agree_iff_numberedDisk :
    Agree controller true ⟨.master, .read, 5, fun _ => 0⟩ ⟨numberedDisk, []⟩ :=
  (disks_agree_iff controller true ⟨.master, .read, 5, fun _ => 0⟩ ⟨numberedDisk, []⟩ 1
    numberedDisk_notReady).mpr (.inl rfl)

/-- With assertions on, as the kernel is built, `SimpleDisk` stops at the first poll. -/
theorem simpleDisk_stops :
    controller.NotReadyFor 1
        (SimpleDisk.issueOperation controller .master .read 5 ⟨numberedDisk, []⟩).device ∧
      ¬ Agree controller false ⟨.master, .read, 5, fun _ => 0⟩ ⟨numberedDisk, []⟩ := by
  refine ⟨numberedDisk_notReady, ?_⟩
  rintro ⟨bound, r, r', hperform, -⟩
  have hnone : SimpleDisk.perform controller false bound ⟨.master, .read, 5, fun _ => 0⟩
      ⟨numberedDisk, []⟩ = none := perform_aborts numberedDisk_notReady
  cases hnone.symm.trans (hperform bound (Nat.le_refl _)).1

end TeachingKernel.Disk
