import TeachingKernel.Disk.Driver

/-!
# Disks as arrays of blocks

One thread reads and writes blocks of two `BlockingDisk`s behind one controller.
While a disk is not ready the thread gives up the CPU; it finds the controller as
it left it, because no other thread uses the disks.
-/

namespace TeachingKernel.Disk

open ForLoop Ata

def waitUntilReady : Nat → Controller → Option Controller
  | 0, _ => none
  | fuel + 1, c =>
      let s := isReady c
      if s.1 then some s.2 else waitUntilReady fuel s.2

structure BlockOp where
  id : DiskId
  op : DiskOperation
  blockNo : Word
  buf : Buffer

namespace BlockOp

/-- The block exists on an LBA28 disk. -/
def Valid (o : BlockOp) : Prop := o.blockNo.toNat < 2 ^ 28

def transfer (o : BlockOp) (c : Controller) : Controller × Buffer :=
  match o.op with
  | .read => readData c o.buf
  | .write => (writeData o.buf c, o.buf)

def perform (fuel : Nat) (o : BlockOp) (c : Controller) : Option (Controller × Buffer) :=
  (waitUntilReady fuel (issueOperation o.id o.op o.blockNo c)).map o.transfer

def writeTo (id : DiskId) (blockNo : Word) (o : BlockOp) : Option Buffer :=
  if o.op = .write ∧ o.id = id ∧ o.blockNo = blockNo then some o.buf else none

end BlockOp

def performAll (fuel : Nat) : List BlockOp → Controller → Option (Controller × List Buffer)
  | [], c => some (c, [])
  | o :: ops, c =>
      (o.perform fuel c).bind fun r =>
        (performAll fuel ops r.1).map fun t => (t.1, r.2 :: t.2)

/-- What the block holds after the operations: the buffer of the latest write to it, or
what it held before. -/
def contents (m : Media) (past : List BlockOp) (id : DiskId) (blockNo : Word) : Buffer :=
  (past.reverse.findSome? (BlockOp.writeTo id blockNo)).getD
    (blockBytes m id.drive (blockNo.setWidth 28))

/-! ## One operation -/

section

variable {c : Controller} {o : BlockOp} {command : Command}

theorem isReady_of_held (hheld : c.held = some command) :
    isReady c = if c.waits = 0 then (true, c) else (false, { c with waits := c.waits - 1 }) := by
  unfold isReady Controller.inb
  rw [hheld]
  by_cases hwaits : c.waits = 0
  · simp [hwaits]
  · simp [hwaits]

theorem waitUntilReady_spec {fuel : Nat} (hheld : c.held = some command) (hfuel : c.waits < fuel) :
    waitUntilReady fuel c = some { c with waits := 0 } := by
  induction fuel generalizing c with
  | zero => omega
  | succ fuel ih =>
      rw [waitUntilReady, isReady_of_held hheld]
      by_cases hwaits : c.waits = 0
      · simp only [hwaits, ↓reduceIte]
        cases c
        cases hwaits
        rfl
      · simp only [hwaits, ↓reduceIte, Bool.false_eq_true]
        exact ih (c := { c with waits := c.waits - 1 }) hheld (by dsimp only; omega)

theorem drive_injective {id id' : DiskId} (h : id.drive = id'.drive) : id = id' := by
  cases id <;> cases id' <;> first | rfl | cases h

theorem setWidth_injective {b b' : Word} (hb : b.toNat < 2 ^ 28) (hb' : b'.toNat < 2 ^ 28)
    (h : b.setWidth 28 = b'.setWidth 28) : b = b' := by
  have hnat := congrArg BitVec.toNat h
  rw [BitVec.toNat_setWidth, BitVec.toNat_setWidth, Nat.mod_eq_of_lt hb, Nat.mod_eq_of_lt hb']
    at hnat
  exact BitVec.eq_of_toNat_eq hnat

/-- What a completed operation leaves: the bytes of the block in the buffer of a read, and
every block with the contents that the operation gives it. -/
structure Completes (o : BlockOp) (c c' : Controller) (buf : Buffer) : Prop where
  idle : c'.held = none
  delays : c'.delays = c.delays
  answer : o.op = .read → ∀ j, buf j =
    if j < 512 then blockBytes c.media o.id.drive (o.blockNo.setWidth 28) j else o.buf j
  media : ∀ id b, b.toNat < 2 ^ 28 → ∀ j < 512,
    blockBytes c'.media id.drive (b.setWidth 28) j = contents c.media [o] id b j

theorem transfer_completes (hvalid : o.Valid)
    (h : c.Requests ⟨o.op.direction, o.id.drive, o.blockNo.setWidth 28⟩) :
    Completes o c (o.transfer c).1 (o.transfer c).2 := by
  obtain ⟨id, op, blockNo, buf⟩ := o
  cases op with
  | read =>
      obtain ⟨hdone, hbytes⟩ := readData_spec h buf
      dsimp only [BlockOp.transfer]
      refine ⟨by rw [hdone]; rfl, by rw [hdone]; rfl, fun _ => hbytes, fun id' b _ j _ => ?_⟩
      rw [hdone]
      simp [contents, BlockOp.writeTo, Controller.done]
  | write =>
      obtain ⟨hidle, hdelays, hwritten, hother⟩ := writeData_spec h buf
      refine ⟨hidle, hdelays, fun h => (by cases h), fun id' b hb j hj => ?_⟩
      by_cases hsame : id = id' ∧ blockNo = b
      · obtain ⟨rfl, rfl⟩ := hsame
        simp only [contents, BlockOp.writeTo, List.reverse_singleton, List.findSome?_cons, and_self,
          ↓reduceIte, Option.getD_some]
        exact hwritten j hj
      · have hne : ¬(id'.drive = id.drive ∧ b.setWidth 28 = blockNo.setWidth 28) := fun h =>
          hsame ⟨(drive_injective h.1).symm, (setWidth_injective hb hvalid h.2).symm⟩
        simp only [contents, BlockOp.writeTo, List.reverse_singleton, List.findSome?_cons,
          true_and, hsame, ↓reduceIte, List.findSome?_nil, Option.getD_none]
        exact congrFun (hother _ _ hne) j

theorem perform_spec (hvalid : o.Valid) (c : Controller) : ∃ c' buf,
    (∀ fuel, c.delays c.issued < fuel → o.perform fuel c = some (c', buf)) ∧
      Completes o c c' buf := by
  obtain ⟨hheld, hstart, hwaits, hmedia, hdelays⟩ := issueOperation_spec o.id o.op o.blockNo c
  generalize hissued : issueOperation o.id o.op o.blockNo c = u
    at hheld hstart hwaits hmedia hdelays
  have hready : Controller.Requests { u with waits := 0 }
      ⟨o.op.direction, o.id.drive, o.blockNo.setWidth 28⟩ := ⟨hheld, hstart, rfl⟩
  have hdone := transfer_completes hvalid hready
  refine ⟨(o.transfer { u with waits := 0 }).1, (o.transfer { u with waits := 0 }).2,
    fun fuel hfuel => ?_, ⟨hdone.idle, hdone.delays.trans hdelays, ?_, ?_⟩⟩
  · rw [BlockOp.perform, hissued, waitUntilReady_spec hheld (by omega)]
    rfl
  · rw [← hmedia]
    exact hdone.answer
  · rw [← hmedia]
    exact hdone.media

end

/-! ## Sequences of operations -/

/-- What happened first decides a block only where nothing was written later. -/
theorem contents_cons (m : Media) (o : BlockOp) (past : List BlockOp) (id : DiskId) (b : Word) :
    contents m (o :: past) id b =
      (past.reverse.findSome? (BlockOp.writeTo id b)).getD (contents m [o] id b) := by
  simp only [contents, List.reverse_cons, List.findSome?_append, List.reverse_nil,
    List.nil_append]
  cases past.reverse.findSome? (BlockOp.writeTo id b) with
  | none => rfl
  | some buf => rfl

theorem contents_of_media {m m' : Media} {o : BlockOp} {past : List BlockOp} {id : DiskId}
    {b : Word} {j : Nat}
    (h : blockBytes m' id.drive (b.setWidth 28) j = contents m [o] id b j) :
    contents m' past id b j = contents m (o :: past) id b j := by
  rw [contents_cons, contents]
  cases past.reverse.findSome? (BlockOp.writeTo id b) with
  | none => exact h
  | some buf => rfl

/-- Two disks behave as arrays of blocks: whatever the controller was doing before and
however often it lets each operation poll, all operations complete, every read answers
what the latest write to its block on its disk stored (or what was there at first), and
in the end every block holds exactly that. -/
theorem disks_are_arrays (ops : List BlockOp) (hvalid : ∀ o ∈ ops, o.Valid) (c : Controller) :
    ∃ bound c' answers, (∀ fuel ≥ bound, performAll fuel ops c = some (c', answers)) ∧
      (∀ (k : Nat) (o : BlockOp), ops[k]? = some o → o.op = .read →
        ∃ buf, answers[k]? = some buf ∧
          ∀ j, buf j =
            if j < 512 then contents c.media (ops.take k) o.id o.blockNo j else o.buf j) ∧
      ∀ id b, b.toNat < 2 ^ 28 → ∀ j < 512,
        blockBytes c'.media id.drive (b.setWidth 28) j = contents c.media ops id b j := by
  induction ops generalizing c with
  | nil => exact ⟨0, c, [], fun _ _ => rfl, fun k o h => by simp at h, fun id b _ j _ => rfl⟩
  | cons o ops ih =>
      have hv := List.forall_mem_cons.mp hvalid
      obtain ⟨c₁, buf, hperform, hdone⟩ := perform_spec hv.1 c
      obtain ⟨bound, c', answers, hall, hreads, hmedia⟩ := ih hv.2 c₁
      refine ⟨max bound (c.delays c.issued + 1), c', buf :: answers, fun fuel hfuel => ?_,
        fun k o' hk hread => ?_, fun id b hb j hj => ?_⟩
      · rw [performAll, hperform fuel (by omega), Option.bind_some, hall fuel (by omega)]
        rfl
      · cases k with
        | zero =>
            cases hk
            exact ⟨buf, rfl, hdone.answer hread⟩
        | succ k =>
            have hb := hv.2 o' (List.mem_of_getElem? hk)
            obtain ⟨answer, hanswer, hbytes⟩ := hreads k o' hk hread
            refine ⟨answer, hanswer, fun j => ?_⟩
            rw [hbytes, List.take_succ_cons]
            by_cases hj : j < 512
            · rw [if_pos hj, if_pos hj]
              exact contents_of_media (hdone.media o'.id o'.blockNo hb j hj)
            · rw [if_neg hj, if_neg hj]
      · exact (hmedia id b hb j hj).trans (contents_of_media (hdone.media id b hb j hj))

/-- An idle controller. Each block holds its own number in all words, and each command
is ready at the second poll. -/
def numberedDisk : Controller where
  low := 0
  mid := 0
  high := 0
  device := 0
  held := none
  position := 0
  waits := 0
  issued := 0
  delays := fun _ => 1
  media := fun _ b _ => b.setWidth 16

/-- A write to the first disk, and reads of the same block of both disks. -/
def bothDisks : List BlockOp :=
  [⟨.master, .write, 5, fun _ => 7⟩, ⟨.slave, .read, 5, fun _ => 0⟩,
    ⟨.master, .read, 5, fun _ => 0⟩]

theorem disks_are_arrays_bothDisks : ∃ bound c' answers,
    (∀ fuel ≥ bound, performAll fuel bothDisks numberedDisk = some (c', answers)) ∧
      (∃ buf, answers[1]? = some buf ∧ ∀ j < 512, buf j = wordByte 5 j) ∧
      ∃ buf, answers[2]? = some buf ∧ ∀ j < 512, buf j = 7 := by
  have hvalid : ∀ o ∈ bothDisks, o.Valid := by
    intro o ho
    simp only [bothDisks, List.mem_cons, List.not_mem_nil, or_false] at ho
    rcases ho with rfl | rfl | rfl <;> exact show (5 : Word).toNat < 2 ^ 28 by decide
  obtain ⟨bound, c', answers, hall, hreads, -⟩ := disks_are_arrays bothDisks hvalid numberedDisk
  obtain ⟨buf₁, hbuf₁, hbytes₁⟩ := hreads 1 _ rfl rfl
  obtain ⟨buf₂, hbuf₂, hbytes₂⟩ := hreads 2 _ rfl rfl
  refine ⟨bound, c', answers, hall, ⟨buf₁, hbuf₁, fun j hj => ?_⟩, buf₂, hbuf₂, fun j hj => ?_⟩
  · rw [hbytes₁, if_pos hj]
    rfl
  · rw [hbytes₂, if_pos hj]
    rfl

end TeachingKernel.Disk
