import TeachingKernel.Disk.Blocks
import TeachingKernel.Lib.Runs
import TeachingKernel.Threads.Scheduler

/-!
# Threads that share the disks

The current thread issues a command, then polls the status port; while the disk is
not ready it goes to the end of the ready queue and another thread runs. The thread
that finds the disk ready moves the data of the command that the controller holds,
which is its own only if nobody issued another command in between.
-/

namespace TeachingKernel.Disk

open Ata Runs Threads

/-- The kernel and the controller, the operation that each thread waits in, and the
completed operations with their buffers, the oldest first. -/
structure DiskSystem (T : Type) where
  kernel : Kernel T
  disk : Controller
  pending : T → Option BlockOp
  completed : List (BlockOp × Buffer)

inductive DiskCall where
  | issue (o : BlockOp)
  | poll (newNode : Word)

section

variable {T : Type} [DecidableEq T]

/-- What the current thread does until it gives up the CPU or its operation is done. -/
inductive DiskStep : DiskSystem T → DiskCall → DiskSystem T → Prop
  | issue {s : DiskSystem T} {t : T} {o : BlockOp} (hcur : s.kernel.currentThread = some t)
      (hnone : s.pending t = none) :
      DiskStep s (.issue o)
        { s with
          disk := issueOperation o.id o.op o.blockNo s.disk
          pending := Function.update s.pending t (some o) }
  | busy {s : DiskSystem T} {t : T} {o : BlockOp} {newNode : Word} {k : Kernel T}
      {next : Option T} (hcur : s.kernel.currentThread = some t) (hpending : s.pending t = some o)
      (hbusy : (isReady s.disk).1 = false)
      (hrun : s.kernel.waitRound false newNode = some (k, next)) :
      DiskStep s (.poll newNode) { s with kernel := k, disk := (isReady s.disk).2 }
  | ready {s : DiskSystem T} {t : T} {o : BlockOp} {newNode : Word}
      (hcur : s.kernel.currentThread = some t) (hpending : s.pending t = some o)
      (hready : (isReady s.disk).1 = true) :
      DiskStep s (.poll newNode)
        { s with
          disk := (o.transfer (isReady s.disk).2).1
          pending := Function.update s.pending t none
          completed := s.completed ++ [(o, (o.transfer (isReady s.disk).2).2)] }

def DiskSystem.start (kernel : Kernel T) (disk : Controller) : DiskSystem T :=
  ⟨kernel, disk, fun _ => none, []⟩

/-- Every completed read answered what the latest write to its block that completed
before it stored, and every block holds what the completed writes make of it. -/
structure Serial (m : Media) (s : DiskSystem T) : Prop where
  reads : ∀ (k : Nat) (o : BlockOp) (buf : Buffer), s.completed[k]? = some (o, buf) →
    o.op = .read → ∀ j < 512,
      buf j = contents m ((s.completed.take k).map Prod.fst) o.id o.blockNo j
  blocks : ∀ id b, b.toNat < 2 ^ 28 → ∀ j < 512,
    blockBytes s.disk.media id.drive (b.setWidth 28) j =
      contents m (s.completed.map Prod.fst) id b j

/-- No command is issued while the operation of another thread is in flight, and none for
a block number that the command registers cut off. -/
def IssuedAlone (s : DiskSystem T) : DiskCall → Prop
  | .issue o => (∀ t, s.pending t = none) ∧ o.Valid
  | .poll _ => True

structure Exclusive (m : Media) (s : DiskSystem T) : Prop where
  serial : Serial m s
  alone : ∀ t t' o o', s.pending t = some o → s.pending t' = some o' → t = t'
  held : ∀ t o, s.pending t = some o → o.Valid ∧ s.disk.position = 0 ∧
    s.disk.held = some ⟨o.op.direction, o.id.drive, o.blockNo.setWidth 28⟩

variable {m : Media} {s t : DiskSystem T}

omit [DecidableEq T] in
theorem exclusive_start (kernel : Kernel T) (disk : Controller) :
    Exclusive disk.media (DiskSystem.start kernel disk) :=
  ⟨⟨fun k o buf h => by simp [DiskSystem.start] at h, fun _ _ _ _ _ => rfl⟩,
    fun _ _ _ _ h => (by cases h), fun _ _ h => (by cases h)⟩

theorem contents_append (m : Media) (past : List BlockOp) (o : BlockOp) (id : DiskId) (b : Word) :
    contents m (past ++ [o]) id b = (o.writeTo id b).getD (contents m past id b) := by
  simp only [contents, List.reverse_append, List.reverse_singleton, List.singleton_append,
    List.findSome?_cons]
  cases o.writeTo id b with
  | none => rfl
  | some buf => rfl

theorem contents_append_congr {m m' : Media} {past : List BlockOp} {o : BlockOp} {id : DiskId}
    {b : Word} {j : Nat}
    (h : blockBytes m' id.drive (b.setWidth 28) j = contents m past id b j) :
    contents m' [o] id b j = contents m (past ++ [o]) id b j := by
  rw [contents_append, show [o] = [] ++ [o] from rfl, contents_append]
  cases o.writeTo id b with
  | none => exact h
  | some buf => rfl

omit [DecidableEq T] in
theorem Serial.complete (h : Serial m s) {o : BlockOp} {buf : Buffer} {disk : Controller}
    {pending : T → Option BlockOp} (hvalid : o.Valid) (hdone : Completes o s.disk disk buf) :
    Serial m { s with
      disk := disk
      pending := pending
      completed := s.completed ++ [(o, buf)] } := by
  refine ⟨fun k o' buf' hk hread j hj => ?_, fun id b hb j hj => ?_⟩
  · dsimp only at hk ⊢
    by_cases hlast : k < s.completed.length
    · rw [List.getElem?_append_left hlast] at hk
      rw [List.take_append_of_le_length (by omega)]
      exact h.reads k o' buf' hk hread j hj
    · have hlt := (List.getElem?_eq_some_iff.mp hk).1
      rw [List.length_append, List.length_singleton] at hlt
      obtain rfl : k = s.completed.length := by omega
      rw [List.getElem?_concat_length] at hk
      cases hk
      rw [List.take_left, hdone.answer hread, if_pos hj]
      exact h.blocks o.id o.blockNo hvalid j hj
  · rw [List.map_append]
    exact (hdone.media id b hb j hj).trans (contents_append_congr (h.blocks id b hb j hj))

theorem Exclusive.issue (h : Exclusive m s) {c : T} {o : BlockOp} (hnone : ∀ x, s.pending x = none)
    (hvalid : o.Valid) :
    Exclusive m { s with
      disk := issueOperation o.id o.op o.blockNo s.disk
      pending := Function.update s.pending c (some o) } := by
  obtain ⟨hheld, hstart, -, hmedia, -⟩ := issueOperation_spec o.id o.op o.blockNo s.disk
  have hpending : ∀ x o', Function.update s.pending c (some o) x = some o' → x = c ∧ o' = o := by
    intro x o' hx
    by_cases hxc : x = c
    · subst hxc
      rw [Function.update_self] at hx
      exact ⟨rfl, (Option.some.inj hx).symm⟩
    · rw [Function.update_of_ne hxc, hnone x] at hx
      cases hx
  refine ⟨⟨h.serial.reads, ?_⟩, fun x x' o₁ o₂ hx hx' => ?_, fun x o' hx => ?_⟩
  · dsimp only
    rw [hmedia]
    exact h.serial.blocks
  · rw [(hpending x o₁ hx).1, (hpending x' o₂ hx').1]
  · obtain ⟨rfl, rfl⟩ := hpending x o' hx
    exact ⟨hvalid, hstart, hheld⟩

omit [DecidableEq T] in
theorem Exclusive.busy (h : Exclusive m s) {c : T} {o : BlockOp} {k : Kernel T}
    (hpending : s.pending c = some o) (hbusy : (isReady s.disk).1 = false) :
    Exclusive m { s with kernel := k, disk := (isReady s.disk).2 } := by
  obtain ⟨hvalid, hposition, hheld⟩ := h.held c o hpending
  have hpolled : (isReady s.disk).2 = { s.disk with waits := s.disk.waits - 1 } := by
    rw [isReady_of_held hheld] at hbusy ⊢
    by_cases hwaits : s.disk.waits = 0
    · rw [if_pos hwaits] at hbusy
      cases hbusy
    · rw [if_neg hwaits]
  rw [hpolled]
  exact ⟨⟨h.serial.reads, h.serial.blocks⟩, h.alone, h.held⟩

/-- The data moved is that of the thread's own operation, and nothing is in flight after it. -/
theorem Exclusive.ready (h : Exclusive m s) {c : T} {o : BlockOp} (hpending : s.pending c = some o)
    (hready : (isReady s.disk).1 = true) :
    Exclusive m { s with
      disk := (o.transfer (isReady s.disk).2).1
      pending := Function.update s.pending c none
      completed := s.completed ++ [(o, (o.transfer (isReady s.disk).2).2)] } := by
  obtain ⟨hvalid, hposition, hheld⟩ := h.held c o hpending
  have hpolled : (isReady s.disk).2 = s.disk ∧ s.disk.waits = 0 := by
    rw [isReady_of_held hheld] at hready ⊢
    by_cases hwaits : s.disk.waits = 0
    · exact ⟨by rw [if_pos hwaits], hwaits⟩
    · rw [if_neg hwaits] at hready
      cases hready
  rw [hpolled.1]
  have hdone := transfer_completes hvalid ⟨hheld, hposition, hpolled.2⟩
  -- nobody else waits, so nobody waits now
  have hidle : ∀ x o', Function.update s.pending c none x = some o' → False := by
    intro x o' hx
    by_cases hxc : x = c
    · rw [hxc, Function.update_self] at hx
      cases hx
    · rw [Function.update_of_ne hxc] at hx
      exact hxc (h.alone x c o' o hx hpending)
  exact ⟨h.serial.complete hvalid hdone, fun x _ o₁ _ hx => (hidle x o₁ hx).elim,
    fun x o' hx => (hidle x o' hx).elim⟩

theorem Exclusive.step {call : DiskCall} (h : Exclusive m s) (halone : IssuedAlone s call)
    (hstep : DiskStep s call t) : Exclusive m t := by
  cases hstep with
  | issue _ _ => exact h.issue halone.1 halone.2
  | busy _ hpending hbusy _ => exact h.busy hpending hbusy
  | ready _ hpending hready => exact h.ready hpending hready

/-- In every run in which no command is issued while another operation is in flight, and
every block number has 28 bits, every completed read and write does what it should. -/
theorem operations_serial {kernel : Kernel T} {disk : Controller}
    {run : List (DiskCall × DiskSystem T)}
    (hrun : IsRun DiskStep (DiskSystem.start kernel disk) run)
    (hsteps : EveryStep IssuedAlone (DiskSystem.start kernel disk) run) :
    EveryState (Serial disk.media) (DiskSystem.start kernel disk) run := by
  have hexclusive : EveryState (Exclusive disk.media) (DiskSystem.start kernel disk) run :=
    everyState_of_step (fun _ _ _ h hs => Exclusive.step h hs.2 hs.1)
      (exclusive_start kernel disk) (isRun_and_of_everyStep hrun hsteps)
  exact hexclusive.imp fun _ h => h.serial

/-! ## Two threads that read at the same time -/

def DiskSystem.exec (s : DiskSystem T) : DiskCall → Option (DiskSystem T)
  | .issue o =>
      s.kernel.currentThread.bind fun t =>
        if (s.pending t).isNone then
          some { s with
            disk := issueOperation o.id o.op o.blockNo s.disk
            pending := Function.update s.pending t (some o) }
        else none
  | .poll newNode =>
      s.kernel.currentThread.bind fun t => (s.pending t).bind fun o =>
        if (isReady s.disk).1 then
          some { s with
            disk := (o.transfer (isReady s.disk).2).1
            pending := Function.update s.pending t none
            completed := s.completed ++ [(o, (o.transfer (isReady s.disk).2).2)] }
        else (s.kernel.waitRound false newNode).map fun r =>
          { s with kernel := r.1, disk := (isReady s.disk).2 }

theorem diskStep_of_exec {call : DiskCall} (h : s.exec call = some t) : DiskStep s call t := by
  cases call with
  | issue o =>
      obtain ⟨c, hcur, h⟩ := Option.bind_eq_some_iff.mp h
      by_cases hguard : (s.pending c).isNone = true
      · rw [if_pos hguard] at h
        cases h
        exact .issue hcur (Option.isNone_iff_eq_none.mp hguard)
      · rw [if_neg hguard] at h
        cases h
  | poll newNode =>
      obtain ⟨c, hcur, h⟩ := Option.bind_eq_some_iff.mp h
      obtain ⟨o, hpending, h⟩ := Option.bind_eq_some_iff.mp h
      by_cases hready : (isReady s.disk).1 = true
      · rw [if_pos hready] at h
        cases h
        exact .ready hcur hpending hready
      · rw [if_neg hready] at h
        obtain ⟨⟨k, next⟩, hrun, rfl⟩ := Option.map_eq_some_iff.mp h
        exact .busy hcur hpending (Bool.eq_false_iff.mpr hready) hrun

end

def twoThreads : Option (DiskSystem Nat) :=
  (Kernel.add 1 16 ⟨some 0, .empty fun _ => none⟩).map fun k => DiskSystem.start k numberedDisk

def readBlock (blockNo : Word) : BlockOp := ⟨.master, .read, blockNo, fun _ => 0⟩

/-- Thread 0 asks for block 1, thread 1 for block 2, and thread 0 finds the disk ready. -/
def overlappingReads : List DiskCall :=
  [.issue (readBlock 1), .poll 32, .issue (readBlock 2), .poll 48, .poll 64]

/-- The read of block 1 answers the bytes of block 2. -/
theorem overlapping_reads_mixed : ∃ kernel run,
    IsRun (DiskStep (T := Nat)) (DiskSystem.start kernel numberedDisk) run ∧
      ¬ EveryState (Serial numberedDisk.media) (DiskSystem.start kernel numberedDisk) run := by
  have h : (twoThreads.bind fun s => (runOf DiskSystem.exec s overlappingReads).map fun run =>
      (last s run).completed.map fun e => (e.1.id, e.1.op, e.1.blockNo, e.2 0)) =
      some [(.master, .read, 1, 2)] := by decide +kernel
  obtain ⟨s, hs, h⟩ := Option.bind_eq_some_iff.mp h
  obtain ⟨kernel, -, rfl⟩ := Option.map_eq_some_iff.mp hs
  obtain ⟨run, hrun, hlast⟩ := Option.map_eq_some_iff.mp h
  refine ⟨kernel, run, isRun_of_runOf (fun _ _ _ => diskStep_of_exec) hrun, fun hserial => ?_⟩
  obtain ⟨e, htail, hcompleted⟩ := List.map_eq_singleton_iff.mp hlast
  obtain ⟨⟨id, op, blockNo, old⟩, buf⟩ := e
  simp only [Prod.mk.injEq] at hcompleted
  obtain ⟨rfl, rfl, rfl, hbyte⟩ := hcompleted
  have hread := (last_of_everyState hserial).reads 0 _ buf (by rw [htail]; rfl) rfl 0 (by decide)
  rw [hbyte, List.take_zero] at hread
  exact absurd hread (show ¬ (2 : Byte) = contents numberedDisk.media [] .master 1 0 by decide)

theorem operations_serial_alone : ∃ run o buf,
    IsRun (DiskStep (T := Nat)) (DiskSystem.start ⟨some 0, .empty fun _ => none⟩ numberedDisk)
      run ∧
    (last (DiskSystem.start ⟨some 0, .empty fun _ => none⟩ numberedDisk) run).completed =
      [(o, buf)] ∧
    o.op = .read ∧ o.blockNo = 1 ∧
      ∀ j < 512, buf j = blockBytes numberedDisk.media o.id.drive 1 j := by
  have h : (((DiskSystem.start (T := Nat) ⟨some 0, .empty fun _ => none⟩ numberedDisk).exec
        (.issue (readBlock 1))).bind fun s₁ => (s₁.exec (.poll 32)).bind fun s₂ =>
      (s₂.exec (.poll 48)).map fun s₃ => s₃.completed.map fun e => (e.1.op, e.1.blockNo)) =
      some [(.read, 1)] := by decide +kernel
  obtain ⟨s₁, h₁, h⟩ := Option.bind_eq_some_iff.mp h
  obtain ⟨s₂, h₂, h⟩ := Option.bind_eq_some_iff.mp h
  obtain ⟨s₃, h₃, hlast⟩ := Option.map_eq_some_iff.mp h
  obtain ⟨⟨o, buf⟩, htail, hcompleted⟩ := List.map_eq_singleton_iff.mp hlast
  obtain ⟨hop, hblock⟩ := Prod.mk.inj hcompleted
  have hrun : IsRun DiskStep (DiskSystem.start (T := Nat) ⟨some 0, .empty fun _ => none⟩
      numberedDisk) [(.issue (readBlock 1), s₁), (.poll 32, s₂), (.poll 48, s₃)] :=
    ⟨diskStep_of_exec h₁, diskStep_of_exec h₂, diskStep_of_exec h₃, trivial⟩
  have hserial := operations_serial hrun
    ⟨⟨fun _ => rfl, show (readBlock 1).blockNo.toNat < 2 ^ 28 by decide⟩, trivial, trivial,
      trivial⟩
  refine ⟨_, o, buf, hrun, htail, hop, hblock, fun j hj => ?_⟩
  have hread := (last_of_everyState hserial).reads 0 o buf
    (by rw [last, last, last, last, htail]; rfl) hop j hj
  rw [List.take_zero, hblock] at hread
  exact hread

end TeachingKernel.Disk
