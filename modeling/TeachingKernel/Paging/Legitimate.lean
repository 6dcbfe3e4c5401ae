import TeachingKernel.Paging.History
import TeachingKernel.VMPool.Registry

/-!
# Legitimate addresses

`handle_fault` asks the registered pools about the address before it touches a
table. The lists of the pools lie in virtual memory, so the handler reads them
through the translation, and a list page that is absent would fault inside the
handler. The handler maps a frame for the legitimate addresses and aborts, with
nothing changed, on any other.
-/

namespace TeachingKernel.Paging

open FramePool VM Mmu Runs

def Machine.loadRegion (s : Machine) (list : Word) (i : Nat) : Option RegionInfo := do
  let startFrame ← s.load (entryAddr list i)
  let size ← s.load (entryAddr list i + 4)
  some ⟨startFrame, size⟩

namespace P4

def inRegions (list a : Word) (s : Machine) : Nat → Nat → Option Bool
  | 0, _ => some false
  | k + 1, i => do
      let r ← s.loadRegion list i
      if r.startFrame ≤ a && r.startFrame + r.size > a then some true
      else inRegions list a s k (i + 1)

def isLegitimate (p : VMPool) (s : Machine) (a : Word) : Option Bool :=
  if p.numAllocated = 0 then some true
  else inRegions p.allocatedList a s p.numAllocated.toNat 0

def checkAddress (pools : List VMPool) (s : Machine) (a : Word) : Option Bool :=
  pools.foldlM (fun valid p => do
    let found ← isLegitimate p s a
    some (if found then true else valid)) false

def accepts (pools : List VMPool) (s : Machine) (a : Word) : Bool :=
  (checkAddress pools s a).getD false

/-- How a call of `handle_fault` ends, with the machine it leaves. -/
inductive Outcome where
  | returned (s : Machine)
  | aborted (s : Machine)

/-- `abort()` comes before the first access to a table. No outcome at all is an access
to an absent page inside the handler, or an exhausted pool. -/
def fault (pools : List VMPool) (process : Nat) (a : Word) (s : Machine) : Option Outcome := do
  if ← checkAddress pools s a then
    let t ← handleFault (accepts pools) process a s
    some (.returned t)
  else some (.aborted s)

def Shows (s : Machine) (pools : List VMPool) (m : Memory) : Prop :=
  ∀ p ∈ pools, ∀ i < p.numAllocated.toNat, s.loadRegion p.allocatedList i = some (p.entry m i)

section

variable {s t : Machine} {p : VMPool} {pools : List VMPool} {m : Memory} {a : Word} {k : Nat}
  {q : ContFramePool}

theorem isLegitimate_eq
    (h : ∀ i < p.numAllocated.toNat, s.loadRegion p.allocatedList i = some (p.entry m i)) :
    isLegitimate p s a = some (p.isLegitimate m a) := by
  have hloop : ∀ k i, i + k = p.numAllocated.toNat → inRegions p.allocatedList a s k i =
      some ((List.range' i k).any fun i =>
        (p.entry m i).startFrame ≤ a && p.entryEnd m i > a) := by
    intro k
    induction k with
    | zero => exact fun i _ => rfl
    | succ k ih =>
        intro i hi
        rw [inRegions, h i (by omega), List.range'_succ, List.any_cons]
        show (if _ then _ else _) = _
        split
        · rename_i htest
          have htest : (decide ((p.entry m i).startFrame ≤ a) && decide (p.entryEnd m i > a)) =
              true := htest
          rw [htest]
          rfl
        · rename_i htest
          have htest : (decide ((p.entry m i).startFrame ≤ a) && decide (p.entryEnd m i > a)) =
              false := Bool.eq_false_iff.mpr htest
          rw [htest, ih (i + 1) (by omega)]
          rfl
  unfold isLegitimate VMPool.isLegitimate
  split
  · rfl
  · rw [hloop _ _ (Nat.zero_add _), List.range_eq_range']

/-- Once every pool answers, the address is accepted if some pool said yes. -/
theorem checkAddress_of_answers (h : ∀ p ∈ pools, ∃ b, isLegitimate p s a = some b) :
    ∃ b, checkAddress pools s a = some b ∧
      (b = true ↔ ∃ p ∈ pools, isLegitimate p s a = some true) := by
  have hloop : ∀ pools : List VMPool, (∀ p ∈ pools, ∃ b, isLegitimate p s a = some b) →
      ∀ valid, ∃ b, pools.foldlM (fun valid p => do
        let found ← isLegitimate p s a
        some (if found then true else valid)) valid = some b ∧
        (b = true ↔ valid = true ∨ ∃ p ∈ pools, isLegitimate p s a = some true) := by
    intro pools
    induction pools with
    | nil => exact fun _ valid => ⟨valid, rfl, by simp⟩
    | cons p rest ih =>
        intro h valid
        obtain ⟨⟨found, hfound⟩, hrest⟩ := List.forall_mem_cons.mp h
        obtain ⟨b, hb, hiff⟩ := ih hrest (if found then true else valid)
        refine ⟨b, ?_, ?_⟩
        · rw [List.foldlM_cons, hfound]
          exact hb
        · rw [hiff, List.exists_mem_cons_iff, hfound]
          cases found <;> simp
  obtain ⟨b, hb, hiff⟩ := hloop pools h false
  exact ⟨b, hb, by simpa using hiff⟩

theorem Shows.checkAddress_eq (h : Shows s pools m) :
    checkAddress pools s a = some (VM.checkAddress pools m a) := by
  obtain ⟨b, hb, hiff⟩ := checkAddress_of_answers (a := a) fun p hp =>
    ⟨_, isLegitimate_eq (a := a) (h p hp)⟩
  rw [hb, Option.some_inj, Bool.eq_iff_iff, hiff, VM.checkAddress_iff]
  refine exists_congr fun p => and_congr_right fun hp => ?_
  rw [isLegitimate_eq (h p hp), Option.some_inj]

theorem Shows.fault_rejected (h : Shows s pools m) (hno : VM.checkAddress pools m a = false) :
    fault pools k a s = some (.aborted s) := by
  rw [fault, h.checkAddress_eq, hno]
  rfl

theorem fault_accepted (h : checkAddress pools s a = some true)
    (hrun : handleFault (accepts pools) k a s = some t) :
    fault pools k a s = some (.returned t) := by
  rw [fault, h]
  show (handleFault (accepts pools) k a s).bind _ = _
  rw [hrun]
  rfl

theorem accepts_of_checkAddress (h : checkAddress pools s a = some true) :
    accepts pools s a = true := by
  rw [accepts, h]
  rfl

/-- Below 4 MB every page is present, and the handler changes nothing. -/
theorem Good.handleFault_identity {checkAddress : Machine → Word → Bool} (h : Good k q s)
    (ha : pageOf a < 1024) (haccept : checkAddress s a = true) :
    P4.handleFault checkAddress k a s = some s := by
  have hpage := h.identity _ ha
  have hfirst := getFirst10Bits_toNat a
  have hmiddle := getMiddle10Bits_toNat a
  have hp : Present (words s.mem (frameOf s.cr3) (pageOf a / 1024)) := by
    by_contra hp
    rw [lookup_of_absent hp] at hpage
    cases hpage
  rw [lookup_of_present hp] at hpage
  split at hpage
  · rename_i hpte
    rw [← hfirst] at hp hpte
    rw [← hmiddle] at hpte
    unfold P4.handleFault
    rw [haccept]
    show (P4.provideTable k (getFirst10Bits a) s).bind _ = _
    rw [provideTable_present h.self (by omega) hp]
    exact providePage_present h.self (by omega) (by omega) hp hpte
  · cases hpage

/-- What a fault at an address that the pools accept does, unless the pool is exhausted. -/
theorem Good.fault_accepted (h : Good k q s)
    (hrange : q.baseFrameNo.toNat + q.nframes.toNat ≤ 2 ^ 20) (hhi : a.toNat < recursiveWindow)
    (haccept : checkAddress pools s a = some true) (hspare : Spare k s) :
    ∃ t, fault pools k a s = some (.returned t) ∧ (translate t.mem t.cr3 a).isSome := by
  have hyes := accepts_of_checkAddress haccept
  by_cases ha : pageOf a < 1024
  · refine ⟨s, P4.fault_accepted haccept (h.handleFault_identity ha hyes), ?_⟩
    rw [translate_self (h.identity _ ha)]
    rfl
  · have hpage : pageOf a < 1024 * lastTable := by
      unfold recursiveWindow at hhi
      unfold pageOf lastTable
      omega
    obtain ⟨t, ht⟩ := h.handleFault_completes hrange hpage hyes hspare
    obtain ⟨-, hcr3, hsome, -⟩ := h.handleFault hrange (by omega) hpage ht
    refine ⟨t, P4.fault_accepted haccept ht, ?_⟩
    rw [Mmu.translate, hcr3, Option.isSome_map]
    exact hsome

/-- The bitmap of pool `k` is in reach in both calls of `get_frames` that a fault at `a`
can make. -/
def BitmapReached (k : Nat) (a : Word) (s : Machine) : Prop :=
  BitmapSafe k (frames s) s ∧
    ∀ u, provideTable k (getFirst10Bits a) s = some u → BitmapSafe k (frames u) u

theorem Good.bitmapReached (h : Good k q s)
    (hrange : q.baseFrameNo.toNat + q.nframes.toNat ≤ 2 ^ 20)
    (hbitmap : q.extent.BitmapOutside) (hhi : a.toNat < recursiveWindow) :
    BitmapReached k a s := by
  refine ⟨h.bitmapSafe hbitmap, fun u hu => ?_⟩
  have hfirst := getFirst10Bits_toNat a
  have hlt : (getFirst10Bits a).toNat < lastTable := by
    unfold recursiveWindow at hhi
    unfold pageOf at hfirst
    unfold lastTable
    omega
  exact (h.provideTable hrange hlt hu).1.bitmapSafe hbitmap

/-! ## Whole histories of the pools -/

/-- The pools accept the addresses of `legit`. Wherever their lists can be read,
`handle_fault` maps these addresses, as long as the frame pool has frames, and
aborts with the machine unchanged on every other address. -/
structure Decides (r : Registry) (legit : Word → Prop) : Prop where
  accepted_iff : ∀ a, VM.checkAddress r.vmPools r.mem a = true ↔ legit a
  maps : ∀ {k : Nat} {q : ContFramePool} {s : Machine}, Good k q s →
    q.baseFrameNo.toNat + q.nframes.toNat ≤ 2 ^ 20 → q.extent.BitmapOutside →
    Shows s r.vmPools r.mem → Spare k s → ∀ a, legit a →
      (∃ t, fault r.vmPools k a s = some (.returned t) ∧ (translate t.mem t.cr3 a).isSome) ∧
        BitmapReached k a s
  aborts : ∀ {k : Nat} {s : Machine}, Shows s r.vmPools r.mem → ∀ a, ¬ legit a →
    fault r.vmPools k a s = some (.aborted s)

theorem decides_listed {r : Registry} (h : RegionsHold r) : Decides r r.Listed := by
  refine ⟨fun a => h.checkAddress_iff, fun hgood hrange hbitmap hshows hspare a ha => ⟨?_, ?_⟩,
    fun hshows a ha => hshows.fault_rejected ?_⟩
  · have haccept := hshows.checkAddress_eq (a := a)
    rw [h.checkAddress_iff.mpr ha] at haccept
    exact hgood.fault_accepted hrange (h.listed_lt ha) haccept hspare
  · exact hgood.bitmapReached hrange hbitmap (h.listed_lt ha)
  · exact Bool.eq_false_iff.mpr fun hyes => ha (h.checkAddress_iff.mp hyes)

/-- Whatever pools are constructed and whatever regions they allocate, while the region
invariant holds the faults are decided by the listed regions, and by the regions
handed out if no two lists share a byte. -/
theorem faults_decided {m₀ : Memory} {run : List (RegistryOp × Registry)}
    (hrun : IsRun RegistryStep (Registry.empty m₀) run)
    (hhold : EveryState RegionsHold (Registry.empty m₀) run) :
    EveryState (fun r => Decides r r.Listed) (Registry.empty m₀) run ∧
      (EveryState ListsApart (Registry.empty m₀) run →
        EveryState (fun r => Decides r r.Allocated) (Registry.empty m₀) run) := by
  refine ⟨hhold.imp fun r hr => decides_listed hr, fun hapart => ?_⟩
  refine (recorded_of_apart hrun hhold hapart).imp fun r hr => ?_
  have hsame : r.Allocated = r.Listed := funext fun a => propext (hr.2.allocated_iff hr.1)
  rw [hsame]
  exact decides_listed hr.1

end

def twoPools : List RegistryOp :=
  [.construct 0 0x10000000 0x4000, .construct 0 0x20000000 0x4000, .allocate 1 0x2000,
    .allocate 0 5000]

/-- The pages of both regions are decided as handed out, the second page of the first
region and the page behind the other among them. -/
theorem faults_decided_twoPools : ∃ run r,
    IsRun RegistryStep (Registry.empty fun _ => 0) run ∧ run.map Prod.fst = twoPools ∧
      EveryState (fun r => Decides r r.Listed) (Registry.empty fun _ => 0) run ∧
      EveryState (fun r => Decides r r.Allocated) (Registry.empty fun _ => 0) run ∧
      r = last (Registry.empty fun _ => 0) run ∧ r.Allocated 0x20002FFF ∧
      r.Allocated 0x10002000 ∧ ¬ r.Allocated 0x20003000 := by
  have h : ((runOf Registry.exec (Registry.empty fun _ => 0) twoPools).map fun run =>
      (run.map Prod.fst, decide (∀ e ∈ run, LaidOut e.2 ∧ PagesApart e.2),
        ([0x20002FFF, 0x10002000, 0x20003000] : List Word).map fun a =>
          VM.checkAddress (last (Registry.empty fun _ => 0) run).vmPools
            (last (Registry.empty fun _ => 0) run).mem a)) =
      some (twoPools, true, [true, true, false]) := by
    decide +kernel
  obtain ⟨run, hrun, h⟩ := Option.map_eq_some_iff.mp h
  simp only [Prod.mk.injEq, decide_eq_true_eq, List.map_cons, List.map_nil, List.cons.injEq,
    and_true] at h
  obtain ⟨hops, hlaid, h1, h2, h3⟩ := h
  have hrun := isRun_of_runOf (fun _ _ _ => registryStep_of_exec) hrun
  have hempty : ∀ {P : Registered → Prop}, ∀ c ∈ (Registry.empty fun _ => 0).pools, P c :=
    fun c hc => by cases hc
  obtain ⟨hlisted, hallocated⟩ := faults_decided hrun
    ⟨hempty, fun e he => (hlaid e he).1.regionsHold⟩
  have hallocated := hallocated
    ⟨fun i j c c' _ hi => (by simp [Registry.empty] at hi), fun e he =>
      (hlaid e he).1.listsApart (hlaid e he).2⟩
  have hiff := (last_of_everyState hallocated).accepted_iff
  refine ⟨run, _, hrun, hops, hlisted, hallocated, rfl, (hiff _).mp h1, (hiff _).mp h2,
    fun hin => ?_⟩
  cases h3.symm.trans ((hiff _).mpr hin)

def sharedList : List RegistryOp :=
  [.construct 0 0x10000000 0x4000, .construct 0 0x10000000 0x4000, .allocate 1 0x3000,
    .allocate 0 0x1000]

/-- The call on the first pool overwrites the entry that the second one made, so pages of
its region are handed out and refused, with both lists in order all the time. -/
theorem shared_list_refuses : ∃ run r,
    IsRun RegistryStep (Registry.empty fun _ => 0) run ∧ run.map Prod.fst = sharedList ∧
      EveryState RegionsHold (Registry.empty fun _ => 0) run ∧
      r = last (Registry.empty fun _ => 0) run ∧ r.Allocated 0x10002000 ∧
      VM.checkAddress r.vmPools r.mem 0x10002000 = false ∧
      ∀ k s, Shows s r.vmPools r.mem → fault r.vmPools k 0x10002000 s = some (.aborted s) := by
  have h : ((runOf Registry.exec (Registry.empty fun _ => 0) sharedList).map fun run =>
      (run.map Prod.fst, decide (∀ e ∈ run, LaidOut e.2),
        (last (Registry.empty fun _ => 0) run).pools[1]?.map fun c => c.live,
        VM.checkAddress (last (Registry.empty fun _ => 0) run).vmPools
          (last (Registry.empty fun _ => 0) run).mem 0x10002000)) =
      some (sharedList, true, some [⟨0x10001000, 0x3000⟩], false) := by
    decide +kernel
  obtain ⟨run, hrun, h⟩ := Option.map_eq_some_iff.mp h
  simp only [Prod.mk.injEq, decide_eq_true_eq] at h
  obtain ⟨hops, hlaid, hlive, hrefused⟩ := h
  obtain ⟨c, hc, hlive⟩ := Option.map_eq_some_iff.mp hlive
  refine ⟨run, _, isRun_of_runOf (fun _ _ _ => registryStep_of_exec) hrun, hops,
    ⟨fun c hc => (by cases hc), fun e he => (hlaid e he).regionsHold⟩, rfl,
    ⟨c, List.mem_of_getElem? hc, .inr ⟨⟨0x10001000, 0x3000⟩, ?_, by decide⟩⟩, hrefused,
    fun k s hshows => hshows.fault_rejected hrefused⟩
  rw [hlive]
  exact List.mem_singleton_self _

end P4

end TeachingKernel.Paging
