import TeachingKernel.Lib.FlatMemory
import TeachingKernel.Paging.Contents
import TeachingKernel.Paging.NestedFaults

/-!
# Demand-paged memory is memory

The client of the pools loads and stores bytes at legitimate addresses, whose pages the
handler provides one by one, while pools are constructed and regions allocated and
released. What it loads is what a flat memory would answer.
-/

namespace TeachingKernel.Paging.P4

open ForLoop FramePool ContFramePool VM Mmu Runs FlatMemory

/-- The search loop of `release`; see `VMPool.findRegion`. -/
def findRegion (list start : Word) (s : Machine) : Nat → Nat → Word → Option Word
  | 0, _, regionNum => some regionNum
  | k + 1, i, regionNum => do
      if (← s.load (entryAddr list i)) = start then some regionNum
      else findRegion list start s k (i + 1) regionNum

def removeItem (p : VMPool) (s : Machine) (index : Word) : Option (VMPool × Machine) := do
  let s ← forRange? index.toNat p.numAllocated.toNat
    (fun i s => do s.storeRegion p.allocatedList i (← s.loadRegion p.allocatedList (i + 1))) s
  let s ← s.storeRegion p.allocatedList (p.numAllocated - 1).toNat ⟨0, 0⟩
  some ({ p with numAllocated := p.numAllocated - 1 }, s)

/-- `release`, with every access to the list going through the translation. -/
def release (p : VMPool) (s : Machine) (start : Word) : Option (VMPool × Machine) := do
  let regionNum ← findRegion p.allocatedList start s (p.numAllocated.toNat - 1) 1 0
  if regionNum = 0 then some (p, s)
  else
    let r ← s.loadRegion p.allocatedList regionNum.toNat
    let s ← forRange? (r.startFrame / pageSize).toNat ((r.startFrame + r.size) / pageSize).toNat
      (fun pageNo => freePage (BitVec.ofNat 32 pageNo)) s
    removeItem p s regionNum

inductive MemoryOp where
  | call (op : SystemOp)
  | release (i : Nat) (start : Word)
  | load (a : Word) (b : Byte)

def MemoryOp.access : MemoryOp → Option (Access Word Byte)
  | .call (.store a b) => some (.store a b)
  | .load a b => some (.load a b)
  | _ => none

/-- Releases and loads beside what happens to the pools. A load leaves out the list pages,
as a store does. -/
inductive MemoryStep (process : Nat) : System → MemoryOp → System → Prop
  | call {y op z} (hstep : SystemStep process y op z) : MemoryStep process y (.call op) z
  | release {y i p start p' t} (hpool : y.vmPools[i]? = some p)
      (hrun : P4.release p y.machine start = some (p', t)) :
      MemoryStep process y (.release i start) ⟨t, y.vmPools.set i p'⟩
  | load {y a t b} (hlegit : checkAddress y.vmPools y.machine a = some true)
      (hfree : ∀ p ∈ y.vmPools, pageOf a ≠ pageOf p.allocatedList)
      (hrun : demand y.vmPools process a y.machine = some t) (hb : t.byteAt a = some b) :
      MemoryStep process y (.load a b) ⟨t, y.vmPools⟩

def ClientAddress (pools : List VMPool) (a : Word) : Prop :=
  (∃ p ∈ pools, a.toNat ∈ poolSpan p) ∧ ∀ p ∈ pools, pageOf a ≠ pageOf p.allocatedList

structure ShowsKnown (k : Nat) (q : ContFramePool) (known : Word → Option Byte) (y : System) :
    Prop where
  good : SystemGood k q y
  shows_byte : ∀ a b, known a = some b → y.machine.byteAt a = some b
  client : ∀ a b, known a = some b → ClientAddress y.vmPools a

section

variable {k : Nat} {q : ContFramePool} {known : Word → Option Byte} {y z : System} {a : Word}
  {b : Byte} {s t : Machine} {p p' : VMPool} {start base size stale : Word} {op : MemoryOp}

theorem findRegion_eq {n i : Nat} {regionNum r : Word}
    (h : findRegion p.allocatedList start s n i regionNum = some r) : r = regionNum := by
  induction n generalizing i with
  | zero => exact (Option.some.inj h).symm
  | succ n ih =>
      obtain ⟨w, -, h⟩ := Option.bind_eq_some_iff.mp h
      split at h
      · exact (Option.some.inj h).symm
      · exact ih h

/-- `release` finds no region, so it changes nothing. -/
theorem release_eq (h : P4.release p s start = some (p', t)) : p' = p ∧ t = s := by
  obtain ⟨r, hr, h⟩ := Option.bind_eq_some_iff.mp h
  cases findRegion_eq hr
  cases h
  exact ⟨rfl, rfl⟩

theorem release_returns {m : Memory} (hs : ShowsList s p.allocatedList m)
    (hfew : p.numAllocated.toNat ≤ 512) : P4.release p s start = some (p, s) := by
  have hfind : ∀ n i regionNum, i + n ≤ 512 →
      findRegion p.allocatedList start s n i regionNum = some regionNum := by
    intro n
    induction n with
    | zero => exact fun _ _ _ => rfl
    | succ n ih =>
        intro i regionNum hi
        obtain ⟨w, hw, -⟩ := Option.bind_eq_some_iff.mp (hs i (by omega))
        rw [findRegion, hw]
        show (if w = start then some regionNum else _) = _
        split
        · rfl
        · exact ih (i + 1) regionNum (by omega)
  by_cases hzero : p.numAllocated.toNat = 0
  · rw [P4.release, hzero]
    rfl
  · rw [P4.release, hfind _ _ _ (by omega)]
    rfl

theorem ClientAddress.userPage (h : ClientAddress y.vmPools a) (hg : SystemGood k q y) :
    UserPage (pageOf a) := by
  obtain ⟨p, hp, hlo, hhi⟩ := h.1
  have hlow := (hg.pools p hp).low
  have hwin := (hg.pools p hp).geometry.below_window
  dsimp only [poolSpan] at hlo hhi
  exact userPage_of_bounds (by omega) (by omega)

theorem SystemGood.clientAddress (h : SystemGood k q y)
    (hlegit : checkAddress y.vmPools y.machine a = some true)
    (hfree : ∀ p ∈ y.vmPools, pageOf a ≠ pageOf p.allocatedList) : ClientAddress y.vmPools a := by
  obtain ⟨b, hb, hin⟩ := h.check a
  exact ⟨hin (Option.some.inj (hb.symm.trans hlegit)), hfree⟩

theorem ShowsKnown.keep (h : ShowsKnown k q known y) (hg : SystemGood k q z)
    (hclient : ∀ a, ClientAddress y.vmPools a → ClientAddress z.vmPools a)
    (hkeep : ∀ a, ClientAddress y.vmPools a → KeepsPage y.machine z.machine (pageOf a)) :
    ShowsKnown k q known z :=
  ⟨hg, fun a b hb => (hkeep a (h.client a b hb)).byteAt (h.shows_byte a b hb),
    fun a b hb => hclient a (h.client a b hb)⟩

theorem ShowsKnown.learn (h : ShowsKnown k q known y) (ha : ClientAddress z.vmPools a)
    (hg : SystemGood k q z) (hpools : z.vmPools = y.vmPools) (hb : z.machine.byteAt a = some b)
    (hother : ∀ a' b', a' ≠ a → ClientAddress y.vmPools a' → y.machine.byteAt a' = some b' →
      z.machine.byteAt a' = some b') :
    ShowsKnown k q (Function.update known a (some b)) z := by
  refine ⟨hg, fun a' b' hb' => ?_, fun a' b' hb' => ?_⟩
  · rcases update_eq_some hb' with ⟨rfl, rfl⟩ | ⟨hne, hb'⟩
    · exact hb
    · exact hother a' b' hne (h.client a' b' hb') (h.shows_byte a' b' hb')
  · rcases update_eq_some hb' with ⟨rfl, -⟩ | ⟨-, hb'⟩
    · exact ha
    · rw [hpools]
      exact h.client a' b' hb'

/-! ## Steps that are no accesses -/

theorem ShowsKnown.construct (h : ShowsKnown k q known y)
    (hrange : q.baseFrameNo.toNat + q.nframes.toNat ≤ 2 ^ 20) (hroom : y.vmPools.length < maxPools)
    (hfit : Admissible y.vmPools base size)
    (hrun : constructPool k stale base size y = some z) : ShowsKnown k q known z := by
  obtain ⟨hgood, hpools, -, hkeep⟩ := h.good.construct_keeps hrange hroom hfit hrun
  -- an address of a pool there is lies in no page of the new one
  have hne : ∀ a, ClientAddress y.vmPools a → pageOf a ≠ pageOf base := by
    rintro a ⟨⟨p, hp, hlo, hhi⟩, -⟩ hpage
    have hali := hfit.aligned
    have hge := hfit.size_ge
    refine hfit.apart p hp a.toNat ⟨hlo, hhi⟩ ?_
    rw [pageSize_toNat] at hali hge
    unfold pageOf at hpage
    constructor
    · dsimp only
      omega
    · dsimp only
      omega
  refine h.keep hgood (fun a ha => ?_) fun a ha => hkeep _ (ha.userPage h.good) (hne a ha)
  rw [hpools]
  obtain ⟨p, hp, hin⟩ := ha.1
  refine ⟨⟨p, List.mem_append_left _ hp, hin⟩, fun p' hp' => ?_⟩
  rcases List.mem_append.mp hp' with hold | hnew
  · exact ha.2 p' hold
  · rw [List.mem_singleton.mp hnew]
    exact hne a ha

theorem ShowsKnown.allocate (h : ShowsKnown k q known y) {i : Nat} (hpool : y.vmPools[i]? = some p)
    (hrun : P4.allocate p y.machine size = some (a, p', t)) (hfew : p'.numAllocated.toNat ≤ 512) :
    ShowsKnown k q known ⟨t, y.vmPools.set i p'⟩ := by
  have hmem := List.mem_of_getElem? hpool
  obtain ⟨-, -, hkeep⟩ := (h.good.pools p hmem).allocate h.good.paging hrun hfew
  have heq := allocate_pool hrun
  refine h.keep (h.good.allocate hpool hrun hfew) (fun x hx => ?_) fun x hx =>
    hkeep _ (hx.userPage h.good) (hx.2 p hmem)
  obtain ⟨⟨r, hr, hin⟩, hfree⟩ := hx
  refine ⟨?_, fun r' hr' => ?_⟩
  · obtain ⟨j, hj⟩ := List.mem_iff_getElem?.mp hr
    by_cases hij : i = j
    · subst hij
      cases Option.some.inj (hpool.symm.trans hj)
      refine ⟨p', List.mem_set (List.getElem?_eq_some_iff.mp hpool).1 p', ?_⟩
      rw [heq]
      exact hin
    · refine ⟨r, List.mem_iff_getElem?.mpr ⟨j, ?_⟩, hin⟩
      rw [List.getElem?_set, if_neg hij]
      exact hj
  · rcases List.mem_or_eq_of_mem_set hr' with hold | rfl
    · exact hfree r' hold
    · rw [heq]
      exact hfree p hmem

theorem ShowsKnown.demand (h : ShowsKnown k q known y)
    (hrange : q.baseFrameNo.toNat + q.nframes.toNat ≤ 2 ^ 20)
    (hlegit : checkAddress y.vmPools y.machine a = some true)
    (hrun : P4.demand y.vmPools k a y.machine = some t) : ShowsKnown k q known ⟨t, y.vmPools⟩ := by
  obtain ⟨-, -, hkeep⟩ := h.good.paging.demand hrange (h.good.userPage hlegit) hrun
  exact h.keep (h.good.touch hrange hlegit hrun) (fun _ hx => hx) fun x hx =>
    hkeep _ (hx.userPage h.good)

/-! ## Accesses -/

theorem ShowsKnown.load (h : ShowsKnown k q known y)
    (hrange : q.baseFrameNo.toNat + q.nframes.toNat ≤ 2 ^ 20)
    (hlegit : checkAddress y.vmPools y.machine a = some true)
    (hfree : ∀ p ∈ y.vmPools, pageOf a ≠ pageOf p.allocatedList)
    (hrun : P4.demand y.vmPools k a y.machine = some t) (hb : t.byteAt a = some b) :
    (∀ b', known a = some b' → b' = b) ∧
      ShowsKnown k q (Function.update known a (some b)) ⟨t, y.vmPools⟩ := by
  have hclient := h.good.clientAddress hlegit hfree
  have ht := h.demand hrange hlegit hrun
  exact ⟨fun b' hb' => Option.some.inj ((ht.shows_byte a b' hb').symm.trans hb),
    ht.learn hclient ht.good rfl hb fun _ _ _ _ hb' => hb'⟩

/-- A stored byte shows at its own address only. -/
theorem Good.byteAt_update {pa : Word} (h : Good k q s) (ha : UserPage (pageOf a))
    (hpa : translate s.mem s.cr3 a = some pa) (b : Byte) :
    Machine.byteAt { s with mem := Function.update s.mem pa b } a = some b ∧
      ∀ a' b', a' ≠ a → UserPage (pageOf a') → s.byteAt a' = some b' →
        Machine.byteAt { s with mem := Function.update s.mem pa b } a' = some b' := by
  obtain ⟨-, hlookup, -⟩ := h.writesPage ha (lookup_of_translate hpa) (writesFrame_update s pa b)
  have hsame : ∀ a', UserPage (pageOf a') →
      translate (Function.update s.mem pa b) s.cr3 a' = translate s.mem s.cr3 a' := by
    intro a' ha'
    have hlt := ha'.2
    have heq := hlookup (pageOf a') (by omega)
    rw [Mmu.translate, Mmu.translate]
    exact congrArg _ heq
  constructor
  · rw [Machine.byteAt, hsame a ha, hpa, Option.map_some]
    exact congrArg some (Function.update_self ..)
  · intro a' b' hne ha' hb'
    obtain ⟨pa', hpa', rfl⟩ := Option.map_eq_some_iff.mp hb'
    have hapart : pa' ≠ pa := by
      rintro rfl
      exact hne (h.translate_inj ha' ha hpa' hpa)
    rw [Machine.byteAt, hsame a' ha', hpa', Option.map_some]
    exact congrArg some (Function.update_of_ne hapart ..)

theorem ShowsKnown.store (h : ShowsKnown k q known y) {pa : Word}
    (hrange : q.baseFrameNo.toNat + q.nframes.toNat ≤ 2 ^ 20)
    (hlegit : checkAddress y.vmPools y.machine a = some true)
    (hfree : ∀ p ∈ y.vmPools, pageOf a ≠ pageOf p.allocatedList)
    (hrun : P4.demand y.vmPools k a y.machine = some t)
    (hpa : translate t.mem t.cr3 a = some pa) :
    ShowsKnown k q (Function.update known a (some b))
      ⟨{ t with mem := Function.update t.mem pa b }, y.vmPools⟩ := by
  have hclient := h.good.clientAddress hlegit hfree
  have ht := h.demand hrange hlegit hrun
  obtain ⟨hself, hother⟩ := ht.good.paging.byteAt_update (hclient.userPage h.good) hpa b
  exact ht.learn hclient (h.good.store hrange b hlegit hfree hrun hpa) rfl hself
    fun a' b' hne ha' hb' => hother a' b' hne (ha'.userPage ht.good) hb'

theorem ShowsKnown.step (h : ShowsKnown k q known y)
    (hrange : q.baseFrameNo.toNat + q.nframes.toNat ≤ 2 ^ 20) (hstep : MemoryStep k y op z) :
    Settles (ShowsKnown k q) known z op.access := by
  cases hstep with
  | call hstep =>
      cases hstep with
      | construct hroom hfit hrun => exact h.construct hrange hroom hfit hrun
      | allocate hpool hrun hfew => exact h.allocate hpool hrun hfew
      | touch hlegit hrun => exact h.demand hrange hlegit hrun
      | store hlegit hfree hrun hpa => exact h.store hrange hlegit hfree hrun hpa
  | release hpool hrun =>
      obtain ⟨rfl, rfl⟩ := release_eq hrun
      obtain ⟨hi, rfl⟩ := List.getElem?_eq_some_iff.mp hpool
      rw [List.set_getElem_self]
      exact h
  | load hlegit hfree hrun hb => exact h.load hrange hlegit hfree hrun hb

theorem SystemGood.memoryStep (h : SystemGood k q y)
    (hrange : q.baseFrameNo.toNat + q.nframes.toNat ≤ 2 ^ 20) (hstep : MemoryStep k y op z) :
    SystemGood k q z := by
  cases hstep with
  | call hstep => exact h.step hrange hstep
  | release hpool hrun =>
      obtain ⟨rfl, rfl⟩ := release_eq hrun
      obtain ⟨hi, rfl⟩ := List.getElem?_eq_some_iff.mp hpool
      rw [List.set_getElem_self]
      exact h
  | load hlegit _ hrun _ => exact h.touch hrange hlegit hrun

/-- From boot on, whatever pools are constructed and regions allocated and released, and
in whatever order the pages are provided, the bytes loaded are those of a flat memory. -/
theorem flat_memory {memory : PackedPairs.Bytes} {p₀ : ContFramePool}
    {base n info nInfo holeFirst holeSize pageDirectory : Word} {s₀ s₁ : Machine}
    {run : List (MemoryOp × System)} (hinfo : info ≠ 0)
    (hplace : info.toNat + nInfo.toNat ≤ 1024)
    (hnew : ContFramePool.construct memory base n info nInfo = some p₀)
    (hlo : base.toNat ≤ holeFirst.toNat)
    (hhi : holeFirst.toNat + holeSize.toNat ≤ base.toNat + (roundUp4 n).toNat)
    (hmark : p₀.markInaccessible holeFirst holeSize = some q)
    (hrange : base.toNat + (roundUp4 n).toNat ≤ 2 ^ 20) (hq : s₀.pools[k]? = some q)
    (hearlier : ∀ j r, j < k → s₀.pools[j]? = some r → ∀ f, q.Manages f → ¬ r.Manages f)
    (hboot : P4.construct k s₀ = some (pageDirectory, s₁))
    (hrun : IsRun (MemoryStep k) ⟨load s₁ pageDirectory, []⟩ run) :
    (∃ m : Word → Byte, Answers m ((run.map Prod.fst).filterMap MemoryOp.access)) ∧
      EveryState (fun y => BitmapSafe k (frames y.machine) y.machine)
        ⟨load s₁ pageDirectory, []⟩ run := by
  obtain ⟨hbase, hframes, hseparated, hbitmap, -⟩ :=
    booted_pool hinfo hplace hnew hlo hhi hmark hrange
  rw [← hbase, ← hframes] at hrange
  have hstart : ShowsKnown k q (fun _ => none) ⟨load s₁ pageDirectory, []⟩ :=
    ⟨⟨Good.boot hq hseparated hrange hearlier hboot, fun p hp => (by cases hp), .nil,
      Nat.zero_le maxPools⟩, fun _ _ h => (by cases h), fun _ _ h => by cases h⟩
  obtain ⟨m, -, hm⟩ := exists_answers (fun _ _ _ _ hs hstep => hs.step hrange hstep) hstart hrun
  exact ⟨⟨m, hm⟩, (everyState_of_step (fun _ _ _ hy hstep => hy.memoryStep hrange hstep)
    hstart.good hrun).imp fun y hy => hy.paging.bitmapSafe hbitmap⟩

end

theorem flat_memory_codePool : ∃ p₀ q pageDirectory s₁ run,
    ContFramePool.construct (fun _ => 0) 1024 7168 513 1 = some p₀ ∧
      p₀.markInaccessible 3840 256 = some q ∧
      P4.construct 0 ⟨fun _ => 0, 0, [q]⟩ = some (pageDirectory, s₁) ∧
      IsRun (MemoryStep 0) ⟨load s₁ pageDirectory, []⟩ run ∧
      run.map Prod.fst = [.call (.construct 0 0x20000000 0x10000000), .call (.allocate 0 4096),
        .call (.store 0x20001000 7), .load 0x20001000 7] ∧
      ∃ m : Word → Byte, Answers m ((run.map Prod.fst).filterMap MemoryOp.access) := by
  obtain ⟨p₀, q, pageDirectory, s₁, z, t, p, l, hp₀, hq, hboot, hrange, hconstruct, hallocate,
    hgood, hlist, hlists, hl, hspares⟩ := sampleRegion
  obtain ⟨hlegit, hfree⟩ := hgood.sampleRegion_legitimate hlists hlist hl
  have huser := hgood.userPage hlegit
  obtain ⟨u, hu⟩ := hgood.paging.demand_returns hrange huser hlegit hspares
  obtain ⟨hgoodu, hmapped, hkeep⟩ := hgood.paging.demand hrange huser hu
  obtain ⟨pa, hpa⟩ : ∃ pa, translate u.mem u.cr3 0x20001000 = some pa := by
    obtain ⟨f, hf⟩ := Option.isSome_iff_exists.mp hmapped
    exact ⟨_, by rw [Mmu.translate, hf]; rfl⟩
  have hstored := hgood.store hrange 7 hlegit hfree hu hpa
  obtain ⟨hbyte, -⟩ := hgoodu.byteAt_update huser hpa 7
  -- the list page is as it was, so the address is legitimate still
  have hp := hgood.pools p (List.mem_singleton.mpr rfl)
  obtain ⟨-, -, hkeep'⟩ := hgoodu.writesPage huser (lookup_of_translate hpa)
    (writesFrame_update u pa 7)
  have hlists₂ := hlists.keep hp ((hkeep _ hp.user).trans
    (hkeep' _ hp.user fun hc => hfree p (List.mem_singleton.mpr rfl) hc.symm))
  have hlegit₂ := (hstored.sampleRegion_legitimate hlists₂ hlist hl).1
  have hload : (Machine.load { u with mem := Function.update u.mem pa 7 } 0x20001000).isSome := by
    obtain ⟨pa', hpa', -⟩ := Option.map_eq_some_iff.mp hbyte
    rw [Machine.load, hpa']
    rfl
  have hrun : IsRun (MemoryStep 0) ⟨load s₁ pageDirectory, []⟩
      [(.call (.construct 0 0x20000000 0x10000000), z), (.call (.allocate 0 4096), ⟨t, [p]⟩),
        (.call (.store 0x20001000 7), ⟨{ u with mem := Function.update u.mem pa 7 }, [p]⟩),
        (.load 0x20001000 7, ⟨{ u with mem := Function.update u.mem pa 7 }, [p]⟩)] :=
    ⟨.call hconstruct, .call hallocate, .call (.store hlegit hfree hu hpa),
      .load hlegit₂ hfree (demand_mapped hload) hbyte, trivial⟩
  exact ⟨p₀, q, pageDirectory, s₁, _, hp₀, hq, hboot, hrun, rfl,
    (flat_memory (by decide) (by decide) hp₀ (by decide) (by decide) hq (by decide) rfl
      (fun j _ hj => absurd hj (Nat.not_lt_zero j)) hboot hrun).1⟩

end TeachingKernel.Paging.P4
