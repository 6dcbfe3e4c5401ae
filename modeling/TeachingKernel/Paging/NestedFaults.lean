import TeachingKernel.Paging.PoolCalls
import TeachingKernel.Paging.Supply

/-!
# No fault inside the handler

The handler walks the lists of the pools, and their list pages are mapped like any
other page. They stay mapped, so it finds every list it asks, and beside the lists it
accesses the directory, the tables and the bitmap of its frame pool.
-/

namespace TeachingKernel.Paging.P4

open FramePool ContFramePool VM Mmu Runs

/-- The list pages are mapped, the first store of a constructor is accepted and served,
and whatever the handler accesses is mapped, the bitmap of the frame pool in both of its
calls of `get_frames` included: it returns, unless `get_frames` fails. -/
structure NoNestedFault (k : Nat) (y : System) : Prop where
  listed : ∀ p ∈ y.vmPools, ∀ a : Word, pageOf a = pageOf p.allocatedList →
    (translate y.machine.mem y.machine.cr3 a).isSome
  within : ∀ p ∈ y.vmPools, ∀ i < p.numAllocated.toNat,
    pageOf (entryAddr p.allocatedList i) = pageOf p.allocatedList
  answers : ∀ a, ∃ b, checkAddress y.vmPools y.machine a = some b
  bitmap : ∀ a : Word, a.toNat < recursiveWindow → BitmapReached k a y.machine
  handles : ∀ a, checkAddress y.vmPools y.machine a = some true →
    (∃ t, handleFault (accepts y.vmPools) k a y.machine = some t) ∨ OutOfFrames k a y.machine
  constructs : ∀ stale base size : Word, stale &&& 0x3FF#32 = 0 → y.vmPools.length < maxPools →
    Admissible y.vmPools base size →
    checkAddress (y.vmPools ++ [⟨base, roundToPages size, 0, base⟩]) y.machine base = some true ∧
      ((∃ z, constructPool k stale base size y = some z ∧
          (translate z.machine.mem z.machine.cr3 base).isSome) ∨
        OutOfFrames k base y.machine)

section

variable {y : System} {q : ContFramePool} {k : Nat}

theorem SystemGood.noNestedFault (h : SystemGood k q y)
    (hrange : q.baseFrameNo.toNat + q.nframes.toNat ≤ 2 ^ 20)
    (hbitmap : q.extent.BitmapOutside) : NoNestedFault k y := by
  refine ⟨fun p hp a ha => ?_, fun p hp i hi => ?_, fun a => ?_,
    fun a hhi => h.paging.bitmapReached hrange hbitmap hhi, fun a hlegit => ?_,
    fun stale base size hstale _ hfit => ⟨h.accepts_new base, h.constructs hrange hstale hfit⟩⟩
  · obtain ⟨f, m, hl, -⟩ := (h.pools p hp).list
    rw [Mmu.translate, ha, hl.mapped]
    rfl
  · have hfew := (h.pools p hp).few
    obtain ⟨f, m, hl, -⟩ := (h.pools p hp).list
    have haddr := (entryAddr_toNat hl.aligned (show i < 512 by omega)).1
    have haligned := hl.aligned
    rw [pageSize_toNat] at haligned
    unfold pageOf
    omega
  · obtain ⟨b, hb, -⟩ := h.check a
    exact ⟨b, hb⟩
  · exact h.paging.handleFault_or hrange (h.userPage hlegit) (accepts_of_checkAddress hlegit)

/-- From boot on, whatever pools are constructed, regions allocated and legitimate
addresses touched, no access inside the handler hits an absent page. -/
theorem no_nested_fault {memory : PackedPairs.Bytes} {p₀ : ContFramePool}
    {base n info nInfo holeFirst holeSize pageDirectory : Word} {s₀ s₁ : Machine}
    {run : List (SystemOp × System)} (hinfo : info ≠ 0)
    (hplace : info.toNat + nInfo.toNat ≤ 1024)
    (hnew : ContFramePool.construct memory base n info nInfo = some p₀)
    (hlo : base.toNat ≤ holeFirst.toNat)
    (hhi : holeFirst.toNat + holeSize.toNat ≤ base.toNat + (roundUp4 n).toNat)
    (hmark : p₀.markInaccessible holeFirst holeSize = some q)
    (hrange : base.toNat + (roundUp4 n).toNat ≤ 2 ^ 20) (hq : s₀.pools[k]? = some q)
    (hearlier : ∀ j r, j < k → s₀.pools[j]? = some r → ∀ f, q.Manages f → ¬ r.Manages f)
    (hboot : P4.construct k s₀ = some (pageDirectory, s₁))
    (hrun : IsRun (SystemStep k) ⟨load s₁ pageDirectory, []⟩ run) :
    EveryState (NoNestedFault k) ⟨load s₁ pageDirectory, []⟩ run := by
  obtain ⟨hbase, hframes, hseparated, hbitmap, -⟩ :=
    booted_pool hinfo hplace hnew hlo hhi hmark hrange
  rw [← hbase, ← hframes] at hrange
  have hgood : SystemGood k q ⟨load s₁ pageDirectory, []⟩ :=
    ⟨Good.boot hq hseparated hrange hearlier hboot, fun p hp => (by cases hp), .nil,
      Nat.zero_le maxPools⟩
  exact (everyState_of_step (fun _ _ _ hy hstep => hy.step hrange hstep) hgood hrun).imp
    fun y hy => hy.noNestedFault hrange hbitmap

end

theorem sampleRegion : ∃ p₀ q pageDirectory s₁ z t p l,
    ContFramePool.construct (fun _ => 0) 1024 7168 513 1 = some p₀ ∧
      p₀.markInaccessible 3840 256 = some q ∧
      P4.construct 0 ⟨fun _ => 0, 0, [q]⟩ = some (pageDirectory, s₁) ∧
      q.baseFrameNo.toNat + q.nframes.toNat ≤ 2 ^ 20 ∧
      SystemStep 0 ⟨load s₁ pageDirectory, []⟩ (.construct 0 0x20000000 0x10000000) z ∧
      SystemStep 0 z (.allocate 0 4096) ⟨t, [p]⟩ ∧ SystemGood 0 q ⟨t, [p]⟩ ∧
      p.allocatedList = 0x20000000 ∧ Lists t p l ∧ ⟨0x20001000, roundToPages 4096⟩ ∈ l ∧
      Spares 0 2 t := by
  obtain ⟨p₀, q, pageDirectory, s₁, z, hp₀, hq, hboot, hz, hrange, hstart, hspares⟩ :=
    sampleCodePool
  have hroom : ([] : List VMPool).length < maxPools := by decide
  obtain ⟨hz', hpools, hlists, -⟩ := hstart.construct_keeps hrange hroom admissible_codePool hz
  let p : VMPool := ⟨0x20000000, roundToPages 0x10000000, 1, 0x20000000⟩
  have hpool : z.vmPools[0]? = some p := by
    rw [hpools]
    rfl
  have hp := hz'.pools p (List.mem_of_getElem? hpool)
  obtain ⟨a, p', t, hallocate⟩ : ∃ a p' t, P4.allocate p z.machine 4096 = some (a, p', t) :=
    hlists.allocate_returns (l := [⟨0x20000000, pageSize⟩]) hz'.paging hp (by decide)
      (fun r hr => Nat.le_of_eq (congrArg RegionInfo.stop (List.mem_singleton.mp hr))) (by decide)
  have hfew : p'.numAllocated.toNat ≤ 512 := by
    rw [allocate_pool hallocate]
    decide
  obtain ⟨i, r, hr, ha, hlists', -⟩ := hlists.allocate hz'.paging hp hallocate hfew
  have hframes := hlists.allocate_frames hz'.paging hp hallocate hfew
  have hstep : SystemStep 0 z (.allocate 0 4096) ⟨t, z.vmPools.set 0 p'⟩ :=
    .allocate hpool hallocate hfew
  have hgood := hz'.allocate hpool hallocate hfew
  obtain ⟨hi, -⟩ := List.getElem?_eq_some_iff.mp hr
  cases Nat.lt_one_iff.mp hi
  cases Option.some.inj hr
  cases BitVec.eq_of_toNat_eq (y := 0x20001000) ha
  rw [hpools, List.nil_append] at hgood
  rw [hpools] at hstep
  exact ⟨p₀, q, pageDirectory, s₁, z, t, p', _, hp₀, hq, hboot, hrange,
    .construct hroom admissible_codePool hz, hstep, hgood, by rw [allocate_pool hallocate],
    hlists', List.mem_insertIdx (by decide) |>.mpr (.inl rfl),
    (hspares.mono (by decide)).of_pools hframes⟩

/-- The addresses of the region are legitimate and lie behind the list page. -/
theorem SystemGood.sampleRegion_legitimate {t : Machine} {p : VMPool} {l : List RegionInfo}
    {q : ContFramePool} (h : SystemGood 0 q ⟨t, [p]⟩) (hlists : Lists t p l)
    (hlist : p.allocatedList = 0x20000000) (hl : ⟨0x20001000, roundToPages 4096⟩ ∈ l) :
    checkAddress [p] t 0x20001000 = some true ∧
      ∀ r ∈ [p], pageOf (0x20001000 : Word) ≠ pageOf r.allocatedList := by
  have hin : (0x20001000 : Word).toNat ∈ RegionInfo.span ⟨0x20001000, roundToPages 4096⟩ :=
    ⟨by decide, by decide⟩
  refine ⟨(h.legitimate (i := 0) rfl hlists hl hin).2, fun r hr => ?_⟩
  rw [List.mem_singleton.mp hr, hlist]
  decide

theorem no_nested_fault_codePool : ∃ p₀ q pageDirectory s₁ run,
    ContFramePool.construct (fun _ => 0) 1024 7168 513 1 = some p₀ ∧
      p₀.markInaccessible 3840 256 = some q ∧
      P4.construct 0 ⟨fun _ => 0, 0, [q]⟩ = some (pageDirectory, s₁) ∧
      run.map Prod.fst = [SystemOp.construct 0 0x20000000 0x10000000, .allocate 0 4096,
        .touch 0x20001000] ∧
      EveryState (NoNestedFault 0) ⟨load s₁ pageDirectory, []⟩ run := by
  obtain ⟨p₀, q, pageDirectory, s₁, z, t, p, l, hp₀, hq, hboot, hrange, hconstruct, hallocate,
    hgood, hlist, hlists, hl, hspares⟩ := sampleRegion
  obtain ⟨hlegit, -⟩ := hgood.sampleRegion_legitimate hlists hlist hl
  obtain ⟨u, hu⟩ := hgood.paging.demand_returns hrange (hgood.userPage hlegit) hlegit hspares
  have hrun : IsRun (SystemStep 0) ⟨load s₁ pageDirectory, []⟩
      [(.construct 0 0x20000000 0x10000000, z), (.allocate 0 4096, ⟨t, [p]⟩),
        (.touch 0x20001000, ⟨u, [p]⟩)] :=
    ⟨hconstruct, hallocate, .touch hlegit hu, trivial⟩
  exact ⟨p₀, q, pageDirectory, s₁, _, hp₀, hq, hboot, rfl, no_nested_fault (by decide)
    (by decide) hp₀ (by decide) (by decide) hq (by decide) rfl
    (fun j _ hj => absurd hj (Nat.not_lt_zero j)) hboot hrun⟩

end TeachingKernel.Paging.P4
