import TeachingKernel.VMPool.Regions

/-!
# First fit

On a list in order, below the recursive window, `allocate` succeeds exactly when the
rounded size fits between the listed regions, and returns the lowest address where it
does. A call that fails has left the list as it was.
-/

namespace TeachingKernel.VM

open FirstFit

/-- The list of a pool in use. The constructor lists the reserved page at the base of the
pool and every call keeps it in front; the regions behind it are sorted and disjoint, and
the page of the list has room for one more. -/
structure InOrder (p : VMPool) (m : Memory) : Prop where
  head : (p.entries m).head?.map RegionInfo.startFrame = some p.baseAddress
  sorted : (p.entries m).Pairwise fun a b => a.stop ≤ b.startFrame.toNat
  aligned : ∀ r ∈ p.entries m, pageSize.toNat ∣ r.startFrame.toNat ∧ pageSize.toNat ∣ r.size.toNat
  inside : ∀ r ∈ p.entries m, p.baseAddress.toNat ≤ r.startFrame.toNat ∧
    r.stop ≤ p.baseAddress.toNat + p.size.toNat
  below_window : p.baseAddress.toNat + p.size.toNat ≤ recursiveWindow
  few : p.numAllocated.toNat < 512

/-- The `n` bytes from the page boundary `a` on lie in the pool, and each listed region
lies before or behind them. -/
structure FreeRange (p : VMPool) (m : Memory) (n a : Nat) : Prop where
  aligned : pageSize.toNat ∣ a
  inside : p.baseAddress.toNat ≤ a ∧ a + n ≤ p.baseAddress.toNat + p.size.toNat
  apart : ∀ r ∈ p.entries m, a + n ≤ r.startFrame.toNat ∨ r.stop ≤ a

/-- As long as the list fits its page, every state of a client's run is in order. -/
theorem Good.inOrder {σ : Type} {s : Client σ} {base sz : Word} (h : Good base sz s)
    (hfew : s.pool.numAllocated.toNat < 512) : InOrder s.pool s.mem := by
  obtain ⟨rfl, rfl, hg, hlaid, -, -, -⟩ := h
  exact ⟨by rw [hlaid.head]; rfl, hlaid.sorted, hlaid.aligned, hlaid.inside, hg.below_window, hfew⟩

namespace InOrder

variable {p : VMPool} {m : Memory} {size : Word} {n a : Nat}

theorem charted (h : InOrder p m) :
    p.Charted m (p.baseAddress.toNat + p.size.toNat) (p.spans m) :=
  VMPool.charted_spans (arranged_map_span h.head h.sorted h.inside)

theorem freeRange_iff : FreeRange p m n a ↔ pageSize.toNat ∣ a ∧
    Fits p.baseAddress.toNat (p.baseAddress.toNat + p.size.toNat) (p.spans m) n a := by
  constructor
  · rintro ⟨haligned, hinside, hapart⟩
    refine ⟨haligned, hinside.1, hinside.2, fun r hr => ?_⟩
    obtain ⟨e, he, rfl⟩ := List.mem_map.mp hr
    exact hapart e he
  · rintro ⟨haligned, hlower, hupper, hapart⟩
    exact ⟨haligned, ⟨hlower, hupper⟩, fun e he => hapart e.span (List.mem_map_of_mem he)⟩

/-- The regions end on page boundaries, so the first room begins on one. -/
theorem stop_aligned (h : InOrder p m) {r : Span} (hr : r ∈ p.spans m) :
    pageSize.toNat ∣ r.stop := by
  obtain ⟨e, he, rfl⟩ := List.mem_map.mp hr
  obtain ⟨hstart, hsize⟩ := h.aligned e he
  exact Nat.dvd_add hstart hsize

/-- Either the call returns the lowest free range, or there is none and it reaches the
failing assertion. -/
theorem allocate_cases (h : InOrder p m) (h1 : 1 ≤ size.toNat)
    (h2 : size.toNat ≤ 2 ^ 32 - pageSize.toNat) :
    (∃ a p' m', p.allocate m size = .ok (a, p', m') ∧ FreeRange p m (roundUp size) a.toNat ∧
        ∀ b, FreeRange p m (roundUp size) b → a.toNat ≤ b) ∨
      p.allocateFound m size = .ok (none, p, m) ∧ ∀ b, ¬ FreeRange p m (roundUp size) b := by
  have hcharted := h.charted
  have hfew := h.few
  have hround := roundToPages_toNat_of_le h1 h2
  have hpos : 0 < roundUp size := Nat.lt_of_lt_of_le h1 (le_roundUp size)
  rcases exists_isFirst_or_full (p.baseAddress.toNat + p.size.toNat) (p.spans m) (roundUp size) with
    ⟨i, r, hfirst⟩ | hfull
  · obtain ⟨m', hcall, -, -⟩ := hcharted.allocateFound_first (by omega) (hround ▸ hfirst)
    have hfits := hfirst.fits hcharted.arranged
    have haddress : (BitVec.ofNat 32 r.stop).toNat = r.stop := by
      have hupper := hfits.upper
      have hwin := h.below_window
      unfold recursiveWindow at hwin
      exact toNat_ofNat_of_lt (by omega)
    refine .inl ⟨_, _, _, by rw [VMPool.allocate_eq, hcall]; rfl, ?_, fun b hb => ?_⟩
    · rw [haddress]
      exact freeRange_iff.mpr ⟨h.stop_aligned (List.mem_of_getElem? hfirst.listed), hfits⟩
    · rw [haddress]
      exact hfirst.stop_le hcharted.arranged hpos (freeRange_iff.mp hb).2
  · refine .inr ⟨hcharted.allocateFound_full (hround ▸ hfull), fun b hb => ?_⟩
    exact hfull.not_fits hcharted.arranged hpos (freeRange_iff.mp hb).2

end InOrder

/-- `allocate` succeeds exactly when the rounded size is free somewhere in the pool; it
then returns the lowest such address, and otherwise it reaches its assertion with the pool
and the memory unchanged. -/
theorem allocate_firstFit (p : VMPool) (m : Memory) (size : Word) (h : InOrder p m)
    (h1 : 1 ≤ size.toNat) (h2 : size.toNat ≤ 2 ^ 32 - pageSize.toNat) :
    ((∃ a p' m', p.allocate m size = .ok (a, p', m')) ↔ ∃ a, FreeRange p m (roundUp size) a) ∧
    (∀ a p' m', p.allocate m size = .ok (a, p', m') →
      FreeRange p m (roundUp size) a.toNat ∧
        ∀ b, FreeRange p m (roundUp size) b → a.toNat ≤ b) ∧
    ((∀ a, ¬ FreeRange p m (roundUp size) a) →
      p.allocateFound m size = .ok (none, p, m) ∧ p.allocate m size = .error .assertion) := by
  rcases h.allocate_cases h1 h2 with ⟨a, p', m', hcall, hfree, hlowest⟩ | ⟨hnone, hfull⟩
  · refine ⟨⟨fun _ => ⟨_, hfree⟩, fun _ => ⟨a, p', m', hcall⟩⟩, fun b q m₁ hcall' => ?_,
      fun hnot => absurd hfree (hnot _)⟩
    cases hcall.symm.trans hcall'
    exact ⟨hfree, hlowest⟩
  · have herror : p.allocate m size = .error .assertion := by
      rw [VMPool.allocate_eq, hnone]
      rfl
    refine ⟨⟨?_, fun ⟨b, hb⟩ => absurd hb (hfull b)⟩, fun a p' m' hcall => ?_,
      fun _ => ⟨hnone, herror⟩⟩
    · rintro ⟨a, p', m', hcall⟩
      cases herror.symm.trans hcall
    · cases herror.symm.trans hcall

def gapPool : VMPool := ⟨0x10000, 0x4000, 2, 0x10000⟩

def gapMemory : Memory :=
  writeRegion (writeRegion (fun _ => 0) 0x10000 0 ⟨0x10000, 0x1000⟩) 0x10000 1 ⟨0x12000, 0x1000⟩

theorem allocate_firstFit_gap : ∃ a p' m', gapPool.allocate gapMemory 1 = .ok (a, p', m') ∧
    FreeRange gapPool gapMemory (roundUp 1) a.toNat := by
  have hentries : gapPool.entries gapMemory = [⟨0x10000, 0x1000⟩, ⟨0x12000, 0x1000⟩] := by
    decide +kernel
  have horder : InOrder gapPool gapMemory := by
    refine ⟨?_, ?_, ?_, ?_, by decide, by decide⟩ <;> rw [hentries] <;> decide
  have hspec := allocate_firstFit gapPool gapMemory 1 horder (by decide) (by decide)
  have hfree : FreeRange gapPool gapMemory (roundUp 1) 0x11000 :=
    ⟨by decide, by decide, by rw [hentries]; decide⟩
  obtain ⟨a, p', m', hcall⟩ := hspec.1.mpr ⟨_, hfree⟩
  exact ⟨a, p', m', hcall, (hspec.2.1 a p' m' hcall).1⟩

/-- A pool of two pages that lists the second one only. -/
def latePool : VMPool := ⟨0x10000, 0x2000, 1, 0x10000⟩

def lateMemory : Memory := writeRegion (fun _ => 0) 0x10000 0 ⟨0x11000, 0x1000⟩

/-- The space in front of the first region is never looked at. -/
theorem front_not_found :
    (latePool.entries lateMemory).Pairwise (fun a b => a.stop ≤ b.startFrame.toNat) ∧
      (∀ r ∈ latePool.entries lateMemory,
        pageSize.toNat ∣ r.startFrame.toNat ∧ pageSize.toNat ∣ r.size.toNat ∧
          latePool.baseAddress.toNat ≤ r.startFrame.toNat ∧
          r.stop ≤ latePool.baseAddress.toNat + latePool.size.toNat) ∧
      latePool.baseAddress.toNat + latePool.size.toNat ≤ recursiveWindow ∧
      latePool.numAllocated.toNat < 512 ∧
      FreeRange latePool lateMemory (roundUp 1) latePool.baseAddress.toNat ∧
      latePool.allocate lateMemory 1 = .error .assertion := by
  have hentries : latePool.entries lateMemory = [⟨0x11000, 0x1000⟩] := by decide +kernel
  have herror : (match latePool.allocate lateMemory 1 with
      | .ok _ => none
      | .error e => some e) = some Stop.assertion := by
    decide +kernel
  rw [hentries]
  refine ⟨by decide, by decide, by decide, by decide,
    ⟨by decide, by decide, by rw [hentries]; decide⟩, ?_⟩
  split at herror
  · cases herror
  · rename_i hcall
    cases herror
    exact hcall

end TeachingKernel.VM
