import TeachingKernel.Paging.Access

/-!
# Reaching the tables through the directory

The last entry of P4's directory points to the directory. The addresses that
`construct_pde_address` and `construct_pte_address` build then reach the entries
of the directory and of every table it holds, so each access of the handlers
reads or sets one word of one table.
-/

namespace TeachingKernel.Paging

open ForLoop FramePool ContFramePool Mmu

namespace P4

theorem constructPdeAddress_toNat {pdi : Word} (h : pdi.toNat < 1024) :
    (constructPdeAddress pdi).toNat = 4096 * (1024 * 1023 + 1023) + 4 * pdi.toNat := by
  have hshift : (pdi <<< 2).toNat = 4 * pdi.toNat := by
    rw [BitVec.toNat_shiftLeft, Nat.shiftLeft_eq]
    omega
  have hor := Nat.two_pow_add_eq_or_of_lt (i := 12) (show 4 * pdi.toNat < 2 ^ 12 by omega)
    (1024 * 1023 + 1023)
  have hconst : (0xFFFFF000#32).toNat = 2 ^ 12 * (1024 * 1023 + 1023) := by decide
  rw [constructPdeAddress, BitVec.toNat_or, hshift, hconst, ← hor]

theorem constructPteAddress_toNat {pdi pti : Word} (h : pdi.toNat < 1024) (h' : pti.toNat < 1024) :
    (constructPteAddress pdi pti).toNat = 4096 * (1024 * 1023 + pdi.toNat) + 4 * pti.toNat := by
  have hpdi : (pdi <<< 12).toNat = 4096 * pdi.toNat := by
    rw [BitVec.toNat_shiftLeft, Nat.shiftLeft_eq]
    omega
  have hpti : (pti <<< 2).toNat = 4 * pti.toNat := by
    rw [BitVec.toNat_shiftLeft, Nat.shiftLeft_eq]
    omega
  have htable : (0xFFC00000#32 ||| pdi <<< 12).toNat = 2 ^ 12 * (1024 * 1023 + pdi.toNat) := by
    rw [BitVec.toNat_or, hpdi]
    have hor := Nat.two_pow_add_eq_or_of_lt (i := 22) (show 4096 * pdi.toNat < 2 ^ 22 by omega) 1023
    have hconst : (0xFFC00000#32).toNat = 2 ^ 22 * 1023 := by decide
    rw [hconst, ← hor]
    omega
  rw [constructPteAddress, BitVec.toNat_or, hpti, htable]
  exact (Nat.two_pow_add_eq_or_of_lt (i := 12) (by omega) _).symm

/-! ## Accesses -/

structure SelfMapped (s : Machine) : Prop where
  present : Present (words s.mem (frameOf s.cr3) 1023)
  frame_eq : frameOf (words s.mem (frameOf s.cr3) 1023) = frameOf s.cr3

section

variable {s : Machine} {pdi pti v : Word}

/-- In the window of the last directory entry, the tables are the pages. -/
theorem SelfMapped.lookup_window (h : SelfMapped s) {i : Nat} (hi : i < 1024) :
    lookup (words s.mem) (frameOf s.cr3) (1024 * 1023 + i) =
      if Present (words s.mem (frameOf s.cr3) i) then
        some (frameOf (words s.mem (frameOf s.cr3) i)) else none := by
  rw [lookup_entry h.present (by omega), h.frame_eq]

theorem SelfMapped.translate_pde (h : SelfMapped s) (hpdi : pdi.toNat < 1024) :
    translate s.mem s.cr3 (constructPdeAddress pdi) = some (slot (frameOf s.cr3) pdi.toNat) := by
  have haddr := constructPdeAddress_toNat hpdi
  have hpage : pageOf (constructPdeAddress pdi) = 1024 * 1023 + 1023 := by
    rw [pageOf, haddr]
    omega
  have hlookup := h.lookup_window (i := 1023) (by decide)
  rw [if_pos h.present, h.frame_eq, ← hpage] at hlookup
  rw [translate_of_lookup hlookup, haddr, slot]
  congr 3
  omega

theorem SelfMapped.translate_pte (h : SelfMapped s) (hpdi : pdi.toNat < 1024)
    (hpti : pti.toNat < 1024) (hp : Present (words s.mem (frameOf s.cr3) pdi.toNat)) :
    translate s.mem s.cr3 (constructPteAddress pdi pti) =
      some (slot (frameOf (words s.mem (frameOf s.cr3) pdi.toNat)) pti.toNat) := by
  have haddr := constructPteAddress_toNat hpdi hpti
  have hpage : pageOf (constructPteAddress pdi pti) = 1024 * 1023 + pdi.toNat := by
    rw [pageOf, haddr]
    omega
  have hlookup := h.lookup_window hpdi
  rw [if_pos hp, ← hpage] at hlookup
  rw [translate_of_lookup hlookup, haddr, slot]
  congr 3
  omega

theorem SelfMapped.load_pde (h : SelfMapped s) (hpdi : pdi.toNat < 1024) :
    s.load (constructPdeAddress pdi) = some (words s.mem (frameOf s.cr3) pdi.toNat) := by
  rw [Machine.load, h.translate_pde hpdi]
  rfl

theorem SelfMapped.load_pte (h : SelfMapped s) (hpdi : pdi.toNat < 1024) (hpti : pti.toNat < 1024)
    (hp : Present (words s.mem (frameOf s.cr3) pdi.toNat)) :
    s.load (constructPteAddress pdi pti) =
      some (words s.mem (frameOf (words s.mem (frameOf s.cr3) pdi.toNat)) pti.toNat) := by
  rw [Machine.load, h.translate_pte hpdi hpti hp]
  rfl

theorem SelfMapped.store_pde (h : SelfMapped s) (hpdi : pdi.toNat < 1024) :
    s.store (constructPdeAddress pdi) v = some (setWord s (frameOf s.cr3) pdi.toNat v) := by
  rw [Machine.store, h.translate_pde hpdi]
  rfl

theorem SelfMapped.store_pte (h : SelfMapped s) (hpdi : pdi.toNat < 1024) (hpti : pti.toNat < 1024)
    (hp : Present (words s.mem (frameOf s.cr3) pdi.toNat)) :
    s.store (constructPteAddress pdi pti) v =
      some (setWord s (frameOf (words s.mem (frameOf s.cr3) pdi.toNat)) pti.toNat v) := by
  rw [Machine.store, h.translate_pte hpdi hpti hp]
  rfl

/-! ## The handlers as changes of the tables -/

/-- The loop that empties a new table, entry by entry through the window. -/
private theorem emptyTable_spec {f : Nat} (h : SelfMapped s) (hpdi : pdi.toNat < 1023)
    (hp : Present (words s.mem (frameOf s.cr3) pdi.toNat))
    (hf : frameOf (words s.mem (frameOf s.cr3) pdi.toNat) = f) (hfd : f ≠ frameOf s.cr3) :
    ∃ t, forRange? 0 entriesPerPage
        (fun i s => s.store (constructPteAddress pdi (BitVec.ofNat 32 i)) 2) s = some t ∧
      SameRegisters s t ∧ ClearsFrame s t f := by
  refine clearFrame_loop (hf ▸ frameOf_lt _) fun i u hi hregs hkept => ?_
  have hdir : ∀ j < 1024, words u.mem (frameOf u.cr3) j = words s.mem (frameOf s.cr3) j :=
    fun j hj => by rw [hregs.cr3_eq, hkept _ (frameOf_lt _) hfd.symm j hj]
  have hself : SelfMapped u := by
    constructor
    · rw [hdir 1023 (by decide)]
      exact h.present
    · rw [hdir 1023 (by decide), hregs.cr3_eq]
      exact h.frame_eq
  have hi32 : (BitVec.ofNat 32 i : Word).toNat = i := toNat_ofNat_of_lt (by omega)
  have hentry := hdir pdi.toNat (by omega)
  rw [hself.store_pte (by omega) (by rwa [hi32]) (by rwa [hentry]), hentry, hf, hi32]

theorem provideTable_present {k : Nat} (h : SelfMapped s) (hpdi : pdi.toNat < 1024)
    (hp : Present (words s.mem (frameOf s.cr3) pdi.toNat)) :
    provideTable k pdi s = some s := by
  have hbit : ¬ words s.mem (frameOf s.cr3) pdi.toNat &&& 1#32 = 0 := fun hc =>
    and_one_eq_zero_iff.mp hc hp
  simp only [provideTable, h.load_pde hpdi, Option.bind_eq_bind, Option.bind_some]
  rw [if_neg hbit]

theorem provideTable_exhausted {k : Nat} (h : SelfMapped s) (hpdi : pdi.toNat < 1024)
    (hp : ¬ Present (words s.mem (frameOf s.cr3) pdi.toNat)) (hget : s.getFrame k = none) :
    provideTable k pdi s = none := by
  have hbit : words s.mem (frameOf s.cr3) pdi.toNat &&& 1#32 = 0 := and_one_eq_zero_iff.mpr hp
  simp only [provideTable, h.load_pde hpdi, Option.bind_eq_bind, Option.bind_some, hget]
  rw [if_pos hbit, Option.bind_none]

theorem provideTable_absent {k : Nat} {f : Word} {u : Machine} (h : SelfMapped s)
    (hpdi : pdi.toNat < 1023) (hp : ¬ Present (words s.mem (frameOf s.cr3) pdi.toNat))
    (hget : s.getFrame k = some (f, u)) (hf : f.toNat < 2 ^ 20) (hfd : f.toNat ≠ frameOf s.cr3) :
    ∃ t, provideTable k pdi s = some t ∧ SameRegisters u t ∧
      AddsTable (words s.mem) (words t.mem) (frameOf s.cr3) pdi.toNat f.toNat (entryOf f) := by
  obtain ⟨p, p', hk, hone, rfl⟩ := getFrame_eq hget
  have hbit : words s.mem (frameOf s.cr3) pdi.toNat &&& 1#32 = 0 := and_one_eq_zero_iff.mpr hp
  let u : Machine := { s with pools := s.pools.set k p' }
  have hu : SelfMapped u := ⟨h.present, h.frame_eq⟩
  let v := setWord u (frameOf s.cr3) pdi.toNat (entryOf f)
  have hset : SetsWord (words s.mem) (words v.mem) (frameOf s.cr3) pdi.toNat (entryOf f) :=
    setsWord_setWord (s := u) (frameOf_lt _) (by omega)
  have hself : words v.mem (frameOf v.cr3) 1023 = words s.mem (frameOf s.cr3) 1023 := by
    rw [hset _ (frameOf_lt _) _ (by decide), if_neg fun hc => by omega]
    rfl
  have hentry : words v.mem (frameOf v.cr3) pdi.toNat = entryOf f := by
    rw [hset _ (frameOf_lt _) _ (by omega), if_pos ⟨rfl, rfl⟩]
  have hv : SelfMapped v := by
    constructor
    · rw [hself]
      exact h.present
    · rw [hself]
      exact h.frame_eq
  obtain ⟨t, ht, hregs, hwords⟩ := emptyTable_spec hv hpdi (by
    rw [hentry]
    exact present_entryOf hf) (by rw [hentry, frameOf_entryOf hf]) hfd
  refine ⟨t, ?_, ⟨hregs.cr3_eq, hregs.pools_eq⟩, fun g hg j hj => ?_⟩
  · simp only [provideTable, h.load_pde (show pdi.toNat < 1024 by omega), Option.bind_eq_bind,
      Option.bind_some, hget]
    rw [if_pos hbit, hu.store_pde (by omega), Option.bind_some]
    exact ht
  · rw [hwords g hg j hj, hset g hg j hj]
    by_cases hgf : g = f.toNat
    · rw [if_pos hgf, if_neg fun hc => hfd (hgf.symm.trans hc.1), if_pos hgf]
    · rw [if_neg hgf, if_neg hgf]

theorem providePage_present {k : Nat} (h : SelfMapped s) (hpdi : pdi.toNat < 1024)
    (hpti : pti.toNat < 1024) (hp : Present (words s.mem (frameOf s.cr3) pdi.toNat))
    (hpage : Present (words s.mem (frameOf (words s.mem (frameOf s.cr3) pdi.toNat)) pti.toNat)) :
    providePage k pdi pti s = some s := by
  have hbit := fun hc => and_one_eq_zero_iff.mp hc hpage
  simp only [providePage, h.load_pte hpdi hpti hp, Option.bind_eq_bind, Option.bind_some]
  rw [if_neg hbit]

theorem providePage_exhausted {k : Nat} (h : SelfMapped s) (hpdi : pdi.toNat < 1024)
    (hpti : pti.toNat < 1024) (hp : Present (words s.mem (frameOf s.cr3) pdi.toNat))
    (hpage : ¬ Present (words s.mem (frameOf (words s.mem (frameOf s.cr3) pdi.toNat)) pti.toNat))
    (hget : s.getFrame k = none) : providePage k pdi pti s = none := by
  have hbit := and_one_eq_zero_iff.mpr hpage
  simp only [providePage, h.load_pte hpdi hpti hp, Option.bind_eq_bind, Option.bind_some, hget]
  rw [if_pos hbit, Option.bind_none]

theorem providePage_absent {k : Nat} {f : Word} {u : Machine} (h : SelfMapped s)
    (hpdi : pdi.toNat < 1024) (hpti : pti.toNat < 1024)
    (hp : Present (words s.mem (frameOf s.cr3) pdi.toNat))
    (hpage : ¬ Present (words s.mem (frameOf (words s.mem (frameOf s.cr3) pdi.toNat)) pti.toNat))
    (hget : s.getFrame k = some (f, u)) :
    ∃ t, providePage k pdi pti s = some t ∧ SameRegisters u t ∧
      SetsWord (words s.mem) (words t.mem) (frameOf (words s.mem (frameOf s.cr3) pdi.toNat))
        pti.toNat (entryOf f) := by
  obtain ⟨p, p', hk, hone, rfl⟩ := getFrame_eq hget
  have hbit := and_one_eq_zero_iff.mpr hpage
  have hu : SelfMapped { s with pools := s.pools.set k p' } := ⟨h.present, h.frame_eq⟩
  let t := setWord { s with pools := s.pools.set k p' }
    (frameOf (words s.mem (frameOf s.cr3) pdi.toNat)) pti.toNat (entryOf f)
  refine ⟨t, ?_, ⟨rfl, rfl⟩, setsWord_setWord (frameOf_lt _) hpti⟩
  simp only [providePage, h.load_pte hpdi hpti hp, Option.bind_eq_bind, Option.bind_some, hget]
  rw [if_pos hbit]
  exact hu.store_pte hpdi hpti hp

private theorem clear_info_bits (e : Word) :
    ((e &&& ~~~(0x3FF#32)) / pageSize).toNat = frameOf e := by
  have hmask : ~~~(0x3FF#32) = 0xFFFFFC00#32 := by decide
  have hshift : (e &&& 0xFFFFFC00#32) >>> 12 = e >>> 12 &&& 0xFFFFF#32 := by
    rw [BitVec.ushiftRight_and_distrib]
    rfl
  have hdiv : (e &&& 0xFFFFFC00#32).toNat / 4096 = ((e &&& 0xFFFFFC00#32) >>> 12).toNat := by
    rw [BitVec.toNat_ushiftRight, Nat.shiftRight_eq_div_pow]
  have hlow : (e.toNat >>> 12) &&& (0xFFFFF#32).toNat = (e.toNat >>> 12) % 2 ^ 20 :=
    Nat.and_two_pow_sub_one_eq_mod _ 20
  have he := e.isLt
  rw [hmask, BitVec.toNat_udiv, pageSize_toNat, hdiv, hshift, BitVec.toNat_and,
    BitVec.toNat_ushiftRight, hlow, Nat.shiftRight_eq_div_pow, frameOf]
  omega

private theorem frame_of_entry (e : Word) :
    (e &&& ~~~(0x3FF#32)) / pageSize = BitVec.ofNat 32 (frameOf e) := by
  have hlt := frameOf_lt e
  apply BitVec.eq_of_toNat_eq
  rw [clear_info_bits, toNat_ofNat_of_lt (by omega)]

private theorem pageNo_indices {pageNo : Word} (hno : pageNo.toNat < 2 ^ 20) :
    (pageNo >>> 10).toNat = pageNo.toNat / 1024 ∧ (pageNo >>> 10).toNat < 1024 ∧
      (pageNo &&& ~~~(0xFFFFFC00#32)).toNat < 1024 := by
  have hdir : (pageNo >>> 10).toNat = pageNo.toNat / 1024 := by
    rw [BitVec.toNat_ushiftRight, Nat.shiftRight_eq_div_pow]
  have htab := toNat_and_mask10 pageNo
  exact ⟨hdir, by omega, by omega⟩

theorem freePage_absent {pageNo : Word} (h : SelfMapped s) (hno : pageNo.toNat < 2 ^ 20)
    (hpage : lookup (words s.mem) (frameOf s.cr3) pageNo.toNat = none) :
    freePage pageNo s = some s := by
  obtain ⟨hdir, hpdi, hpti⟩ := pageNo_indices hno
  have htab := toNat_and_mask10 pageNo
  simp only [freePage, h.load_pde hpdi, Option.bind_eq_bind, Option.bind_some]
  by_cases hp : Present (words s.mem (frameOf s.cr3) (pageNo >>> 10).toNat)
  · rw [lookup_of_present (by rwa [← hdir]), ← hdir, ← htab] at hpage
    split at hpage
    · cases hpage
    · have hbit := fun hc => and_one_eq_zero_iff.mp hc hp
      rw [if_neg hbit, h.load_pte hpdi hpti hp, Option.bind_some,
        if_pos (and_one_eq_zero_iff.mpr (by assumption))]
  · rw [if_pos (and_one_eq_zero_iff.mpr hp)]

/-- The frame of a present page goes back to its pool, and its entry is cleared. -/
theorem freePage_present {pageNo : Word} {f : Nat} {pools : List ContFramePool}
    (h : SelfMapped s) (hno : pageNo.toNat < 2 ^ 20)
    (hpage : lookup (words s.mem) (frameOf s.cr3) pageNo.toNat = some f)
    (hrelease : releaseFrames s.pools (BitVec.ofNat 32 f) = some pools) :
    Present (words s.mem (frameOf s.cr3) (pageNo.toNat / 1024)) ∧
      ∃ t, freePage pageNo s = some t ∧ SameRegisters { s with pools := pools } t ∧
        SetsWord (words s.mem) (words t.mem)
          (frameOf (words s.mem (frameOf s.cr3) (pageNo.toNat / 1024))) (pageNo.toNat % 1024)
          absentEntry := by
  obtain ⟨hdir, hpdi, hpti⟩ := pageNo_indices hno
  have htab := toNat_and_mask10 pageNo
  have hp : Present (words s.mem (frameOf s.cr3) (pageNo.toNat / 1024)) := by
    by_contra hp
    rw [lookup_of_absent hp] at hpage
    cases hpage
  refine ⟨hp, ?_⟩
  rw [lookup_of_present hp] at hpage
  rw [← hdir, ← htab] at hpage ⊢
  rw [← hdir] at hp
  split at hpage
  · rename_i hpte
    cases hpage
    have hbit := fun hc => and_one_eq_zero_iff.mp hc hp
    have hbit' := fun hc => and_one_eq_zero_iff.mp hc hpte
    have hu : SelfMapped { s with pools := pools } := ⟨h.present, h.frame_eq⟩
    let t := setWord { s with pools := pools }
      (frameOf (words s.mem (frameOf s.cr3) (pageNo >>> 10).toNat))
      (pageNo &&& ~~~(0xFFFFFC00#32)).toNat absentEntry
    refine ⟨t, ?_, ⟨rfl, rfl⟩, setsWord_setWord (frameOf_lt _) hpti⟩
    simp only [freePage, h.load_pde hpdi, Option.bind_eq_bind, Option.bind_some]
    rw [if_neg hbit, h.load_pte hpdi hpti hp, Option.bind_some, if_neg hbit', Option.bind_some,
      frame_of_entry, hrelease, Option.bind_some]
    exact hu.store_pte hpdi hpti hp
  · cases hpage

end

end P4

end TeachingKernel.Paging
