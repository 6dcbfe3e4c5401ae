import TeachingKernel.Paging.Boot

/-!
# Tables in directly addressed frames

In P3 the directory and the tables lie in the first 4 MB, which are mapped to
themselves. The handler writes them at their physical addresses, and none of its
writes touches the first table, so they stay addressable.
-/

namespace TeachingKernel.Paging.P3

open ForLoop FramePool ContFramePool Mmu

def Identity (s : Machine) : Prop :=
  ∀ v < 1024, lookup (words s.mem) (frameOf s.cr3) v = some v

section

variable {s t u : Machine} {d f i : Nat} {v : Word}

def firstTable (s : Machine) : Nat := frameOf (words s.mem (frameOf s.cr3) 0)

theorem Identity.present (h : Identity s) : Present (words s.mem (frameOf s.cr3) 0) := by
  by_contra hp
  have hzero := h 0 (by decide)
  rw [lookup_of_absent hp] at hzero
  cases hzero

theorem Identity.of_agree (h : Identity s) (hcr3 : t.cr3 = s.cr3)
    (hdir : words t.mem (frameOf s.cr3) 0 = words s.mem (frameOf s.cr3) 0)
    (htable : ∀ j < 1024, words t.mem (firstTable s) j = words s.mem (firstTable s) j) :
    Identity t := by
  intro v hv
  have hdiv : v / 1024 = 0 := by omega
  rw [← h v hv, hcr3]
  refine lookup_congr (by rw [hdiv, hdir]) fun _ => ?_
  rw [hdiv]
  exact htable _ (Nat.mod_lt v (by decide))

theorem Identity.translate (h : Identity s) (hf : f < 1024) (hi : i < 1024) :
    translate s.mem s.cr3 (slot f i) = some (slot f i) := by
  have hpage : pageOf (slot f i) = f := by
    rw [pageOf, slot_toNat (by omega) hi]
    omega
  exact translate_self (by rw [hpage]; exact h f hf)

theorem Identity.load (h : Identity s) (hf : f < 1024) (hi : i < 1024) :
    s.load (slot f i) = some (words s.mem f i) := by
  rw [Machine.load, h.translate hf hi]
  rfl

theorem Identity.store (h : Identity s) (hf : f < 1024) (hi : i < 1024) :
    s.store (slot f i) v = some (Paging.setWord s f i v) := by
  rw [Machine.store, h.translate hf hi]
  rfl

theorem Identity.setWord (h : Identity s) (hf : f < 2 ^ 20) (hi : i < 1024)
    (htable : f ≠ firstTable s) (hdir : f ≠ frameOf s.cr3 ∨ i ≠ 0) :
    Identity (Paging.setWord s f i v) := by
  have hset := setsWord_setWord (s := s) (v := v) hf hi
  refine h.of_agree rfl ?_ fun j hj => ?_
  · rw [hset _ (frameOf_lt _) 0 (by decide), if_neg (by omega)]
  · rw [hset (firstTable s) (frameOf_lt _) j hj, if_neg fun hc => htable hc.1.symm]

theorem firstTable_setWord (hf : f < 2 ^ 20) (hi : i < 1024) (hdir : f ≠ frameOf s.cr3 ∨ i ≠ 0) :
    firstTable (Paging.setWord s f i v) = firstTable s := by
  have hset := setsWord_setWord (s := s) (v := v) hf hi
  show frameOf (words (Paging.setWord s f i v).mem (frameOf s.cr3) 0) = _
  rw [hset _ (frameOf_lt _) 0 (by decide), if_neg (by omega)]
  rfl

private theorem emptyTable_spec {f : Word} (h : Identity s) (hf : f.toNat < 1024)
    (htable : f.toNat ≠ firstTable s) (hdir : f.toNat ≠ frameOf s.cr3) :
    ∃ t, forRange? 0 entriesPerPage
        (fun i s => s.store (4096 * f + 4 * BitVec.ofNat 32 i) 2) s = some t ∧
      SameRegisters s t ∧ ClearsFrame s t f.toNat := by
  refine clearFrame_loop (by omega) fun i u hi hregs hkept => ?_
  have hident : Identity u := h.of_agree hregs.cr3_eq
    (hkept _ (frameOf_lt _) hdir.symm 0 (by decide))
    fun j hj => hkept _ (frameOf_lt _) htable.symm j hj
  rw [frame_addr (by omega) hi]
  exact hident.store hf hi

theorem provideTable_present {k pdi : Nat} (h : Identity s) (hd : frameOf s.cr3 < 1024)
    (hpdi : pdi < 1024) (hp : Present (words s.mem (frameOf s.cr3) pdi)) :
    provideTable k (slot (frameOf s.cr3) pdi) s = some s := by
  have hbit := fun hc => and_one_eq_zero_iff.mp hc hp
  simp only [provideTable, h.load hd hpdi, Option.bind_eq_bind, Option.bind_some]
  rw [if_neg hbit]

theorem provideTable_exhausted {k pdi : Nat} (h : Identity s) (hd : frameOf s.cr3 < 1024)
    (hpdi : pdi < 1024) (hp : ¬ Present (words s.mem (frameOf s.cr3) pdi))
    (hget : s.getFrame k = none) : provideTable k (slot (frameOf s.cr3) pdi) s = none := by
  have hbit := and_one_eq_zero_iff.mpr hp
  simp only [provideTable, h.load hd hpdi, Option.bind_eq_bind, Option.bind_some, hget]
  rw [if_pos hbit, Option.bind_none]

private theorem setEntry_spec {i : Nat} (h : Identity s) (hd : frameOf s.cr3 = d)
    (hlt : d < 1024) (hfirst : firstTable s ≠ d) (hi : i < 1024) (hi0 : i ≠ 0) :
    ∃ t, s.store (slot d i) v = some t ∧ t.load (slot d i) = some v ∧ SameRegisters s t ∧
      Identity t ∧ firstTable t = firstTable s ∧ SetsWord (words s.mem) (words t.mem) d i v := by
  have hd20 : d < 2 ^ 20 := by omega
  have hset : SetsWord (words s.mem) (words (Paging.setWord s d i v).mem) d i v :=
    setsWord_setWord hd20 hi
  have ht : Identity (Paging.setWord s d i v) := h.setWord hd20 hi hfirst.symm (.inr hi0)
  have hload := ht.load hlt hi
  rw [hset d hd20 i hi, if_pos ⟨rfl, rfl⟩] at hload
  exact ⟨_, h.store hlt hi, hload, ⟨rfl, rfl⟩, ht, firstTable_setWord hd20 hi (.inr hi0), hset⟩

/-- The new entry of the directory, which the handler sets in two steps. -/
private theorem setTwice_spec {i : Nat} (h : Identity s) (hd : frameOf s.cr3 = d)
    (hlt : d < 1024) (hfirst : firstTable s ≠ d) (hi : i < 1024) (hi0 : i ≠ 0) :
    ∃ t u, s.store (slot d i) v = some t ∧ t.load (slot d i) = some v ∧
      t.store (slot d i) (v ||| 3) = some u ∧ SameRegisters s u ∧ Identity u ∧
      firstTable u = firstTable s ∧ SetsWord (words s.mem) (words u.mem) d i (v ||| 3) := by
  obtain ⟨t, hstore, hload, hregs, ht, hsame, hset⟩ := setEntry_spec (v := v) h hd hlt hfirst hi hi0
  obtain ⟨u, hstore', -, hregs', hu, hsame', hset'⟩ := setEntry_spec (v := v ||| 3) ht
    (by rw [hregs.cr3_eq, hd]) hlt (by rwa [hsame]) hi hi0
  refine ⟨t, u, hstore, hload, hstore', hregs.trans hregs', hu, hsame'.trans hsame,
    fun g hg j hj => ?_⟩
  rw [hset' g hg j hj, hset g hg j hj]
  by_cases hentry : g = d ∧ j = i
  · rw [if_pos hentry, if_pos hentry]
  · rw [if_neg hentry, if_neg hentry, if_neg hentry]

theorem provideTable_absent {k pdi : Nat} {f : Word} (h : Identity s) (hd : frameOf s.cr3 < 1024)
    (hfirst : firstTable s ≠ frameOf s.cr3) (hpdi : pdi < 1024)
    (hp : ¬ Present (words s.mem (frameOf s.cr3) pdi)) (hget : s.getFrame k = some (f, u))
    (hf : f.toNat < 1024) (htable : f.toNat ≠ firstTable s) (hfd : f.toNat ≠ frameOf s.cr3) :
    ∃ t, provideTable k (slot (frameOf s.cr3) pdi) s = some t ∧ SameRegisters u t ∧
      AddsTable (words s.mem) (words t.mem) (frameOf s.cr3) pdi f.toNat (entryOf f) := by
  have hbit := and_one_eq_zero_iff.mpr hp
  have hpdi0 : pdi ≠ 0 := by
    rintro rfl
    exact hp h.present
  obtain ⟨hu, hmem, hcr3⟩ : Identity u ∧ u.mem = s.mem ∧ u.cr3 = s.cr3 := by
    obtain ⟨p, p', -, -, rfl⟩ := getFrame_eq hget
    exact ⟨h, rfl, rfl⟩
  have hfirst' : firstTable u = firstTable s := by rw [firstTable, firstTable, hmem, hcr3]
  obtain ⟨u₁, u₂, hstore, hread, hstore', hregs, hu₂, hfirst₂, hset⟩ :=
    setTwice_spec (v := 4096 * f) hu (congrArg frameOf hcr3) hd (by rwa [hfirst']) hpdi hpdi0
  rw [hmem] at hset
  obtain ⟨t, ht, hregs', hclear⟩ := emptyTable_spec hu₂ hf (by rwa [hfirst₂, hfirst'])
    (by rwa [hregs.cr3_eq, hcr3])
  refine ⟨t, ?_, hregs.trans hregs', fun g hg j hj => ?_⟩
  · simp only [provideTable, h.load hd hpdi, Option.bind_eq_bind, Option.bind_some, hget]
    rw [if_pos hbit, hstore, Option.bind_some, hread, Option.bind_some, hstore', Option.bind_some]
    exact ht
  · rw [hclear g hg j hj, hset g hg j hj]
    by_cases hgf : g = f.toNat
    · rw [if_pos hgf, if_neg fun hc => hfd (hgf.symm.trans hc.1), if_pos hgf]
    · rw [if_neg hgf, if_neg hgf]
      rfl

/-- The table that an entry points to, as the handler computes its address. -/
theorem table_addr {pti : Word} {e : Word} (hpti : pti.toNat < 1024) :
    (e &&& ~~~(0xFFF#32)) + 4 * pti = slot (frameOf e) pti.toNat := by
  have hlt := frameOf_lt e
  have hframe : (BitVec.ofNat 32 (frameOf e) : Word).toNat = frameOf e :=
    toNat_ofNat_of_lt (by omega)
  have haddr := frame_addr_index (f := BitVec.ofNat 32 (frameOf e)) (by omega) hpti
  rw [hframe] at haddr
  rw [and_frame_mask]
  exact haddr

section

variable {k pdi : Nat} {pti f : Word}

theorem providePage_present (h : Identity s) (hd : frameOf s.cr3 < 1024) (hpdi : pdi < 1024)
    (hpti : pti.toNat < 1024) (ht : frameOf (words s.mem (frameOf s.cr3) pdi) < 1024)
    (hpage : Present (words s.mem (frameOf (words s.mem (frameOf s.cr3) pdi)) pti.toNat)) :
    providePage k (slot (frameOf s.cr3) pdi) pti s = some s := by
  have hbit := fun hc => and_one_eq_zero_iff.mp hc hpage
  simp only [providePage, h.load hd hpdi, Option.bind_eq_bind, Option.bind_some]
  rw [table_addr hpti, h.load ht hpti, Option.bind_some, if_neg hbit]

theorem providePage_exhausted (h : Identity s) (hd : frameOf s.cr3 < 1024) (hpdi : pdi < 1024)
    (hpti : pti.toNat < 1024) (ht : frameOf (words s.mem (frameOf s.cr3) pdi) < 1024)
    (hpage : ¬ Present (words s.mem (frameOf (words s.mem (frameOf s.cr3) pdi)) pti.toNat))
    (hget : s.getFrame k = none) : providePage k (slot (frameOf s.cr3) pdi) pti s = none := by
  have hbit := and_one_eq_zero_iff.mpr hpage
  simp only [providePage, h.load hd hpdi, Option.bind_eq_bind, Option.bind_some]
  rw [table_addr hpti, h.load ht hpti, Option.bind_some, if_pos hbit, hget, Option.bind_none]

theorem providePage_absent (h : Identity s) (hd : frameOf s.cr3 < 1024) (hpdi : pdi < 1024)
    (hpti : pti.toNat < 1024) (ht : frameOf (words s.mem (frameOf s.cr3) pdi) < 1024)
    (hpage : ¬ Present (words s.mem (frameOf (words s.mem (frameOf s.cr3) pdi)) pti.toNat))
    (hget : s.getFrame k = some (f, u)) :
    ∃ t, providePage k (slot (frameOf s.cr3) pdi) pti s = some t ∧ SameRegisters u t ∧
      SetsWord (words s.mem) (words t.mem) (frameOf (words s.mem (frameOf s.cr3) pdi)) pti.toNat
        (entryOf f) := by
  obtain ⟨p, p', hk, hone, rfl⟩ := getFrame_eq hget
  have hbit := and_one_eq_zero_iff.mpr hpage
  have hu : Identity { s with pools := s.pools.set k p' } := h
  let t := setWord { s with pools := s.pools.set k p' }
    (frameOf (words s.mem (frameOf s.cr3) pdi)) pti.toNat (entryOf f)
  refine ⟨t, ?_, ⟨rfl, rfl⟩, setsWord_setWord (frameOf_lt _) hpti⟩
  simp only [providePage, h.load hd hpdi, Option.bind_eq_bind, Option.bind_some]
  rw [table_addr hpti, h.load ht hpti, Option.bind_some, if_pos hbit, hget, Option.bind_some]
  exact hu.store ht hpti

end

end

end TeachingKernel.Paging.P3
