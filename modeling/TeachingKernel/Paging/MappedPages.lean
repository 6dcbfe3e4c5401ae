import TeachingKernel.Paging.Handlers

/-!
# What lies in mapped pages

A frame that a page above the first 4 MB is mapped to holds no table and is mapped to
by no other such page. Writing it therefore changes what one page shows, and no
translation; and the handler, which takes fresh frames, changes what no page shows.
-/

namespace TeachingKernel.Paging.P4

open FramePool ContFramePool Mmu

structure WritesFrame (s t : Machine) (f : Nat) : Prop where
  regs : SameRegisters s t
  words_eq : ∀ g < 2 ^ 20, g ≠ f → ∀ j < 1024, words t.mem g j = words s.mem g j

/-- Page `v`, if it is mapped, stays mapped to the same frame with the same words. -/
def KeepsPage (s t : Machine) (v : Nat) : Prop :=
  ∀ f, lookup (words s.mem) (frameOf s.cr3) v = some f →
    lookup (words t.mem) (frameOf t.cr3) v = some f ∧
      ∀ j < 1024, words t.mem f j = words s.mem f j

/-- The pages that are mapped to frames of their own. -/
def UserPage (v : Nat) : Prop := 1024 ≤ v ∧ v < 1024 * lastTable

section

variable {s t u : Machine} {p : ContFramePool} {k f g v : Nat}

theorem WritesFrame.refl (s : Machine) (f : Nat) : WritesFrame s s f :=
  ⟨⟨rfl, rfl⟩, fun _ _ _ _ _ => rfl⟩

theorem WritesFrame.trans (h : WritesFrame s t f) (h' : WritesFrame t u f) : WritesFrame s u f :=
  ⟨h.regs.trans h'.regs, fun g hg hne j hj =>
    (h'.words_eq g hg hne j hj).trans (h.words_eq g hg hne j hj)⟩

theorem writesFrame_setWord {j : Nat} {e : Word} (hf : f < 2 ^ 20) (hj : j < 1024) :
    WritesFrame s (setWord s f j e) f :=
  ⟨⟨rfl, rfl⟩, fun g hg hne i hi => by
    rw [setsWord_setWord hf hj g hg i hi, if_neg fun hc => hne hc.1]⟩

theorem KeepsPage.refl (s : Machine) (v : Nat) : KeepsPage s s v := fun _ h => ⟨h, fun _ _ => rfl⟩

theorem KeepsPage.trans (h : KeepsPage s t v) (h' : KeepsPage t u v) : KeepsPage s u v := by
  intro f hf
  obtain ⟨hf', hwords⟩ := h f hf
  obtain ⟨hf'', hwords'⟩ := h' f hf'
  exact ⟨hf'', fun j hj => (hwords' j hj).trans (hwords j hj)⟩

theorem Good.page_apart (h : Good k p s) (hv : UserPage v)
    (hf : lookup (words s.mem) (frameOf s.cr3) v = some f) :
    f ≠ frameOf s.cr3 ∧ ∀ i < lastTable, Present (words s.mem (frameOf s.cr3) i) →
      frameOf (words s.mem (frameOf s.cr3) i) ≠ f := by
  obtain ⟨q, hq⟩ := h.holds
  have huse : frames s (.page v) = some f := (frameUses_page hv.1 hv.2).trans hf
  constructor
  · rintro rfl
    cases hq.owns.inj .directory (.page v) _ rfl huse
  · rintro i hi hp rfl
    cases hq.owns.inj (.table i) (.page v) _ (frameUses_table hi hp) huse

theorem Good.page_inj (h : Good k p s) {v' : Nat} (hv : UserPage v) (hv' : UserPage v')
    (hf : lookup (words s.mem) (frameOf s.cr3) v = some f)
    (hf' : lookup (words s.mem) (frameOf s.cr3) v' = some f) : v = v' := by
  obtain ⟨q, hq⟩ := h.holds
  exact FrameUse.page.inj (hq.owns.inj _ _ f ((frameUses_page hv.1 hv.2).trans hf)
    ((frameUses_page hv'.1 hv'.2).trans hf'))

/-- Writing into the frame of a page keeps every translation and what the other pages
show. -/
theorem Good.writesPage (h : Good k p s) (hv : UserPage v)
    (hf : lookup (words s.mem) (frameOf s.cr3) v = some f) (hw : WritesFrame s t f) :
    Good k p t ∧ (∀ v', v' / 1024 < lastTable →
        lookup (words t.mem) (frameOf s.cr3) v' = lookup (words s.mem) (frameOf s.cr3) v') ∧
      ∀ v', UserPage v' → v' ≠ v → KeepsPage s t v' := by
  obtain ⟨hdir, htable⟩ := h.page_apart hv hf
  have hcr3 := hw.regs.cr3_eq
  have hwords : ∀ j < 1024, words t.mem (frameOf s.cr3) j = words s.mem (frameOf s.cr3) j :=
    hw.words_eq _ (frameOf_lt _) hdir.symm
  have hlookup : ∀ v', v' / 1024 < lastTable →
      lookup (words t.mem) (frameOf s.cr3) v' = lookup (words s.mem) (frameOf s.cr3) v' := by
    intro v' hv'
    refine lookup_congr (hwords _ (by unfold lastTable at hv'; omega)) fun hp => ?_
    exact hw.words_eq _ (frameOf_lt _) (htable _ hv' hp) _ (Nat.mod_lt _ (by decide))
  have hframes : ∀ o, frames t o = frames s o := by
    intro o
    rw [frames, frames, hcr3]
    refine frameUses_congr (fun j hj => hwords j ?_) (fun v' hv' => hlookup v' (by omega)) o
    unfold lastTable at hj
    omega
  refine ⟨⟨?_, fun v' hv' => ?_, ?_⟩, hlookup, fun v' hv' hne g hg => ⟨?_, ?_⟩⟩
  · constructor
    · rw [hcr3, hwords 1023 (by decide)]
      exact h.self.present
    · rw [hcr3, hwords 1023 (by decide)]
      exact h.self.frame_eq
  · rw [hcr3, hlookup v' (by unfold lastTable; omega), h.identity v' hv']
  · obtain ⟨q, hq⟩ := h.holds
    exact ⟨q, by rw [hw.regs.pools_eq, hq.listed], hq.extent_eq, hq.separated, hq.inaccessible,
      ⟨fun o o' g ho ho' => hq.owns.inj o o' g (hframes o ▸ ho) (hframes o' ▸ ho'),
        fun o g ho => hq.owns.held o g (hframes o ▸ ho)⟩,
      fun j r hj hr => hq.earlier j r hj (hw.regs.pools_eq ▸ hr)⟩
  · have hlt := hv'.2
    rw [hcr3, hlookup v' (by omega), hg]
  · refine hw.words_eq g (lookup_lt hg) ?_
    rintro rfl
    exact hne (h.page_inj hv' hv hg hf)

theorem Good.handleFault_keeps {checkAddress : Machine → Word → Bool} {a : Word}
    (h : Good k p s) (hrange : p.baseFrameNo.toNat + p.nframes.toNat ≤ 2 ^ 20)
    (ha : UserPage (pageOf a)) (hrun : P4.handleFault checkAddress k a s = some t)
    (hv : UserPage v) : KeepsPage s t v := by
  intro g hg
  obtain ⟨hgood, hcr3, -, hsame⟩ := h.handleFault hrange ha.1 ha.2 hrun
  have hlt := hv.2
  constructor
  · have hmapped : lookup (words s.mem) (frameOf s.cr3) v ≠ none := by
      rw [hg]
      exact Option.some_ne_none g
    rw [hcr3, hsame v (by omega) fun hc => hmapped hc.2, hg]
  · obtain ⟨u, pdi, pti, hpdi, hpti, hu, hgood', hcr3', hp, hsame', hrun⟩ :=
      h.handleFault_parts hrange ha.2 hrun
    have hapart := ha.2
    have htop : pdi.toNat < lastTable := by omega
    have hgu : lookup (words u.mem) (frameOf u.cr3) v = some g := by
      rw [hcr3', hsame' v (by omega) (fun hc => hc), hg]
    have hwords : ∀ j < 1024, words u.mem g j = words s.mem g j := by
      intro j hj
      rcases h.provideTable_cases hrange htop hu with ⟨-, rfl⟩ | ⟨f, -, htake, hadds⟩
      · rfl
      · rw [hadds g (lookup_lt hg) j hj, if_neg fun hc => (h.page_apart hv hg).1 hc.1, if_neg]
        rintro rfl
        exact htake.fresh (.page v) ((frameUses_page hv.1 hv.2).trans hg)
    intro j hj
    rw [← hwords j hj]
    rw [← hcr3'] at hp
    rcases hgood'.providePage_cases hrange htop (by omega) hp hrun with
      ⟨-, rfl⟩ | ⟨f, -, -, hset⟩
    · rfl
    · rw [hset g (lookup_lt hg) j hj, if_neg]
      exact fun hc => (hgood'.page_apart hv hgu).2 _ htop hp hc.1.symm

end

end TeachingKernel.Paging.P4
