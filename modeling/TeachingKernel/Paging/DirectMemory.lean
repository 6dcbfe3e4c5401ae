import TeachingKernel.Lib.FlatMemory
import TeachingKernel.Paging.Contents
import TeachingKernel.Paging.Demand
import TeachingKernel.Paging.DirectHistory

/-!
# Demand-paged memory of P3

Bytes are loaded and stored above the first 4 MB, and the handler provides their pages
one by one. The process pool lies behind the kernel pool, so no page shares a frame with
a table, and what is loaded is what a flat memory would answer.
-/

namespace TeachingKernel.Paging.P3

open FramePool ContFramePool Mmu Runs FlatMemory

def demand (kernel process : Nat) (va : Word) (s : Machine) : Option Machine :=
  if (s.load va).isSome then some s else handleFault kernel process s.cr3 va s

inductive MemoryStep (kernel process : Nat) : Machine → Access Word Byte → Machine → Prop
  | load {s a t b} (ha : 0x400000 ≤ a.toNat) (hrun : demand kernel process a s = some t)
      (hb : t.byteAt a = some b) : MemoryStep kernel process s (.load a b) t
  | store {s a t b pa} (ha : 0x400000 ≤ a.toNat) (hrun : demand kernel process a s = some t)
      (hpa : translate t.mem t.cr3 a = some pa) :
      MemoryStep kernel process s (.store a b) { t with mem := Function.update t.mem pa b }

structure ShowsKnown (kernel process : Nat) (pk pp : ContFramePool) (known : Word → Option Byte)
    (s : Machine) : Prop where
  good : Good kernel process pk pp s
  shows_byte : ∀ a b, known a = some b → s.byteAt a = some b
  above : ∀ a b, known a = some b → 0x400000 ≤ a.toNat

section

variable {s t u : Machine} {kernel process f v v' : Nat} {pk pp : ContFramePool}
  {known : Word → Option Byte} {a : Word} {b : Byte}

theorem Good.page_in_pool (h : Good kernel process pk pp s) (hlo : 1024 ≤ v) (hhi : v < 2 ^ 20)
    (hf : lookup (words s.mem) (frameOf s.cr3) v = some f) : pp.baseFrameNo.toNat ≤ f := by
  obtain ⟨q, hq⟩ := h.pages
  exact (hq.in_pool (x := .page v) ((frameUses_page hlo hhi).trans hf)).1

theorem Good.page_inj (h : Good kernel process pk pp s) (hlo : 1024 ≤ v) (hhi : v < 2 ^ 20)
    (hlo' : 1024 ≤ v') (hhi' : v' < 2 ^ 20)
    (hf : lookup (words s.mem) (frameOf s.cr3) v = some f)
    (hf' : lookup (words s.mem) (frameOf s.cr3) v' = some f) : v = v' := by
  obtain ⟨q, hq⟩ := h.pages
  exact FrameUse.page.inj (hq.owns.inj (.page v) (.page v') f ((frameUses_page hlo hhi).trans hf)
    ((frameUses_page hlo' hhi').trans hf'))

theorem Good.writesPage (h : Good kernel process pk pp s) (hplaced : Placed kernel process pk pp)
    (hhigh : 1024 ≤ pp.baseFrameNo.toNat) (hlo : 1024 ≤ v) (hhi : v < 2 ^ 20)
    (hf : lookup (words s.mem) (frameOf s.cr3) v = some f) (hw : P4.WritesFrame s t f) :
    Good kernel process pk pp t ∧
      (∀ v' < 2 ^ 20, lookup (words t.mem) (frameOf s.cr3) v' =
        lookup (words s.mem) (frameOf s.cr3) v') ∧
      ∀ v', 1024 ≤ v' → v' < 2 ^ 20 → v' ≠ v → P4.KeepsPage s t v' := by
  have hin := h.page_in_pool hlo hhi hf
  have hdir := h.directory_lt hplaced
  have hcr3 := hw.regs.cr3_eq
  have hwords : ∀ j < 1024, words t.mem (frameOf s.cr3) j = words s.mem (frameOf s.cr3) j :=
    hw.words_eq _ (frameOf_lt _) (by omega)
  have hlookup : ∀ v' < 2 ^ 20, lookup (words t.mem) (frameOf s.cr3) v' =
      lookup (words s.mem) (frameOf s.cr3) v' := by
    intro v' hv'
    refine lookup_congr (hwords _ (by omega)) fun hp => ?_
    have htable := h.table_lt hplaced (by omega) hp
    exact hw.words_eq _ (frameOf_lt _) (by omega) _ (Nat.mod_lt _ (by decide))
  have hframes : frames t = frames s := by
    funext o
    rw [frames, frames, hcr3]
    exact frameUses_congr hwords hlookup o
  obtain ⟨q, hq⟩ := h.tables
  obtain ⟨r, hr⟩ := h.pages
  refine ⟨⟨?_, fun v' hv' => ?_, ⟨q, ?_⟩, ⟨r, ?_⟩⟩, hlookup,
    fun v' hlo' hhi' hne g hg => ⟨?_, ?_⟩⟩
  · rw [hcr3]
    exact h.aligned
  · rw [hcr3, hlookup v' (by omega)]
    exact h.identity v' hv'
  · rw [hframes]
    exact hq.of_pools hw.regs.pools_eq
  · rw [hframes]
    exact hr.of_pools hw.regs.pools_eq
  · rw [hcr3, hlookup v' hhi', hg]
  · refine hw.words_eq g (lookup_lt hg) ?_
    rintro rfl
    exact hne (h.page_inj hlo' hhi' hlo hhi hg hf)

theorem Good.handleFault_keeps (h : Good kernel process pk pp s)
    (hplaced : Placed kernel process pk pp) (hhigh : 1024 ≤ pp.baseFrameNo.toNat)
    (hrun : P3.handleFault kernel process s.cr3 a s = some t) (hlo : 1024 ≤ v)
    (hhi : v < 2 ^ 20) : P4.KeepsPage s t v := by
  intro g hg
  obtain ⟨hgood, hcr3, -, hsame⟩ := h.handleFault hplaced hrun
  have hin := h.page_in_pool hlo hhi hg
  have hlow := hplaced.kernel_low
  have hpage := pageOf_lt a
  have hpdi : pageOf a / 1024 < 1024 := by omega
  constructor
  · rw [hcr3, hsame v hhi, hg]
    rintro ⟨-, hnone⟩
    cases hnone.symm.trans hg
  · obtain ⟨u, pti, hpti, hu, hgood', hcr3', hp, hsame', hrun⟩ := h.handleFault_parts hplaced hrun
    have hgu : lookup (words u.mem) (frameOf u.cr3) v = some g := by
      rw [hcr3', hsame' v hhi fun hc => hc, hg]
    have hdir := h.directory_lt hplaced
    -- the tables lie in the first 4 MB, the frame of the page does not
    have hwords : ∀ j < 1024, words u.mem g j = words s.mem g j := by
      intro j hj
      rcases h.provideTable_cases hplaced hpdi hu with ⟨-, rfl⟩ | ⟨f, -, htake, hadds⟩
      · rfl
      · have hlt := htake.lt
        rw [hadds g (lookup_lt hg) j hj, if_neg (by omega), if_neg (by omega)]
    intro j hj
    rw [← hwords j hj]
    rw [← hcr3'] at hp
    have htable := hgood'.table_lt hplaced hpdi hp
    rcases hgood'.providePage_cases hplaced hpdi (by omega) hp hrun with
      ⟨-, rfl⟩ | ⟨f, -, -, hset⟩
    · rfl
    · rw [hset g (lookup_lt hg) j hj, if_neg (by omega)]

theorem Good.demand (h : Good kernel process pk pp s) (hplaced : Placed kernel process pk pp)
    (hhigh : 1024 ≤ pp.baseFrameNo.toNat) (hrun : P3.demand kernel process a s = some t) :
    Good kernel process pk pp t ∧ (translate t.mem t.cr3 a).isSome ∧
      ∀ v, 1024 ≤ v → v < 2 ^ 20 → P4.KeepsPage s t v := by
  rw [P3.demand] at hrun
  split at hrun
  · rename_i hmapped
    cases hrun
    rw [Machine.load, Option.isSome_map] at hmapped
    exact ⟨h, hmapped, fun v _ _ => P4.KeepsPage.refl s v⟩
  · obtain ⟨hgood, hprovides⟩ := h.step hplaced hrun
    exact ⟨hgood, hprovides.present, fun v hlo hhi =>
      h.handleFault_keeps hplaced hhigh hrun hlo hhi⟩

/-- While both pools can hand out a frame, an access brings its page in. -/
theorem Good.demand_returns (h : Good kernel process pk pp s)
    (hplaced : Placed kernel process pk pp) (hkernel : (s.getFrame kernel).isSome)
    (hprocess : (s.getFrame process).isSome) : ∃ t, P3.demand kernel process a s = some t := by
  rw [P3.demand]
  split
  · exact ⟨s, rfl⟩
  · exact h.handleFault_completes hplaced hkernel hprocess

theorem demand_of_byteAt (hb : s.byteAt a = some b) : P3.demand kernel process a s = some s := by
  obtain ⟨pa, hpa, -⟩ := Option.map_eq_some_iff.mp hb
  have hmapped : (s.load a).isSome := by
    rw [Machine.load, hpa]
    rfl
  exact if_pos hmapped

theorem page_bounds (ha : 0x400000 ≤ a.toNat) : 1024 ≤ pageOf a ∧ pageOf a < 2 ^ 20 := by
  refine ⟨?_, pageOf_lt a⟩
  unfold pageOf
  omega

/-! ## Accesses -/

theorem ShowsKnown.demand (h : ShowsKnown kernel process pk pp known s)
    (hplaced : Placed kernel process pk pp) (hhigh : 1024 ≤ pp.baseFrameNo.toNat)
    (hrun : P3.demand kernel process a s = some t) : ShowsKnown kernel process pk pp known t := by
  obtain ⟨hgood, -, hkeep⟩ := h.good.demand hplaced hhigh hrun
  refine ⟨hgood, fun x c hc => ?_, h.above⟩
  obtain ⟨hlo, hhi⟩ := page_bounds (h.above x c hc)
  exact (hkeep _ hlo hhi).byteAt (h.shows_byte x c hc)

theorem ShowsKnown.learn (h : ShowsKnown kernel process pk pp known s) (ha : 0x400000 ≤ a.toNat)
    (hgood : Good kernel process pk pp t) (hb : t.byteAt a = some b)
    (hother : ∀ x c, x ≠ a → 0x400000 ≤ x.toNat → s.byteAt x = some c → t.byteAt x = some c) :
    ShowsKnown kernel process pk pp (Function.update known a (some b)) t := by
  refine ⟨hgood, fun x c hc => ?_, fun x c hc => ?_⟩
  · rcases update_eq_some hc with ⟨rfl, rfl⟩ | ⟨hne, hc⟩
    · exact hb
    · exact hother x c hne (h.above x c hc) (h.shows_byte x c hc)
  · rcases update_eq_some hc with ⟨rfl, -⟩ | ⟨-, hc⟩
    · exact ha
    · exact h.above x c hc

theorem Good.translate_inj {x pa : Word} (h : Good kernel process pk pp s)
    (ha : 0x400000 ≤ a.toNat) (hx : 0x400000 ≤ x.toNat) (hpa : translate s.mem s.cr3 a = some pa)
    (hpx : translate s.mem s.cr3 x = some pa) : a = x := by
  obtain ⟨hlo, hhi⟩ := page_bounds ha
  obtain ⟨hlo', hhi'⟩ := page_bounds hx
  have hpage := h.page_inj hlo hhi hlo' hhi' (lookup_of_translate hpa) (lookup_of_translate hpx)
  exact eq_of_translate hpage hpa hpx

theorem Good.byteAt_update {pa : Word} (h : Good kernel process pk pp s)
    (hplaced : Placed kernel process pk pp) (hhigh : 1024 ≤ pp.baseFrameNo.toNat)
    (ha : 0x400000 ≤ a.toNat) (hpa : translate s.mem s.cr3 a = some pa) (b : Byte) :
    Good kernel process pk pp { s with mem := Function.update s.mem pa b } ∧
      Machine.byteAt { s with mem := Function.update s.mem pa b } a = some b ∧
      ∀ x c, x ≠ a → 0x400000 ≤ x.toNat → s.byteAt x = some c →
        Machine.byteAt { s with mem := Function.update s.mem pa b } x = some c := by
  obtain ⟨hlo, hhi⟩ := page_bounds ha
  obtain ⟨hgood, hlookup, -⟩ := h.writesPage hplaced hhigh hlo hhi (lookup_of_translate hpa)
    (P4.writesFrame_update s pa b)
  have hsame : ∀ x, translate (Function.update s.mem pa b) s.cr3 x = translate s.mem s.cr3 x := by
    intro x
    rw [Mmu.translate, Mmu.translate]
    exact congrArg _ (hlookup _ (pageOf_lt x))
  refine ⟨hgood, ?_, fun x c hne hx hc => ?_⟩
  · rw [Machine.byteAt, hsame a, hpa, Option.map_some]
    exact congrArg some (Function.update_self ..)
  · obtain ⟨px, hpx, rfl⟩ := Option.map_eq_some_iff.mp hc
    have hapart : px ≠ pa := by
      rintro rfl
      exact hne (h.translate_inj hx ha hpx hpa)
    rw [Machine.byteAt, hsame x, hpx, Option.map_some]
    exact congrArg some (Function.update_of_ne hapart ..)

theorem Good.memoryStep {e : Access Word Byte} (h : Good kernel process pk pp s)
    (hplaced : Placed kernel process pk pp) (hhigh : 1024 ≤ pp.baseFrameNo.toNat)
    (hstep : MemoryStep kernel process s e t) : Good kernel process pk pp t := by
  cases hstep with
  | load ha hrun hb => exact (h.demand hplaced hhigh hrun).1
  | store ha hrun hpa =>
      exact ((h.demand hplaced hhigh hrun).1.byteAt_update hplaced hhigh ha hpa _).1

theorem ShowsKnown.step {e : Access Word Byte} (h : ShowsKnown kernel process pk pp known s)
    (hplaced : Placed kernel process pk pp) (hhigh : 1024 ≤ pp.baseFrameNo.toNat)
    (hstep : MemoryStep kernel process s e t) :
    Settles (ShowsKnown kernel process pk pp) known t (some e) := by
  cases hstep with
  | @load a t b ha hrun hb =>
      have ht := h.demand hplaced hhigh hrun
      exact ⟨fun c hc => Option.some.inj ((ht.shows_byte a c hc).symm.trans hb),
        ht.learn ha ht.good hb fun _ _ _ _ hc => hc⟩
  | @store a u b pa ha hrun hpa =>
      have hu := h.demand hplaced hhigh hrun
      obtain ⟨hgood, hself, hother⟩ := hu.good.byteAt_update hplaced hhigh ha hpa b
      exact hu.learn ha hgood hself hother

/-- From boot on, in whatever order addresses above the first 4 MB are loaded and stored
and their pages provided, the bytes loaded are those of a flat memory. -/
theorem memory_is_flat {s₀ s₁ : Machine} {pageDirectory : Word}
    {run : List (Access Word Byte × Machine)} (hplaced : Placed kernel process pk pp)
    (hhigh : 1024 ≤ pp.baseFrameNo.toNat) (hk : s₀.pools[kernel]? = some pk)
    (hp : s₀.pools[process]? = some pp) (hboot : construct kernel s₀ = some (pageDirectory, s₁))
    (hrun : IsRun (MemoryStep kernel process) (load s₁ pageDirectory) run) :
    (∃ m : Word → Byte, Answers m (run.map Prod.fst)) ∧
      EveryState (fun s => BitmapSafe kernel (frames s) s ∧ BitmapSafe process (frames s) s)
        (load s₁ pageDirectory) run := by
  have hstart : ShowsKnown kernel process pk pp (fun _ => none) (load s₁ pageDirectory) :=
    ⟨Good.boot hplaced hk hp hboot, fun _ _ h => (by cases h), fun _ _ h => by cases h⟩
  obtain ⟨m, -, hm⟩ :=
    exists_answers (fun _ _ _ _ hs hstep => hs.step hplaced hhigh hstep) hstart hrun
  rw [List.filterMap_some] at hm
  refine ⟨⟨m, hm⟩, (everyState_of_step (fun _ _ _ hs hstep => ?_) hstart.good hrun).imp
    fun s hs => hs.bitmapSafe hplaced⟩
  exact hs.memoryStep hplaced hhigh hstep

end

theorem memory_is_flat_sampleBoot : ∃ k f pk q pp pageDirectory s₁ run,
    ContFramePool.construct (fun _ => 0) 512 64 0 0 = some k ∧ k.getFrames 1 = some (f, pk) ∧
      ContFramePool.construct (fun _ => 0) 1024 64 f 1 = some q ∧
      q.markInaccessible 1040 8 = some pp ∧
      construct 0 ⟨fun _ => 0, 0, [pk, pp]⟩ = some (pageDirectory, s₁) ∧
      run.map Prod.fst = [.store 0x12345678 7, .load 0x12345678 7] ∧
      IsRun (MemoryStep 0 1) (load s₁ pageDirectory) run ∧
      ∃ m : Word → Byte, Answers m (run.map Prod.fst) := by
  obtain ⟨k, f, pk, q, pp, pageDirectory, s₁, hnew, hk, hq, hp, hboot, hplaced, hbase, hgood, hget,
    hget'⟩ := sampleBoot_good
  have hhigh : 1024 ≤ pp.baseFrameNo.toNat := by
    rw [hbase]
    decide
  obtain ⟨t, ht⟩ : ∃ t, P3.demand 0 1 0x12345678 (load s₁ pageDirectory) = some t :=
    hgood.demand_returns hplaced hget hget'
  obtain ⟨hgood', hmapped, -⟩ := hgood.demand hplaced hhigh ht
  obtain ⟨pa, hpa⟩ := Option.isSome_iff_exists.mp hmapped
  have ha : 0x400000 ≤ (0x12345678 : Word).toNat := by decide
  obtain ⟨-, hbyte, -⟩ := hgood'.byteAt_update hplaced hhigh ha hpa 7
  have hrun : IsRun (MemoryStep 0 1) (load s₁ pageDirectory)
      [(.store 0x12345678 7, { t with mem := Function.update t.mem pa 7 }),
        (.load 0x12345678 7, { t with mem := Function.update t.mem pa 7 })] :=
    ⟨.store ha ht hpa, .load ha (demand_of_byteAt hbyte) hbyte, trivial⟩
  exact ⟨k, f, pk, q, pp, pageDirectory, s₁, _, hnew, hk, hq, hp, hboot, rfl, hrun,
    (memory_is_flat hplaced hhigh rfl rfl hboot hrun).1⟩

end TeachingKernel.Paging.P3
