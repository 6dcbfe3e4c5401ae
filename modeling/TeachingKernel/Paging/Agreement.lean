import TeachingKernel.Lib.PageSets
import TeachingKernel.Paging.DirectHistory
import TeachingKernel.Paging.History

/-!
# P3 and P4 handle faults alike

P3 edits its tables at their physical addresses, P4 through the last entry of the
directory that it is editing. Each handler makes its tables realize the demanded
page, whatever it takes to get there, so after the same faults both machines show
the same pages and the same tables.
-/

namespace TeachingKernel.Paging

open FramePool ContFramePool Mmu Runs

/-- Entry `i` of the directory. -/
def dirEntry (s : Machine) (i : Nat) : Word := words s.mem (frameOf s.cr3) i

def pageEntry (s : Machine) (v : Nat) : Word := tableEntry (words s.mem) (frameOf s.cr3) v

def Presents (s : Machine) (m : PageSets) : Prop :=
  Realizes P4.lastTable (words s.mem) (frameOf s.cr3) m

/-! ## Tables in directly addressed frames -/

namespace P3

variable {s t : Machine} {kernel process pdi : Nat} {pk pp : ContFramePool}
  {pti pageDirectory : Word} {m : PageSets}

theorem Good.provideTable_presents (h : Good kernel process pk pp s)
    (hplaced : Placed kernel process pk pp) (h1 : 1 ≤ pdi) (hpdi : pdi < P4.lastTable)
    (hm : Presents s m) (hrun : P3.provideTable kernel (slot (frameOf s.cr3) pdi) s = some t) :
    Presents t { m with tables := insert pdi m.tables } := by
  have htop : pdi < 1024 := by unfold P4.lastTable at hpdi; omega
  have hlow := hplaced.kernel_low
  rcases h.provideTable_cases hplaced htop hrun with ⟨hp, rfl⟩ | ⟨f, hp, htake, hadds⟩
  · rwa [Set.insert_eq_of_mem ((hm.tables_iff pdi hpdi).mp hp)]
  · have hlt := htake.lt
    rw [Presents, htake.cr3_eq]
    exact hm.addsTable (h.tree.mono (by decide)) (by decide) (frameOf_lt _)
      ((unused_of_structural htake.fresh).mono (by decide)) (by omega) h1 hpdi h.identity.present
      hp hadds

theorem Good.providePage_presents (h : Good kernel process pk pp s)
    (hplaced : Placed kernel process pk pp) (h1 : 1 ≤ pdi) (hpdi : pdi < P4.lastTable)
    (hpti : pti.toNat < 1024) (hp : Present (words s.mem (frameOf s.cr3) pdi)) (hm : Presents s m)
    (hrun : P3.providePage process (slot (frameOf s.cr3) pdi) pti s = some t) :
    Presents t { m with pages := insert (1024 * pdi + pti.toNat) m.pages } := by
  have htop : pdi < 1024 := by unfold P4.lastTable at hpdi; omega
  have hrange := hplaced.process_range
  rcases h.providePage_cases hplaced htop hpti hp hrun with ⟨hpage, rfl⟩ | ⟨f, -, htake, hset⟩
  · have hmapped := hm.mem_pages hpdi hpti hp hpage
    rwa [Set.insert_eq_of_mem hmapped]
  · have hlt := htake.lt
    rw [Presents, htake.cr3_eq]
    exact hm.setsWord (h.tree.mono (by decide)) (by decide) (frameOf_lt _) (by omega) h1 hpdi
      h.identity.present hp hpti hset

theorem Good.handleFault_presents {a : Word} (h : Good kernel process pk pp s)
    (hplaced : Placed kernel process pk pp) (hlo : 1024 ≤ pageOf a)
    (hhi : pageOf a < 1024 * P4.lastTable) (hm : Presents s m)
    (hrun : P3.handleFault kernel process s.cr3 a s = some t) :
    Presents t (m.demand (pageOf a)) := by
  obtain ⟨u, pti, hpti, hu, hgood, hcr3, hp, -, hrun⟩ := h.handleFault_parts hplaced hrun
  have hpageNo : 1024 * (pageOf a / 1024) + pti.toNat = pageOf a := by omega
  have htable := h.provideTable_presents hplaced (by omega) (by omega) hm hu
  rw [← hcr3] at hp
  have hpage := hgood.providePage_presents hplaced (by omega) (by omega) (by omega) hp htable hrun
  rwa [hpageNo] at hpage

theorem presents_boot (hplaced : Placed kernel process pk pp) (hk : s.pools[kernel]? = some pk)
    (hrun : construct kernel s = some (pageDirectory, t)) :
    Presents (load t pageDirectory) PageSets.first := by
  obtain ⟨d, f, p₁, p₂, hd, hf, hne, -, -, -, rfl, ht⟩ := construct_frames hplaced hk hrun
  obtain ⟨-, hwords⟩ := writeTables_spec (d := d) (f := f)
    (s := { s with pools := (s.pools.set kernel p₁).set kernel p₂ }) hd hf
  rw [← ht] at hwords
  show Realizes P4.lastTable (words t.mem) (frameOf (4096 * d)) _
  rw [frameOf_frame hd]
  refine realizes_first (f := f) ?_ hf rfl (fun i h1 hi => ?_) fun j hj => ?_
  · rw [hwords _ hd 0 (by decide), if_neg (by omega), if_pos ⟨rfl, rfl⟩]
  · have hi' : i < 1024 := by unfold P4.lastTable at hi; omega
    rw [hwords _ hd i hi', if_pos ⟨rfl, h1, hi'⟩]
  · rw [hwords _ hf j hj, if_neg fun hc => hne hc.1, if_neg fun hc => hne hc.1, if_pos rfl]

end P3

/-! ## Tables reached through the directory -/

namespace P4

variable {s t : Machine} {p : ContFramePool} {k : Nat} {pdi pti pageDirectory : Word}
  {m : PageSets}

theorem Good.first_present (h : Good k p s) : Present (words s.mem (frameOf s.cr3) 0) :=
  (present_of_lookup (v := 0) (by rw [h.identity 0 (by decide)]; rfl)).1

theorem Good.provideTable_presents (h : Good k p s)
    (hrange : p.baseFrameNo.toNat + p.nframes.toNat ≤ 2 ^ 20) (h1 : 1 ≤ pdi.toNat)
    (hpdi : pdi.toNat < lastTable) (hm : Presents s m)
    (hrun : P4.provideTable k pdi s = some t) :
    Presents t { m with tables := insert pdi.toNat m.tables } := by
  obtain ⟨q, hq⟩ := h.holds
  rcases h.provideTable_cases hrange hpdi hrun with ⟨hp, rfl⟩ | ⟨f, hp, htake, hadds⟩
  · rwa [Set.insert_eq_of_mem ((hm.tables_iff _ hpdi).mp hp)]
  · rw [Presents, htake.cr3_eq]
    exact hm.addsTable hq.tree (by decide) (frameOf_lt _)
      (unused_of_fresh fun o _ => htake.fresh o) htake.lt h1 hpdi h.first_present hp hadds

theorem Good.providePage_presents (h : Good k p s)
    (hrange : p.baseFrameNo.toNat + p.nframes.toNat ≤ 2 ^ 20) (h1 : 1 ≤ pdi.toNat)
    (hpdi : pdi.toNat < lastTable) (hpti : pti.toNat < 1024)
    (hp : Present (words s.mem (frameOf s.cr3) pdi.toNat)) (hm : Presents s m)
    (hrun : P4.providePage k pdi pti s = some t) :
    Presents t { m with pages := insert (1024 * pdi.toNat + pti.toNat) m.pages } := by
  obtain ⟨q, hq⟩ := h.holds
  rcases h.providePage_cases hrange hpdi hpti hp hrun with ⟨hpage, rfl⟩ | ⟨f, -, htake, hset⟩
  · have hmapped := hm.mem_pages hpdi hpti hp hpage
    rwa [Set.insert_eq_of_mem hmapped]
  · rw [Presents, htake.cr3_eq]
    exact hm.setsWord hq.tree (by decide) (frameOf_lt _) htake.lt h1 hpdi h.first_present hp hpti
      hset

theorem Good.handleFault_presents {checkAddress : Machine → Word → Bool} {a : Word} (h : Good k p s)
    (hrange : p.baseFrameNo.toNat + p.nframes.toNat ≤ 2 ^ 20) (hlo : 1024 ≤ pageOf a)
    (hhi : pageOf a < 1024 * lastTable) (hm : Presents s m)
    (hrun : P4.handleFault checkAddress k a s = some t) : Presents t (m.demand (pageOf a)) := by
  obtain ⟨u, pdi, pti, hpdi, hpti, hu, hgood, hcr3, hp, -, hrun⟩ :=
    h.handleFault_parts hrange hhi hrun
  have hpageNo : 1024 * pdi.toNat + pti.toNat = pageOf a := by omega
  have htable := h.provideTable_presents hrange (by omega) (by omega) hm hu
  rw [← hcr3] at hp
  have hpage := hgood.providePage_presents hrange (by omega) (by omega) (by omega) hp htable hrun
  rwa [hpageNo, hpdi] at hpage

theorem presents_boot (hp : s.pools[k]? = some p) (hs : p.Separated)
    (hrange : p.baseFrameNo.toNat + p.nframes.toNat ≤ 2 ^ 20)
    (hrun : P4.construct k s = some (pageDirectory, t)) :
    Presents (load t pageDirectory) PageSets.first := by
  obtain ⟨d, f, p₁, p₂, hd, hf, hne, -, -, rfl, ht⟩ := construct_frames hp hs hrange hrun
  obtain ⟨-, hwords⟩ := writeTables_spec (d := d) (f := f)
    (s := { s with pools := (s.pools.set k p₁).set k p₂ }) hd hf
  rw [← ht] at hwords
  show Realizes lastTable (words t.mem) (frameOf (4096 * d)) _
  rw [frameOf_frame hd]
  refine realizes_first (f := f) ?_ hf rfl (fun i h1 hi => ?_) fun j hj => ?_
  · rw [hwords _ hd 0 (by decide), if_neg (by omega), if_neg (by omega), if_pos ⟨rfl, rfl⟩]
  · unfold lastTable at hi
    rw [hwords _ hd i (by omega), if_pos ⟨rfl, h1, hi⟩]
  · rw [hwords _ hf j hj, if_neg fun hc => hne hc.1, if_neg fun hc => hne hc.1,
      if_neg fun hc => hne hc.1, if_pos rfl]

end P4

/-! ## Both machines side by side -/

/-- A fault between the first 4 MB and the window that both machines handle, the one of
P3 on the left. `check_address` of P4 accepts its address. -/
structure BothHandle (checkAddress : Machine → Word → Bool) (kernel process k : Nat)
    (s : Machine × Machine) (a : Word) (t : Machine × Machine) : Prop where
  lo : 0x400000 ≤ a.toNat
  hi : a.toNat < 0xFFC00000
  accept : checkAddress s.2 a = true
  direct : P3.handleFault kernel process s.1.cr3 a s.1 = some t.1
  recursive : P4.handleFault checkAddress k a s.2 = some t.2

/-- The same pages and the same tables are present. Entries differ in their frame
numbers only, and those of the first table not at all. -/
structure Agree (s : Machine × Machine) : Prop where
  pages : ∀ va : Word, va.toNat < 0xFFC00000 →
    ((translate s.1.mem s.1.cr3 va).isSome ↔ (translate s.2.mem s.2.cr3 va).isSome)
  tables : ∀ i < 1023, Present (dirEntry s.1 i) ↔ Present (dirEntry s.2 i)
  dir_flags : ∀ i < 1023, flags (dirEntry s.1 i) = flags (dirEntry s.2 i)
  page_flags : ∀ v < 0xFFC00, Present (dirEntry s.1 (v / 1024)) →
    flags (pageEntry s.1 v) = flags (pageEntry s.2 v)
  identity : ∀ v < 1024, pageEntry s.1 v = pageEntry s.2 v
  low_pages : ∀ va : Word, va.toNat < 0x400000 →
    translate s.1.mem s.1.cr3 va = some va ∧ translate s.2.mem s.2.cr3 va = some va

/-- While no pool is exhausted, both machines handle every fault that P4 accepts. -/
def BothComplete (checkAddress : Machine → Word → Bool) (kernel process k : Nat)
    (s : Machine × Machine) : Prop :=
  (s.1.getFrame kernel).isSome → (s.1.getFrame process).isSome → P4.Spare k s.2 →
    ∀ a : Word, 0x400000 ≤ a.toNat → a.toNat < 0xFFC00000 → checkAddress s.2 a = true →
      ∃ t, BothHandle checkAddress kernel process k s a t

def BitmapsSafe (kernel process k : Nat) (s : Machine × Machine) : Prop :=
  (BitmapSafe kernel (P3.frames s.1) s.1 ∧ BitmapSafe process (P3.frames s.1) s.1) ∧
    BitmapSafe k (P4.frames s.2) s.2

structure InStep (kernel process k : Nat) (pk pp p : ContFramePool) (s : Machine × Machine) :
    Prop where
  direct : P3.Good kernel process pk pp s.1
  recursive : P4.Good k p s.2
  content : ∃ m, Presents s.1 m ∧ Presents s.2 m

section

variable {checkAddress : Machine → Word → Bool} {kernel process k : Nat}
  {pk pp p q : ContFramePool} {s t : Machine × Machine} {a : Word}

theorem InStep.step (h : InStep kernel process k pk pp p s)
    (hplaced : P3.Placed kernel process pk pp)
    (hrange : p.baseFrameNo.toNat + p.nframes.toNat ≤ 2 ^ 20)
    (hstep : BothHandle checkAddress kernel process k s a t) :
    InStep kernel process k pk pp p t := by
  obtain ⟨m, hm, hm'⟩ := h.content
  have hlo : 1024 ≤ pageOf a := by
    have := hstep.lo
    unfold pageOf
    omega
  have hhi : pageOf a < 1024 * P4.lastTable := by
    have := hstep.hi
    unfold pageOf P4.lastTable
    omega
  exact ⟨(h.direct.handleFault hplaced hstep.direct).1,
    (h.recursive.handleFault hrange hlo hhi hstep.recursive).1, m.demand (pageOf a),
    h.direct.handleFault_presents hplaced hlo hhi hm hstep.direct,
    h.recursive.handleFault_presents hrange hlo hhi hm' hstep.recursive⟩

theorem InStep.agree (h : InStep kernel process k pk pp p s) : Agree s := by
  obtain ⟨m, hm, hm'⟩ := h.content
  have htables : ∀ i < 1023, Present (dirEntry s.1 i) ↔ Present (dirEntry s.2 i) := fun i hi =>
    (hm.tables_iff i hi).trans (hm'.tables_iff i hi).symm
  have hpages : ∀ v, v / 1024 < 1023 → ((lookup (words s.1.mem) (frameOf s.1.cr3) v).isSome ↔
      (lookup (words s.2.mem) (frameOf s.2.cr3) v).isSome) := fun v hv =>
    (hm.pages_iff v hv).trans (hm'.pages_iff v hv).symm
  refine ⟨fun va hva => ?_, htables, fun i hi => ?_, fun v hv hp => ?_, fun v hv => ?_,
    fun va hva => ⟨?_, ?_⟩⟩
  · rw [Mmu.translate, Mmu.translate, Option.isSome_map, Option.isSome_map]
    exact hpages _ (by unfold pageOf; omega)
  · exact (hm.plain_directory i hi).flags_congr (hm'.plain_directory i hi) (htables i hi)
  · have hlt : v / 1024 < 1023 := by omega
    have hp' := (htables _ hlt).mp hp
    refine (hm.plain_table v hlt hp).flags_congr (hm'.plain_table v hlt hp') ?_
    exact (lookup_isSome_iff hp).symm.trans ((hpages v hlt).trans (lookup_isSome_iff hp'))
  · rw [pageEntry, pageEntry, hm.identity v hv, hm'.identity v hv]
  · exact translate_self (h.direct.identity _ (by unfold pageOf; omega))
  · exact translate_self (h.recursive.identity _ (by unfold pageOf; omega))

theorem InStep.complete (h : InStep kernel process k pk pp p s)
    (hplaced : P3.Placed kernel process pk pp)
    (hrange : p.baseFrameNo.toNat + p.nframes.toNat ≤ 2 ^ 20) :
    BothComplete checkAddress kernel process k s := by
  intro hkernel hprocess hspare a hlo hhi haccept
  obtain ⟨t, ht⟩ := h.direct.handleFault_completes (a := a) hplaced hkernel hprocess
  obtain ⟨u, hu⟩ := h.recursive.handleFault_completes hrange
    (by unfold pageOf P4.lastTable; omega) haccept hspare
  exact ⟨(t, u), hlo, hhi, haccept, ht, hu⟩

/-- From their boots on, the machines of P3 and of P4 agree after every sequence of
faults that P4 accepts, and handle it while no pool is exhausted. -/
theorem handlers_agree {memory : PackedPairs.Bytes}
    {base n info nInfo holeFirst holeSize directDirectory pageDirectory : Word}
    {s₀ s₁ u₀ u₁ : Machine} {run : List (Word × (Machine × Machine))}
    (hplaced : P3.Placed kernel process pk pp) (hk : s₀.pools[kernel]? = some pk)
    (hprocess : s₀.pools[process]? = some pp)
    (hdirect : P3.construct kernel s₀ = some (directDirectory, s₁)) (hinfo : info ≠ 0)
    (hplace : info.toNat + nInfo.toNat ≤ 1024)
    (hnew : ContFramePool.construct memory base n info nInfo = some q)
    (hlo : base.toNat ≤ holeFirst.toNat)
    (hhi : holeFirst.toNat + holeSize.toNat ≤ base.toNat + (roundUp4 n).toNat)
    (hmark : q.markInaccessible holeFirst holeSize = some p)
    (hrange : base.toNat + (roundUp4 n).toNat ≤ 2 ^ 20) (hp : u₀.pools[k]? = some p)
    (hearlier : ∀ j r, j < k → u₀.pools[j]? = some r → ∀ f, p.Manages f → ¬ r.Manages f)
    (hboot : P4.construct k u₀ = some (pageDirectory, u₁))
    (hrun : IsRun (BothHandle checkAddress kernel process k)
      (load s₁ directDirectory, load u₁ pageDirectory) run) :
    EveryState (fun s => Agree s ∧ BothComplete checkAddress kernel process k s ∧
        BitmapsSafe kernel process k s)
      (load s₁ directDirectory, load u₁ pageDirectory) run := by
  obtain ⟨hbase, hframes, hseparated, hbitmap, -⟩ :=
    P4.booted_pool hinfo hplace hnew hlo hhi hmark hrange
  rw [← hbase, ← hframes] at hrange
  have hstart : InStep kernel process k pk pp p (load s₁ directDirectory, load u₁ pageDirectory) :=
    ⟨P3.Good.boot hplaced hk hprocess hdirect, P4.Good.boot hp hseparated hrange hearlier hboot,
      PageSets.first, P3.presents_boot hplaced hk hdirect,
      P4.presents_boot hp hseparated hrange hboot⟩
  exact (everyState_of_step (fun _ _ _ hs hstep => hs.step hplaced hrange hstep) hstart hrun).imp
    fun s hs => ⟨hs.agree, hs.complete hplaced hrange, hs.direct.bitmapSafe hplaced,
      hs.recursive.bitmapSafe hbitmap⟩

end

theorem handlers_agree_sampleBoot : ∃ pk pp p directDirectory pageDirectory s₁ u₁ run,
    P3.construct 0 ⟨fun _ => 0, 0, [pk, pp]⟩ = some (directDirectory, s₁) ∧
      P4.construct 0 ⟨fun _ => 0, 0, [p]⟩ = some (pageDirectory, u₁) ∧
      run.map Prod.fst = [0x12345678#32] ∧
      EveryState (fun s => Agree s ∧ BothComplete (fun _ _ => true) 0 1 0 s ∧ BitmapsSafe 0 1 0 s)
        (load s₁ directDirectory, load u₁ pageDirectory) run := by
  obtain ⟨-, -, pk, -, pp, directDirectory, s₁, -, -, -, -, hdirect, hplaced, -, hgood, hget,
    hget'⟩ := P3.sampleBoot_good
  obtain ⟨q, p, pageDirectory, u₁, hq, hp, hboot, hrange, hgood', hspare⟩ := P4.sampleBoot_good
  obtain ⟨t, ht⟩ := hgood.handleFault_completes (a := 0x12345678#32) hplaced hget hget'
  obtain ⟨u, hu⟩ : ∃ u, P4.handleFault (fun _ _ => true) 0 0x12345678 (load u₁ pageDirectory) =
      some u := hgood'.handleFault_completes hrange (by decide) rfl hspare
  have hrun : IsRun (BothHandle (fun _ _ => true) 0 1 0)
      (load s₁ directDirectory, load u₁ pageDirectory) [(0x12345678#32, (t, u))] :=
    ⟨⟨by decide, by decide, rfl, ht, hu⟩, trivial⟩
  exact ⟨pk, pp, p, directDirectory, pageDirectory, s₁, u₁, _, hdirect, hboot, rfl,
    handlers_agree hplaced rfl rfl hdirect (by decide) (by decide) hq (by decide) (by decide) hp
      (by decide) rfl (fun j _ hj => absurd hj (Nat.not_lt_zero j)) hboot hrun⟩

end TeachingKernel.Paging
