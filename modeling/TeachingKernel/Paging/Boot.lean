import TeachingKernel.Paging.Handlers

/-!
# The first page table

Before paging is enabled the constructors write the directory and the first table
by their physical addresses. Afterwards the first 4 MB are mapped to themselves
and nothing else is mapped.
-/

namespace TeachingKernel.Paging

open ForLoop FramePool ContFramePool Mmu

section

variable {s t : Machine} {f v : Word}

theorem frame_addr_index {i : Word} (hf : f.toNat < 2 ^ 20) (hi : i.toNat < 1024) :
    4096 * f + 4 * i = slot f.toNat i.toNat := by
  have hmul : (4096 * f : Word).toNat = 4096 * f.toNat := frame_toNat hf
  have hoff : (4 * i : Word).toNat = 4 * i.toNat := by
    rw [BitVec.toNat_mul]
    simp
    omega
  apply BitVec.eq_of_toNat_eq
  rw [slot_toNat hf hi, toNat_add_of_lt (by omega), hmul, hoff]

theorem frame_addr {i : Nat} (hf : f.toNat < 2 ^ 20) (hi : i < 1024) :
    4096 * f + 4 * BitVec.ofNat 32 i = slot f.toNat i := by
  have hi32 : (BitVec.ofNat 32 i : Word).toNat = i := toNat_ofNat_of_lt (by omega)
  rw [frame_addr_index hf (by omega), hi32]

theorem frame_addr_zero (hf : f.toNat < 2 ^ 20) : 4096 * f = slot f.toNat 0 := by
  rw [← frame_addr hf (by decide)]
  simp

theorem frameOf_frame (hf : f.toNat < 2 ^ 20) : frameOf (4096 * f) = f.toNat := by
  have hmul : (4096 * f : Word).toNat = 4096 * f.toNat := frame_toNat hf
  rw [frameOf, hmul]
  omega

theorem words_storePhysical {g i j : Nat} (hf : f.toNat < 2 ^ 20) (hi : i < 1024) (hg : g < 2 ^ 20)
    (hj : j < 1024) : words (s.storePhysical (slot f.toNat i) v).mem g j =
      if g = f.toNat ∧ j = i then v else words s.mem g j := words_writeWord hf hi hg hj

theorem sameRegisters_storePhysical (s : Machine) (a v : Word) :
    SameRegisters s (s.storePhysical a v) := ⟨rfl, rfl⟩

theorem entryOf_ofNat_succ (i : Nat) :
    (4096#32 * BitVec.ofNat 32 i) + pageSize = 4096#32 * BitVec.ofNat 32 (i + 1) := by
  rw [BitVec.ofNat_add, BitVec.mul_add]
  rfl

theorem fillFirstTable_spec (hf : f.toNat < 2 ^ 20) :
    SameRegisters s (fillFirstTable (4096 * f) s) ∧ ∀ g < 2 ^ 20, ∀ j < 1024,
      words (fillFirstTable (4096 * f) s).mem g j =
        if g = f.toNat then entryOf (BitVec.ofNat 32 j) else words s.mem g j := by
  unfold fillFirstTable
  let P (i : Nat) (t : Machine × Word) : Prop := t.2 = 4096#32 * BitVec.ofNat 32 i ∧
    SameRegisters s t.1 ∧ ∀ g < 2 ^ 20, ∀ j < 1024, words t.1.mem g j =
      if g = f.toNat ∧ j < i then entryOf (BitVec.ofNat 32 j) else words s.mem g j
  have hzero : P 0 (s, 0) := ⟨rfl, ⟨rfl, rfl⟩, fun g _ j _ => by rw [if_neg (by omega)]⟩
  obtain ⟨-, hregs, hwords⟩ : P entriesPerPage _ := forRange_invariant
    (f := fun i (t : Machine × Word) =>
      (t.1.storePhysical (4096 * f + 4 * BitVec.ofNat 32 i) (t.2 ||| 3), t.2 + pageSize))
    (Nat.zero_le _) hzero fun i t _ hi ht => by
      obtain ⟨haddr, hregs, hwords⟩ := ht
      rw [haddr]
      refine ⟨entryOf_ofNat_succ i, ⟨hregs.cr3_eq, hregs.pools_eq⟩, fun g hg j hj => ?_⟩
      rw [frame_addr hf hi, words_storePhysical hf hi hg hj, hwords g hg j hj]
      by_cases hgf : g = f.toNat
      · rcases Nat.lt_trichotomy j i with hlt | rfl | hgt
        · rw [if_neg (by omega), if_pos ⟨hgf, hlt⟩, if_pos ⟨hgf, by omega⟩]
        · rw [if_pos ⟨hgf, rfl⟩, if_pos ⟨hgf, by omega⟩]
          rfl
        · rw [if_neg (by omega), if_neg (by omega), if_neg (by omega)]
      · rw [if_neg fun hc => hgf hc.1, if_neg fun hc => hgf hc.1, if_neg fun hc => hgf hc.1]
  refine ⟨hregs, fun g hg j hj => ?_⟩
  rw [hwords g hg j hj]
  by_cases hgf : g = f.toNat
  · rw [if_pos ⟨hgf, hj⟩, if_pos hgf]
  · rw [if_neg fun hc => hgf hc.1, if_neg hgf]

theorem emptyEntries_spec (lo hi : Nat) (hf : f.toNat < 2 ^ 20) (hle : lo ≤ hi) (hhi : hi ≤ 1024) :
    SameRegisters s (emptyEntries (4096 * f) lo hi s) ∧ ∀ g < 2 ^ 20, ∀ j < 1024,
      words (emptyEntries (4096 * f) lo hi s).mem g j =
        if g = f.toNat ∧ lo ≤ j ∧ j < hi then absentEntry else words s.mem g j := by
  unfold emptyEntries
  let P (i : Nat) (t : Machine) : Prop := SameRegisters s t ∧ ∀ g < 2 ^ 20, ∀ j < 1024,
    words t.mem g j = if g = f.toNat ∧ lo ≤ j ∧ j < i then absentEntry else words s.mem g j
  have hzero : P lo s := ⟨⟨rfl, rfl⟩, fun g _ j _ => by rw [if_neg (by omega)]⟩
  refine forRange_invariant (P := P) hle hzero fun i t hi hlt ht => ?_
  obtain ⟨hregs, hwords⟩ := ht
  refine ⟨⟨hregs.cr3_eq, hregs.pools_eq⟩, fun g hg j hj => ?_⟩
  rw [frame_addr hf (by omega), words_storePhysical hf (by omega) hg hj, hwords g hg j hj]
  by_cases hgf : g = f.toNat
  · by_cases hji : j = i
    · rw [if_pos ⟨hgf, hji⟩, if_pos ⟨hgf, by omega⟩]
      rfl
    · rw [if_neg fun hc => hji hc.2]
      by_cases hin : lo ≤ j ∧ j < i
      · rw [if_pos ⟨hgf, hin⟩, if_pos ⟨hgf, by omega⟩]
      · rw [if_neg fun hc => hin hc.2, if_neg fun hc => hin (by omega)]
  · rw [if_neg fun hc => hgf hc.1, if_neg fun hc => hgf hc.1, if_neg fun hc => hgf hc.1]

/-- Storing an address and then setting its low bits leaves the entry of a frame. -/
theorem setFirstEntry_spec {d : Word} (hd : d.toNat < 2 ^ 20) :
    SameRegisters s (setFirstEntry (4096 * d) (4096 * f) s) ∧ ∀ g < 2 ^ 20, ∀ j < 1024,
      words (setFirstEntry (4096 * d) (4096 * f) s).mem g j =
        if g = d.toNat ∧ j = 0 then entryOf f else words s.mem g j := by
  refine ⟨⟨rfl, rfl⟩, fun g hg j hj => ?_⟩
  have hread : (s.storePhysical (4096 * d) (4096 * f)).mem.readWord (4096 * d) = 4096 * f :=
    Memory.readWord_writeWord_same ..
  unfold setFirstEntry
  dsimp only
  rw [hread, frame_addr_zero hd, words_storePhysical hd (by decide) hg hj,
    words_storePhysical hd (by decide) hg hj]
  by_cases heq : g = d.toNat ∧ j = 0
  · rw [if_pos heq, if_pos heq]
    rfl
  · rw [if_neg heq, if_neg heq, if_neg heq]

end

namespace P4

variable {s t : Machine} {p : ContFramePool} {k : Nat} {pageDirectory : Word}

/-- What the constructor leaves in the directory, frame `d`, and in the first table,
frame `f`. -/
structure FirstTables (s t : Machine) (d f : Nat) : Prop where
  apart : f ≠ d
  first : frameOf (words t.mem d 0) = f ∧ Present (words t.mem d 0)
  last : frameOf (words t.mem d 1023) = d ∧ Present (words t.mem d 1023)
  absent : ∀ j, 1 ≤ j → j < 1023 → ¬ Present (words t.mem d j)
  identity : ∀ j < 1024, frameOf (words t.mem f j) = j ∧ Present (words t.mem f j)

theorem writeTables_spec {d f : Word} (hd : d.toNat < 2 ^ 20) (hf : f.toNat < 2 ^ 20) :
    SameRegisters s (writeTables (4096 * d) (4096 * f) s) ∧ ∀ g < 2 ^ 20, ∀ j < 1024,
      words (writeTables (4096 * d) (4096 * f) s).mem g j =
        if g = d.toNat ∧ 1 ≤ j ∧ j < 1023 then absentEntry
        else if g = d.toNat ∧ j = 1023 then entryOf d
        else if g = d.toNat ∧ j = 0 then entryOf f
        else if g = f.toNat then entryOf (BitVec.ofNat 32 j) else words s.mem g j := by
  unfold writeTables
  dsimp only
  obtain ⟨hregs₁, hw₁⟩ := fillFirstTable_spec (s := s) hf
  generalize fillFirstTable (4096 * f) s = t₁ at hregs₁ hw₁ ⊢
  obtain ⟨hregs₂, hw₂⟩ := setFirstEntry_spec (s := t₁) (f := f) hd
  generalize setFirstEntry (4096 * d) (4096 * f) t₁ = t₂ at hregs₂ hw₂ ⊢
  have hlast : entriesPerPage - 1 = 1023 := rfl
  rw [hlast, frame_addr hd (by decide)]
  obtain ⟨hregs₃, hw₃⟩ := emptyEntries_spec (s := t₂.storePhysical (slot d.toNat 1023)
    (4096 * d ||| 3)) 1 1023 hd (by decide) (by decide)
  refine ⟨hregs₁.trans (hregs₂.trans ((sameRegisters_storePhysical ..).trans hregs₃)),
    fun g hg j hj => ?_⟩
  rw [hw₃ g hg j hj, words_storePhysical hd (by decide) hg hj, hw₂ g hg j hj, hw₁ g hg j hj]
  rfl

/-- The constructor takes two frames from its pool and fills the tables in them. -/
theorem construct_frames (hp : s.pools[k]? = some p) (hs : p.Separated)
    (hrange : p.baseFrameNo.toNat + p.nframes.toNat ≤ 2 ^ 20)
    (hrun : P4.construct k s = some (pageDirectory, t)) :
    ∃ d f p₁ p₂, d.toNat < 2 ^ 20 ∧ f.toNat < 2 ^ 20 ∧ f.toNat ≠ d.toNat ∧
      Grants p p₁ d.toNat ∧ Grants p₁ p₂ f.toNat ∧ pageDirectory = 4096 * d ∧
      t = writeTables (4096 * d) (4096 * f) { s with pools := (s.pools.set k p₁).set k p₂ } := by
  obtain ⟨⟨d, s₁⟩, hd, hrun⟩ := Option.bind_eq_some_iff.mp hrun
  obtain ⟨⟨f, s₂⟩, hf, hrun⟩ := Option.bind_eq_some_iff.mp hrun
  obtain ⟨q, p₁, hk, hone, rfl⟩ := getFrame_eq hd
  cases Option.some.inj (hk.symm.trans hp)
  obtain ⟨q, p₂, hk₁, htwo, rfl⟩ := getFrame_eq hf
  have hlt := (List.getElem?_eq_some_iff.mp hp).1
  rw [List.getElem?_set, if_pos rfl, if_pos hlt] at hk₁
  cases Option.some.inj hk₁
  have hg₁ := hs.getFrames_one (by omega) hone
  have hrange₁ : p₁.baseFrameNo.toNat + p₁.nframes.toNat ≤ 2 ^ 20 := by
    rw [base_of_extent hg₁.extent_eq, nframes_of_extent hg₁.extent_eq]
    exact hrange
  have hg₂ := hg₁.separated.getFrames_one (by omega) htwo
  have hd20 : d.toNat < 2 ^ 20 := by
    have := hg₁.granted.head.2.1
    omega
  have hf20 : f.toNat < 2 ^ 20 := by
    have := hg₂.granted.head.2.1
    rw [base_of_extent hg₂.extent_eq, nframes_of_extent hg₂.extent_eq] at this
    omega
  obtain ⟨hpd, ht⟩ := Prod.mk.inj (Option.some.inj hrun)
  exact ⟨d, f, p₁, p₂, hd20, hf20, fun heq => hg₂.fresh (heq ▸ hg₁.granted), hg₁, hg₂, hpd.symm,
    ht.symm⟩

theorem construct_spec (hp : s.pools[k]? = some p) (hs : p.Separated)
    (hrange : p.baseFrameNo.toNat + p.nframes.toNat ≤ 2 ^ 20)
    (hrun : P4.construct k s = some (pageDirectory, t)) :
    ∃ d f p₁ p₂, frameOf pageDirectory = d ∧ Grants p p₁ d ∧ Grants p₁ p₂ f ∧
      t.pools = (s.pools.set k p₁).set k p₂ ∧ FirstTables s t d f := by
  obtain ⟨d, f, p₁, p₂, hd20, hf20, hapart, hg₁, hg₂, rfl, ht⟩ :=
    construct_frames hp hs hrange hrun
  obtain ⟨hregs, hwords⟩ := writeTables_spec (s := { s with pools := (s.pools.set k p₁).set k p₂ })
    hd20 hf20
  rw [← ht] at hregs hwords
  refine ⟨d.toNat, f.toNat, p₁, p₂, frameOf_frame hd20, hg₁, hg₂, ?_, hapart, ?_, ?_,
    fun j h1 h2 => ?_, fun j hj => ?_⟩
  · exact hregs.pools_eq
  · rw [hwords _ hd20 0 (by decide), if_neg (by omega), if_neg (by omega), if_pos ⟨rfl, rfl⟩]
    exact ⟨frameOf_entryOf hf20, present_entryOf hf20⟩
  · rw [hwords _ hd20 1023 (by decide), if_neg (by omega), if_pos ⟨rfl, rfl⟩]
    exact ⟨frameOf_entryOf hd20, present_entryOf hd20⟩
  · rw [hwords _ hd20 j (by omega), if_pos ⟨rfl, h1, h2⟩]
    exact not_present_absentEntry
  · have hj32 : (BitVec.ofNat 32 j : Word).toNat = j := toNat_ofNat_of_lt (by omega)
    rw [hwords _ hf20 j hj, if_neg fun hc => hapart hc.1, if_neg fun hc => hapart hc.1,
      if_neg fun hc => hapart hc.1, if_pos rfl]
    refine ⟨(frameOf_entryOf (by omega)).trans hj32, present_entryOf (by omega)⟩

theorem Good.boot (hp : s.pools[k]? = some p) (hs : p.Separated)
    (hrange : p.baseFrameNo.toNat + p.nframes.toNat ≤ 2 ^ 20)
    (hearlier : ∀ j r, j < k → s.pools[j]? = some r → ∀ f, p.Manages f → ¬ r.Manages f)
    (hrun : P4.construct k s = some (pageDirectory, t)) : Good k p (load t pageDirectory) := by
  obtain ⟨d, f, p₁, p₂, hd, hg₁, hg₂, hpools, htables⟩ := construct_spec hp hs hrange hrun
  have hlt := (List.getElem?_eq_some_iff.mp hp).1
  have huses : ∀ o, frames (load t pageDirectory) o =
      if o = .table 0 then some f else if o = .directory then some d else none := by
    intro o
    rw [← hd] at htables ⊢
    exact frameUses_first (by decide) htables.absent htables.first.2 htables.first.1 o
  refine ⟨⟨?_, ?_⟩, fun v hv => ?_, p₂, ?_, hg₂.extent_eq.trans hg₁.extent_eq, hg₂.separated,
    fun g hg => hg₂.inaccessible g (hg₁.inaccessible g hg), ?_, fun j r hj hr => ?_⟩
  · show Present (words t.mem (frameOf pageDirectory) 1023)
    rw [hd]
    exact htables.last.2
  · show frameOf (words t.mem (frameOf pageDirectory) 1023) = frameOf pageDirectory
    rw [hd]
    exact htables.last.1
  · show lookup (words t.mem) (frameOf pageDirectory) v = some v
    rw [hd]
    exact lookup_first htables.first.2 htables.first.1 htables.identity hv
  · show t.pools[k]? = some p₂
    rw [hpools, List.getElem?_set, if_pos rfl, if_pos (by simpa using hlt)]
  · have hone := (Exclusive.none : Exclusive p.Granted _).add (x := FrameUse.directory) hg₁.fresh
      hg₁.granted hg₁.kept fun _ => rfl
    exact hone.add hg₂.fresh hg₂.granted hg₂.kept huses
  · change t.pools[j]? = some r at hr
    rw [hpools, List.getElem?_set, if_neg (by omega), List.getElem?_set, if_neg (by omega)] at hr
    exact hearlier j r hj hr

end P4

end TeachingKernel.Paging
