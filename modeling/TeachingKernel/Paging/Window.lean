import TeachingKernel.Paging.Recursive

/-!
# The window onto the tables

Where the last directory entry points to the directory, the addresses that are built from
two table indices stand for the entries of the tables, one address for each entry, and the
indices cut out of an address lead to the entries that its translation uses.
-/

namespace TeachingKernel.Paging

open Mmu

/-- The physical address of the directory entry that the translation of `va` reads. -/
def usedPde (s : Machine) (va : Word) : Word := slot (frameOf s.cr3) (pageOf va / 1024)

def usedPte (s : Machine) (va : Word) : Word :=
  slot (frameOf (s.mem.readWord (usedPde s va))) (pageOf va % 1024)

/-- The translation of `va` out of the words at these two addresses. -/
theorem translate_eq_used (s : Machine) (va : Word) : translate s.mem s.cr3 va =
    if Present (s.mem.readWord (usedPde s va)) ∧ Present (s.mem.readWord (usedPte s va)) then
      some (BitVec.ofNat 32 (4096 * frameOf (s.mem.readWord (usedPte s va)) + va.toNat % 4096))
    else none := by
  rw [Mmu.translate, Mmu.lookup]
  change Option.map _ (if Present (s.mem.readWord (usedPde s va)) then
    if Present (s.mem.readWord (usedPte s va)) then
      some (frameOf (s.mem.readWord (usedPte s va))) else none else none) = _
  by_cases hpde : Present (s.mem.readWord (usedPde s va))
  · by_cases hpte : Present (s.mem.readWord (usedPte s va))
    · rw [if_pos hpde, if_pos hpte, if_pos ⟨hpde, hpte⟩]
      rfl
    · rw [if_pos hpde, if_neg hpte, if_neg fun h => hpte h.2]
      rfl
  · rw [if_neg hpde, if_neg fun h => hpde h.1]
    rfl

namespace P4

section

variable {s : Machine} {pdi pdi' pti pti' va : Word}

theorem first10Bits_lt (va : Word) : (getFirst10Bits va).toNat < 1024 := by
  have hlt := pageOf_lt va
  rw [getFirst10Bits_toNat]
  omega

theorem middle10Bits_lt (va : Word) : (getMiddle10Bits va).toNat < 1024 := by
  rw [getMiddle10Bits_toNat]
  omega

theorem constructPteAddress_injective (hpdi : pdi.toNat < 1024) (hpti : pti.toNat < 1024)
    (hpdi' : pdi'.toNat < 1024) (hpti' : pti'.toNat < 1024)
    (heq : constructPteAddress pdi pti = constructPteAddress pdi' pti') :
    pdi = pdi' ∧ pti = pti' := by
  have hnat := congrArg BitVec.toNat heq
  rw [constructPteAddress_toNat hpdi hpti, constructPteAddress_toNat hpdi' hpti'] at hnat
  exact ⟨BitVec.eq_of_toNat_eq (by omega), BitVec.eq_of_toNat_eq (by omega)⟩

theorem constructPdeAddress_eq (hpdi : pdi.toNat < 1024) :
    constructPdeAddress pdi = constructPteAddress 1023 pdi := by
  have hlast : (1023 : Word).toNat < 1024 := by decide
  apply BitVec.eq_of_toNat_eq
  rw [constructPdeAddress_toNat hpdi, constructPteAddress_toNat hlast hpdi]
  rfl

theorem constructPteAddress_aligned (hpdi : pdi.toNat < 1024) (hpti : pti.toNat < 1024) :
    4 ∣ (constructPteAddress pdi pti).toNat := by
  rw [constructPteAddress_toNat hpdi hpti]
  omega

/-- Through the window the directory entry of `va` is reached by its first ten bits. -/
theorem SelfMapped.reaches_pde (h : SelfMapped s) (va : Word) :
    translate s.mem s.cr3 (constructPdeAddress (getFirst10Bits va)) = some (usedPde s va) := by
  rw [h.translate_pde (first10Bits_lt va), getFirst10Bits_toNat, usedPde]

/-- And the table entry by the ten bits behind them, if there is a table. -/
theorem SelfMapped.reaches_pte (h : SelfMapped s) (hp : Present (s.mem.readWord (usedPde s va))) :
    translate s.mem s.cr3 (constructPteAddress (getFirst10Bits va) (getMiddle10Bits va)) =
      some (usedPte s va) := by
  have hpde : words s.mem (frameOf s.cr3) (getFirst10Bits va).toNat =
      s.mem.readWord (usedPde s va) := by
    rw [getFirst10Bits_toNat, words, usedPde]
  rw [h.translate_pte (first10Bits_lt va) (middle10Bits_lt va) (hpde ▸ hp), hpde,
    getMiddle10Bits_toNat, usedPte]

end

/-- Where the last directory entry points to the directory, the constructed addresses
translate to the entries they name, are aligned and different, and the two indices of
every address lead to the entries that its translation reads. -/
theorem window_onto_tables (s : Machine) (h : SelfMapped s) :
    (∀ pdi pti : Word, pdi.toNat < 1024 → pti.toNat < 1024 →
      translate s.mem s.cr3 (constructPdeAddress pdi) =
          some (slot (frameOf s.cr3) pdi.toNat) ∧
        (Present (words s.mem (frameOf s.cr3) pdi.toNat) →
          translate s.mem s.cr3 (constructPteAddress pdi pti) =
            some (slot (frameOf (words s.mem (frameOf s.cr3) pdi.toNat)) pti.toNat)) ∧
        4 ∣ (constructPdeAddress pdi).toNat ∧ 4 ∣ (constructPteAddress pdi pti).toNat ∧
        constructPdeAddress pdi = constructPteAddress 1023 pdi ∧
        ∀ pdi' pti' : Word, pdi'.toNat < 1024 → pti'.toNat < 1024 →
          constructPteAddress pdi pti = constructPteAddress pdi' pti' → pdi = pdi' ∧ pti = pti') ∧
    ∀ va : Word, (getFirst10Bits va).toNat < 1024 ∧ (getMiddle10Bits va).toNat < 1024 ∧
      translate s.mem s.cr3 (constructPdeAddress (getFirst10Bits va)) = some (usedPde s va) ∧
      (Present (s.mem.readWord (usedPde s va)) →
        translate s.mem s.cr3 (constructPteAddress (getFirst10Bits va) (getMiddle10Bits va)) =
          some (usedPte s va)) ∧
      translate s.mem s.cr3 va =
        if Present (s.mem.readWord (usedPde s va)) ∧ Present (s.mem.readWord (usedPte s va)) then
          some (BitVec.ofNat 32
            (4096 * frameOf (s.mem.readWord (usedPte s va)) + va.toNat % 4096))
        else none := by
  constructor
  · intro pdi pti hpdi hpti
    have hlast : (1023 : Word).toNat < 1024 := by decide
    refine ⟨h.translate_pde hpdi, h.translate_pte hpdi hpti, ?_,
      constructPteAddress_aligned hpdi hpti, constructPdeAddress_eq hpdi,
      fun pdi' pti' hpdi' hpti' =>
        constructPteAddress_injective hpdi hpti hpdi' hpti'⟩
    rw [constructPdeAddress_eq hpdi]
    exact constructPteAddress_aligned hlast hpdi
  · exact fun va => ⟨first10Bits_lt va, middle10Bits_lt va, h.reaches_pde va, h.reaches_pte,
      translate_eq_used s va⟩

def oneTable : Machine :=
  ⟨Memory.writeWord (Memory.writeWord (Memory.writeWord (fun _ => 0) (slot 2 1023) (entryOf 2))
    (slot 2 1) (entryOf 3)) (slot 3 5) (entryOf 7), 0x2000, []⟩

theorem window_onto_tables_oneTable :
    translate oneTable.mem oneTable.cr3 (constructPdeAddress 1) = some (slot 2 1) ∧
      translate oneTable.mem oneTable.cr3 (constructPteAddress 1 5) = some (slot 3 5) ∧
      translate oneTable.mem oneTable.cr3 0x405678 = some 0x7678 := by
  have hlast : words oneTable.mem 2 1023 = entryOf 2 := by decide +kernel
  have hone : words oneTable.mem 2 1 = entryOf 3 := by decide +kernel
  have hself : SelfMapped oneTable := by
    constructor
    · change Present (words oneTable.mem 2 1023)
      rw [hlast]
      decide
    · change frameOf (words oneTable.mem 2 1023) = 2
      rw [hlast]
      decide
  obtain ⟨hentries, hused⟩ := window_onto_tables oneTable hself
  obtain ⟨hpde, hpte, -⟩ := hentries 1 5 (by decide) (by decide)
  have hpresent : Present (words oneTable.mem (frameOf oneTable.cr3) (1 : Word).toNat) := by
    change Present (words oneTable.mem 2 1)
    rw [hone]
    decide
  refine ⟨hpde, ?_, ?_⟩
  · have hframe : frameOf (words oneTable.mem (frameOf oneTable.cr3) (1 : Word).toNat) = 3 := by
      change frameOf (words oneTable.mem 2 1) = 3
      rw [hone]
      decide
    rw [hpte hpresent, hframe]
    rfl
  · rw [(hused 0x405678).2.2.2.2]
    decide +kernel

end P4

end TeachingKernel.Paging
