import TeachingKernel.Paging.MappedPages

/-!
# Bytes and words of mapped pages

What the kernel sees at an address, and how a store changes it. Pages that keep their
frame and its words show the same bytes, and a store into one page shows in that page only.
-/

namespace TeachingKernel.Paging

open FramePool Mmu

def Machine.byteAt (s : Machine) (va : Word) : Option Byte := (translate s.mem s.cr3 va).map s.mem

section

variable {s : Machine} {a v : Word} {b : Byte} {f : Nat}

theorem byte_of_words (m : Memory) (f o : Nat) :
    m (BitVec.ofNat 32 (4096 * f + o)) = (words m f (o / 4)).extractLsb' (8 * (o % 4)) 8 := by
  have haddr : (BitVec.ofNat 32 (4096 * f + o) : Word) =
      slot f (o / 4) + BitVec.ofNat 32 (o % 4) := by
    rw [slot, ← BitVec.ofNat_add]
    congr 1
    omega
  rw [haddr, Memory.byte_of_readWord m _ (Nat.mod_lt o (by decide))]
  rfl

theorem byteAt_of_lookup (h : lookup (words s.mem) (frameOf s.cr3) (pageOf a) = some f) :
    s.byteAt a =
      some ((words s.mem f (a.toNat % 4096 / 4)).extractLsb' (8 * (a.toNat % 4096 % 4)) 8) := by
  rw [Machine.byteAt, translate_of_lookup h, Option.map_some, byte_of_words s.mem]

theorem exists_frame_of_byteAt (h : s.byteAt a = some b) :
    ∃ f, lookup (words s.mem) (frameOf s.cr3) (pageOf a) = some f := by
  obtain ⟨pa, hpa, -⟩ := Option.map_eq_some_iff.mp h
  exact ⟨_, lookup_of_translate hpa⟩

theorem load_of_lookup (h : lookup (words s.mem) (frameOf s.cr3) (pageOf a) = some f)
    (ha : a.toNat % 4 = 0) : s.load a = some (words s.mem f (a.toNat % 4096 / 4)) := by
  rw [Machine.load, translate_of_lookup h, Option.map_some, words, slot]
  congr 4
  omega

theorem exists_frame_of_load (h : s.load a = some v) :
    ∃ f, lookup (words s.mem) (frameOf s.cr3) (pageOf a) = some f := by
  obtain ⟨pa, hpa, -⟩ := Option.map_eq_some_iff.mp h
  exact ⟨_, lookup_of_translate hpa⟩

theorem store_of_lookup (h : lookup (words s.mem) (frameOf s.cr3) (pageOf a) = some f)
    (ha : a.toNat % 4 = 0) : s.store a v = some (setWord s f (a.toNat % 4096 / 4) v) := by
  rw [Machine.store, translate_of_lookup h, Option.map_some, setWord, slot]
  congr 4
  omega

end

namespace P4

section

variable {s t : Machine} {a a' v : Word} {b : Byte} {p : ContFramePool} {k : Nat}

theorem KeepsPage.byteAt (h : KeepsPage s t (pageOf a)) (hb : s.byteAt a = some b) :
    t.byteAt a = some b := by
  obtain ⟨f, hf⟩ := exists_frame_of_byteAt hb
  obtain ⟨hf', hwords⟩ := h f hf
  rw [byteAt_of_lookup hf] at hb
  rw [byteAt_of_lookup hf', hwords _ (by omega), hb]

theorem KeepsPage.load (h : KeepsPage s t (pageOf a)) (ha : a.toNat % 4 = 0)
    (hv : s.load a = some v) : t.load a = some v := by
  obtain ⟨f, hf⟩ := exists_frame_of_load hv
  obtain ⟨hf', hwords⟩ := h f hf
  rw [load_of_lookup hf ha] at hv
  rw [load_of_lookup hf' ha, hwords _ (by omega), hv]

theorem Good.translate_inj {pa : Word} (h : Good k p s) (ha : UserPage (pageOf a))
    (ha' : UserPage (pageOf a')) (hpa : translate s.mem s.cr3 a = some pa)
    (hpa' : translate s.mem s.cr3 a' = some pa) : a = a' :=
  eq_of_translate (h.page_inj ha ha' (lookup_of_translate hpa) (lookup_of_translate hpa')) hpa hpa'

theorem Good.store_word (h : Good k p s) (ha : UserPage (pageOf a)) (halign : a.toNat % 4 = 0)
    (hrun : s.store a v = some t) :
    ∃ f, lookup (words s.mem) (frameOf s.cr3) (pageOf a) = some f ∧ WritesFrame s t f ∧
      t.load a = some v ∧ ∀ a' w, UserPage (pageOf a') → a'.toNat % 4 = 0 → a' ≠ a →
        s.load a' = some w → t.load a' = some w := by
  obtain ⟨pa, hpa, -⟩ := Option.map_eq_some_iff.mp hrun
  have hf := lookup_of_translate hpa
  generalize pageOf pa = f at hf
  have hlt := lookup_lt hf
  rw [store_of_lookup hf halign] at hrun
  cases hrun
  have hidx : a.toNat % 4096 / 4 < 1024 := by omega
  have hw : WritesFrame s (setWord s f (a.toNat % 4096 / 4) v) f := writesFrame_setWord hlt hidx
  have hset := setsWord_setWord (s := s) (v := v) hlt hidx
  obtain ⟨-, hlookup, hkeep⟩ := h.writesPage ha hf hw
  have hmapped : ∀ a', UserPage (pageOf a') → pageOf a' = pageOf a →
      lookup (words (setWord s f (a.toNat % 4096 / 4) v).mem) (frameOf s.cr3) (pageOf a') =
        some f := by
    intro a' ha' hpage
    have hlt' := ha'.2
    rw [hlookup _ (by omega), hpage, hf]
  refine ⟨f, hf, hw, ?_, fun a' w ha' halign' hne hload => ?_⟩
  · rw [load_of_lookup (hmapped a ha rfl) halign, hset f hlt _ hidx, if_pos ⟨rfl, rfl⟩]
  · by_cases hpage : pageOf a' = pageOf a
    · rw [load_of_lookup (hpage ▸ hf) halign'] at hload
      have hoff : a'.toNat % 4096 / 4 ≠ a.toNat % 4096 / 4 := by
        intro hc
        apply hne
        apply BitVec.eq_of_toNat_eq
        unfold pageOf at hpage
        omega
      rw [load_of_lookup (hmapped a' ha' hpage) halign', hset f hlt _ (by omega),
        if_neg fun hc => hoff hc.2, hload]
    · exact (hkeep _ ha' hpage).load halign' hload

end

end P4

end TeachingKernel.Paging
