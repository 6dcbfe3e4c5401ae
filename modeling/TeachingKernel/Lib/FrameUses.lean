import Mathlib.Tactic.Common
import TeachingKernel.Lib.PageTree

/-!
# What frames are used for

Under a page-table tree a frame is the directory, one table, or one mapped page.
An allocation discipline is exclusive when no frame has two uses and every frame in
use is held; taking a fresh frame for a new use and giving up a use keep it so.
-/

namespace TeachingKernel.Mmu

/-! ## Exclusive uses -/

/-- No two indices use the same frame, and every frame in use is held. -/
structure Exclusive {ι : Type} (held : Nat → Prop) (uses : ι → Option Nat) : Prop where
  inj : ∀ o o' f, uses o = some f → uses o' = some f → o = o'
  held : ∀ o f, uses o = some f → held f

section

variable {ι : Type} {held held' : Nat → Prop} {uses uses' : ι → Option Nat} {x : ι} {f : Nat}

theorem Exclusive.none : Exclusive held fun _ : ι => Option.none :=
  ⟨fun _ _ _ h => (by cases h), fun _ _ h => by cases h⟩

theorem Exclusive.unused (h : Exclusive held uses) (hf : ¬ held f) (o : ι) : uses o ≠ some f :=
  fun ho => hf (h.held o f ho)

theorem Exclusive.add [DecidableEq ι] (h : Exclusive held uses) (hfresh : ¬ held f) (hnew : held' f)
    (hkept : ∀ g, held g → held' g)
    (huses : ∀ o, uses' o = if o = x then some f else uses o) : Exclusive held' uses' := by
  constructor
  · intro o o' g ho ho'
    rw [huses] at ho ho'
    split at ho <;> split at ho'
    · rw [‹o = x›, ‹o' = x›]
    · cases ho
      exact absurd ho' (h.unused hfresh o')
    · cases ho'
      exact absurd ho (h.unused hfresh o)
    · exact h.inj o o' g ho ho'
  · intro o g ho
    rw [huses] at ho
    split at ho
    · cases ho
      exact hnew
    · exact hkept g (h.held o g ho)

theorem Exclusive.remove [DecidableEq ι] (h : Exclusive held uses) (hx : uses x = some f)
    (hkept : ∀ g, g ≠ f → held g → held' g)
    (huses : ∀ o, uses' o = if o = x then Option.none else uses o) : Exclusive held' uses' := by
  constructor
  · intro o o' g ho ho'
    rw [huses] at ho ho'
    split at ho
    · cases ho
    · split at ho'
      · cases ho'
      · exact h.inj o o' g ho ho'
  · intro o g ho
    rw [huses] at ho
    split at ho
    · cases ho
    · rename_i hne
      refine hkept g ?_ (h.held o g ho)
      rintro rfl
      exact hne (h.inj o x g ho hx)

end

/-! ## The uses under a tree -/

inductive FrameUse where
  | directory
  | table (i : Nat)
  | page (v : Nat)
  deriving DecidableEq

/-- The frame of a use. The pages are those above the first table and under the first
`top` entries of the directory. -/
def frameUses (top : Nat) (w : Nat → Nat → Word) (d : Nat) : FrameUse → Option Nat
  | .directory => some d
  | .table i => if i < top ∧ Present (w d i) then some (frameOf (w d i)) else none
  | .page v => if 1024 ≤ v ∧ v < 1024 * top then lookup w d v else none

section

variable {top d i k v f : Nat} {w w' : Nat → Nat → Word} {e : Word}

theorem frameUses_table (hi : i < top) (hp : Present (w d i)) :
    frameUses top w d (.table i) = some (frameOf (w d i)) := if_pos ⟨hi, hp⟩

theorem frameUses_page (h1 : 1024 ≤ v) (h2 : v < 1024 * top) :
    frameUses top w d (.page v) = lookup w d v := if_pos ⟨h1, h2⟩

theorem frameUses_congr (hdir : ∀ j < top, w' d j = w d j)
    (hlookup : ∀ v < 1024 * top, lookup w' d v = lookup w d v) (o : FrameUse) :
    frameUses top w' d o = frameUses top w d o := by
  cases o with
  | directory => rfl
  | table i =>
      rw [frameUses, frameUses]
      by_cases hi : i < top
      · rw [hdir i hi]
      · rw [if_neg fun hc => hi hc.1, if_neg fun hc => hi hc.1]
  | page v =>
      rw [frameUses, frameUses]
      by_cases hv : 1024 ≤ v ∧ v < 1024 * top
      · rw [if_pos hv, if_pos hv, hlookup v hv.2]
      · rw [if_neg hv, if_neg hv]

/-- The tables form a tree if none of their frames has two uses. -/
theorem tree_of_inj (h : ∀ o o' f, (∀ v, o ≠ .page v) → (∀ v, o' ≠ .page v) →
    frameUses top w d o = some f → frameUses top w d o' = some f → o = o') : Tree top w d := by
  constructor
  · intro i hi j hj hpi hpj heq
    have hij := h (.table i) (.table j) _ (by simp) (by simp) (frameUses_table hi hpi)
      (by rw [frameUses_table hj hpj, heq])
    exact FrameUse.table.inj hij
  · intro i hi hpi heq
    have hij := h (.table i) .directory _ (by simp) (by simp) (frameUses_table hi hpi)
      (by rw [heq]; rfl)
    cases hij

/-- A frame without a use can hold a new table. -/
theorem unused_of_fresh (h : ∀ o, (∀ v, o ≠ .page v) → frameUses top w d o ≠ some f) :
    Unused top w d f :=
  ⟨fun heq => h .directory (by simp) (heq ▸ rfl), fun i hi hp heq =>
    h (.table i) (by simp) (heq ▸ frameUses_table hi hp)⟩

/-- An entry set in the table of directory entry `i` changes the use of one page. -/
theorem Tree.frameUses_setsWord (ht : Tree top w d) (htop : top ≤ 1024) (hd : d < 2 ^ 20)
    (h1 : 1 ≤ i) (hi : i < top) (hp : Present (w d i)) (hk : k < 1024)
    (h : SetsWord w w' (frameOf (w d i)) k e) (o : FrameUse) :
    frameUses top w' d o = if o = .page (1024 * i + k) then
      (if Present e then some (frameOf e) else none) else frameUses top w d o := by
  have hapart := ht.dir_apart i hi hp
  cases o with
  | directory => rw [if_neg (by simp), frameUses, frameUses]
  | table j =>
      rw [if_neg (by simp), frameUses, frameUses]
      by_cases hj : j < top
      · rw [h.dir_eq hd hapart (by omega)]
      · rw [if_neg fun hc => hj hc.1, if_neg fun hc => hj hc.1]
  | page v =>
      rw [frameUses, frameUses]
      by_cases hv : 1024 ≤ v ∧ v < 1024 * top
      · rw [if_pos hv, if_pos hv, ht.lookup_setsWord htop hd hi hp hk h (by omega)]
        simp only [FrameUse.page.injEq]
      · rw [if_neg hv, if_neg hv, if_neg]
        rintro hc
        cases hc
        omega

/-- A new table is one more use, of the frame it lies in. -/
theorem Tree.frameUses_addsTable (ht : Tree top w d) (htop : top ≤ 1024) (hd : d < 2 ^ 20)
    (hi : i < top) (hf : Unused top w d f) (hfe : frameOf e = f) (hpe : Present e)
    (habsent : ¬ Present (w d i)) (h : AddsTable w w' d i f e) (o : FrameUse) :
    frameUses top w' d o = if o = .table i then some f else frameUses top w d o := by
  cases o with
  | directory => rw [if_neg (by simp), frameUses, frameUses]
  | table j =>
      rw [frameUses, frameUses]
      by_cases hj : j < top
      · rw [h.dir_eq hd hf.dir (by omega)]
        by_cases hji : j = i
        · rw [if_pos hji, if_pos ⟨hj, hpe⟩, hfe, if_pos (by rw [hji])]
        · have hne : FrameUse.table j ≠ .table i := fun hc => hji (FrameUse.table.inj hc)
          rw [if_neg hji, if_neg hne]
      · have hne : FrameUse.table j ≠ .table i := fun hc => hj (FrameUse.table.inj hc ▸ hi)
        rw [if_neg hne, if_neg fun hc => hj hc.1, if_neg fun hc => hj hc.1]
  | page v =>
      rw [if_neg (by simp), frameUses, frameUses]
      by_cases hv : 1024 ≤ v ∧ v < 1024 * top
      · rw [if_pos hv, if_pos hv, ht.lookup_addsTable htop hd hf hfe hpe habsent h (by omega)]
      · rw [if_neg hv, if_neg hv]

/-- The uses of a tree whose directory maps the first table only, onto the first frames. -/
theorem frameUses_first (htop : 0 < top) (hdir : ∀ j, 1 ≤ j → j < top → ¬ Present (w d j))
    (hp : Present (w d 0)) (hf : frameOf (w d 0) = f) (o : FrameUse) :
    frameUses top w d o =
      if o = .table 0 then some f else if o = .directory then some d else none := by
  cases o with
  | directory => rw [if_neg (by simp), if_pos rfl, frameUses]
  | table i =>
      rcases Nat.eq_zero_or_pos i with rfl | hi
      · rw [frameUses_table htop hp, hf, if_pos rfl]
      · have hne : FrameUse.table i ≠ .table 0 := fun hc => by
          cases hc
          omega
        rw [if_neg hne, if_neg (by simp), frameUses, if_neg]
        exact fun hc => hdir i hi hc.1 hc.2
  | page v =>
      rw [if_neg (by simp), if_neg (by simp), frameUses]
      by_cases hv : 1024 ≤ v ∧ v < 1024 * top
      · rw [if_pos hv, lookup_of_absent (hdir _ (by omega) (by omega))]
      · rw [if_neg hv]

end

/-! ## Tables and pages in two allocators -/

def structural (uses : FrameUse → Option Nat) : FrameUse → Option Nat
  | .page _ => none
  | o => uses o

def mapped (uses : FrameUse → Option Nat) : FrameUse → Option Nat
  | .page v => uses (.page v)
  | _ => none

section

variable {i v f : Nat} {o : FrameUse} {uses uses' : FrameUse → Option Nat}

theorem structural_of_ne (h : ∀ v, o ≠ .page v) : structural uses o = uses o := by
  cases o with
  | page v => exact absurd rfl (h v)
  | _ => rfl

theorem structural_add (h : ∀ o, uses' o = if o = .table i then some f else uses o) (o : FrameUse) :
    structural uses' o = if o = .table i then some f else structural uses o := by
  cases o with
  | page v => rw [if_neg (by simp), structural, structural]
  | _ => exact h _

theorem structural_add_page (h : ∀ o, uses' o = if o = .page v then some f else uses o)
    (o : FrameUse) : structural uses' o = structural uses o := by
  cases o with
  | page v => rfl
  | _ => exact (h _).trans (if_neg (by simp))

theorem mapped_add (h : ∀ o, uses' o = if o = .page v then some f else uses o) (o : FrameUse) :
    mapped uses' o = if o = .page v then some f else mapped uses o := by
  cases o with
  | page v => exact h _
  | _ => simp [mapped]

theorem mapped_add_table (h : ∀ o, uses' o = if o = .table i then some f else uses o)
    (o : FrameUse) : mapped uses' o = mapped uses o := by
  cases o with
  | page v => exact (h _).trans (if_neg (by simp))
  | _ => rfl

end

section

variable {top d v f : Nat} {w : Nat → Nat → Word}

/-- A first table of identity entries maps the first 4 MB to themselves. -/
theorem lookup_first (hp : Present (w d 0)) (hf : frameOf (w d 0) = f)
    (hid : ∀ j < 1024, frameOf (w f j) = j ∧ Present (w f j)) (hv : v < 1024) :
    lookup w d v = some v := by
  have hdiv : v / 1024 = 0 := by omega
  have hrem : v % 1024 = v := by omega
  rw [lookup_of_present (by rwa [hdiv]), hdiv, hrem, hf, if_pos (hid v hv).2, (hid v hv).1]

end

end TeachingKernel.Mmu
