import Mathlib.Data.Nat.Digits.Lemmas
import TeachingKernel.Lib.Word

/-!
# Numerals

Numbers written as byte strings in some base, the most significant digit first, and
read back. `fixedDigits` are the digits of a given number of places, lowest first.
-/

namespace TeachingKernel.Numerals

variable {b n k : Nat} {glyph : Nat → Byte} {read : Byte → Option Nat}

def fixedDigits (b k n : Nat) : List Nat := (List.range k).map (fun j => n / b ^ j % b)

@[simp] theorem length_fixedDigits : (fixedDigits b k n).length = k := by simp [fixedDigits]

theorem fixedDigits_lt (hb : 0 < b) {d : Nat} (hd : d ∈ fixedDigits b k n) : d < b := by
  obtain ⟨j, -, rfl⟩ := List.mem_map.mp hd
  exact Nat.mod_lt _ hb

theorem ofDigits_fixedDigits (b k n : Nat) : Nat.ofDigits b (fixedDigits b k n) = n % b ^ k := by
  induction k with
  | zero => simp [fixedDigits, Nat.mod_one]
  | succ k ih =>
      have hlast : fixedDigits b (k + 1) n = fixedDigits b k n ++ [n / b ^ k % b] := by
        simp [fixedDigits, List.range_succ]
      rw [hlast, Nat.ofDigits_append, ih, length_fixedDigits, Nat.ofDigits_singleton,
        Nat.mod_pow_succ]

theorem getElem_digits (hb : 2 ≤ b) {j : Nat} (hj : j < (Nat.digits b n).length) :
    (Nat.digits b n)[j] = n / b ^ j % b := by
  rw [← Nat.getD_digits n j hb, List.getD_eq_getElem?_getD, List.getElem?_eq_getElem hj,
    Option.getD_some]

theorem digits_eq_fixedDigits (hb : 2 ≤ b) (n : Nat) :
    Nat.digits b n = fixedDigits b (Nat.digits b n).length n := by
  apply List.ext_getElem (by simp)
  intro j hj _
  rw [getElem_digits hb hj]
  simp [fixedDigits]

theorem digits_length_pos (hn : 0 < n) : 0 < (Nat.digits b n).length :=
  List.length_pos_iff.mpr (Nat.digits_ne_nil_iff_ne_zero.mpr (by omega))

theorem place_eq_zero (hb : 1 < b) (h : (Nat.digits b n).length ≤ k) : n / b ^ k % b = 0 := by
  have hlt : n < b ^ k := (Nat.digits_length_le_iff hb n).mp h
  rw [Nat.div_eq_of_lt hlt, Nat.zero_mod]

theorem leading_place_ne_zero (hb : 1 < b) (hn : 0 < n) :
    n / b ^ ((Nat.digits b n).length - 1) % b ≠ 0 := by
  have hlen : 0 < (Nat.digits b n).length := digits_length_pos hn
  have hlast := Nat.getLast_digit_ne_zero b (m := n) (by omega)
  rwa [List.getLast_eq_getElem, getElem_digits hb] at hlast

/-! ## Writing and reading -/

def numeral (b : Nat) (glyph : Nat → Byte) (n : Nat) : List Byte :=
  if n = 0 then [glyph 0] else ((Nat.digits b n).map glyph).reverse

def readNumeral (b : Nat) (read : Byte → Option Nat) (s : List Byte) : Option Nat :=
  if s = [] then none else (s.mapM read).map fun ds => Nat.ofDigits b ds.reverse

theorem numeral_eq_fixedDigits (hb : 2 ≤ b) (n : Nat) :
    numeral b glyph n =
      ((fixedDigits b (max 1 (Nat.digits b n).length) n).map glyph).reverse := by
  unfold numeral
  by_cases hn : n = 0
  · simp [hn, fixedDigits]
  · have hlen : 0 < (Nat.digits b n).length := digits_length_pos (Nat.pos_of_ne_zero hn)
    rw [if_neg hn, show max 1 (Nat.digits b n).length = (Nat.digits b n).length by omega,
      ← digits_eq_fixedDigits hb]

theorem length_numeral : (numeral b glyph n).length = max 1 (Nat.digits b n).length := by
  unfold numeral
  by_cases hn : n = 0
  · simp [hn]
  · have hlen : 0 < (Nat.digits b n).length := digits_length_pos (Nat.pos_of_ne_zero hn)
    rw [if_neg hn, List.length_reverse, List.length_map]
    exact (Nat.max_eq_right hlen).symm

theorem mem_numeral (hb : 1 < b) {x : Byte} (hx : x ∈ numeral b glyph n) :
    ∃ d < b, x = glyph d := by
  unfold numeral at hx
  by_cases hn : n = 0
  · rw [if_pos hn, List.mem_singleton] at hx
    exact ⟨0, by omega, hx⟩
  · rw [if_neg hn, List.mem_reverse] at hx
    obtain ⟨d, hd, rfl⟩ := List.mem_map.mp hx
    exact ⟨d, Nat.digits_lt_base hb hd, rfl⟩

/-- The first digit of a positive number is not zero. -/
theorem head?_numeral (hb : 1 < b) (hn : 0 < n) :
    ∃ d, 0 < d ∧ d < b ∧ (numeral b glyph n).head? = some (glyph d) := by
  have hne : Nat.digits b n ≠ [] := Nat.digits_ne_nil_iff_ne_zero.mpr (Nat.ne_of_gt hn)
  refine ⟨(Nat.digits b n).getLast hne, ?_, ?_, ?_⟩
  · exact Nat.pos_of_ne_zero (Nat.getLast_digit_ne_zero b (Nat.ne_of_gt hn))
  · exact Nat.digits_lt_base hb (List.getLast_mem hne)
  · rw [numeral, if_neg (Nat.ne_of_gt hn), List.head?_reverse, List.getLast?_map,
      List.getLast?_eq_some_getLast hne, Option.map_some]

/-- Digits that read back one by one read back as a number. -/
theorem readNumeral_reverse_map (b : Nat) {ds : List Nat} (hne : ds ≠ [])
    (hread : ∀ d ∈ ds, read (glyph d) = some d) :
    readNumeral b read ((ds.map glyph).reverse) = some (Nat.ofDigits b ds) := by
  have hmap : ((ds.map glyph).reverse).mapM read = some ds.reverse := by
    rw [← List.map_reverse, List.mapM_map]
    have hall : ∀ d ∈ ds.reverse, read (glyph d) = some d := by simpa using hread
    generalize ds.reverse = es at hall
    induction es with
    | nil => rfl
    | cons d es ih =>
        rw [List.mapM_cons, Function.comp_apply, hall d List.mem_cons_self,
          ih fun e he => hall e (List.mem_cons_of_mem d he)]
        rfl
  rw [readNumeral, if_neg (by simpa using hne), hmap, Option.map_some, List.reverse_reverse]

/-- Reading what was written gives the number back. -/
theorem readNumeral_numeral (hb : 1 < b) (hread : ∀ d < b, read (glyph d) = some d) (n : Nat) :
    readNumeral b read (numeral b glyph n) = some n := by
  unfold numeral
  by_cases hn : n = 0
  · have hzero : ∀ d ∈ [0], read (glyph d) = some d := by
      intro d hd
      rw [List.mem_singleton.mp hd]
      exact hread 0 (by omega)
    rw [if_pos hn, hn]
    simpa using readNumeral_reverse_map b (List.cons_ne_nil 0 []) hzero
  · rw [if_neg hn, readNumeral_reverse_map b (Nat.digits_ne_nil_iff_ne_zero.mpr hn)
      (fun d hd => hread d (Nat.digits_lt_base hb hd)), Nat.ofDigits_digits]

end TeachingKernel.Numerals
