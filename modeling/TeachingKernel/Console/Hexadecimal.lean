import TeachingKernel.Console.Numbers

/-!
# Addresses in hexadecimal

`ulong2hexstr` and the buffer that `handle_fault` passes to it for the address of an
illegitimate fault. The digits come out right for every number. The copy loop decrements
before it reads, so it makes one turn too many, and the caller's buffer holds neither
that byte nor the two before it.
-/

namespace TeachingKernel.Display

open Numerals

def hexastrSize : Nat := 9

def hexGlyph (d : Nat) : Byte := BitVec.ofNat 8 (if d < 10 then 0x30 + d else 0x41 + (d - 10))

def readHexDigit (b : Byte) : Option Nat :=
  if 0x30 ≤ b.toNat ∧ b.toNat ≤ 0x39 then some (b.toNat - 0x30)
  else if 0x41 ≤ b.toNat ∧ b.toNat ≤ 0x46 then some (b.toNat - 0x41 + 10)
  else none

def hexText (n : Nat) : List Byte := 0x30 :: 0x78 :: ((fixedDigits 16 8 n).map hexGlyph).reverse

def readHex (s : List Byte) : Option Nat :=
  if s.take 2 = [0x30, 0x78] then readNumeral 16 readHexDigit (s.drop 2) else none

/-! ## The text -/

theorem readHexDigit_hexGlyph : ∀ d < 16, readHexDigit (hexGlyph d) = some d := by decide

theorem hexGlyph_ne_zero : ∀ d < 16, hexGlyph d ≠ 0 := by decide

theorem readHex_hexText (n : Word) : readHex (hexText n.toNat) = some n.toNat := by
  have hne : fixedDigits 16 8 n.toNat ≠ [] :=
    List.ne_nil_of_length_pos (by rw [length_fixedDigits]; decide)
  have hread := readNumeral_reverse_map 16 hne fun d hd =>
    readHexDigit_hexGlyph d (fixedDigits_lt (by decide) hd)
  rw [ofDigits_fixedDigits, Nat.mod_eq_of_lt (show n.toNat < 16 ^ 8 from n.isLt)] at hread
  exact hread

theorem hexText_ne_zero (n : Nat) : ∀ b ∈ hexText n, b ≠ 0 := by
  intro b hb
  rw [hexText, List.mem_cons, List.mem_cons, List.mem_reverse, List.mem_map] at hb
  rcases hb with rfl | rfl | ⟨d, hd, rfl⟩
  · decide
  · decide
  · exact hexGlyph_ne_zero d (fixedDigits_lt (by decide) hd)

theorem length_hexText (n : Nat) : (hexText n).length = 10 := by simp [hexText]

/-! ## What the function writes -/

theorem hexDigit_eq (num : Word) : hexDigit num = hexGlyph (num.toNat % 16) := by
  have hmod : (num % 16).toNat = num.toNat % 16 := by
    rw [BitVec.toNat_umod]
    rfl
  have hlt := Nat.mod_lt num.toNat (show 0 < 16 by decide)
  have hten : (10 : Word).toNat = 10 := rfl
  have hcmp : num % 16 < 10 ↔ num.toNat % 16 < 10 := by rw [BitVec.lt_def, hmod, hten]
  apply BitVec.eq_of_toNat_eq
  simp only [hexDigit, hexGlyph, hcmp]
  by_cases h : num.toNat % 16 < 10
  · rw [if_pos h, if_pos h, BitVec.toNat_setWidth, BitVec.toNat_add, hmod, BitVec.toNat_ofNat,
      BitVec.toNat_ofNat]
    omega
  · have hsub : (num % 16 - 10).toNat = num.toNat % 16 - 10 := by
      rw [toNat_sub_of_le (by omega), hmod, hten]
    rw [if_neg h, if_neg h, BitVec.toNat_setWidth, BitVec.toNat_add, hsub, BitVec.toNat_ofNat,
      BitVec.toNat_ofNat]
    omega

/-- The text with its terminator, and one more byte, which is the one on the stack in
front of the array. -/
theorem ulong2hexstr_spec (stack : Int → Byte) (n : Word) :
    ∃ p, (∀ fuel, 12 ≤ fuel → ulong2hexstr fuel stack n = some p) ∧
      p.str = hexText n.toNat ++ [0, stack (-1)] ∧ ∀ x, x ∈ p.read ↔ -1 ≤ x ∧ x ≤ 8 := by
  obtain ⟨p, hp, hstr, hread⟩ := copyOut_spec 1 (k := 9)
    (p := ⟨fillTemp hexDigit (· / 16) 8 stack n, 9, [], [0x30, 0x78]⟩) rfl
  have htemp : ∀ j < 8, fillTemp hexDigit (· / 16) 8 stack n ((9 : Nat) - (j : Nat) - 1) =
      hexGlyph (n.toNat / 16 ^ (7 - j) % 16) := by
    intro j hj
    have hsixteen : (16 : Word).toNat = 16 := rfl
    rw [fillTemp_apply, if_pos (by omega), hexDigit_eq, toNat_iterate_udiv, hsixteen]
    congr 4
    omega
  refine ⟨p, fun fuel hfuel => hp fuel (by omega), ?_, fun x => ?_⟩
  · have hdigits : (List.range 8).map (fun j : Nat =>
        fillTemp hexDigit (· / 16) 8 stack n ((9 : Nat) - (j : Nat) - 1)) =
        ((fixedDigits 16 8 n.toNat).map hexGlyph).reverse := by
      apply List.ext_getElem (by simp)
      intro j hj _
      have hj' : j < 8 := by simpa using hj
      simp only [fixedDigits, List.length_map, List.length_range, List.getElem_map,
        List.getElem_range, List.getElem_reverse]
      rw [htemp j hj']
    rw [hstr, List.range_succ, List.range_succ, List.map_append, List.map_append, hdigits]
    simp only [List.map_singleton, fillTemp_apply, hexText]
    rfl
  · rw [hread]
    simp only [List.not_mem_nil, false_or]
    omega

/-- What the error report needs of a run on `n`: the text and its terminator, the number
back, no read outside `temp[9]` and no byte behind `hexastr[9]`. -/
structure ReportsHex (n : Word) (p : Printer) : Prop where
  text : hexText n.toNat ++ [0] <+: p.str
  value : readHex (cString p.str) = some n.toNat
  inside : ∀ x ∈ p.read, 0 ≤ x ∧ x ≤ 8
  fits : p.str.length ≤ hexastrSize

/-- For every number the text is right, and for every number the array is read in front
of its first byte and the buffer of the error report is overrun by three bytes. -/
theorem not_reportsHex (stack : Int → Byte) (n : Word) :
    ∃ p, (∀ fuel, 12 ≤ fuel → ulong2hexstr fuel stack n = some p) ∧
      hexText n.toNat ++ [0] <+: p.str ∧ readHex (cString p.str) = some n.toNat ∧
      -1 ∈ p.read ∧ p.str.length = hexastrSize + 3 ∧ ¬ ReportsHex n p := by
  obtain ⟨p, hp, hstr, hread⟩ := ulong2hexstr_spec stack n
  have hlength : p.str.length = hexastrSize + 3 := by
    rw [hstr, List.length_append, length_hexText]
    rfl
  refine ⟨p, hp, ?_, ?_, (hread (-1)).mpr (by omega), hlength, fun h => ?_⟩
  · exact ⟨[stack (-1)], by rw [hstr, List.append_assoc]; rfl⟩
  · rw [hstr, cString_append_zero (hexText_ne_zero _), readHex_hexText]
  · have hfits := h.fits
    omega

theorem not_reportsHex_zero :
    ¬ ∃ p, ulong2hexstr 12 (fun _ => 0) 0 = some p ∧ ReportsHex 0 p := by
  rintro ⟨p, hp, h⟩
  have hlength : (ulong2hexstr 12 (fun _ => 0) 0).map (·.str.length) = some 12 := by decide +kernel
  rw [hp, Option.map_some, Option.some.injEq] at hlength
  have hfits := h.fits
  rw [hlength] at hfits
  exact absurd hfits (by decide)

end TeachingKernel.Display
