import Mathlib.Data.List.TakeWhile
import TeachingKernel.Console.Numbers

/-!
# Numbers in decimal

`int2str` and its callers. On a negative number C's division towards zero gives
remainders that are not positive, and `_num % 10 + '0'` then lies below `'0'`.
-/

namespace TeachingKernel.Display

open Numerals

def decGlyph (d : Nat) : Byte := BitVec.ofNat 8 (0x30 + d)

/-- What `int2str` stores for a digit of a negative number. -/
def belowGlyph (d : Nat) : Byte := BitVec.ofNat 8 (0x30 - d)

def readDigit (b : Byte) : Option Nat :=
  if 0x30 ≤ b.toNat ∧ b.toNat ≤ 0x39 then some (b.toNat - 0x30) else none

/-- The digits of a number without leading zeros, behind a minus sign for a negative one. -/
def decimalText (n : Int) : List Byte :=
  if n < 0 then 0x2D :: numeral 10 decGlyph n.natAbs else numeral 10 decGlyph n.natAbs

def readDecimal (s : List Byte) : Option Int :=
  if s.head? = some 0x2D then (readNumeral 10 readDigit s.tail).map fun m : Nat => -(m : Int)
  else (readNumeral 10 readDigit s).map fun m : Nat => (m : Int)

def literal (s : String) : List Byte := s.toList.map (fun ch => BitVec.ofNat 8 ch.toNat) ++ [0]

def puti (fuel : Nat) (stack : Int → Byte) (c : Console) (n : Word) : Option Console :=
  (int2str fuel stack n).map fun p => c.puts p.str

def putAssertion (c : Console) (file line message : List Byte) : Console :=
  let c := (c.puts (literal "Assertion failed at file: ")).puts file
  let c := (c.puts (literal " line: ")).puts line
  ((c.puts (literal " assertion: ")).puts message).puts (literal "\n")

/-- `_assert`, up to the `abort` at its end. -/
def assertFailed (fuel : Nat) (stack : Int → Byte) (c : Console) (file : List Byte) (line : Word)
    (message : List Byte) : Option Console :=
  (int2str fuel stack line).map fun p => putAssertion c file p.str message

/-! ## The canonical text -/

theorem readDigit_decGlyph : ∀ d < 10, readDigit (decGlyph d) = some d := by decide

theorem decGlyph_eq_zero_iff : ∀ d < 10, decGlyph d = 0x30#8 ↔ d = 0 := by decide

theorem belowGlyph_eq_zero_iff : ∀ d < 10, belowGlyph d = 0x30#8 ↔ d = 0 := by decide

theorem decGlyph_ne_zero : ∀ d < 10, decGlyph d ≠ 0 := by decide

theorem decGlyph_ne_minus : ∀ d < 10, decGlyph d ≠ 0x2D := by decide

theorem head?_numeral_ne_minus (n : Nat) : (numeral 10 decGlyph n).head? ≠ some 0x2D := by
  intro h
  obtain ⟨d, hd, heq⟩ := mem_numeral (b := 10) (by decide) (List.mem_of_mem_head? h)
  exact decGlyph_ne_minus d hd heq.symm

theorem readDecimal_decimalText (n : Int) : readDecimal (decimalText n) = some n := by
  have hread := readNumeral_numeral (b := 10) (by decide) readDigit_decGlyph n.natAbs
  unfold decimalText readDecimal
  by_cases hn : n < 0
  · rw [if_pos hn, List.head?_cons, if_pos rfl, List.tail_cons, hread, Option.map_some]
    congr 1
    omega
  · rw [if_neg hn, if_neg (head?_numeral_ne_minus _), hread, Option.map_some]
    congr 1
    omega

theorem decimalText_ne_zero (n : Int) : ∀ b ∈ decimalText n, b ≠ 0 := by
  intro b hb
  have hdigits : ∀ b ∈ numeral 10 decGlyph n.natAbs, b ≠ 0 := by
    intro b hb
    obtain ⟨d, hd, rfl⟩ := mem_numeral (by decide) hb
    exact decGlyph_ne_zero d hd
  unfold decimalText at hb
  by_cases hn : n < 0
  · rw [if_pos hn, List.mem_cons] at hb
    rcases hb with rfl | hb
    · decide
    · exact hdigits b hb
  · rw [if_neg hn] at hb
    exact hdigits b hb

theorem length_numeral_le {glyph : Nat → Byte} {n : Nat} (hn : n < 10 ^ 10) :
    (numeral 10 glyph n).length ≤ 10 := by
  have hlen : (Nat.digits 10 n).length ≤ 10 := (Nat.digits_length_le_iff (by decide) n).mpr hn
  rw [length_numeral]
  omega

/-! ## What `int2str` writes -/

theorem toInt_iterate_sdiv (num : Word) (j : Nat) :
    ((fun num : Word => num.sdiv 10)^[j] num).toInt = num.toInt.tdiv (10 ^ j : Nat) := by
  induction j with
  | zero => simp
  | succ j ih =>
      have hten : (10 : Word).toInt = (10 : Nat) := rfl
      rw [Function.iterate_succ_apply', BitVec.toInt_sdiv_of_ne_or_ne _ _ (Or.inr (by decide)), ih,
        hten]
      obtain ⟨m, hm | hm⟩ := num.toInt.eq_nat_or_neg
      · rw [hm, ← Int.ofNat_tdiv, ← Int.ofNat_tdiv, ← Int.ofNat_tdiv, Nat.div_div_eq_div_mul,
          Nat.pow_succ]
      · rw [hm, Int.neg_tdiv, Int.neg_tdiv, Int.neg_tdiv, ← Int.ofNat_tdiv, ← Int.ofNat_tdiv,
          ← Int.ofNat_tdiv, Nat.div_div_eq_div_mul, Nat.pow_succ]

private theorem srem_eq_ofInt (num : Word) : num.srem 10 = BitVec.ofInt 32 (num.toInt.tmod 10) := by
  have hten : (10 : Word).toInt = 10 := rfl
  rw [← hten, ← BitVec.toInt_srem, BitVec.ofInt_toInt]

private theorem ofInt_glyphs : ∀ d < 10,
    (BitVec.ofInt 32 (d : Nat) + 0x30#32).setWidth 8 = decGlyph d ∧
      (BitVec.ofInt 32 (-(d : Nat)) + 0x30#32).setWidth 8 = belowGlyph d := by
  decide

def intGlyph (n : Int) : Nat → Byte := if n < 0 then belowGlyph else decGlyph

theorem intGlyph_eq_zero_iff (n : Int) : ∀ d < 10, intGlyph n d = 0x30#8 ↔ d = 0 := by
  unfold intGlyph
  by_cases hneg : n < 0
  · rw [if_pos hneg]
    exact belowGlyph_eq_zero_iff
  · rw [if_neg hneg]
    exact decGlyph_eq_zero_iff

/-- Every digit is that of the absolute value, in the glyph for the sign. -/
theorem intDigit_iterate (n : Word) (j : Nat) :
    intDigit ((fun num : Word => num.sdiv 10)^[j] n) =
      intGlyph n.toInt (n.toInt.natAbs / 10 ^ j % 10) := by
  have hglyphs := ofInt_glyphs (n.toInt.natAbs / 10 ^ j % 10) (Nat.mod_lt _ (by decide))
  have hten : (10 : Int) = (10 : Nat) := rfl
  rw [intDigit, intGlyph, srem_eq_ofInt, toInt_iterate_sdiv]
  by_cases hneg : n.toInt < 0
  · have habs : n.toInt = -(n.toInt.natAbs : Int) := by omega
    rw [if_pos hneg, ← hglyphs.2]
    rw [habs, Int.neg_tdiv, Int.neg_tmod, ← Int.ofNat_tdiv, hten, ← Int.ofNat_tmod, Int.natAbs_neg,
      Int.natAbs_natCast]
  · have habs : n.toInt = (n.toInt.natAbs : Int) := by omega
    rw [if_neg hneg, ← hglyphs.1]
    rw [habs, ← Int.ofNat_tdiv, hten, ← Int.ofNat_tmod, Int.natAbs_natCast]

/-- The digits of the absolute value, each in the glyph for its sign. -/
theorem int2str_spec (stack : Int → Byte) (n : Word) :
    ∃ p, (∀ fuel, 12 ≤ fuel → int2str fuel stack n = some p) ∧
      p.str = numeral 10 (intGlyph n.toInt) n.toInt.natAbs ++ [0] ∧
      p.str.length ≤ 11 ∧ ∀ x ∈ p.read, 0 ≤ x ∧ x ≤ 10 := by
  have hlo : -2 ^ 31 ≤ n.toInt := BitVec.le_toInt n
  have hhi : n.toInt < 2 ^ 31 := BitVec.toInt_lt
  have hN : n.toInt.natAbs < 10 ^ 10 := by omega
  obtain ⟨p, hp, hstr, hread⟩ := num2str_spec stack hN (intGlyph_eq_zero_iff n.toInt)
    (fun j _ => intDigit_iterate n j)
  refine ⟨p, hp, hstr, ?_, hread⟩
  rw [hstr, List.length_append]
  exact Nat.succ_le_succ (length_numeral_le hN)

/-- What is asked of `int2str` on `n`, and of the two callers that put its result. -/
structure PrintsInt (stack : Int → Byte) (n : Word) (p : Printer) : Prop where
  text : p.str = decimalText n.toInt ++ [0]
  value : readDecimal (cString p.str) = some n.toInt
  size : p.str.length ≤ 12
  putsInt : ∀ fuel, 12 ≤ fuel → ∀ c, puti fuel stack c n = some (c.puts (decimalText n.toInt))
  putsLine : ∀ fuel, 12 ≤ fuel → ∀ c file message,
    assertFailed fuel stack c file n message =
      some (putAssertion c file (decimalText n.toInt) message)

theorem puts_append_zero (c : Console) {s : List Byte} (hs : ∀ b ∈ s, b ≠ 0) (rest : List Byte) :
    c.puts (s ++ 0 :: rest) = c.puts s := by
  have hall : cString s = s := List.takeWhile_eq_self_iff.mpr (by simpa using hs)
  rw [Console.puts_eq, Console.puts_eq, cString_append_zero hs, hall]

/-- `int2str` returns for every number, and its result is right exactly for the numbers
that are not negative. -/
theorem printsInt_iff (stack : Int → Byte) (n : Word) :
    ∃ p, (∀ fuel, 12 ≤ fuel → int2str fuel stack n = some p) ∧
      (PrintsInt stack n p ↔ 0 ≤ n.toInt) := by
  obtain ⟨p, hp, hstr, hsize, -⟩ := int2str_spec stack n
  refine ⟨p, hp, fun h => ?_, fun hn => ?_⟩
  · -- a negative number has as many digits but no minus sign
    by_contra hneg
    have htext := h.text
    rw [decimalText, if_pos (by omega)] at htext
    have hlength := congrArg List.length (hstr.symm.trans htext)
    simp only [List.length_append, List.length_cons, length_numeral] at hlength
    omega
  · have htext : p.str = decimalText n.toInt ++ [0] := by
      rw [hstr, intGlyph, if_neg (by omega), decimalText, if_neg (by omega)]
    refine ⟨htext, ?_, by omega, fun fuel hfuel c => ?_, fun fuel hfuel c file message => ?_⟩
    · rw [htext, cString_append_zero (decimalText_ne_zero _), readDecimal_decimalText]
    · rw [puti, hp fuel hfuel, Option.map_some, htext, puts_append_zero c (decimalText_ne_zero _)]
    · rw [assertFailed, hp fuel hfuel, Option.map_some, htext]
      simp only [putAssertion, puts_append_zero _ (decimalText_ne_zero _)]

/-- For -1 the text is a slash. -/
theorem not_printsInt_minus_one :
    (int2str 12 (fun _ => 0) (-1)).map (·.str) = some [0x2F, 0] ∧
      ∀ p, int2str 12 (fun _ => 0) (-1) = some p → ¬ PrintsInt (fun _ => 0) (-1) p := by
  have hslash : (int2str 12 (fun _ => 0) (-1)).map (·.str) = some [0x2F, 0] := by decide +kernel
  refine ⟨hslash, fun p hp h => ?_⟩
  rw [hp, Option.map_some, Option.some.injEq] at hslash
  have htext := h.text
  rw [decimalText, if_pos (by decide)] at htext
  have hlength := congrArg List.length (hslash.symm.trans htext)
  simp only [List.length_append, List.length_cons, List.length_nil, length_numeral] at hlength
  omega

end TeachingKernel.Display
