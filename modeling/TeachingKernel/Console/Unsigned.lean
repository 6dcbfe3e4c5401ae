import TeachingKernel.Console.Decimal

/-!
# Unsigned numbers in decimal

`uint2str` and its two callers, `Console::putui` and `debug_out_E9_msg_value`, with the
arrays that they pass to it. The output of the second is what goes to port `0xE9`.
-/

namespace TeachingKernel.Display

open ForLoop Numerals

def foostrSize : Nat := 15

def localstrSize : Nat := 32

def overwrite (array str : List Byte) : List Byte := str ++ array.drop str.length

/-- `Console::putui`, where `foostr` is what the array holds before. -/
def putui (fuel : Nat) (stack : Int → Byte) (foostr : List Byte) (c : Console) (n : Word) :
    Option Console :=
  (uint2str fuel stack n).map fun p => ((c.putch 0x3C).puts (overwrite foostr p.str)).putch 0x3E

def debugOutE9 (port string : List Byte) : List Byte :=
  let stringSize := if strlen string > 255 then 255 else strlen string
  forRange 0 stringSize (fun i port => port ++ [string.getD i 0]) port

def debugOutE9MsgValue (fuel : Nat) (stack : Int → Byte) (localstr port msg : List Byte)
    (value : Word) : Option (List Byte) :=
  let port := debugOutE9 (debugOutE9 port msg) (literal " ")
  (uint2str fuel stack value).map fun p =>
    debugOutE9 (debugOutE9 port (overwrite localstr p.str)) (literal "\n")

theorem debugOutE9_eq (port s : List Byte) : debugOutE9 port s = port ++ (cString s).take 255 := by
  have hsize : (if strlen s > 255 then 255 else strlen s) = min 255 (cString s).length := by
    rw [strlen_eq]
    by_cases hlong : (cString s).length > 255
    · rw [if_pos hlong]
      omega
    · rw [if_neg hlong]
      omega
  have hinv := forRange_invariant
    (P := fun i t => t = port ++ (cString s).take i)
    (f := fun i port => port ++ [s.getD i 0]) (s := port)
    (Nat.zero_le (min 255 (cString s).length)) (by simp) ?_
  · rw [debugOutE9, hsize, hinv]
    congr 1
    exact (List.take_eq_take_min ..).symm
  · intro i t _ hi ht
    have hi : i < (cString s).length := by omega
    rw [ht, getD_eq_getElem_cString hi, List.take_succ_eq_append_getElem hi, List.append_assoc]

/-! ## The text -/

theorem decimalText_natCast (m : Nat) : decimalText m = numeral 10 decGlyph m := by
  rw [decimalText, if_neg (by omega), Int.natAbs_natCast]

/-- The text of a positive number does not begin with `'0'`. -/
theorem head?_decimalText_ne_zero {m : Nat} (hm : 0 < m) (rest : List Byte) :
    (decimalText m ++ rest).head? ≠ some 0x30 := by
  obtain ⟨d, hpos, hd, hhead⟩ :
      ∃ d, 0 < d ∧ d < 10 ∧ (numeral 10 decGlyph m).head? = some (decGlyph d) :=
    head?_numeral (by decide) hm
  rw [decimalText_natCast, List.head?_append, hhead, Option.some_or]
  intro h
  have hzero := (decGlyph_eq_zero_iff d hd).mp (Option.some.inj h)
  omega

/-! ## What `uint2str` writes -/

theorem uintDigit_eq (num : Word) : uintDigit num = decGlyph (num.toNat % 10) := by
  have hten : (10 : Word).toNat = 10 := rfl
  apply BitVec.eq_of_toNat_eq
  simp only [uintDigit, decGlyph]
  rw [BitVec.toNat_setWidth, BitVec.toNat_add, BitVec.toNat_umod, hten, BitVec.toNat_ofNat,
    BitVec.toNat_ofNat]
  omega

theorem uintDigit_iterate (n : Word) (j : Nat) :
    uintDigit ((fun num : Word => num / 10)^[j] n) = decGlyph (n.toNat / 10 ^ j % 10) := by
  have hten : (10 : Word).toNat = 10 := rfl
  rw [uintDigit_eq, toNat_iterate_udiv, hten]

/-- A number of 32 bits has at most ten digits. -/
theorem toNat_lt_tenPow (n : Word) : n.toNat < 10 ^ 10 := Nat.lt_trans n.isLt (by decide)

theorem length_decimalText_le (n : Word) : (decimalText n.toNat).length ≤ 10 := by
  rw [decimalText_natCast]
  exact length_numeral_le (toNat_lt_tenPow n)

/-- The text of the number and its terminator, from reads inside the array. -/
theorem uint2str_spec (stack : Int → Byte) (n : Word) :
    ∃ p, (∀ fuel, 12 ≤ fuel → uint2str fuel stack n = some p) ∧
      p.str = decimalText n.toNat ++ [0] ∧ ∀ x ∈ p.read, 0 ≤ x ∧ x ≤ 10 := by
  rw [decimalText_natCast]
  exact num2str_spec stack (toNat_lt_tenPow n) decGlyph_eq_zero_iff
    (fun j _ => uintDigit_iterate n j)

theorem uint2str_stops (stack : Int → Byte) (n : Word) :
    ∃ q, (∀ fuel, 12 ≤ fuel →
        trim fuel ⟨fillTemp uintDigit (· / 10) 10 stack n, 10, [], []⟩ = some q) ∧
      q.i = (Nat.digits 10 n.toNat).length ∧ q.i ≤ 10 := by
  have hlen : (Nat.digits 10 n.toNat).length ≤ 10 :=
    (Nat.digits_length_le_iff (by decide) n.toNat).mpr (toNat_lt_tenPow n)
  have hdigits : HoldsDigits (fillTemp uintDigit (· / 10) 10 stack n) decGlyph n.toNat :=
    holdsDigits_fillTemp stack fun j _ => uintDigit_iterate n j
  obtain ⟨q, hq, hqi, -⟩ := hdigits.trim decGlyph_eq_zero_iff hlen
  exact ⟨q, hq, hqi, by omega⟩

/-! ## The callers -/

theorem overwrite_append_zero (array s : List Byte) :
    overwrite array (s ++ [0]) = s ++ 0 :: array.drop (s.length + 1) := by
  rw [overwrite, List.append_assoc, List.length_append]
  rfl

section

variable {fuel : Nat} {stack : Int → Byte} {n : Word} {p : Printer}

theorem putui_eq (hp : uint2str fuel stack n = some p) (hstr : p.str = decimalText n.toNat ++ [0])
    (foostr : List Byte) (c : Console) :
    putui fuel stack foostr c n =
      some (((c.putch 0x3C).puts (decimalText n.toNat)).putch 0x3E) := by
  rw [putui, hp, Option.map_some, hstr, overwrite_append_zero,
    puts_append_zero _ (decimalText_ne_zero _)]

theorem debugOutE9MsgValue_eq (hp : uint2str fuel stack n = some p)
    (hstr : p.str = decimalText n.toNat ++ [0]) (localstr port msg : List Byte) :
    debugOutE9MsgValue fuel stack localstr port msg n =
      some (port ++ (cString msg).take 255 ++ [0x20] ++ decimalText n.toNat ++ [0x0A]) := by
  have hblank : (cString (literal " ")).take 255 = [0x20] := by decide
  have hnline : (cString (literal "\n")).take 255 = [0x0A] := by decide
  have hvalue : (decimalText n.toNat).take 255 = decimalText n.toNat :=
    List.take_of_length_le (Nat.le_trans (length_decimalText_le n) (by decide))
  rw [debugOutE9MsgValue, hp, Option.map_some, hstr, overwrite_append_zero]
  simp only [debugOutE9_eq]
  rw [cString_append_zero (decimalText_ne_zero _), hblank, hnline, hvalue]

end

structure PrintsUint (stack : Int → Byte) (n : Word) (p : Printer) : Prop where
  text : p.str = decimalText n.toNat ++ [0]
  zero : n = 0 → p.str = [0x30, 0]
  leading : n ≠ 0 → p.str.head? ≠ some 0x30
  value : readDecimal (cString p.str) = some (n.toNat : Int)
  /-- The scan stops at the terminator for zero and at the leading digit otherwise. -/
  stops : ∀ fuel, 12 ≤ fuel →
    ∃ q, trim fuel ⟨fillTemp uintDigit (· / 10) 10 stack n, 10, [], []⟩ = some q ∧
      q.i = (Nat.digits 10 n.toNat).length ∧ q.i ≤ 10
  inside : ∀ x ∈ p.read, 0 ≤ x ∧ x ≤ 10
  size : p.str.length ≤ 11
  fitsFoostr : p.str.length ≤ foostrSize
  fitsLocalstr : p.str.length ≤ localstrSize
  putsUint : ∀ fuel, 12 ≤ fuel → ∀ foostr c,
    putui fuel stack foostr c n =
      some (((c.putch 0x3C).puts (decimalText n.toNat)).putch 0x3E)
  debugsUint : ∀ fuel, 12 ≤ fuel → ∀ localstr port msg,
    debugOutE9MsgValue fuel stack localstr port msg n =
      some (port ++ (cString msg).take 255 ++ [0x20] ++ decimalText n.toNat ++ [0x0A])

/-- `uint2str` returns for every number, and its result is right. -/
theorem printsUint (stack : Int → Byte) (n : Word) :
    ∃ p, (∀ fuel, 12 ≤ fuel → uint2str fuel stack n = some p) ∧ PrintsUint stack n p := by
  obtain ⟨p, hp, hstr, hread⟩ := uint2str_spec stack n
  obtain ⟨q, hq, hqi, hqlen⟩ := uint2str_stops stack n
  have hlen := length_decimalText_le n
  have hsize : p.str.length ≤ 11 := by
    rw [hstr, List.length_append]
    exact Nat.succ_le_succ hlen
  refine ⟨p, hp, ?_⟩
  constructor
  case text => exact hstr
  case zero =>
    intro hn
    rw [hstr, hn]
    decide
  case leading =>
    intro hn
    rw [hstr]
    exact head?_decimalText_ne_zero (Nat.pos_of_ne_zero fun h => hn (BitVec.eq_of_toNat_eq h)) [0]
  case value => rw [hstr, cString_append_zero (decimalText_ne_zero _), readDecimal_decimalText]
  case stops => exact fun fuel hfuel => ⟨q, hq fuel hfuel, hqi, hqlen⟩
  case inside => exact hread
  case size => exact hsize
  case fitsFoostr => exact Nat.le_trans hsize (by decide)
  case fitsLocalstr => exact Nat.le_trans hsize (by decide)
  case putsUint => exact fun fuel hfuel => putui_eq (hp fuel hfuel) hstr
  case debugsUint => exact fun fuel hfuel => debugOutE9MsgValue_eq (hp fuel hfuel) hstr

/-- The largest number takes all eleven bytes. -/
example : (uint2str 12 (fun _ => 0) 0xFFFFFFFF).map (·.str.length) = some 11 := by decide +kernel

end TeachingKernel.Display
