import TeachingKernel.Console.Model
import TeachingKernel.Lib.Numerals
import TeachingKernel.Lib.WhileLoop

/-!
# Numbers as text

The printing functions of `utils.C` (the same in P4, P5 and P6). Each fills an array
`temp` with digits, lowest first, and copies it out from its end. What surrounds the
array on the stack is part of the model, so that an index outside it reads something.
-/

namespace TeachingKernel.Display

open ForLoop WhileLoop Numerals

/-- The local variables of a printing function. `temp` is the stack by offsets from
`&temp[0]`, `read` lists the indices it was read at, and `str` what was stored
through `_str`, in order. -/
structure Printer where
  temp : Int → Byte
  i : Int
  read : List Int
  str : List Byte

/-- `temp[0] = '\0'; for (i = 1; i <= len; i++) { temp[i] = digit(num); num = next(num) }` -/
def fillTemp (digit : Word → Byte) (next : Word → Word) (len : Nat) (stack : Int → Byte)
    (num : Word) : Int → Byte :=
  (forRange 1 (len + 1) (fun i s => (Function.update s.1 (i : Int) (digit s.2), next s.2))
    (Function.update stack 0 0, num)).1

def trim (fuel : Nat) (p : Printer) : Option Printer :=
  (whileLoop (fun p => p.temp p.i == 0x30#8)
    (fun p => { p with i := p.i - 1, read := p.i :: p.read }) fuel p).map
    fun p => { p with read := p.i :: p.read }

/-- `while (i >= 0) *_str++ = temp[i--]` with `back` 0, and with `temp[--i]` for 1. -/
def copyOut (back : Int) (fuel : Nat) (p : Printer) : Option Printer :=
  whileLoop (fun p => decide (0 ≤ p.i))
    (fun p => { p with
      i := p.i - 1
      read := (p.i - back) :: p.read
      str := p.str ++ [p.temp (p.i - back)] }) fuel p

/-- The common text of `int2str` and `uint2str`, which differ in the type of `_num`. -/
def num2str (digit : Word → Byte) (next : Word → Word) (fuel : Nat) (stack : Int → Byte)
    (num : Word) : Option Printer :=
  (trim fuel ⟨fillTemp digit next 10 stack num, 10, [], []⟩).bind fun p =>
    copyOut 0 fuel (if p.i = 0 then { p with i := p.i + 1 } else p)

/-- `_num % 10 + '0'` on `int`, where the remainder is that of division towards zero. -/
def intDigit (num : Word) : Byte := (num.srem 10 + 0x30#32).setWidth 8

def int2str (fuel : Nat) (stack : Int → Byte) (num : Word) : Option Printer :=
  num2str intDigit (fun num => num.sdiv 10) fuel stack num

def uintDigit (num : Word) : Byte := (num % 10 + 0x30#32).setWidth 8

def uint2str (fuel : Nat) (stack : Int → Byte) (num : Word) : Option Printer :=
  num2str uintDigit (· / 10) fuel stack num

def hexDigit (num : Word) : Byte :=
  let digit := num % 16
  if digit < 10 then (digit + 0x30#32).setWidth 8 else (digit - 10 + 0x41#32).setWidth 8

/-- The loop that fills the array leaves `i` at 9. -/
def ulong2hexstr (fuel : Nat) (stack : Int → Byte) (num : Word) : Option Printer :=
  copyOut 1 fuel ⟨fillTemp hexDigit (· / 16) 8 stack num, 9, [], [0x30, 0x78]⟩

/-! ## The three loops -/

theorem toNat_iterate_udiv (d num : Word) (j : Nat) :
    ((fun num : Word => num / d)^[j] num).toNat = num.toNat / d.toNat ^ j := by
  induction j with
  | zero => simp
  | succ j ih =>
      rw [Function.iterate_succ_apply', BitVec.toNat_udiv, ih, Nat.div_div_eq_div_mul, Nat.pow_succ]

section Loops

variable {digit : Word → Byte} {next : Word → Word} {stack : Int → Byte} {num : Word}
  {len k : Nat}

theorem fillTemp_apply (x : Int) :
    fillTemp digit next len stack num x =
      if 1 ≤ x ∧ x ≤ len then digit (next^[x.toNat - 1] num) else if x = 0 then 0 else stack x := by
  have hinv := forRange_invariant
    (P := fun i s => s.2 = next^[i - 1] num ∧ ∀ x : Int, s.1 x =
      if 1 ≤ x ∧ x < (i : Nat) then digit (next^[x.toNat - 1] num)
      else if x = 0 then 0 else stack x)
    (f := fun i s => (Function.update s.1 (i : Int) (digit s.2), next s.2))
    (s := (Function.update stack 0 0, num)) (show 1 ≤ len + 1 by omega)
    ⟨rfl, fun x => ?_⟩ ?_
  · have hx := hinv.2 x
    rw [fillTemp, hx]
    by_cases h : 1 ≤ x ∧ x ≤ len
    · rw [if_pos (by omega), if_pos h]
    · rw [if_neg (by omega), if_neg h]
  · rw [if_neg (show ¬ (1 ≤ x ∧ x < (1 : Nat)) by omega)]
    exact Function.update_apply ..
  · intro i s hi _ hs
    refine ⟨?_, fun x => ?_⟩
    · change next s.2 = _
      rw [hs.1, ← Function.iterate_succ_apply' next]
      congr 1
      omega
    · simp only [Function.update_apply]
      by_cases hx : x = i
      · rw [if_pos hx, if_pos (by omega), hs.1, hx, Int.toNat_natCast]
      · rw [if_neg hx, hs.2]
        have hnext : (1 ≤ x ∧ x < (i + 1 : Nat)) ↔ 1 ≤ x ∧ x < (i : Nat) := by omega
        simp only [hnext]

/-- The scan of `p`'s array before the test of an index from `k` to 10. -/
private structure Scanning (p : Printer) (k : Nat) (q : Printer) : Prop where
  low : (k : Int) ≤ q.i
  high : q.i ≤ 10
  temp : q.temp = p.temp
  str : q.str = p.str
  read : ∀ x ∈ q.read, (k : Int) ≤ x ∧ x ≤ 10

/-- The scan goes down over zeros to an index that holds none. -/
theorem trim_spec {p : Printer} (hi : p.i = 10) (hread : p.read = []) (hk : k ≤ 10)
    (hzero : ∀ x : Int, k < x → x ≤ 10 → p.temp x = 0x30#8) (hstop : p.temp k ≠ 0x30#8) :
    ∃ q, (∀ fuel, 12 ≤ fuel → trim fuel p = some q) ∧ q.i = k ∧ q.temp = p.temp ∧
      q.str = p.str ∧ ∀ x ∈ q.read, (k : Int) ≤ x ∧ x ≤ 10 := by
  have hstep : ∀ q : Printer, Scanning p k q → (q.temp q.i == 0x30#8) = true →
      Scanning p k { q with i := q.i - 1, read := q.i :: q.read } ∧
        (q.i - 1 - k).toNat < (q.i - k).toNat := by
    intro q hq hc
    have hcell : p.temp q.i = 0x30#8 := by
      rw [← hq.temp]
      exact eq_of_beq hc
    have hgt : (k : Int) < q.i := by
      rcases Int.lt_or_eq_of_le hq.low with hlt | heq
      · exact hlt
      · rw [← heq] at hcell
        exact absurd hcell hstop
    have hhigh := hq.high
    refine ⟨⟨Int.le_sub_one_of_lt hgt, ?_, hq.temp, hq.str, ?_⟩, by omega⟩
    · simp only
      omega
    · exact List.forall_mem_cons.mpr ⟨⟨hq.low, hq.high⟩, hq.read⟩
  obtain ⟨q, hq, hend, hrun⟩ := whileLoop_completes (fun q : Printer => q.temp q.i == 0x30#8)
    (fun q => { q with i := q.i - 1, read := q.i :: q.read }) (Scanning p k)
    (fun q => (q.i - k).toNat) hstep (s := p)
    ⟨by omega, by omega, rfl, rfl, by simp [hread]⟩
  have hindex : q.i = k := by
    have hlow := hq.low
    by_contra hne
    rw [hq.temp, hzero q.i (by omega) hq.high] at hend
    exact absurd hend (by decide)
  refine ⟨{ q with read := q.i :: q.read }, fun fuel hfuel => ?_, hindex, hq.temp, hq.str, ?_⟩
  · rw [trim, hrun fuel (by omega), Option.map_some]
  · exact List.forall_mem_cons.mpr ⟨⟨hq.low, hq.high⟩, hq.read⟩

private structure Copying (p : Printer) (back : Int) (k : Nat) (q : Printer) : Prop where
  low : -1 ≤ q.i
  high : q.i ≤ k
  temp : q.temp = p.temp
  str : q.str = p.str ++
    (List.range (k - q.i).toNat).map (fun j : Nat => p.temp (k - j - back))
  read : ∀ x, x ∈ q.read ↔ x ∈ p.read ∨ q.i - back < x ∧ x ≤ k - back

theorem copyOut_spec (back : Int) {p : Printer} (hi : p.i = k) :
    ∃ q, (∀ fuel, k + 1 < fuel → copyOut back fuel p = some q) ∧
      q.str = p.str ++ (List.range (k + 1)).map (fun j : Nat => p.temp (k - j - back)) ∧
      ∀ x, x ∈ q.read ↔ x ∈ p.read ∨ -back ≤ x ∧ x ≤ k - back := by
  have hstep : ∀ q : Printer, Copying p back k q → decide (0 ≤ q.i) = true →
      Copying p back k { q with
          i := q.i - 1
          read := (q.i - back) :: q.read
          str := q.str ++ [q.temp (q.i - back)] } ∧
        (q.i - 1 + 1).toNat < (q.i + 1).toNat := by
    intro q hq hc
    have hpos : 0 ≤ q.i := of_decide_eq_true hc
    have hhigh := hq.high
    refine ⟨⟨Int.le_sub_one_of_lt hpos, ?_, hq.temp, ?_, fun x => ?_⟩, by omega⟩
    · simp only
      omega
    · simp only
      rw [hq.str, hq.temp, show (↑k - (q.i - 1)).toNat = (k - q.i).toNat + 1 by omega,
        List.range_succ, List.map_append, List.append_assoc, List.map_singleton,
        show (k : Int) - ((k - q.i).toNat : Nat) - back = q.i - back by omega]
    · rw [List.mem_cons, hq.read]
      by_cases hx : x ∈ p.read
      · simp [hx]
      · simp only [hx, false_or]
        omega
  obtain ⟨q, hq, hend, hrun⟩ := whileLoop_completes (fun q : Printer => decide (0 ≤ q.i))
    (fun q => { q with
      i := q.i - 1
      read := (q.i - back) :: q.read
      str := q.str ++ [q.temp (q.i - back)] }) (Copying p back k) (fun q => (q.i + 1).toNat) hstep
    (s := p) ⟨by omega, by omega, rfl, by simp [hi], fun x => (or_iff_left (by omega)).symm⟩
  have hlow := hq.low
  have hlast : q.i = -1 := by
    have hneg := of_decide_eq_false hend
    omega
  refine ⟨q, fun fuel hfuel => hrun fuel (by omega), ?_, fun x => ?_⟩
  · rw [hq.str, hlast, show ((k : Int) - -1).toNat = k + 1 by omega]
  · rw [hq.read, hlast]
    exact or_congr_right (by omega)

end Loops

/-- The array after the digit loop: the terminator and the digits of `N` under some glyphs. -/
structure HoldsDigits (temp : Int → Byte) (glyph : Nat → Byte) (N : Nat) : Prop where
  terminator : temp 0 = 0
  digit : ∀ x : Nat, 1 ≤ x → x ≤ 10 → temp x = glyph (N / 10 ^ (x - 1) % 10)

theorem holdsDigits_fillTemp {digit : Word → Byte} {next : Word → Word} (stack : Int → Byte)
    {num : Word} {glyph : Nat → Byte} {N : Nat}
    (hdigit : ∀ j < 10, digit (next^[j] num) = glyph (N / 10 ^ j % 10)) :
    HoldsDigits (fillTemp digit next 10 stack num) glyph N := by
  refine ⟨?_, fun x h1 h10 => ?_⟩
  · rw [fillTemp_apply, if_neg (by omega), if_pos rfl]
  · rw [fillTemp_apply, if_pos (by omega), Int.toNat_natCast, hdigit _ (by omega)]

section

variable {temp : Int → Byte} {glyph : Nat → Byte} {N : Nat}

theorem HoldsDigits.above (h : HoldsDigits temp glyph N) (hzero : glyph 0 = 0x30#8) {x : Int}
    (hx : (Nat.digits 10 N).length < x) (h10 : x ≤ 10) : temp x = 0x30#8 := by
  obtain ⟨y, rfl⟩ := Int.eq_ofNat_of_zero_le (show 0 ≤ x by omega)
  rw [h.digit y (by omega) (by omega), place_eq_zero (by decide) (by omega)]
  exact hzero

theorem HoldsDigits.stop (h : HoldsDigits temp glyph N)
    (hglyph : ∀ d < 10, glyph d = 0x30#8 ↔ d = 0) (hlen : (Nat.digits 10 N).length ≤ 10) :
    temp (Nat.digits 10 N).length ≠ 0x30#8 := by
  rcases Nat.eq_zero_or_pos N with rfl | hpos
  · rw [Nat.digits_zero, List.length_nil, Int.ofNat_zero, h.terminator]
    decide
  · have hlead := leading_place_ne_zero (b := 10) (by decide) hpos
    rw [h.digit _ (digits_length_pos hpos) hlen]
    exact fun he => hlead ((hglyph _ (Nat.mod_lt _ (by decide))).mp he)

/-- What is copied from the leading digit down is the numeral and the terminator. -/
theorem HoldsDigits.text (h : HoldsDigits temp glyph N) (hlen : (Nat.digits 10 N).length ≤ 10) :
    (List.range (max 1 (Nat.digits 10 N).length + 1)).map
        (fun j : Nat => temp ((max 1 (Nat.digits 10 N).length : Nat) - j - 0)) =
      numeral 10 glyph N ++ [0] := by
  rw [numeral_eq_fixedDigits (by decide)]
  generalize (Nat.digits 10 N).length = L at hlen ⊢
  rw [List.range_succ, List.map_append]
  congr 1
  · apply List.ext_getElem (by simp)
    intro j hj _
    have hj' : j < max 1 L := by simpa using hj
    rw [List.getElem_map, List.getElem_range, List.getElem_reverse, List.getElem_map,
      show ((max 1 L : Nat) : Int) - j - 0 = (max 1 L - j : Nat) by omega]
    refine (h.digit _ (by omega) (by omega)).trans ?_
    simp only [fixedDigits, List.length_map, List.length_range, List.getElem_map,
      List.getElem_range]
    rw [show max 1 L - j - 1 = max 1 L - 1 - j by omega]
  · rw [List.map_singleton, show ((max 1 L : Nat) : Int) - (max 1 L : Nat) - 0 = 0 by omega]
    exact congrArg (fun b => [b]) h.terminator

theorem HoldsDigits.trim (h : HoldsDigits temp glyph N)
    (hglyph : ∀ d < 10, glyph d = 0x30#8 ↔ d = 0) (hlen : (Nat.digits 10 N).length ≤ 10) :
    ∃ q, (∀ fuel, 12 ≤ fuel → trim fuel ⟨temp, 10, [], []⟩ = some q) ∧
      q.i = (Nat.digits 10 N).length ∧ q.temp = temp ∧ q.str = [] ∧
      ∀ x ∈ q.read, 0 ≤ x ∧ x ≤ 10 := by
  have hzero : glyph 0 = 0x30#8 := (hglyph 0 (by decide)).mpr rfl
  obtain ⟨q, hq, hqi, hqtemp, hqstr, hqread⟩ := trim_spec (p := ⟨temp, 10, [], []⟩) rfl rfl hlen
    (fun x hx h10 => h.above hzero hx h10) (h.stop hglyph hlen)
  refine ⟨q, hq, hqi, hqtemp, hqstr, fun x hx => ?_⟩
  have hx := hqread x hx
  omega

end

/-- Where the digits stored are those of `N` under some glyphs, of which only that of
zero is `'0'`, the result is the numeral of `N` with those glyphs. -/
theorem num2str_spec {digit : Word → Byte} {next : Word → Word} (stack : Int → Byte) {num : Word}
    {glyph : Nat → Byte} {N : Nat} (hN : N < 10 ^ 10)
    (hglyph : ∀ d < 10, glyph d = 0x30#8 ↔ d = 0)
    (hdigit : ∀ j < 10, digit (next^[j] num) = glyph (N / 10 ^ j % 10)) :
    ∃ p, (∀ fuel, 12 ≤ fuel → num2str digit next fuel stack num = some p) ∧
      p.str = numeral 10 glyph N ++ [0] ∧ ∀ x ∈ p.read, 0 ≤ x ∧ x ≤ 10 := by
  have hlen : (Nat.digits 10 N).length ≤ 10 := (Nat.digits_length_le_iff (by decide) N).mpr hN
  have hdigits := holdsDigits_fillTemp stack hdigit
  obtain ⟨q, hq, hqi, hqtemp, hqstr, hqread⟩ := hdigits.trim hglyph hlen
  -- a scan that went down to the terminator takes one step back up
  let r : Printer := if q.i = 0 then { q with i := q.i + 1 } else q
  have hr : r.i = (max 1 (Nat.digits 10 N).length : Nat) ∧ r.temp = q.temp ∧ r.str = q.str ∧
      r.read = q.read := by
    by_cases h : q.i = 0
    · simp only [r, if_pos h, and_self, and_true]
      omega
    · simp only [r, if_neg h, and_self, and_true]
      omega
  obtain ⟨p, hp, hpstr, hpread⟩ := copyOut_spec 0 hr.1
  refine ⟨p, fun fuel hfuel => ?_, ?_, fun x hx => ?_⟩
  · rw [num2str, hq fuel hfuel]
    exact hp fuel (by omega)
  · rw [hpstr, hr.2.1, hr.2.2.1, hqtemp, hqstr, List.nil_append]
    exact hdigits.text hlen
  · rcases (hpread x).mp hx with hx | hx
    · exact hqread x (by rwa [← hr.2.2.2])
    · omega

end TeachingKernel.Display
