import Mathlib.Tactic.IntervalCases
import Mathlib.Tactic.Linarith
import TeachingKernel.Timer.Waveform

/-!
# The frequency of the timer

`SimpleTimer::set_frequency` hands its divisor to the chip in two bytes, and the chip
counts modulo `2 ^ 16`. So the output falls once in every `divisor` clocks exactly for
the divisors that fit, and for no frequency below 19 Hz.
-/

namespace TeachingKernel.Timer

namespace Counter

def setFrequency (c : Counter) (hz : Int) : Option Counter :=
  (SimpleTimer.setFrequency hz).map fun writes => writes.foldl (fun c w => c.write w.1 w.2) c

variable {c : Counter} {hz : Int}

/-- The two bytes of the divisor come together again. -/
theorem bytes_of_divisor (d : Int) :
    (BitVec.ofInt 8 d).setWidth 16 ||| ((BitVec.ofInt 8 (d / 256)).setWidth 16 <<< 8) =
      BitVec.ofInt 16 d := by
  have hlow : (d % 256).toNat < 2 ^ 8 := by omega
  have hhigh : (d / 256 % 256).toNat < 2 ^ 8 := by omega
  apply BitVec.eq_of_toNat_eq
  rw [BitVec.toNat_or, BitVec.toNat_shiftLeft, BitVec.toNat_setWidth, BitVec.toNat_setWidth,
    BitVec.toNat_ofInt, BitVec.toNat_ofInt, BitVec.toNat_ofInt]
  rw [show ((2 ^ 8 : Nat) : Int) = 256 from rfl, show ((2 ^ 16 : Nat) : Int) = 65536 from rfl,
    Nat.mod_eq_of_lt (show (d % 256).toNat < 2 ^ 16 by omega),
    Nat.mod_eq_of_lt (show (d / 256 % 256).toNat < 2 ^ 16 by omega)]
  rw [Nat.shiftLeft_eq, Nat.mod_eq_of_lt (by omega), Nat.or_comm, ← Nat.shiftLeft_eq,
    ← Nat.shiftLeft_add_eq_or_of_lt hlow, Nat.shiftLeft_eq]
  omega

theorem program_rateGenerator (c : Counter) :
    c.program 0x34#8 = { ({ c with
      inlatch := 0
      countWritten := false
      firstPass := true
      bcdMode := false
      mode := 2
      writeState := .lsByteMultiple } : Counter).setOut true with nextChangeTime := 0 } := rfl

/-- Whatever the counter did before, it takes over the divisor next. -/
theorem setFrequency_eq (hgate : c.gate = true) (htrigger : c.triggerGate = false) (hhz : hz ≠ 0) :
    ∃ c', c.setFrequency hz = some c' ∧ c'.inlatch = BitVec.ofInt 16 (Int.tdiv 1193180 hz) ∧
      c'.outPin = true ∧ c'.clock.outPin = true ∧ (c'.inlatch ≠ 1 → c'.Loading) := by
  obtain ⟨d, hd⟩ : ∃ d, d = Int.tdiv 1193180 hz := ⟨_, rfl⟩
  have hfields : ∃ p, c.program 0x34#8 = p ∧ p.gate = true ∧ p.triggerGate = false ∧
      p.bcdMode = false ∧ p.countWritten = false ∧ p.firstPass = true ∧ p.mode = 2 ∧
      p.writeState = .lsByteMultiple ∧ p.outPin = true := by
    refine ⟨_, program_rateGenerator c, ?_⟩
    unfold setOut
    split
    · exact ⟨hgate, htrigger, rfl, rfl, rfl, rfl, rfl, rfl⟩
    · rename_i hout
      refine ⟨hgate, htrigger, rfl, rfl, rfl, rfl, rfl, ?_⟩
      simpa using hout
  obtain ⟨p, hp, hg, ht, hb, hw, hf, hm, hs, ho⟩ := hfields
  have hlow : ∀ b, p.writeCount b =
      { p with inlatch := b.setWidth 16, writeState := .msByteMultiple, nextChangeTime := 1 } := by
    intro b
    simp [writeCount, hs, hw, hm]
  have hhigh : ∀ l b, ({ p with
      inlatch := l, writeState := .msByteMultiple, nextChangeTime := 1 } : Counter).writeCount b =
      { p with
        inlatch := l ||| (b.setWidth 16 <<< 8)
        writeState := .lsByteMultiple
        countWritten := true
        count := (l ||| (b.setWidth 16 <<< 8)).toNat % 0x10000
        countBinary := (l ||| (b.setWidth 16 <<< 8)).toNat % 0x10000
        nextChangeTime := 1 } := by
    intro l b
    simp [writeCount, hm, setCount, setBinaryToCount, hb]
  refine ⟨{ p with
    inlatch := BitVec.ofInt 16 d
    writeState := .lsByteMultiple
    countWritten := true
    count := (BitVec.ofInt 16 d).toNat % 0x10000
    countBinary := (BitVec.ofInt 16 d).toNat % 0x10000
    nextChangeTime := 1 }, ?_, ?_, ho, ?_, fun hvalid => ⟨⟨hg, ht, hb, rfl, hvalid⟩, hf, rfl⟩⟩
  · rw [setFrequency, SimpleTimer.setFrequency, if_neg hhz, Option.map_some]
    dsimp only [List.foldl_cons, List.foldl_nil]
    rw [show c.write 0x43 0x34 = p from hp, ← hd]
    rw [show p.write 0x40 (BitVec.ofInt 8 d) = _ from hlow _]
    rw [show ∀ q : Counter, q.write 0x40 (BitVec.ofInt 8 (d / 256)) = q.writeCount _ from
      fun _ => rfl, hhigh, bytes_of_divisor]
  · rw [← hd]
  · simp only [clock, if_true, hf, or_true]
    unfold setOut
    split
    · rfl
    · rename_i hout
      simpa using hout

/-- However the simulator portions the clocks behind `set_frequency`, the counter and
its output are those of single clocks. -/
theorem clocks_in_portions (hgate : c.gate = true) (htrigger : c.triggerGate = false)
    (hhz : hz ≠ 0) (hvalid : BitVec.ofInt 16 (Int.tdiv 1193180 hz) ≠ 1) :
    ∃ c', c.setFrequency hz = some c' ∧ ∀ portions : List Nat,
      portions.foldl clockMultiple c' = Counter.clock^[portions.sum] c' := by
  obtain ⟨c', heq, hlatch, -, -, hloading⟩ := setFrequency_eq hgate htrigger hhz
  exact ⟨c', heq, fun portions =>
    foldl_clockMultiple (.loading (hloading (by rwa [hlatch]))) portions⟩

theorem clocks_in_portions_100 : ∃ c', init.setFrequency 100 = some c' ∧
    ∀ portions : List Nat, portions.foldl clockMultiple c' = Counter.clock^[portions.sum] c' :=
  clocks_in_portions rfl rfl (by decide) (by decide)

/-- The output is down in every `divisor`-th clock and up in all others. -/
def Keeps (c : Counter) (divisor : Nat) : Prop :=
  ∀ n, (Counter.clock^[n] c).outPin = decide (n = 0 ∨ n % divisor ≠ 0)

/-- A valid initial value is kept exactly if it is the divisor. -/
theorem Loading.keeps_iff (h : c.Loading) (hout : c.outPin = true) (d : Nat) :
    c.Keeps d ↔ d = fullCount c.inlatch.toNat := by
  have hlower := h.reload_counting.lower
  have hwave := h.outPin_iterate hout
  constructor
  · intro hkeeps
    have hlow : ∀ n, (n = 0 ∨ n % d ≠ 0) ↔ (n = 0 ∨ n % fullCount c.inlatch.toNat ≠ 0) := by
      intro n
      have hn := (hkeeps n).symm.trans (hwave n)
      exact decide_eq_decide.mp hn
    -- each of the two divides the other
    apply Nat.dvd_antisymm
    · apply Nat.dvd_of_mod_eq_zero
      refine Classical.byContradiction fun hne => ?_
      rcases (hlow _).mp (.inr hne) with hzero | hself
      · omega
      · exact hself (Nat.mod_self _)
    · rcases Nat.eq_zero_or_pos d with rfl | hpos
      · exact Nat.dvd_zero _
      · apply Nat.dvd_of_mod_eq_zero
        refine Classical.byContradiction fun hne => ?_
        rcases (hlow d).mpr (.inr hne) with hzero | hself
        · omega
        · exact hself (Nat.mod_self d)
  · intro heq n
    rw [heq]
    exact hwave n

theorem not_keeps_one (hout : c.clock.outPin = true) : ¬ c.Keeps 1 := by
  intro hkeeps
  have hone := hkeeps 1
  rw [Function.iterate_one, hout] at hone
  simp at hone

/-- From 19 Hz on the divisor fits its two bytes. -/
theorem fullCount_of_fits (hlow : 19 ≤ hz) (hhigh : hz ≤ 596590) :
    BitVec.ofInt 16 (Int.tdiv 1193180 hz) ≠ 1 ∧
      fullCount (BitVec.ofInt 16 (Int.tdiv 1193180 hz)).toNat = (1193180 / hz).toNat := by
  have hpos : 0 ≤ 1193180 / hz := Int.ediv_nonneg (by decide) (by omega)
  obtain ⟨d, hd⟩ : ∃ d : Nat, 1193180 / hz = d := ⟨_, (Int.toNat_of_nonneg hpos).symm⟩
  have h1 := Int.mul_ediv_add_emod 1193180 hz
  have h2 := Int.emod_nonneg 1193180 (show hz ≠ 0 by omega)
  have h3 := Int.emod_lt_of_pos 1193180 (show 0 < hz by omega)
  rw [hd] at h1
  have hupper : (d : Int) ≤ 62798 := by nlinarith
  have hlower : (1 : Int) < d := by nlinarith
  have hnat : (BitVec.ofNat 16 d).toNat = d := by
    rw [BitVec.toNat_ofNat, Nat.mod_eq_of_lt (by omega)]
  rw [Int.tdiv_eq_ediv_of_nonneg (by decide), hd, BitVec.ofInt_natCast, hnat, Int.toNat_natCast]
  refine ⟨fun hone => ?_, by rw [fullCount, if_neg (by omega)]⟩
  rw [hone] at hnat
  exact absurd hnat (by simp; omega)

/-- `set_frequency` has the output fall once in every `divisor` clocks exactly if the
divisor fits its two bytes and is no less than two. -/
theorem setFrequency_keeps_iff (hgate : c.gate = true) (htrigger : c.triggerGate = false)
    (hhz : 1 ≤ hz) : ∃ c', c.setFrequency hz = some c' ∧
      (c'.Keeps (1193180 / hz).toNat ↔ 19 ≤ hz ∧ hz ≤ 596590) := by
  obtain ⟨c', heq, hlatch, hout, hfirst, hloading⟩ := setFrequency_eq hgate htrigger
    (show hz ≠ 0 by omega)
  refine ⟨c', heq, ?_⟩
  by_cases hfits : 19 ≤ hz ∧ hz ≤ 596590
  · obtain ⟨hne, hfull⟩ := fullCount_of_fits hfits.1 hfits.2
    rw [(hloading (by rwa [hlatch])).keeps_iff hout, hlatch]
    exact iff_of_true hfull.symm hfits
  refine iff_of_false (fun hkeeps => ?_) hfits
  have hpos : 0 ≤ 1193180 / hz := Int.ediv_nonneg (by decide) (by omega)
  obtain ⟨d, hd⟩ : ∃ d : Nat, 1193180 / hz = d := ⟨_, (Int.toNat_of_nonneg hpos).symm⟩
  rw [Int.tdiv_eq_ediv_of_nonneg (by decide), hd, BitVec.ofInt_natCast] at hlatch
  rw [hd, Int.toNat_natCast] at hkeeps
  have hnat : c'.inlatch.toNat = d % 65536 := by
    rw [hlatch, BitVec.toNat_ofNat]
  have h1 := Int.mul_ediv_add_emod 1193180 hz
  have h2 := Int.emod_nonneg 1193180 (show hz ≠ 0 by omega)
  have h3 := Int.emod_lt_of_pos 1193180 (show 0 < hz by omega)
  rw [hd] at h1
  by_cases hone : d % 65536 = 1
  · -- the only such divisor is 1
    have hsmall : d = 1 := by
      rcases Int.lt_or_le 18 hz with hbig | hle
      · have : (d : Int) ≤ 62798 := by nlinarith
        omega
      · interval_cases hz <;> omega
    rw [hsmall] at hkeeps
    exact not_keeps_one hfirst hkeeps
  · have hvalid : c'.inlatch ≠ 1 := by
      intro hlatchOne
      rw [hlatchOne] at hnat
      exact hone hnat.symm
    have hfull := ((hloading hvalid).keeps_iff hout d).mp hkeeps
    rw [hnat] at hfull
    have hle : d ≤ 65536 ∧ 2 ≤ d := by
      unfold fullCount at hfull
      split at hfull <;> omega
    rcases Int.lt_or_le hz 19 with hslow | hlow
    · interval_cases hz <;> omega
    · have : hz * 2 ≤ hz * d := by nlinarith
      omega

theorem setFrequency_keeps_iff_100 : ∃ c', init.setFrequency 100 = some c' ∧ c'.Keeps 11931 := by
  obtain ⟨c', hset, hiff⟩ := setFrequency_keeps_iff (show init.gate = true from rfl) rfl
    (show (1 : Int) ≤ 100 by decide)
  exact ⟨c', hset, hiff.mpr (by decide)⟩

end Counter

end TeachingKernel.Timer
