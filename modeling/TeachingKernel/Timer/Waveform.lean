import Mathlib.Algebra.GroupWithZero.Nat
import Mathlib.Logic.Function.Iterate
import TeachingKernel.Timer.IntervalTimer

/-!
# The output of the interval timer

The many clocks at once of the simulator are as many single clocks, output changes
included. A counter loaded with `n` pulls its output down for one clock in every `n`.
-/

namespace TeachingKernel.Timer

namespace Counter

/-- The count as the number of clocks it stands for: zero is the longest one. -/
def fullCount (n : Nat) : Nat := if n = 0 then 0x10000 else n

structure Loaded (c : Counter) : Prop where
  gate : c.gate = true
  trigger : c.triggerGate = false
  binary : c.bcdMode = false
  written : c.countWritten = true
  valid : c.inlatch ≠ 1

structure Loading (c : Counter) : Prop where
  loaded : c.Loaded
  first : c.firstPass = true
  next : c.nextChangeTime = 1

/-- `r` clocks are left until the initial value is taken over again. -/
structure Counting (c : Counter) (r : Nat) : Prop where
  loaded : c.Loaded
  first : c.firstPass = false
  out : c.outPin = true
  lower : 2 ≤ r
  upper : r ≤ 0x10000
  count_eq : c.count = r % 0x10000
  binary_eq : c.countBinary = r % 0x10000
  next : c.nextChangeTime = r - 1

def leave (c : Counter) (r : Nat) : Counter :=
  { c with count := r % 0x10000, countBinary := r % 0x10000, nextChangeTime := r - 1 }

def down (c : Counter) : Counter :=
  { c with
    count := 1
    countBinary := 1
    nextChangeTime := 1
    outPin := false
    changes := c.changes ++ [false]
    firstPass := true }

variable {c : Counter} {r k n : Nat}

@[simp] theorem outPin_leave (c : Counter) (r : Nat) : (c.leave r).outPin = c.outPin := rfl
@[simp] theorem changes_leave (c : Counter) (r : Nat) : (c.leave r).changes = c.changes := rfl

theorem Counting.leave (h : c.Counting r) (hlower : 2 ≤ k) (hupper : k ≤ r) :
    (c.leave k).Counting k :=
  ⟨⟨h.loaded.gate, h.loaded.trigger, h.loaded.binary, h.loaded.written, h.loaded.valid⟩, h.first,
    h.out, hlower, Nat.le_trans hupper h.upper, rfl, rfl, rfl⟩

theorem Counting.eq_leave (h : c.Counting r) : c.leave r = c := by
  obtain ⟨-, -, -, -, -, hcount, hbinary, hnext⟩ := h
  cases c
  simp only [Counter.leave] at hcount hbinary hnext ⊢
  rw [hcount, hbinary, hnext]

theorem Counting.down_loading (h : c.Counting r) : c.down.Loading :=
  ⟨⟨h.loaded.gate, h.loaded.trigger, h.loaded.binary, h.loaded.written, h.loaded.valid⟩, rfl, rfl⟩

/-! ## Single clocks -/

theorem decrement_eq (hbinary : c.bcdMode = false) (hsame : c.countBinary = c.count)
    (hcount : c.count = r % 0x10000) (hpos : 1 ≤ r) (hupper : r ≤ 0x10000) :
    c.decrement = { c with count := r - 1, countBinary := r - 1 } := by
  by_cases hzero : c.count = 0
  · have hr : r = 0x10000 := by omega
    subst hr
    rw [decrement, if_pos hzero, hbinary]
    rfl
  · have hr : r % 0x10000 = r := Nat.mod_eq_of_lt (by omega)
    rw [decrement, if_neg hzero, setCountToBinary]
    dsimp only
    rw [hbinary, if_neg Bool.false_ne_true, hsame, hcount, hr]

theorem Counting.clock (h : c.Counting r) (hr : 3 ≤ r) : c.clock = c.leave (r - 1) := by
  have hupper := h.upper
  have hdec := decrement_eq h.loaded.binary (h.binary_eq.trans h.count_eq.symm) h.count_eq
    (by omega) h.upper
  have hmod : (r - 1) % 0x10000 = r - 1 := Nat.mod_eq_of_lt (by omega)
  rw [Counter.clock, h.loaded.written, h.loaded.trigger, h.first, h.loaded.gate, hdec,
    Counter.leave, hmod]
  simp only [if_true, Bool.false_eq_true, or_self, if_false]
  rw [if_neg (by omega), lowPred, show (r - 1 + 0xFFFF) % 0x10000 = r - 1 - 1 by omega,
    ← h.loaded.trigger]

theorem clock_two (h : c.Loaded) (hfirst : c.firstPass = false) (hout : c.outPin = true)
    (hcount : c.count = 2) (hbinary : c.countBinary = 2) : c.clock = c.down := by
  have hdec := decrement_eq (r := 2) h.binary (hbinary.trans hcount.symm) hcount (by omega)
    (by omega)
  rw [Counter.clock, h.written, h.trigger, hfirst, h.gate, hdec, down]
  simp only [if_true, Bool.false_eq_true, or_self, if_false, setOut]
  rw [if_pos (by rw [hout]; decide), ← h.trigger]

def reload (c : Counter) : Counter :=
  { (c.leave (fullCount c.inlatch.toNat)).setOut true with firstPass := false }

theorem Loading.clock (h : c.Loading) : c.clock = c.reload := by
  have hlt := c.inlatch.isLt
  have hfull : fullCount c.inlatch.toNat % 0x10000 = c.inlatch.toNat ∧
      fullCount c.inlatch.toNat - 1 = lowPred c.inlatch.toNat := by
    unfold fullCount lowPred
    split <;> omega
  have hset : c.setCount c.inlatch.toNat =
      { c with count := c.inlatch.toNat, countBinary := c.inlatch.toNat } := by
    rw [setCount, setBinaryToCount]
    dsimp only
    rw [h.loaded.binary, if_neg Bool.false_ne_true, Nat.mod_eq_of_lt hlt]
  rw [Counter.clock, h.loaded.written, h.loaded.trigger, h.first, hset, reload, Counter.leave,
    hfull.1, hfull.2]
  simp only [if_true, or_true]
  unfold setOut
  split
  · rw [← h.loaded.trigger]
  · rw [← h.loaded.trigger]

theorem Loading.reload_counting (h : c.Loading) :
    c.reload.Counting (fullCount c.inlatch.toNat) := by
  have hlt := c.inlatch.isLt
  have hne : c.inlatch.toNat ≠ 1 := fun heq => h.loaded.valid (BitVec.eq_of_toNat_eq heq)
  have hbounds : 2 ≤ fullCount c.inlatch.toNat ∧ fullCount c.inlatch.toNat ≤ 0x10000 := by
    unfold fullCount
    split <;> omega
  have hfields : c.reload.Loaded ∧ c.reload.outPin = true := by
    unfold reload setOut
    split
    · exact ⟨⟨h.loaded.gate, h.loaded.trigger, h.loaded.binary, h.loaded.written,
        h.loaded.valid⟩, rfl⟩
    · rename_i hout
      refine ⟨⟨h.loaded.gate, h.loaded.trigger, h.loaded.binary, h.loaded.written,
        h.loaded.valid⟩, ?_⟩
      simpa using hout
  refine ⟨hfields.1, rfl, hfields.2, hbounds.1, hbounds.2, ?_, ?_, ?_⟩
  · unfold reload setOut
    split <;> rfl
  · unfold reload setOut
    split <;> rfl
  · unfold reload setOut
    split <;> rfl

theorem Counting.iterate (h : c.Counting r) (hk : k + 2 ≤ r) :
    Counter.clock^[k] c = c.leave (r - k) := by
  induction k generalizing c r with
  | zero => exact h.eq_leave.symm
  | succ k ih =>
      rw [Function.iterate_succ_apply, h.clock (by omega)]
      have hnext := ih (h.leave (k := r - 1) (by omega) (by omega)) (by omega)
      rw [hnext, show r - 1 - k = r - (k + 1) by omega]
      rfl

theorem Counting.iterate_down (h : c.Counting r) : Counter.clock^[r - 1] c = c.down := by
  have hlower := h.lower
  obtain ⟨k, rfl⟩ : ∃ k, r = k + 2 := ⟨r - 2, by omega⟩
  have hk := h.iterate (k := k) (Nat.le_refl _)
  have hleft := h.leave (k := 2) (Nat.le_refl _) (by omega)
  rw [show k + 2 - 1 = k + 1 by omega, Function.iterate_succ_apply', hk,
    show k + 2 - k = 2 by omega,
    clock_two hleft.loaded hleft.first hleft.out rfl rfl]
  rfl

/-! ## Many clocks at once -/

theorem decrementLoop_of_le {m fuel : Nat} (hbinary : c.bcdMode = false) (hm : c.countBinary = m)
    (hle : k ≤ m) (hpos : 1 ≤ k) :
    decrementLoop (fuel + 1) c k = { c with count := m - k, countBinary := m - k } := by
  rw [decrementLoop, if_neg (by omega), if_pos (by omega), setCountToBinary]
  dsimp only
  rw [hbinary, if_neg Bool.false_ne_true, hm]

theorem Counting.decrementMultiple (h : c.Counting r) (hk : k + 1 ≤ r) : c.decrementMultiple k =
    { c with count := (r - k) % 0x10000, countBinary := (r - k) % 0x10000 } := by
  have hupper := h.upper
  rcases Nat.eq_zero_or_pos k with rfl | hpos
  · rw [Nat.sub_zero, ← h.count_eq]
    obtain ⟨-, -, -, -, -, hcount, hbinary, -⟩ := h
    cases c
    simp only at hcount hbinary
    rw [hcount, hbinary]
    rfl
  obtain ⟨fuel, rfl⟩ : ∃ fuel, k = fuel + 1 := ⟨k - 1, by omega⟩
  rw [Counter.decrementMultiple]
  by_cases hr : r = 0x10000
  · -- the count of zero wraps with the first clock
    have hzero : c.countBinary = 0 := by
      rw [h.binary_eq, hr]
    have hwrap : ({ c with countBinary := 0 }.setCountToBinary.decrement) =
        { c with count := 0xFFFF, countBinary := 0xFFFF } := by
      rw [setCountToBinary]
      dsimp only
      rw [h.loaded.binary, if_neg Bool.false_ne_true, decrement, if_pos rfl,
        if_neg Bool.false_ne_true]
    rw [decrementLoop, if_neg (by omega), if_neg (by omega), hzero, hwrap, hr,
      Nat.mod_eq_of_lt (by omega)]
    rcases Nat.eq_zero_or_pos fuel with rfl | hfuel
    · rfl
    · obtain ⟨rest, rfl⟩ : ∃ rest, fuel = rest + 1 := ⟨fuel - 1, by omega⟩
      rw [decrementLoop_of_le (c := { c with count := 0xFFFF, countBinary := 0xFFFF })
        (m := 0xFFFF) h.loaded.binary rfl (by omega) (by omega)]
      rw [show 0xFFFF - (rest + 1 + 1 - (0 + 1)) = 0x10000 - (rest + 1 + 1) by omega]
  · have hmod : r % 0x10000 = r := Nat.mod_eq_of_lt (by omega)
    rw [decrementLoop_of_le h.loaded.binary (h.binary_eq.trans hmod) (by omega) (by omega),
      Nat.mod_eq_of_lt (by omega)]

inductive Regular (c : Counter) : Prop
  | unwritten (written : c.countWritten = false) (trigger : c.triggerGate = false)
      (next : c.nextChangeTime ≤ 1)
  | loading (h : c.Loading)
  | counting (r : Nat) (h : c.Counting r)

theorem clock_unwritten (written : c.countWritten = false) (trigger : c.triggerGate = false) :
    c.clock = { c with nextChangeTime := 0 } := by
  rw [Counter.clock, written, if_neg Bool.false_ne_true, ← trigger]

theorem clockLoop_eq {fuel : Nat} (h : c.Regular) (hfuel : n ≤ fuel) :
    clockLoop fuel c n = Counter.clock^[n] c := by
  induction fuel generalizing c n with
  | zero =>
      obtain rfl : n = 0 := by omega
      rfl
  | succ fuel ih =>
      rw [clockLoop]
      rcases Nat.eq_zero_or_pos n with rfl | hpos
      · rfl
      rw [if_neg (by omega)]
      -- with one clock to the next change nothing is counted in between
      have hone : c.nextChangeTime = 1 → c.clock.Regular →
          clockLoop fuel (c.decrementMultiple (c.nextChangeTime - 1)).clock
            (n - c.nextChangeTime) = Counter.clock^[n] c := by
        intro hnext hregular
        obtain ⟨m, rfl⟩ : ∃ m, n = m + 1 := ⟨n - 1, by omega⟩
        rw [hnext, Function.iterate_succ_apply]
        exact ih hregular (by omega)
      cases h with
      | unwritten written trigger next =>
          have hclock := clock_unwritten written trigger
          by_cases hzero : c.nextChangeTime = 0
          · have hfix : c.clock = c := by
              rw [hclock, ← hzero]
            rw [if_pos hzero, if_neg (by rw [written]; simp), Function.iterate_fixed hfix]
          · rw [if_neg hzero, if_neg (by omega)]
            refine hone (by omega) ?_
            rw [hclock]
            exact .unwritten written trigger (Nat.zero_le 1)
      | loading h =>
          have hclock := h.clock
          rw [if_neg (by rw [h.next]; decide), if_neg (by rw [h.next]; omega)]
          refine hone h.next ?_
          rw [hclock]
          exact .counting _ h.reload_counting
      | counting r h =>
          have hlower := h.lower
          have hnext := h.next
          rw [if_neg (by omega)]
          by_cases hlong : c.nextChangeTime > n
          · rw [if_pos hlong, h.decrementMultiple (by omega), h.iterate (by omega), Counter.leave,
              hnext, show r - 1 - n = r - n - 1 by omega]
          · rw [if_neg hlong, h.decrementMultiple (by omega),
              show (r - (c.nextChangeTime - 1)) % 0x10000 = 2 by omega]
            have htwo : ({ c with count := 2, countBinary := 2 } : Counter).clock = c.down :=
              clock_two ⟨h.loaded.gate, h.loaded.trigger, h.loaded.binary, h.loaded.written,
                h.loaded.valid⟩ h.first h.out rfl rfl
            rw [htwo, ih (.loading h.down_loading) (by omega), ← h.iterate_down,
              ← Function.iterate_add_apply,
              show n - c.nextChangeTime + (r - 1) = n by omega]

/-- Counting many clocks at once is counting them one by one. -/
theorem clockMultiple_eq (h : c.Regular) (n : Nat) : c.clockMultiple n = Counter.clock^[n] c :=
  clockLoop_eq h (Nat.le_refl n)

theorem Regular.clock (h : c.Regular) : c.clock.Regular := by
  cases h with
  | unwritten written trigger next =>
      rw [clock_unwritten written trigger]
      exact .unwritten written trigger (Nat.zero_le 1)
  | loading h =>
      rw [h.clock]
      exact .counting _ h.reload_counting
  | counting r h =>
      have hlower := h.lower
      rcases Nat.lt_or_ge r 3 with htwo | hlong
      · obtain rfl : r = 2 := by omega
        rw [clock_two h.loaded h.first h.out h.count_eq h.binary_eq]
        exact .loading h.down_loading
      · rw [h.clock hlong]
        exact .counting _ (h.leave (by omega) (by omega))

theorem Regular.iterate (h : c.Regular) (n : Nat) : (Counter.clock^[n] c).Regular := by
  induction n generalizing c with
  | zero => exact h
  | succ n ih => exact ih h.clock

/-- In whatever portions the clocks are counted. -/
theorem foldl_clockMultiple (h : c.Regular) (portions : List Nat) :
    portions.foldl clockMultiple c = Counter.clock^[portions.sum] c := by
  induction portions generalizing c with
  | nil => rfl
  | cons n rest ih =>
      rw [List.foldl_cons, clockMultiple_eq h, ih (h.iterate n), ← Function.iterate_add_apply,
        List.sum_cons, Nat.add_comm]

/-! ## Periods -/

theorem reload_inlatch (c : Counter) : c.reload.inlatch = c.inlatch := by
  unfold reload setOut
  split <;> rfl

theorem reload_changes (c : Counter) :
    c.reload.changes = c.changes ++ if c.outPin then [] else [true] := by
  unfold reload setOut
  by_cases h : c.outPin = true
  · rw [if_neg (by rw [show (c.leave _).outPin = c.outPin from rfl, h]; decide), if_pos h,
      List.append_nil]
    rfl
  · rw [if_pos (by rw [show (c.leave _).outPin = c.outPin from rfl]; exact h), if_neg h]
    rfl

theorem Loading.iterate (h : c.Loading) (hpos : 1 ≤ k) (hk : k < fullCount c.inlatch.toNat) :
    Counter.clock^[k] c = c.reload.leave (fullCount c.inlatch.toNat - (k - 1)) := by
  obtain ⟨m, rfl⟩ : ∃ m, k = m + 1 := ⟨k - 1, by omega⟩
  rw [Function.iterate_succ_apply, h.clock, h.reload_counting.iterate (by omega),
    Nat.add_sub_cancel]

theorem Loading.iterate_period (h : c.Loading) :
    Counter.clock^[fullCount c.inlatch.toNat] c = c.reload.down := by
  have hcounting := h.reload_counting
  have hlower := hcounting.lower
  have hdown := hcounting.iterate_down
  rw [← h.clock, ← Function.iterate_succ_apply] at hdown
  rwa [show (fullCount c.inlatch.toNat - 1).succ = fullCount c.inlatch.toNat by omega,
    h.clock] at hdown

/-- After whole periods the initial value is taken over again, and the output has gone
down once in each of them. -/
theorem Loading.iterate_periods (h : c.Loading) (q : Nat) :
    (Counter.clock^[q * fullCount c.inlatch.toNat] c).Loading ∧
      (Counter.clock^[q * fullCount c.inlatch.toNat] c).inlatch = c.inlatch ∧
      (Counter.clock^[q * fullCount c.inlatch.toNat] c).outPin = (c.outPin && decide (q = 0)) ∧
      (Counter.clock^[q * fullCount c.inlatch.toNat] c).changes.count false =
        c.changes.count false + q := by
  induction q with
  | zero => simp [h]
  | succ q ih =>
      obtain ⟨hloading, hlatch, -, hcount⟩ := ih
      have hperiod := hloading.iterate_period
      rw [hlatch, ← Function.iterate_add_apply, Nat.add_comm, ← Nat.succ_mul] at hperiod
      rw [hperiod]
      refine ⟨hloading.reload_counting.down_loading, ?_, ?_, ?_⟩
      · exact (reload_inlatch _).trans hlatch
      · simp [down]
      · rw [down, List.count_append, reload_changes, List.count_append, hcount]
        split <;> simp <;> omega

theorem eq_mod_add_periods (n N : Nat) : n = n % N + n / N * N := by
  rw [Nat.mul_comm]
  exact (Nat.mod_add_div n N).symm

theorem Loading.iterate_within (h : c.Loading) (hpos : 0 < n % fullCount c.inlatch.toNat) :
    Counter.clock^[n] c =
      (Counter.clock^[n / fullCount c.inlatch.toNat * fullCount c.inlatch.toNat] c).reload.leave
        (fullCount c.inlatch.toNat - (n % fullCount c.inlatch.toNat - 1)) := by
  have hlower := h.reload_counting.lower
  obtain ⟨hloading, hlatch, -⟩ := h.iterate_periods (n / fullCount c.inlatch.toNat)
  have hlt := Nat.mod_lt n (show 0 < fullCount c.inlatch.toNat by omega)
  have hmid := hloading.iterate hpos (by rwa [hlatch])
  rw [hlatch, ← Function.iterate_add_apply, ← eq_mod_add_periods] at hmid
  exact hmid

/-- The output is down after whole periods and up otherwise. -/
theorem Loading.outPin_iterate (h : c.Loading) (hout : c.outPin = true) (n : Nat) :
    (Counter.clock^[n] c).outPin = decide (n = 0 ∨ n % fullCount c.inlatch.toNat ≠ 0) := by
  have hlower := h.reload_counting.lower
  obtain ⟨hloading, -, hdown, -⟩ := h.iterate_periods (n / fullCount c.inlatch.toNat)
  rcases Nat.eq_zero_or_pos (n % fullCount c.inlatch.toNat) with hzero | hpos
  · have hsplit := eq_mod_add_periods n (fullCount c.inlatch.toNat)
    rw [hzero, Nat.zero_add] at hsplit
    rw [← hsplit, hout, Bool.true_and] at hdown
    rw [hdown]
    simp only [hzero, ne_eq, not_true, or_false]
    congr 1
    rw [Nat.div_eq_zero_iff]
    apply propext
    constructor
    · intro hdiv
      rcases hdiv with hdiv | hdiv
      · omega
      · rwa [Nat.mod_eq_of_lt hdiv] at hzero
    · intro hn
      right
      omega
  · rw [h.iterate_within hpos, outPin_leave, hloading.reload_counting.out, eq_comm,
      decide_eq_true_eq]
    right
    omega

theorem Loading.count_iterate (h : c.Loading) (n : Nat) :
    (Counter.clock^[n] c).changes.count false =
      c.changes.count false + n / fullCount c.inlatch.toNat := by
  obtain ⟨-, -, -, hcount⟩ := h.iterate_periods (n / fullCount c.inlatch.toNat)
  rcases Nat.eq_zero_or_pos (n % fullCount c.inlatch.toNat) with hzero | hpos
  · have hsplit := eq_mod_add_periods n (fullCount c.inlatch.toNat)
    rw [hzero, Nat.zero_add] at hsplit
    rwa [← hsplit] at hcount
  · rw [h.iterate_within hpos, ← hcount, changes_leave, reload_changes, List.count_append]
    split <;> simp

end Counter

end TeachingKernel.Timer
