import TeachingKernel.FramePool.History
import TeachingKernel.FramePool.SharedMemory

/-!
# Which pool a release reaches

Pools are built one after the other, between calls on those already there, and
the static `release_frames` asks them in that order. A pool manages up to three
frames more than it was built for, so a later pool that begins there does not
see its own region released. The bitmaps of the pools share no byte.
-/

namespace TeachingKernel.FramePool

open PackedPairs ContFramePool Runs

structure Declared where
  memory : Bytes
  base : Word
  n : Word
  info : Word
  nInfo : Word

namespace Declared

def construct (d : Declared) : Option ContFramePool :=
  ContFramePool.construct d.memory d.base d.n d.info d.nInfo

def range (d : Declared) : Span := ⟨d.base.toNat, d.n.toNat⟩

/-- The frames that rounding adds behind them. -/
def tail (d : Declared) : Span :=
  ⟨d.base.toNat + d.n.toNat, (roundUp4 d.n).toNat - d.n.toNat⟩

end Declared

structure Holdings where
  declared : List Declared
  pools : List ContFramePool
  live : Nat → List Span
  inaccessible : Nat → List Nat

namespace Holdings

def empty : Holdings := ⟨[], [], fun _ => [], fun _ => []⟩

def ledger (s : Holdings) (k : Nat) : Ledger := ⟨s.pools, s.live k, s.inaccessible k⟩

end Holdings

inductive HoldingOp where
  | build (d : Declared)
  | call (k : Nat) (op : PoolOp)

/-- Another pool is built on frames that no pool was built for, while the array
`pools` has room, or a call is made on pool `k`. -/
inductive HoldingStep : Holdings → HoldingOp → Holdings → Prop
  | build {s : Holdings} {d : Declared} {p : ContFramePool} (hroom : s.pools.length < 8)
      (hapart : ∀ d' ∈ s.declared, Span.Apart d'.range d.range) (hp : d.construct = some p) :
      HoldingStep s (.build d)
        { declared := s.declared ++ [d]
          pools := s.pools ++ [p]
          live := s.live
          inaccessible :=
            Function.update s.inaccessible s.pools.length (Ledger.start [] p).inaccessible }
  | call {s : Holdings} {k : Nat} {op : PoolOp} {t : Ledger} (h : PoolStep k (s.ledger k) op t) :
      HoldingStep s (.call k op)
        { s with
          pools := t.pools
          live := Function.update s.live k t.live
          inaccessible := Function.update s.inaccessible k t.inaccessible }

/-- Frame numbers do not wrap around, a new bitmap lies apart from those there are, a
search finds its free frames next to each other, and a released frame belongs to the
first pool that manages it. -/
def Undisturbed (s : Holdings) : HoldingOp → Prop
  | .build d => d.base.toNat + (roundUp4 d.n).toNat < 2 ^ 32 ∧
      ∀ p, d.construct = some p → ∀ q ∈ s.pools, Extent.BitmapsApart q.extent p.extent
  | .call k (.get n) => FindsContiguous k (s.ledger k) (.get n)
  | .call _ (.mark _ _) => True
  | .call k (.release f) => ∀ j q, j < k → s.pools[j]? = some q → ¬ q.Manages f

structure Balanced (s : Holdings) : Prop where
  length_eq : s.pools.length = s.declared.length
  built : ∀ (k : Nat) (p : ContFramePool) (d : Declared), s.pools[k]? = some p →
    s.declared[k]? = some d →
    p.baseFrameNo = d.base ∧ p.nframes = roundUp4 d.n ∧
      d.base.toNat + (roundUp4 d.n).toNat < 2 ^ 32
  apart : s.declared.Pairwise fun d d' => Span.Apart d.range d'.range
  bitmaps : (s.pools.map extent).Pairwise Extent.BitmapsApart
  accounts : ∀ k p, s.pools[k]? = some p → Accounts p (s.ledger k)
  owned : ∀ k r, r ∈ s.live k → k < s.pools.length

section

variable {s t : Ledger} {k : Nat} {p : ContFramePool}

theorem Accounts.of_eq (h : Accounts p s) (hlive : t.live = s.live)
    (hinacc : t.inaccessible = s.inaccessible) : Accounts p t := by
  refine ⟨hlive ▸ h.disjoint, hlive ▸ h.inside, ?_, fun i hi => ?_⟩
  · rw [hlive, hinacc]
    exact h.accessible
  · rw [h.encodes i hi, Ledger.codeOf, Ledger.codeOf, hlive, hinacc]

/-- A call on pool `k` that nothing disturbs changes that pool only. -/
theorem Accounts.step {op : PoolOp} (hrange : p.baseFrameNo.toNat + p.nframes.toNat < 2 ^ 32)
    (hk : s.pools[k]? = some p) (hs : Accounts p s) (hstep : PoolStep k s op t)
    (hget : FindsContiguous k s op)
    (hhome : ∀ f, op = .release f → ∀ j q, j < k → s.pools[j]? = some q → ¬ q.Manages f) :
    ∃ p', t.pools = s.pools.set k p' ∧ p'.extent = p.extent ∧ Accounts p' t := by
  cases hstep with
  | @get q p' n f hq hn hcall =>
      cases hk.symm.trans hq
      obtain ⟨-, -, -, hext, -⟩ := getFrames_spec hn hcall
      exact ⟨p', rfl, hext, hs.get hrange hn hcall (hget p hk)⟩
  | @mark q p' b n hq hlo hhi hfree hcall =>
      cases hk.symm.trans hq
      exact ⟨p', rfl, (codes_markInaccessible hcall).1, hs.mark hlo hhi hfree hcall⟩
  | @release r f pools' hr hf hcall =>
      obtain ⟨hmanages, p', hp', hfrees⟩ := hs.releaseFrame hrange hr hf
      have heq := releaseFrames_eq hk hmanages (hhome f rfl) hp'
      cases hcall.symm.trans heq
      exact ⟨p', rfl, hfrees.extent_eq, hs.of_frees hr hfrees⟩

end

/-! ## Runs -/

namespace Balanced

variable {s t : Holdings} {k : Nat}

theorem declared_of_pool (h : Balanced s) {k : Nat} {p : ContFramePool}
    (hk : s.pools[k]? = some p) : ∃ d, s.declared[k]? = some d := by
  have hlt := (List.getElem?_eq_some_iff.mp hk).1
  rw [h.length_eq] at hlt
  exact ⟨_, List.getElem?_eq_getElem hlt⟩

theorem range (h : Balanced s) {k : Nat} {p : ContFramePool} (hk : s.pools[k]? = some p) :
    p.baseFrameNo.toNat + p.nframes.toNat < 2 ^ 32 := by
  obtain ⟨d, hd⟩ := h.declared_of_pool hk
  obtain ⟨hbase, hsize, hrange⟩ := h.built k p d hk hd
  rwa [hbase, hsize]

theorem pools_concat_cases {pools : List ContFramePool} {p q : ContFramePool}
    (hq : (pools ++ [p])[k]? = some q) :
    pools[k]? = some q ∧ k ≠ pools.length ∨ k = pools.length ∧ q = p := by
  rw [List.getElem?_append] at hq
  by_cases hk : k < pools.length
  · rw [if_pos hk] at hq
    exact .inl ⟨hq, by omega⟩
  · rw [if_neg hk, List.getElem?_singleton] at hq
    by_cases hzero : k - pools.length = 0
    · rw [if_pos hzero] at hq
      cases hq
      exact .inr ⟨by omega, rfl⟩
    · rw [if_neg hzero] at hq
      cases hq

theorem build (h : Balanced s) {d : Declared} {p : ContFramePool}
    (hapart : ∀ d' ∈ s.declared, Span.Apart d'.range d.range) (hp : d.construct = some p)
    (hrange : d.base.toNat + (roundUp4 d.n).toNat < 2 ^ 32)
    (hbitmap : ∀ q ∈ s.pools, Extent.BitmapsApart q.extent p.extent) :
    Balanced
      { declared := s.declared ++ [d]
        pools := s.pools ++ [p]
        live := s.live
        inaccessible :=
          Function.update s.inaccessible s.pools.length (Ledger.start [] p).inaccessible } := by
  have hnone : s.live s.pools.length = [] :=
    List.eq_nil_iff_forall_not_mem.mpr fun r hr => Nat.lt_irrefl _ (h.owned _ r hr)
  refine ⟨?_, fun k q d' hq hd => ?_, ?_, ?_, fun k q hq => ?_, fun k r hr => ?_⟩
  · rw [List.length_append, List.length_append, h.length_eq]
    rfl
  · dsimp only at hq hd
    rcases pools_concat_cases hq with ⟨hq', hne⟩ | ⟨rfl, rfl⟩
    · have hlt := (List.getElem?_eq_some_iff.mp hq').1
      rw [List.getElem?_append_left (h.length_eq ▸ hlt)] at hd
      exact h.built k q d' hq' hd
    · rw [h.length_eq, List.getElem?_concat_length] at hd
      cases hd
      obtain ⟨hb, hn, -⟩ := extent_of_construct hp
      exact ⟨hb, hn, hrange⟩
  · refine List.pairwise_append.mpr ⟨h.apart, List.pairwise_singleton _ _, fun d' hd' e he => ?_⟩
    cases List.mem_singleton.mp he
    exact hapart d' hd'
  · rw [List.map_append]
    refine List.pairwise_append.mpr ⟨h.bitmaps, List.pairwise_singleton _ _, fun e he e' he' => ?_⟩
    obtain ⟨q, hq, rfl⟩ := List.mem_map.mp he
    cases List.mem_singleton.mp he'
    exact hbitmap q hq
  · rcases pools_concat_cases hq with ⟨hq', hne⟩ | ⟨rfl, rfl⟩
    · exact (h.accounts k q hq').of_eq rfl (Function.update_of_ne hne _ _)
    · have hstart : Accounts _ (Ledger.start [] _) := accounts_start hp
      exact hstart.of_eq hnone (Function.update_self _ _ _)
  · have hlt := h.owned k r hr
    rw [List.length_append]
    omega

theorem call {op : PoolOp} {u : Ledger} (h : Balanced s) (hok : Undisturbed s (.call k op))
    (hcall : PoolStep k (s.ledger k) op u) :
    Balanced { s with
      pools := u.pools
      live := Function.update s.live k u.live
      inaccessible := Function.update s.inaccessible k u.inaccessible } := by
  have hlt : k < s.pools.length := by
    cases hcall with
    | get hk => exact (List.getElem?_eq_some_iff.mp hk).1
    | mark hk => exact (List.getElem?_eq_some_iff.mp hk).1
    | release hr => exact h.owned k _ hr
  have hk : s.pools[k]? = some s.pools[k] := List.getElem?_eq_getElem hlt
  obtain ⟨p', hpools, hext, haccounts⟩ := (h.accounts k _ hk).step (h.range hk) hk hcall
    (by cases op with
        | get n => exact hok
        | mark b n => trivial
        | release f => trivial)
    (by rintro f rfl; exact hok)
  have hpools : u.pools = s.pools.set k p' := hpools
  have hother : ∀ j q, u.pools[j]? = some q → j ≠ k → s.pools[j]? = some q := by
    intro j q hq hne
    rwa [hpools, List.getElem?_set_ne (Ne.symm hne)] at hq
  have hself : ∀ q, u.pools[k]? = some q → q = p' := by
    intro q hq
    rw [hpools, List.getElem?_set_self hlt] at hq
    exact (Option.some.inj hq).symm
  have hlen : u.pools.length = s.pools.length := by
    rw [hpools]
    exact List.length_set
  have hextents : u.pools.map extent = s.pools.map extent := by
    rw [hpools]
    exact map_extent_set hk hext
  refine ⟨?_, fun j q d hq hd => ?_, h.apart, ?_, fun j q hq => ?_, fun j r hr => ?_⟩
  · exact hlen.trans h.length_eq
  · by_cases hjk : j = k
    · subst hjk
      cases hself q hq
      rw [base_of_extent hext, nframes_of_extent hext]
      exact h.built j _ d hk hd
    · exact h.built j q d (hother j q hq hjk) hd
  · exact hextents ▸ h.bitmaps
  · by_cases hjk : j = k
    · subst hjk
      cases hself q hq
      exact haccounts.of_eq (Function.update_self _ _ _) (Function.update_self _ _ _)
    · exact (h.accounts j q (hother j q hq hjk)).of_eq (Function.update_of_ne hjk _ _)
        (Function.update_of_ne hjk _ _)
  · rw [show (u.pools.length) = s.pools.length from hlen]
    by_cases hjk : j = k
    · exact hjk ▸ hlt
    · dsimp only at hr
      rw [Function.update_of_ne hjk] at hr
      exact h.owned j r hr

theorem step {op : HoldingOp} (h : Balanced s) (hok : Undisturbed s op)
    (hstep : HoldingStep s op t) : Balanced t := by
  cases hstep with
  | build hroom hapart hp => exact h.build hapart hp hok.1 (hok.2 _ hp)
  | call hcall => exact h.call hok hcall

end Balanced

section

variable {s : Holdings} {k : Nat} {r : Span} {d : Declared}

end

end TeachingKernel.FramePool
