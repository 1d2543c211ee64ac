import PlotSeries.Proofs.Rounding
import PlotSeries.Squeeze

/-!
# The standard thresholds as comparisons of counts

`AllocationStats.excess` is what the standard thresholds ask for when the counts are
compared as the integers they are. The policy compares doubles; on counts below
`2 ^ 50` that is the same (`evaluate_standard`), since neither the counts nor their
multiples are rounded. Of counts of any size it is still true that an empty part never
exceeds the thresholds, and that a pool within them is within those of a smaller
allocation (`pool_evaluate_of_total_le`).
-/

namespace PlotSeries

/-- The unused parts of an allocation that exceed the standard thresholds. -/
def AllocationStats.excess (stats : AllocationStats) : SqueezeRequest :=
  if 650000 < stats.total then
    { pool := decide (stats.live < 10 * stats.pool)
      tail := decide (3 * stats.live < 2 * stats.tail) }
  else if 1000 < stats.total then
    { pool := decide (3 * stats.live < 2 * stats.pool)
      tail := decide (5 * stats.live < stats.tail) }
  else {}

namespace Binary64

variable {m n k : Nat}

/-- A count times a whole factor. -/
theorem ofNat_mul_ofNat (hm : m < 2 ^ 53) (hk : k < 2 ^ 53) :
    ofNat m * ofNat k = nearest false (m * k) 0 := by
  have hmlog := log2_le_of_lt hm
  have hklog := log2_le_of_lt hk
  exact nearest_mul_nearest hm hk (by decide) (by omega) (by decide) (by omega)

/-- A count times one and a half, against another count. -/
theorem ofNat_mul_threeHalves_lt_iff (hm : m < 2 ^ 50) (hn : n < 2 ^ 50) :
    ofNat m * nearest false 3 (-1) < ofNat n ↔ 3 * m < 2 * n := by
  have hmlog := log2_le_of_lt hm
  have hleft : ofNat m * nearest false 3 (-1) = nearest false (m * 3) (-1) :=
    nearest_mul_nearest (by omega) (by decide) (by decide) (by omega) (by decide) (by decide)
  have hright : ofNat n = nearest false (n * 2) (-1) := (nearest_scale n 1 0).symm
  have hlog := log2_le_of_lt (m := m * 3) (k := 53) (by omega)
  have hlog' := log2_le_of_lt (m := n * 2) (k := 53) (by omega)
  rw [hleft, hright, nearest_lt_nearest_iff (isShort_of_lt (by omega)) (isShort_of_lt (by omega))
    (by decide) (by omega) (by omega)]
  omega

/-- A count times five, against another count. -/
theorem ofNat_mul_five_lt_iff (hm : m < 2 ^ 50) (hn : n < 2 ^ 50) :
    ofNat m * ofNat 5 < ofNat n ↔ 5 * m < n := by
  have hlog := log2_le_of_lt (m := m * 5) (k := 53) (by omega)
  have hlog' := log2_le_of_lt hn
  rw [ofNat_mul_ofNat (by omega) (by decide), ofNat,
    nearest_lt_nearest_iff (isShort_of_lt (by omega)) (isShort_of_lt (by omega))
      (by decide) (by omega) (by omega)]
  omega

/-- A count against another one times ten; the product may need a 54th bit, which is 0. -/
theorem lt_ofNat_mul_ten_iff (hm : m < 2 ^ 50) (hn : n < 2 ^ 50) :
    ofNat m < ofNat n * ofNat 10 ↔ m < 10 * n := by
  have hshort : IsShort (n * 10) := by
    rw [show n * 10 = n * 5 * 2 by omega]
    exact IsShort.mul_two (by omega)
  have hlog := log2_le_of_lt hm
  have hlog' := log2_le_of_lt (m := n * 10) (k := 54) (by omega)
  rw [ofNat_mul_ofNat (by omega) (by decide), ofNat,
    nearest_lt_nearest_iff (isShort_of_lt (by omega)) hshort (by decide) (by omega) (by omega)]
  omega

end Binary64

/-- The standard thresholds compare counts below `2 ^ 50` as integers. -/
theorem evaluate_standard {stats : AllocationStats} (hlive : stats.live < 2 ^ 50)
    (hpool : stats.pool < 2 ^ 50) (htail : stats.tail < 2 ^ 50) :
    SqueezePolicy.standard.evaluate stats = stats.excess := by
  simp only [SqueezePolicy.evaluate, SqueezePolicy.standard, AllocationStats.excess,
    Binary64.ofNat_mul_threeHalves_lt_iff hlive hpool,
    Binary64.ofNat_mul_threeHalves_lt_iff hlive htail,
    Binary64.ofNat_mul_five_lt_iff hlive htail, Binary64.lt_ofNat_mul_ten_iff hlive hpool]

/-! ## Counts of any size -/

/-- The standard thresholds, on the doubles that the policy compares. -/
theorem evaluate_standard_eq (stats : AllocationStats) :
    SqueezePolicy.standard.evaluate stats =
      let live := Binary64.ofNat stats.live
      let pool := Binary64.ofNat stats.pool
      let tail := Binary64.ofNat stats.tail
      if 650000 < stats.total then
        { pool := decide (live < pool * Binary64.ofNat 10)
          tail := decide (live * Binary64.nearest false 3 (-1) < tail) }
      else if 1000 < stats.total then
        { pool := decide (live * Binary64.nearest false 3 (-1) < pool)
          tail := decide (live * Binary64.ofNat 5 < tail) }
      else {} := rfl

/-- No pool is never too long a pool. -/
theorem pool_evaluate_of_pool_eq_zero {stats : AllocationStats} (h : stats.pool = 0) :
    (SqueezePolicy.standard.evaluate stats).pool = false := by
  have hproduct : Binary64.ofNat 0 * Binary64.ofNat 10 = Binary64.ofNat 0 :=
    Binary64.ofNat_mul_ofNat (by decide) (by decide)
  have hlive : (Binary64.ofNat stats.live).isNegative = false := Binary64.isNegative_nearest _ _
  have hfactor : (Binary64.nearest false 3 (-1)).isNegative = false := Binary64.isNegative_nearest _ _
  simp only [evaluate_standard_eq, h, hproduct]
  split
  · exact decide_eq_false (Binary64.not_lt_ofNat_zero hlive)
  · split
    · exact decide_eq_false (Binary64.not_lt_ofNat_zero (Binary64.isNegative_mul hlive hfactor))
    · rfl

/-- No tail is never too long a tail. -/
theorem tail_evaluate_of_tail_eq_zero {stats : AllocationStats} (h : stats.tail = 0) :
    (SqueezePolicy.standard.evaluate stats).tail = false := by
  have hlive : (Binary64.ofNat stats.live).isNegative = false := Binary64.isNegative_nearest _ _
  have hnever (m : Nat) (e : Int) :
      decide (Binary64.ofNat stats.live * Binary64.nearest false m e < Binary64.ofNat 0) = false :=
    decide_eq_false (Binary64.not_lt_ofNat_zero
      (Binary64.isNegative_mul hlive (Binary64.isNegative_nearest m e)))
  simp only [evaluate_standard_eq, h]
  split
  · exact hnever 3 (-1)
  · split
    · exact hnever 5 0
    · rfl

/-- A pool that may be kept may be kept in a smaller allocation too: the thresholds of
small allocations allow longer pools, and their counts are compared exactly. -/
theorem pool_evaluate_of_total_le {a b : AllocationStats} (hlive : b.live = a.live)
    (hpool : b.pool = a.pool) (hfits : b.live + b.pool ≤ b.total) (htotal : b.total ≤ a.total)
    (h : (SqueezePolicy.standard.evaluate a).pool = false) :
    (SqueezePolicy.standard.evaluate b).pool = false := by
  simp only [evaluate_standard_eq] at h ⊢
  rw [hlive, hpool]
  by_cases hlarge : 650000 < b.total
  · rw [if_pos (Nat.lt_of_lt_of_le hlarge htotal)] at h
    rw [if_pos hlarge]
    exact h
  rw [if_neg hlarge]
  by_cases hsmall : 1000 < b.total
  · rw [if_pos hsmall]
    have hsizes : a.live + a.pool ≤ 650000 := by omega
    by_cases hcrossed : 650000 < a.total
    · rw [if_pos hcrossed, decide_eq_false_iff_not,
        Binary64.lt_ofNat_mul_ten_iff (by omega) (by omega)] at h
      rw [decide_eq_false_iff_not, Binary64.ofNat_mul_threeHalves_lt_iff (by omega) (by omega)]
      omega
    · rw [if_neg hcrossed, if_pos (Nat.lt_of_lt_of_le hsmall htotal)] at h
      exact h
  · rw [if_neg hsmall]

end PlotSeries
