import PlotSeries.Binary64.Rounding

/-!
# When rounding is exact

A natural number of at most 53 significant bits (`IsShort`) times a power of two in
the range of the doubles is a double, so rounding keeps it, products of two such
numbers are rounded once, and comparing the doubles compares the numbers:

* `nearestMagnitude_scale`: rounding sees a number, not how it is split into a
  factor and a power of two;
* `nearest_lt_nearest_iff`: short numbers compare as the doubles they are rounded to;
* `nearest_mul_nearest`: the product of two doubles made from short numbers is the
  double nearest to their product.

Rounding keeps signs, of numbers of any length (`isNegative_mul`), and whole numbers of 64
bits finite (`isFinite_nearest_zero`).
-/

namespace PlotSeries

theorem log2_mul_two_pow {m : Nat} (hm : m ≠ 0) (a : Nat) : (m * 2 ^ a).log2 = m.log2 + a := by
  have hpos : 0 < 2 ^ a := Nat.two_pow_pos a
  rw [Nat.log2_eq_iff (Nat.mul_ne_zero hm (Nat.ne_of_gt hpos))]
  constructor
  · rw [Nat.pow_add]
    exact Nat.mul_le_mul_right _ (Nat.log2_self_le hm)
  · rw [show m.log2 + a + 1 = m.log2 + 1 + a by omega, Nat.pow_add]
    exact Nat.mul_lt_mul_of_pos_right Nat.lt_log2_self hpos

theorem log2_le_of_lt {m k : Nat} (h : m < 2 ^ k) : m.log2 ≤ k := by
  by_cases hm : m = 0
  · rw [hm]
    exact Nat.zero_le _
  · exact Nat.le_of_lt ((Nat.log2_lt hm).2 h)

/-! ## Rounded quotients -/

/-- A quotient without a remainder is not rounded. -/
theorem shiftRounded_mul_two_pow (m b d : Nat) : shiftRounded (m * 2 ^ (b + d)) d = m * 2 ^ b := by
  have hsplit : m * 2 ^ (b + d) = m * 2 ^ b * 2 ^ d := by rw [Nat.pow_add, Nat.mul_assoc]
  have hpos := Nat.two_pow_pos d
  simp only [shiftRounded, hsplit, Nat.shiftRight_eq_div_pow, Nat.mul_mod_left,
    Nat.mul_div_cancel _ hpos]
  exact if_neg (by omega)

/-- A common power of two does not change a rounded quotient. -/
theorem shiftRounded_scale (m a d : Nat) : shiftRounded (m * 2 ^ a) (d + a) = shiftRounded m d := by
  have hpos := Nat.two_pow_pos a
  have hless : 2 ^ d * 2 ^ a < 2 * (m % 2 ^ d * 2 ^ a) ↔ 2 ^ d < 2 * (m % 2 ^ d) := by
    rw [← Nat.mul_assoc]
    exact Nat.mul_lt_mul_right hpos
  have hhalf : 2 * (m % 2 ^ d * 2 ^ a) = 2 ^ d * 2 ^ a ↔ 2 * (m % 2 ^ d) = 2 ^ d := by
    rw [← Nat.mul_assoc]
    exact Nat.mul_left_inj (Nat.ne_of_gt hpos)
  simp only [shiftRounded, Nat.shiftRight_eq_div_pow, Nat.pow_add, Nat.mul_mod_mul_right,
    Nat.mul_div_mul_right _ _ hpos, hless, hhalf]

namespace Binary64

/-! ## Magnitudes -/

/-- Rounding depends on the product of the factor and the power of two alone. -/
theorem nearestMagnitude_scale (m a : Nat) (e : Int) :
    nearestMagnitude (m * 2 ^ a) (e - a) = nearestMagnitude m e := by
  by_cases hm : m = 0
  · simp [hm, nearestMagnitude]
  have hne : m * 2 ^ a ≠ 0 := Nat.mul_ne_zero hm (Nat.ne_of_gt (Nat.two_pow_pos a))
  have hlog : e - a + (m * 2 ^ a).log2 - 52 = e + m.log2 - 52 := by
    rw [log2_mul_two_pow hm]
    omega
  simp only [nearestMagnitude, if_neg hm, if_neg hne, hlog]
  generalize max (e + m.log2 - 52) (-1074) = q
  -- the steps of size `2 ^ q`, from either form
  have hsteps : (if q ≤ e - a then (m * 2 ^ a) <<< (e - a - q).toNat
      else shiftRounded (m * 2 ^ a) (q - (e - a)).toNat) =
        if q ≤ e then m <<< (e - q).toNat else shiftRounded m (q - e).toNat := by
    by_cases hfine : q ≤ e - a
    · rw [if_pos hfine, if_pos (by omega), Nat.shiftLeft_eq, Nat.shiftLeft_eq, Nat.mul_assoc,
        ← Nat.pow_add]
      congr 2
      omega
    · rw [if_neg hfine]
      by_cases hcoarse : q ≤ e
      · have hround := shiftRounded_mul_two_pow m (e - q).toNat (q - (e - a)).toNat
        rw [show (e - q).toNat + (q - (e - a)).toNat = a by omega] at hround
        rw [if_pos hcoarse, Nat.shiftLeft_eq, hround]
      · rw [if_neg hcoarse, ← shiftRounded_scale m a]
        congr 1
        omega
  rw [hsteps]

/-- The number has at most 53 significant bits. -/
def IsShort (m : Nat) : Prop := 2 ^ (m.log2 - 52) ∣ m

theorem infinityMagnitude_eq : infinityMagnitude = 2047 * 2 ^ 52 := rfl

theorem isShort_of_lt {m : Nat} (h : m < 2 ^ 53) : IsShort m := by
  have hlog : m.log2 - 52 = 0 := by
    by_cases hm : m = 0
    · simp [hm]
    · have := (Nat.log2_lt hm).2 h
      omega
  rw [IsShort, hlog]
  exact Nat.one_dvd m

theorem IsShort.mul_two {m : Nat} (h : m < 2 ^ 53) : IsShort (m * 2) := by
  by_cases hm : m = 0
  · exact isShort_of_lt (by omega)
  have hlog : (m * 2).log2 = m.log2 + 1 := log2_mul_two_pow hm 1
  have hlt := (Nat.log2_lt hm).2 h
  rw [IsShort, hlog]
  refine Nat.dvd_trans (Nat.pow_dvd_pow 2 (show m.log2 + 1 - 52 ≤ 1 by omega)) ?_
  exact Nat.dvd_mul_left 2 m

/-- The significant bits of a short number, moved to where a double has them. -/
theorem IsShort.exists_steps {m : Nat} (h : IsShort m) (hm : m ≠ 0) :
    ∃ steps, 2 ^ 52 ≤ steps ∧ steps < 2 ^ 53 ∧
      steps * 2 ^ (m.log2 - 52) = m * 2 ^ (52 - m.log2) := by
  have hself := Nat.log2_self_le hm
  have hlt := Nat.lt_log2_self (n := m)
  obtain ⟨k, hk⟩ := h
  generalize m.log2 = L at *
  rcases Nat.le_total L 52 with hL | hL
  · rw [Nat.sub_eq_zero_of_le hL, Nat.pow_zero]
    refine ⟨m * 2 ^ (52 - L), ?_, ?_, Nat.mul_one _⟩
    · calc
        2 ^ 52 = 2 ^ L * 2 ^ (52 - L) := by rw [← Nat.pow_add]; congr 1; omega
        _ ≤ m * 2 ^ (52 - L) := Nat.mul_le_mul_right _ hself
    · calc
        m * 2 ^ (52 - L) < 2 ^ (L + 1) * 2 ^ (52 - L) :=
          Nat.mul_lt_mul_of_pos_right hlt (Nat.two_pow_pos _)
        _ = 2 ^ 53 := by rw [← Nat.pow_add]; congr 1; omega
  · rw [Nat.sub_eq_zero_of_le hL, Nat.pow_zero, Nat.mul_one]
    refine ⟨k, ?_, ?_, by rw [Nat.mul_comm, ← hk]⟩
    · refine Nat.le_of_mul_le_mul_left ?_ (Nat.two_pow_pos (L - 52))
      rw [← hk, ← Nat.pow_add, show L - 52 + 52 = L by omega]
      exact hself
    · refine Nat.lt_of_mul_lt_mul_left (a := 2 ^ (L - 52)) ?_
      rw [← hk, ← Nat.pow_add, show L - 52 + 53 = L + 1 by omega]
      exact hlt

/-- A short number is not rounded: its magnitude is the start of its binade and the
steps from there. -/
theorem nearestMagnitude_of_steps {m steps : Nat} {e : Int} (hm : m ≠ 0) (hlt : steps < 2 ^ 53)
    (hsteps : steps * 2 ^ (m.log2 - 52) = m * 2 ^ (52 - m.log2)) (hlow : -1022 ≤ e)
    (hhigh : e + m.log2 ≤ 1023) :
    nearestMagnitude m e = (e + m.log2 + 1022).toNat * 2 ^ 52 + steps := by
  have hq : max (e + m.log2 - 52) (-1074) = e + m.log2 - 52 := by omega
  simp only [nearestMagnitude, if_neg hm, hq]
  generalize m.log2 = L at *
  have hround : (if e + L - 52 ≤ e then m <<< (e - (e + L - 52)).toNat
      else shiftRounded m (e + L - 52 - e).toNat) = steps := by
    rcases Nat.lt_or_ge 52 L with hL | hL
    · have hexact := shiftRounded_mul_two_pow steps 0 (L - 52)
      rw [Nat.sub_eq_zero_of_le (Nat.le_of_lt hL), Nat.pow_zero, Nat.mul_one] at hsteps
      rw [Nat.zero_add, hsteps, Nat.pow_zero, Nat.mul_one] at hexact
      rw [if_neg (by omega), show (e + L - 52 - e).toNat = L - 52 by omega, hexact]
    · rw [Nat.sub_eq_zero_of_le hL, Nat.pow_zero, Nat.mul_one] at hsteps
      rw [if_pos (by omega), Nat.shiftLeft_eq, show (e - (e + L - 52)).toNat = 52 - L by omega,
        hsteps]
  rw [hround, Nat.shiftLeft_eq, show e + L - 52 + 1074 = e + L + 1022 by omega]
  refine Nat.min_eq_right ?_
  have hbinade : (e + L + 1022).toNat ≤ 2045 := by omega
  have hinfinity := infinityMagnitude_eq
  omega

/-- Short numbers with the same power of two are rounded in their order. -/
theorem nearestMagnitude_lt {m n : Nat} {e : Int} (hm : IsShort m) (hn : IsShort n) (h : m < n)
    (hlow : -1022 ≤ e) (hhigh : e + n.log2 ≤ 1023) :
    nearestMagnitude m e < nearestMagnitude n e := by
  have hn0 : n ≠ 0 := by omega
  obtain ⟨t, htlow, hthigh, ht⟩ := hn.exists_steps hn0
  rw [nearestMagnitude_of_steps hn0 hthigh ht hlow hhigh]
  by_cases hm0 : m = 0
  · have hzero : nearestMagnitude m e = 0 := by simp [hm0, nearestMagnitude]
    omega
  have hlog : m.log2 ≤ n.log2 := (Nat.le_log2 hn0).2 (by have := Nat.log2_self_le hm0; omega)
  obtain ⟨s, hslow, hshigh, hs⟩ := hm.exists_steps hm0
  rw [nearestMagnitude_of_steps hm0 hshigh hs hlow (by omega)]
  rcases Nat.lt_or_eq_of_le hlog with hlt | heq
  · -- the binade of `m` ends before that of `n` starts
    have hbinade : (e + m.log2 + 1022).toNat + 1 ≤ (e + n.log2 + 1022).toNat := by omega
    omega
  · rw [heq] at hs ⊢
    have hst : s * 2 ^ (n.log2 - 52) < t * 2 ^ (n.log2 - 52) := by
      rw [hs, ht]
      exact Nat.mul_lt_mul_of_pos_right h (Nat.two_pow_pos _)
    have := Nat.lt_of_mul_lt_mul_right hst
    omega

/-! ## Doubles -/

theorem nearestMagnitude_le (m : Nat) (e : Int) : nearestMagnitude m e ≤ infinityMagnitude := by
  unfold nearestMagnitude
  split
  · exact Nat.zero_le _
  · exact Nat.min_le_left _ _

theorem toNat_nearest (m : Nat) (e : Int) :
    (nearest false m e).bits.toNat = nearestMagnitude m e := by
  have hle := nearestMagnitude_le m e
  have hinfinity := infinityMagnitude_eq
  simp only [nearest, ofSignMagnitude, Bool.false_eq_true, if_false, UInt64.toNat_or]
  rw [UInt64.toNat_ofNat', Nat.mod_eq_of_lt (by omega)]
  exact Nat.zero_or _

@[simp] theorem magnitude_nearest (m : Nat) (e : Int) :
    (nearest false m e).magnitude = nearestMagnitude m e := by
  have hle := nearestMagnitude_le m e
  have hinfinity := infinityMagnitude_eq
  rw [magnitude_eq_mod, toNat_nearest, Nat.mod_eq_of_lt (by omega)]

@[simp] theorem isNegative_nearest (m : Nat) (e : Int) : (nearest false m e).isNegative = false := by
  have hle := nearestMagnitude_le m e
  have hinfinity := infinityMagnitude_eq
  rw [← Bool.not_eq_true, isNegative_iff, toNat_nearest]
  omega

@[simp] theorem isNaN_nearest (m : Nat) (e : Int) : (nearest false m e).isNaN = false := by
  have hle := nearestMagnitude_le m e
  simp only [isNaN, magnitude_nearest, decide_eq_false_iff_not]
  omega

/-- A double is made from a number and a power of two in the way it is given. -/
theorem nearest_scale (m a : Nat) (e : Int) : nearest false (m * 2 ^ a) (e - a) = nearest false m e := by
  rw [nearest, nearest, nearestMagnitude_scale]

/-- Short numbers compare as the doubles they are rounded to. -/
theorem nearest_lt_nearest_iff {m n : Nat} {e : Int} (hm : IsShort m) (hn : IsShort n)
    (hlow : -1022 ≤ e) (hmhigh : e + m.log2 ≤ 1023) (hnhigh : e + n.log2 ≤ 1023) :
    nearest false m e < nearest false n e ↔ m < n := by
  simp only [lt_def, isNaN_nearest, signedMagnitude, isNegative_nearest, magnitude_nearest,
    Bool.false_eq_true, if_false, true_and, Int.ofNat_lt]
  rcases Nat.lt_trichotomy m n with h | rfl | h
  · simp only [h, nearestMagnitude_lt hm hn h hlow hnhigh]
  · simp
  · have := nearestMagnitude_lt hn hm h hlow hmhigh
    omega

/-! ## Products -/

/-- The significand and the exponent of a number below `2 ^ 53` times a power of two:
those of its magnitude, which is the number with its bits moved up. -/
theorem significand_exponent_nearest {m : Nat} {e : Int} (hm : m ≠ 0) (h : m < 2 ^ 53)
    (hlow : -1022 ≤ e) (hhigh : e + m.log2 ≤ 1023) :
    (nearest false m e).significand = m * 2 ^ (52 - m.log2) ∧
      (nearest false m e).exponent = e - (52 - m.log2 : Nat) := by
  obtain ⟨steps, hslow, hshigh, hs⟩ := (isShort_of_lt h).exists_steps hm
  have hL : m.log2 < 53 := (Nat.log2_lt hm).2 h
  have hmagnitude := nearestMagnitude_of_steps hm hshigh hs hlow hhigh
  rw [Nat.sub_eq_zero_of_le (by omega), Nat.pow_zero, Nat.mul_one] at hs
  have hbiased : (nearest false m e).magnitude >>> 52 = (e + m.log2 + 1023).toNat := by
    rw [magnitude_nearest, hmagnitude, Nat.shiftRight_eq_div_pow]
    omega
  have hfraction : (nearest false m e).magnitude % 2 ^ 52 = steps - 2 ^ 52 := by
    rw [magnitude_nearest, hmagnitude]
    omega
  constructor
  · rw [significand, hbiased, hfraction, if_neg (by omega), ← hs]
    omega
  · rw [exponent, hbiased]
    omega

theorem isFinite_nearest {m : Nat} {e : Int} (h : m < 2 ^ 53) (hlow : -1022 ≤ e)
    (hhigh : e + m.log2 ≤ 1023) : (nearest false m e).isFinite = true := by
  have hinfinity := infinityMagnitude_eq
  rw [isFinite, magnitude_nearest, decide_eq_true_iff]
  by_cases hm : m = 0
  · have hzero : nearestMagnitude m e = 0 := by simp [hm, nearestMagnitude]
    omega
  · obtain ⟨steps, -, hshigh, hs⟩ := (isShort_of_lt h).exists_steps hm
    rw [nearestMagnitude_of_steps hm hshigh hs hlow hhigh]
    omega

/-- The product of two numbers below `2 ^ 53` times powers of two is rounded once. -/
theorem nearest_mul_nearest {m n : Nat} {e f : Int} (hm : m < 2 ^ 53) (hn : n < 2 ^ 53)
    (hmlow : -1022 ≤ e) (hmhigh : e + m.log2 ≤ 1023) (hnlow : -1022 ≤ f)
    (hnhigh : f + n.log2 ≤ 1023) :
    nearest false m e * nearest false n f = nearest false (m * n) (e + f) := by
  have hmul : nearest false m e * nearest false n f =
      nearest false ((nearest false m e).significand * (nearest false n f).significand)
        ((nearest false m e).exponent + (nearest false n f).exponent) := by
    show mul _ _ = _
    simp [mul, isFinite_nearest hm hmlow hmhigh, isFinite_nearest hn hnlow hnhigh]
  have hzero (e : Int) : (nearest false 0 e).significand = 0 := by
    simp [significand, nearestMagnitude]
  have hnearest_zero (e f : Int) : nearest false 0 e = nearest false 0 f := by
    simp [nearest, nearestMagnitude]
  rw [hmul]
  by_cases hm0 : m = 0
  · rw [hm0, hzero, Nat.zero_mul, Nat.zero_mul]
    exact hnearest_zero _ _
  by_cases hn0 : n = 0
  · rw [hn0, hzero, Nat.mul_zero, Nat.mul_zero]
    exact hnearest_zero _ _
  obtain ⟨hms, hme⟩ := significand_exponent_nearest hm0 hm hmlow hmhigh
  obtain ⟨hns, hne⟩ := significand_exponent_nearest hn0 hn hnlow hnhigh
  rw [hms, hme, hns, hne, ← nearest_scale (m * n) (52 - m.log2 + (52 - n.log2))]
  congr 1
  · rw [Nat.pow_add, Nat.mul_mul_mul_comm]
  · omega

/-! ## Whole numbers -/

theorem magnitude_ofSignMagnitude (negative : Bool) {m : Nat} (h : m < 2 ^ 63) :
    (ofSignMagnitude negative m).magnitude = m := by
  have hm : (UInt64.ofNat m).toNat = m := by
    rw [UInt64.toNat_ofNat', Nat.mod_eq_of_lt (by omega)]
  rw [magnitude_eq_mod, ofSignMagnitude, UInt64.toNat_or, hm, Nat.or_mod_two_pow,
    Nat.mod_eq_of_lt h]
  cases negative <;> exact Nat.zero_or m

/-- A whole number of 64 bits is far from overflow: it takes at most `2 ^ 53` steps from the
start of its binade. -/
theorem nearestMagnitude_lt_infinity {m : Nat} (h : m < 2 ^ 64) :
    nearestMagnitude m 0 < infinityMagnitude := by
  have hinfinity := infinityMagnitude_eq
  by_cases hm : m = 0
  · rw [nearestMagnitude, if_pos hm]
    omega
  have hlog : m.log2 < 64 := (Nat.log2_lt hm).2 h
  have hself := Nat.lt_log2_self (n := m)
  have hq : max ((0 : Int) + m.log2 - 52) (-1074) = m.log2 - 52 := by omega
  simp only [nearestMagnitude, if_neg hm, hq]
  generalize m.log2 = L at *
  have hsteps : (if (L - 52 : Int) ≤ 0 then m <<< (0 - (L - 52 : Int)).toNat
      else shiftRounded m ((L - 52 : Int) - 0).toNat) ≤ 2 ^ 53 := by
    split
    next hfine =>
      have hshift : (0 - (L - 52 : Int)).toNat = 52 - L := by omega
      rw [hshift, Nat.shiftLeft_eq]
      calc
        m * 2 ^ (52 - L) ≤ 2 ^ (L + 1) * 2 ^ (52 - L) :=
          Nat.mul_le_mul_right _ (Nat.le_of_lt hself)
        _ = 2 ^ 53 := by rw [← Nat.pow_add]; congr 1; omega
    next hcoarse =>
      have hshift : ((L - 52 : Int) - 0).toNat = L - 52 := by omega
      have hquotient : m >>> (L - 52) < 2 ^ 53 := by
        rw [Nat.shiftRight_eq_div_pow, Nat.div_lt_iff_lt_mul (Nat.two_pow_pos _), ← Nat.pow_add,
          show 53 + (L - 52) = L + 1 by omega]
        exact hself
      rw [hshift, shiftRounded]
      split <;> omega
  have hbinade : ((L - 52 : Int) + 1074).toNat ≤ 1085 := by omega
  rw [Nat.shiftLeft_eq]
  refine Nat.lt_of_le_of_lt (Nat.min_le_right _ _) ?_
  omega

/-- A whole number of 64 bits is rounded to a finite double. -/
theorem isFinite_nearest_zero (negative : Bool) {m : Nat} (h : m < 2 ^ 64) :
    (nearest negative m 0).isFinite = true := by
  have hlt := nearestMagnitude_lt_infinity h
  have hinfinity := infinityMagnitude_eq
  rw [isFinite, nearest, magnitude_ofSignMagnitude negative (by omega)]
  exact decide_eq_true hlt

/-! ## Signs -/

/-- Nothing with a clear sign bit is less than zero. -/
theorem not_lt_ofNat_zero {x : Binary64} (h : x.isNegative = false) : ¬x < ofNat 0 := by
  have hzero : (ofNat 0).signedMagnitude = 0 := by decide
  rintro ⟨-, -, hlt⟩
  rw [hzero, signedMagnitude, h] at hlt
  exact absurd hlt (by simp)

/-- The product of two doubles with clear sign bits has a clear sign bit, also if it is a NaN. -/
theorem isNegative_mul {x y : Binary64} (hx : x.isNegative = false) (hy : y.isNegative = false) :
    (x * y).isNegative = false := by
  show (mul x y).isNegative = false
  unfold mul
  rw [hx, hy]
  split
  · decide
  · split
    · exact isNegative_nearest _ _
    · split
      · decide
      · decide

end Binary64

end PlotSeries
