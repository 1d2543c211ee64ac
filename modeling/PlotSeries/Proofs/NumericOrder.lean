import PlotSeries.Proofs.KeyOrder
import PlotSeries.Binary64.Rounding

/-!
# The order of numbers

A finite double stands for a whole number of units of `2 ^ -1074`, the least positive double.
Its word without the sign counts the doubles below it, not the units, but it grows with the
units: within a binade the fraction decides, and a binade ends where the next one starts
(`absUnits_lt_two_pow`, `le_absUnits`). So the integers that decide all comparisons are in the
order of the numbers (`units_lt_iff`), and the key order is that of the numbers
(`compareKeys_eq_compare_units`).

The finite doubles lie between the infinities (`between_infinities`), and the keys beyond
these are the NaNs, each on the side of its sign (`keyLess_negative_infinity_iff`,
`keyLess_infinity_iff`).
-/

namespace PlotSeries

namespace Binary64

/-! ## Numbers in units -/

/-- The absolute value of a finite double, in units of `2 ^ -1074`. -/
def absUnits (x : Binary64) : Nat := x.significand * 2 ^ (x.exponent + 1074).toNat

/-- The number that a finite double stands for, in units of `2 ^ -1074`. -/
def units (x : Binary64) : Int := if x.isNegative then -(x.absUnits : Int) else x.absUnits

/-- The biased exponent of the word. -/
def binade (x : Binary64) : Nat := x.magnitude / 2 ^ 52

theorem absUnits_eq (x : Binary64) :
    x.absUnits =
      if x.binade = 0 then x.magnitude % 2 ^ 52
      else (2 ^ 52 + x.magnitude % 2 ^ 52) * 2 ^ (x.binade - 1) := by
  have hbinade : x.magnitude >>> 52 = x.binade := Nat.shiftRight_eq_div_pow _ _
  have hshift : (x.exponent + 1074).toNat = x.binade - 1 := by
    rw [exponent, hbinade]
    omega
  simp only [absUnits, hshift, significand, hbinade]
  split
  next h => rw [h, Nat.pow_zero, Nat.mul_one]
  next => rfl

/-- Every double is below the start of the next binade. -/
theorem absUnits_lt_two_pow (x : Binary64) : x.absUnits < 2 ^ 52 * 2 ^ x.binade := by
  have hfraction : x.magnitude % 2 ^ 52 < 2 ^ 52 := Nat.mod_lt _ (Nat.two_pow_pos 52)
  rw [absUnits_eq]
  split
  next h => rwa [h, Nat.pow_zero, Nat.mul_one]
  next h =>
    calc
      (2 ^ 52 + x.magnitude % 2 ^ 52) * 2 ^ (x.binade - 1) < 2 ^ 53 * 2 ^ (x.binade - 1) :=
        Nat.mul_lt_mul_of_pos_right (by omega) (Nat.two_pow_pos _)
      _ = 2 ^ 52 * 2 ^ x.binade := by
        rw [← Nat.pow_add, ← Nat.pow_add]
        congr 1
        omega

/-- No double is below the start of its binade. -/
theorem le_absUnits {x : Binary64} (h : x.binade ≠ 0) :
    2 ^ 52 * 2 ^ (x.binade - 1) ≤ x.absUnits := by
  rw [absUnits_eq, if_neg h]
  exact Nat.mul_le_mul_right _ (Nat.le_add_right _ _)

theorem absUnits_lt {x y : Binary64} (h : x.magnitude < y.magnitude) : x.absUnits < y.absUnits := by
  have hle : x.binade ≤ y.binade := Nat.div_le_div_right (Nat.le_of_lt h)
  have hx : 2 ^ 52 * x.binade + x.magnitude % 2 ^ 52 = x.magnitude := Nat.div_add_mod _ _
  have hy : 2 ^ 52 * y.binade + y.magnitude % 2 ^ 52 = y.magnitude := Nat.div_add_mod _ _
  rcases Nat.lt_or_eq_of_le hle with hlt | heq
  · calc
      x.absUnits < 2 ^ 52 * 2 ^ x.binade := absUnits_lt_two_pow x
      _ ≤ 2 ^ 52 * 2 ^ (y.binade - 1) :=
        Nat.mul_le_mul_left _ (Nat.pow_le_pow_right (by omega) (by omega))
      _ ≤ y.absUnits := le_absUnits (by omega)
  · have hfraction : x.magnitude % 2 ^ 52 < y.magnitude % 2 ^ 52 := by omega
    rw [absUnits_eq, absUnits_eq, heq]
    split
    · exact hfraction
    · exact Nat.mul_lt_mul_of_pos_right (by omega) (Nat.two_pow_pos _)

theorem absUnits_lt_iff {x y : Binary64} : x.absUnits < y.absUnits ↔ x.magnitude < y.magnitude := by
  refine ⟨fun h => Nat.lt_of_not_le fun hle => ?_, absUnits_lt⟩
  rcases Nat.lt_or_eq_of_le hle with hlt | heq
  · exact Nat.lt_asymm h (absUnits_lt hlt)
  · have hsame : x.absUnits = y.absUnits := by rw [absUnits_eq, absUnits_eq, binade, binade, heq]
    exact Nat.ne_of_lt h hsame

theorem absUnits_eq_zero_iff {x : Binary64} : x.absUnits = 0 ↔ x.magnitude = 0 := by
  have hunits : zero.absUnits = 0 := by decide
  have hmagnitude : zero.magnitude = 0 := by decide
  have hpos := @absUnits_lt_iff zero x
  omega

/-- The integers that decide the comparisons are in the order of the numbers. -/
theorem units_lt_iff {x y : Binary64} :
    x.units < y.units ↔ x.signedMagnitude < y.signedMagnitude := by
  have hxy := @absUnits_lt_iff x y
  have hyx := @absUnits_lt_iff y x
  have hx := @absUnits_eq_zero_iff x
  have hy := @absUnits_eq_zero_iff y
  unfold units signedMagnitude
  cases x.isNegative <;> cases y.isNegative <;> simp <;> omega

theorem compareKeys_eq_compare_units (x y : Binary64) :
    compareKeys x y = compare x.units y.units := by
  rw [compareKeys_eq, Int.compare_eq_ite_lt, Int.compare_eq_ite_lt]
  simp only [units_lt_iff]

/-! ## Infinities and NaNs -/

/-- The infinity of this sign. -/
def infinity (negative : Bool) : Binary64 := ofSignMagnitude negative infinityMagnitude

theorem signedMagnitude_infinity (negative : Bool) :
    (infinity negative).signedMagnitude =
      if negative then -(infinityMagnitude : Int) else infinityMagnitude := by
  cases negative <;> decide

theorem between_infinities {x : Binary64} (h : x.isFinite = true) :
    keyLess (infinity true) x = true ∧ keyLess x (infinity false) = true := by
  rw [isFinite, decide_eq_true_iff, magnitude_eq_natAbs] at h
  simp only [keyLess_iff, signedMagnitude_infinity, if_true, Bool.false_eq_true, if_false]
  omega

theorem keyLess_negative_infinity_iff {x : Binary64} :
    keyLess x (infinity true) = true ↔ x.isNaN = true ∧ x.isNegative = true := by
  rw [keyLess_iff, signedMagnitude_infinity, isNaN, decide_eq_true_iff, signedMagnitude]
  cases x.isNegative <;> simp

theorem keyLess_infinity_iff {x : Binary64} :
    keyLess (infinity false) x = true ↔ x.isNaN = true ∧ x.isNegative = false := by
  rw [keyLess_iff, signedMagnitude_infinity, isNaN, decide_eq_true_iff, signedMagnitude]
  cases x.isNegative <;> simp

end Binary64

end PlotSeries
