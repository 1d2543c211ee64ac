import PlotSeries.Binary64

/-!
# Rounding to the nearest double

The few arithmetic operations that the release policy and the data forms need,
computed exactly on naturals and rounded once, to nearest with ties to even.

* `Binary64.nearest` is the double nearest to `±m · 2 ^ e`.
* `Binary64.ofNat` and `Binary64.ofInt` round an integer.
* `Binary64.mul` is the IEEE product.
-/

namespace PlotSeries

/-- The quotient of `m` by `2 ^ d`, rounded to nearest with ties to even. -/
def shiftRounded (m d : Nat) : Nat :=
  let q := m >>> d
  let r := m % 2 ^ d
  if 2 ^ d < 2 * r ∨ (2 * r = 2 ^ d ∧ q % 2 = 1) then q + 1 else q

namespace Binary64

/-- The magnitude of the double nearest to `m · 2 ^ e`. The spacing of doubles
around that value is `2 ^ q`, never finer than `2 ^ -1074`; counting the steps
of that size from the start of their binade gives the word, and a carry out of
the significand runs into the exponent by itself. -/
def nearestMagnitude (m : Nat) (e : Int) : Nat :=
  if m = 0 then 0
  else
    let q := max (e + m.log2 - 52) (-1074)
    let steps := if q ≤ e then m <<< (e - q).toNat else shiftRounded m (q - e).toNat
    min infinityMagnitude ((q + 1074).toNat <<< 52 + steps)

/-- The double nearest to `m · 2 ^ e`, negated if asked for. -/
def nearest (negative : Bool) (m : Nat) (e : Int) : Binary64 :=
  ofSignMagnitude negative (nearestMagnitude m e)

/-- The double nearest to a natural number. -/
def ofNat (n : Nat) : Binary64 := nearest false n 0

/-- The double nearest to an integer; zero is positive. -/
def ofInt (n : Int) : Binary64 := nearest (decide (n < 0)) n.natAbs 0

/-- The word is neither infinite nor a NaN. -/
def isFinite (x : Binary64) : Bool := decide (x.magnitude < infinityMagnitude)

/-- The integer significand of a finite double, so that its absolute value is
`significand · 2 ^ exponent`. -/
def significand (x : Binary64) : Nat :=
  let fraction := x.magnitude % 2 ^ 52
  if x.magnitude >>> 52 = 0 then fraction else 2 ^ 52 + fraction

/-- The binary exponent that belongs to `significand`. -/
def exponent (x : Binary64) : Int := max (x.magnitude >>> 52) 1 - 1075

/-- The product of two doubles, rounded once. A NaN, or zero times infinity,
gives a NaN; the sign is the product of the signs. -/
def mul (x y : Binary64) : Binary64 :=
  let negative := x.isNegative != y.isNegative
  if x.isNaN || y.isNaN then nan
  else if x.isFinite && y.isFinite then
    nearest negative (x.significand * y.significand) (x.exponent + y.exponent)
  else if x.magnitude = 0 || y.magnitude = 0 then nan
  else ofSignMagnitude negative infinityMagnitude

instance : Mul Binary64 := ⟨mul⟩

end Binary64

end PlotSeries
