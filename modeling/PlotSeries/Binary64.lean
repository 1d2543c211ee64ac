/-!
# Double-precision numbers by their bits

A `Binary64` is a 64-bit word read as an IEEE 754 double. Keeping the word
itself, instead of a machine number, keeps the sign of a zero and the sign and
payload of a NaN, which the order of keys looks at. Nothing here runs a machine
float operation, so every comparison can be reasoned about.

* `Binary64.numEq`, `<` and `≤` are the IEEE comparisons: a NaN is unequal and
  unordered to everything, and the two zeros are equal.
* `Binary64.totalRank` places all words on one line, the way the IEEE total
  order does: negative NaNs, −∞, …, −0, +0, …, +∞, positive NaNs.
* `Binary64.smaller` and `Binary64.larger` pick one of two numbers and keep the
  first on a tie.
-/

namespace PlotSeries

-- Powers of naturals are core's, whatever instances are in scope.
attribute [instance (high + 1), default_instance (high + 1)] instPowNat

/-- An IEEE 754 double, given by its 64 bits. -/
structure Binary64 where
  /-- Sign, biased exponent and fraction, from the highest bit down. -/
  bits : UInt64
  deriving DecidableEq, Inhabited

namespace Binary64

/-- The word of positive zero. -/
def zero : Binary64 := ⟨0⟩

instance : Zero Binary64 := ⟨zero⟩

/-- The word without its sign bit, as a number; it grows with the absolute value. -/
def magnitude (x : Binary64) : Nat := (x.bits &&& 0x7FFFFFFFFFFFFFFF).toNat

/-- The sign bit is set. -/
def isNegative (x : Binary64) : Bool := decide (0x8000000000000000 ≤ x.bits)

/-- The magnitude of the infinities; every larger one belongs to a NaN. -/
def infinityMagnitude : Nat := 0x7FF0000000000000

/-- The word is a NaN of either sign and any payload. -/
def isNaN (x : Binary64) : Bool := decide (infinityMagnitude < x.magnitude)

/-- The magnitude with the sign of the word, so that both zeros are 0; on words
that are not NaN it orders them as numbers. -/
def signedMagnitude (x : Binary64) : Int :=
  if x.isNegative then -(x.magnitude : Int) else x.magnitude

/-- The place of the word in the IEEE total order; negative zero is at −1. -/
def totalRank (x : Binary64) : Int :=
  if x.isNegative then -(x.magnitude : Int) - 1 else x.magnitude

/-- The word with this sign and magnitude. -/
def ofSignMagnitude (negative : Bool) (magnitude : Nat) : Binary64 :=
  ⟨(if negative then 0x8000000000000000 else 0) ||| UInt64.ofNat magnitude⟩

/-- The quiet NaN with an empty payload and a clear sign. -/
def nan : Binary64 := ⟨0x7FF8000000000000⟩

theorem magnitude_eq_mod (x : Binary64) : x.magnitude = x.bits.toNat % 2 ^ 63 := by
  unfold magnitude
  rw [UInt64.toNat_and]
  exact Nat.and_two_pow_sub_one_eq_mod _ 63

theorem isNegative_iff (x : Binary64) : x.isNegative = true ↔ 2 ^ 63 ≤ x.bits.toNat := by
  simp [isNegative, UInt64.le_iff_toNat_le]

/-- A word is determined by its sign and its magnitude. -/
theorem eq_of_sign_magnitude {x y : Binary64} (hs : x.isNegative = y.isNegative)
    (hm : x.magnitude = y.magnitude) : x = y := by
  have hx := x.isNegative_iff
  have hy := y.isNegative_iff
  have := x.bits.toNat_lt
  have := y.bits.toNat_lt
  rw [magnitude_eq_mod, magnitude_eq_mod] at hm
  have : x.bits.toNat = y.bits.toNat := by
    rw [hs] at hx
    have := hx.symm.trans hy
    omega
  cases x
  cases y
  exact congrArg mk (UInt64.toNat_inj.1 this)

/-! ## IEEE comparisons -/

/-- Equal as numbers: neither is a NaN, and the two zeros are the same number. -/
def numEq (x y : Binary64) : Bool :=
  !x.isNaN && !y.isNaN && x.signedMagnitude == y.signedMagnitude

/-- Less as numbers; false whenever one side is a NaN. -/
protected def Less (x y : Binary64) : Prop :=
  x.isNaN = false ∧ y.isNaN = false ∧ x.signedMagnitude < y.signedMagnitude

/-- At most as numbers; false whenever one side is a NaN. -/
protected def AtMost (x y : Binary64) : Prop :=
  x.isNaN = false ∧ y.isNaN = false ∧ x.signedMagnitude ≤ y.signedMagnitude

instance : LT Binary64 := ⟨Binary64.Less⟩
instance : LE Binary64 := ⟨Binary64.AtMost⟩

instance (x y : Binary64) : Decidable (x < y) :=
  inferInstanceAs (Decidable (_ ∧ _ ∧ _))

instance (x y : Binary64) : Decidable (x ≤ y) :=
  inferInstanceAs (Decidable (_ ∧ _ ∧ _))

theorem lt_def {x y : Binary64} :
    x < y ↔ x.isNaN = false ∧ y.isNaN = false ∧ x.signedMagnitude < y.signedMagnitude :=
  Iff.rfl

theorem le_def {x y : Binary64} :
    x ≤ y ↔ x.isNaN = false ∧ y.isNaN = false ∧ x.signedMagnitude ≤ y.signedMagnitude :=
  Iff.rfl

theorem numEq_iff {x y : Binary64} :
    x.numEq y = true ↔
      x.isNaN = false ∧ y.isNaN = false ∧ x.signedMagnitude = y.signedMagnitude := by
  simp [numEq, and_assoc]

/-! ## Choosing one of two numbers -/

/-- The smaller of two numbers, the first on a tie; a NaN gives way to the other. -/
def smaller (x y : Binary64) : Binary64 :=
  if x.isNaN then y else if y < x then y else x

/-- The larger of two numbers, the first on a tie; a NaN gives way to the other. -/
def larger (x y : Binary64) : Binary64 :=
  if x.isNaN then y else if x < y then y else x

end Binary64

end PlotSeries
