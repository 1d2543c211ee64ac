import PlotSeries.Binary64

/-!
# The order of keys

Records are kept in the order of their keys. Keys that are equal as numbers are
equal in this order, so both zeros stand together; all other pairs follow the
IEEE total order, which puts negative NaNs before −∞ and positive NaNs after +∞
instead of leaving them unordered.

* `compareKeys` is the three-way comparison, `keyLess` its strict part and
  `keyLe` the negation of the reverse strict part.
* `compareKeys_eq`: one integer per key, its magnitude with its sign, decides all
  comparisons, so the order is total and transitive.
-/

namespace PlotSeries

/-- Three-way comparison of keys. -/
def compareKeys (a b : Binary64) : Ordering :=
  if a.numEq b then .eq else compare a.totalRank b.totalRank

/-- The first key comes strictly before the second. -/
def keyLess (a b : Binary64) : Bool := (compareKeys a b).isLT

/-- The first key does not come after the second. -/
def keyLe (a b : Binary64) : Bool := !keyLess b a

/-- Among keys that differ as numbers, the total order is that of the magnitudes
with their signs; the two zeros are the only words for which it is not. -/
theorem totalRank_lt_iff {a b : Binary64} (h : a.numEq b = false) :
    a.totalRank < b.totalRank ↔ a.signedMagnitude < b.signedMagnitude := by
  have hz : ¬(a.magnitude = 0 ∧ b.magnitude = 0) := by
    intro ⟨ha, hb⟩
    simp [Binary64.numEq, Binary64.isNaN, Binary64.signedMagnitude, ha, hb] at h
  unfold Binary64.totalRank Binary64.signedMagnitude
  cases a.isNegative <;> cases b.isNegative <;> simp <;> omega

/-- Keys compare as their magnitudes with their signs. -/
theorem compareKeys_eq (a b : Binary64) :
    compareKeys a b = compare a.signedMagnitude b.signedMagnitude := by
  unfold compareKeys
  split
  next h => exact (Int.compare_eq_eq.2 (Binary64.numEq_iff.1 h).2.2).symm
  next h =>
    have hab : a.numEq b = false := by simpa using h
    have hba : b.numEq a = false := by
      rw [← hab, Bool.eq_iff_iff, Binary64.numEq_iff, Binary64.numEq_iff]
      exact ⟨fun ⟨hb, ha, e⟩ => ⟨ha, hb, e.symm⟩, fun ⟨ha, hb, e⟩ => ⟨hb, ha, e.symm⟩⟩
    have h₁ := totalRank_lt_iff hab
    have h₂ := totalRank_lt_iff hba
    rw [Int.compare_eq_ite_lt, Int.compare_eq_ite_lt]
    simp only [h₁, h₂]

theorem keyLess_iff {a b : Binary64} :
    keyLess a b = true ↔ a.signedMagnitude < b.signedMagnitude := by
  rw [keyLess, compareKeys_eq, Ordering.isLT_iff_eq_lt]
  exact Int.compare_eq_lt

theorem keyLe_iff {a b : Binary64} :
    keyLe a b = true ↔ a.signedMagnitude ≤ b.signedMagnitude := by
  have := @keyLess_iff b a
  cases h : keyLess b a <;> simp [keyLe, h] at this ⊢ <;> omega

end PlotSeries
