import PlotSeries.Bisect
import PlotSeries.KeyOrder

/-!
# Bounds of a key

Where a key would be inserted among keys in ascending order: `lowerBound` before
the keys equal to it, `upperBound` after them. Both are bisections over the keys
at the indices below `n`.
-/

namespace PlotSeries

/-- Index of the first key that is not less than `target`. -/
def lowerBound (n : Nat) (keyAt : Fin n → Binary64) (target : Binary64) : Nat :=
  bisect n fun i => keyLess (keyAt i) target

/-- Index of the first key that is greater than `target`. -/
def upperBound (n : Nat) (keyAt : Fin n → Binary64) (target : Binary64) : Nat :=
  bisect n fun i => !keyLess target (keyAt i)

theorem lowerBound_le (n : Nat) (keyAt : Fin n → Binary64) (target : Binary64) :
    lowerBound n keyAt target ≤ n :=
  bisect_le n _

theorem upperBound_le (n : Nat) (keyAt : Fin n → Binary64) (target : Binary64) :
    upperBound n keyAt target ≤ n :=
  bisect_le n _

end PlotSeries
