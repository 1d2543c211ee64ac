/-!
# Bisection

The search behind every lookup: `bisect n goRight` halves the interval from 0 to
`n` until it is empty, and moves right past a probed index exactly when
`goRight` holds there. It probes the same indices whether or not the answers of
`goRight` are monotone, so its result is also determined on unsorted data.

* `bisect_le`: the result is at most `n`.
-/

namespace PlotSeries

/-- Bisection of the indices from `lo` up to `hi`. -/
def bisectFrom {n : Nat} (goRight : Fin n → Bool) (lo hi : Nat) (hn : hi ≤ n) : Nat :=
  if h : lo < hi then
    let mid := (lo + hi) / 2
    if goRight ⟨mid, by omega⟩ then bisectFrom goRight (mid + 1) hi hn
    else bisectFrom goRight lo mid (by omega)
  else lo
termination_by hi - lo

/-- Bisection of all indices below `n`. -/
def bisect (n : Nat) (goRight : Fin n → Bool) : Nat :=
  bisectFrom goRight 0 n (Nat.le_refl n)

theorem bisectFrom_le {n : Nat} (goRight : Fin n → Bool) (lo hi : Nat) (hn : hi ≤ n)
    (hlo : lo ≤ hi) : bisectFrom goRight lo hi hn ≤ hi := by
  fun_induction bisectFrom goRight lo hi hn with
  | case1 lo hi hn h mid _ ih => exact ih (by omega)
  | case2 lo hi hn h mid _ ih => exact Nat.le_trans (ih (by omega)) (by omega)
  | case3 lo hi hn h => exact hlo

/-- The result of a bisection is an index or the number of indices. -/
theorem bisect_le (n : Nat) (goRight : Fin n → Bool) : bisect n goRight ≤ n :=
  bisectFrom_le goRight 0 n (Nat.le_refl n) (Nat.zero_le n)

end PlotSeries
