import PlotSeries.Proofs.Checked.Merge
import PlotSeries.Proofs.Interleaving
import PlotSeries.Proofs.StableSort
import PlotSeries.Binary64.Rounding
import PlotSeries.Record.Kinds

/-!
# Merging two runs in place

What a merge does to a row, for runs in any order: it stays within the row, gives each
record of the two runs one place, and moves nothing outside the window in which the runs
can overlap. The window starts behind the records of the first run that are not above the
head of the second (`mergeStart`) and ends before the records of the second that are not
below the last of the first (`mergeStop`); the records at the other indices are where they
were (`getElem?_mergeRuns`), because the merged window is as long as the one it replaces.

For runs in key order the window is all that is out of order, so the row becomes its
stable sort, in which records with equal keys are those of the first run and then those of
the second (`filter_mergeRuns`).
-/

namespace PlotSeries

/-- Lists that differ in a part of the same length in the middle agree on both sides of it. -/
theorem getElem?_append_append {α : Type} {front middle middle' back : List α}
    (hlength : middle.length = middle'.length) {i : Nat}
    (hi : i < front.length ∨ front.length + middle.length ≤ i) :
    (front ++ middle ++ back)[i]? = (front ++ middle' ++ back)[i]? := by
  rw [List.append_assoc, List.append_assoc]
  rcases hi with hi | hi
  · rw [List.getElem?_append_left hi, List.getElem?_append_left hi]
  · rw [List.getElem?_append_right (by omega), List.getElem?_append_right (by omega),
      List.getElem?_append_right (by omega), List.getElem?_append_right (by omega), hlength]

variable {R : Type} [PlotRecord R]

/-! ## The window of a merge -/

section Window

variable (row : List R) {mid : Nat} (h : mid < row.length)

/-- Index of the first record of the first run that is above the head of the second. -/
def mergeStart : Nat := runUpperBound (row.take mid) (sortKey row[mid])

/-- Index of the first record of the second run that is not below the last of the first. -/
def mergeStop : Nat := mid + runLowerBound (row.drop mid) (sortKey row[mid - 1])

theorem mergeStart_le : mergeStart row h ≤ mid := by
  have hle := runUpperBound_le (row.take mid) (sortKey row[mid])
  have hlength := List.length_take_le mid row
  exact Nat.le_trans hle hlength

theorem mergeStop_le : mergeStop row h ≤ row.length := by
  have hle := runLowerBound_le (row.drop mid) (sortKey row[mid - 1])
  rw [List.length_drop] at hle
  show mid + runLowerBound (row.drop mid) (sortKey row[mid - 1]) ≤ row.length
  omega

/-- A merge leaves the records in front of the window and behind it where they are, whether or
not the two runs are in key order. -/
theorem getElem?_mergeRuns (hmid : 0 < mid) {i : Nat}
    (hi : i < mergeStart row h ∨ mergeStop row h ≤ i) : (mergeRuns row mid)[i]? = row[i]? := by
  have hstart := mergeStart_le row h
  have hstop := mergeStop_le row h
  rw [Checked.mergeRuns_of_lt hmid h]
  simp only [mergeStart, mergeStop] at hi hstart hstop
  generalize runUpperBound (row.take mid) (sortKey row[mid]) = start at *
  generalize runLowerBound (row.drop mid) (sortKey row[mid - 1]) = stop at *
  dsimp only
  split
  · rfl
  · have hsplit : row = (row.take mid).take start ++
        ((row.take mid).drop start ++ (row.drop mid).take stop) ++ (row.drop mid).drop stop := by
      rw [← List.append_assoc, List.take_append_drop, List.append_assoc, List.take_append_drop,
        List.take_append_drop]
    have hfront : ((row.take mid).take start).length = start := by simp; omega
    have hwindow := (Interleaving.merge recordLe ((row.take mid).drop start)
      ((row.drop mid).take stop)).perm.length_eq
    have hlength : ((row.take mid).drop start ++ (row.drop mid).take stop).length =
        mid - start + stop := by
      simp
      omega
    conv => rhs; rw [hsplit]
    exact getElem?_append_append hwindow (by omega)

end Window

/-! ## Runs in key order -/

/-- Of the records at one place, those of the first run come first. -/
theorem filter_mergeRuns {row : List R} {mid : Nat} (hl : InKeyOrder (row.take mid))
    (hr : InKeyOrder (row.drop mid)) (p : Int) :
    (mergeRuns row mid).filter (atPlace p) =
      (row.take mid).filter (atPlace p) ++ (row.drop mid).filter (atPlace p) := by
  rw [mergeRuns_eq_sortByKey hl hr, filter_sortByKey, ← List.filter_append, List.take_append_drop]

/-- Merging in place never leaves the row, and makes of it an interleaving of its two runs,
each in its own order, so that no record is lost or copied, whatever order they are in. What
lies outside the window where the runs can overlap stays where it is. Of runs in key order it
makes the stable sort of the row: the records are in key order, and of those with equal keys
the ones of the first run come first. -/
theorem mergeRow_merges (row : List R) (mid : Nat) :
    (Checked.mergeRow mid).run row = .ok ⟨⟩ (mergeRuns row mid) ∧
      Interleaving (row.take mid) (row.drop mid) (mergeRuns row mid) ∧
      (mergeRuns row mid).Perm row ∧
      (∀ h : mid < row.length, 0 < mid → ∀ i, i < mergeStart row h ∨ mergeStop row h ≤ i →
        (mergeRuns row mid)[i]? = row[i]?) ∧
      (InKeyOrder (row.take mid) → InKeyOrder (row.drop mid) →
        mergeRuns row mid = sortByKey row ∧ InKeyOrder (mergeRuns row mid) ∧
          ∀ p, (mergeRuns row mid).filter (atPlace p) =
            (row.take mid).filter (atPlace p) ++ (row.drop mid).filter (atPlace p)) := by
  have hinterleaving := interleaving_mergeRuns row mid
  have hperm : (mergeRuns row mid).Perm row := by
    have h := hinterleaving.perm
    rwa [List.take_append_drop] at h
  refine ⟨Checked.mergeRow_eq row mid, hinterleaving, hperm,
    fun h hmid i hi => getElem?_mergeRuns row h hmid hi, fun hl hr => ?_⟩
  have hsort := mergeRuns_eq_sortByKey hl hr
  exact ⟨hsort, hsort ▸ inKeyOrder_sortByKey row, filter_mergeRuns hl hr⟩

/-- Two runs with a key in common: samples at 1, 3, 3 and 5, and then at 2, 3 and 6. -/
def crossingRuns : List Sample :=
  [⟨.ofNat 1, ⟨1⟩⟩, ⟨.ofNat 3, ⟨2⟩⟩, ⟨.ofNat 3, ⟨3⟩⟩, ⟨.ofNat 5, ⟨4⟩⟩,
    ⟨.ofNat 2, ⟨5⟩⟩, ⟨.ofNat 3, ⟨6⟩⟩, ⟨.ofNat 6, ⟨7⟩⟩]

/-- The window goes from the second sample to the sixth; the first and the last stay, and of
the samples at 3 those of the first run come first. -/
theorem crossingRuns_merged :
    InKeyOrder (crossingRuns.take 4) ∧ InKeyOrder (crossingRuns.drop 4) ∧
      (Checked.mergeRow 4).run crossingRuns = .ok ⟨⟩ (sortByKey crossingRuns) ∧
      (mergeRuns crossingRuns 4)[0]? = crossingRuns[0]? ∧
      (mergeRuns crossingRuns 4)[6]? = crossingRuns[6]? ∧
      ((mergeRuns crossingRuns 4).filter (atPlace (Binary64.ofNat 3).signedMagnitude)).map
        Sample.value = [⟨2⟩, ⟨3⟩, ⟨6⟩] := by
  have hl : InKeyOrder (crossingRuns.take 4) := by decide
  have hr : InKeyOrder (crossingRuns.drop 4) := by decide
  obtain ⟨hrun, -, -, houtside, hsorted⟩ := mergeRow_merges crossingRuns 4
  obtain ⟨hsort, -, hties⟩ := hsorted hl hr
  refine ⟨hl, hr, hsort ▸ hrun, houtside (by decide) (by decide) 0 (by decide +kernel),
    houtside (by decide) (by decide) 6 (by decide +kernel), ?_⟩
  rw [hties]
  decide

end PlotSeries
