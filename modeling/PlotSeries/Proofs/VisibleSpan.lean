import PlotSeries.Proofs.Bounds
import PlotSeries.Proofs.Contents
import PlotSeries.Proofs.IndexRanges
import PlotSeries.Record.Kinds

/-!
# What a viewport draws

The span that a window of keys needs covers the records in the window and both ends of
every line that reaches into it, and no more than one record beyond each end of the
window (`Draws`). Both bounds of the span come from bisections widened by one record:
`Store.mem_visibleSpan` says which indices lie between them, for any window and records
in any order, and where the records are in key order these are the indices that have to
be drawn (`visibleSpan_draws`).
-/

namespace PlotSeries

variable {R : Type} [PlotRecord R]

/-- A span of a run is what has to be drawn for a window of keys. -/
structure Draws (run : List R) (keys : Extent) (span : IndexRange) : Prop where
  /-- The bounds are in order and within the run. -/
  between : span.Between ⟨0, run.length⟩
  /-- Something is drawn if there is anything to draw. -/
  nonempty : run ≠ [] → span.start < span.stop
  /-- The records in the window are drawn. -/
  records : ∀ i r, run[i]? = some r → keys.contains (mainKey r) = true → i ∈ span
  /-- The line between two neighbours is drawn unless both are below or both above. -/
  segments : ∀ i r next, run[i]? = some r → run[i + 1]? = some next →
    keyLess keys.upper (mainKey r) = false → keyLess (mainKey next) keys.lower = false →
      i ∈ span ∧ i + 1 ∈ span
  /-- No more than one record below the window is drawn. -/
  one_below : ∀ i j r other, run[i]? = some r → run[j]? = some other → i ∈ span → j ∈ span →
    keyLess (mainKey r) keys.lower = true → keyLess (mainKey other) keys.lower = true → i = j
  /-- No more than one record above the window is drawn. -/
  one_above : ∀ i j r other, run[i]? = some r → run[j]? = some other → i ∈ span → j ∈ span →
    keyLess keys.upper (mainKey r) = true → keyLess keys.upper (mainKey other) = true → i = j

/-! ## The visible span -/

namespace Store

variable (s : Store R) (keys : Extent)

theorem visibleSpan_eq_clampTo (hsorts : PlotRecord.sortsByMainKey R = true) :
    s.visibleSpan keys = (s.keySpan keys true).clampTo s.indexRange := by
  rw [visibleSpan, visibleSpanWithin, if_pos hsorts]
  exact s.limitSpan_of_all _ _ ⟨Nat.le_refl _, s.indexRange_ordered, Nat.le_refl _⟩

/-- The indices of the visible span: one record before the lower bound of the window is
included, and one from its upper bound on. -/
theorem mem_visibleSpan (hsorts : PlotRecord.sortsByMainKey R = true) (i : Nat) :
    i ∈ s.visibleSpan keys ↔
      runLowerBound s.toList keys.lower ≤ i + 1 ∧
        i ≤ runUpperBound s.toList keys.upper ∧ i < s.toList.length := by
  rw [s.visibleSpan_eq_clampTo keys hsorts, IndexRange.mem_clampTo, ← size_eq, ← lowerBound_eq,
    ← upperBound_eq]
  simp only [keySpan, findStart, findStop, indexRange, IndexRange.mem_iff, if_true]
  omega

theorem between_visibleSpanWithin (selection : IndexRange) :
    (s.visibleSpanWithin keys selection).Between s.indexRange :=
  s.between_limitSpan _ _

/-- Under a selection, what is left of the visible span is what lies in the selection. -/
theorem mem_visibleSpanWithin (selection : IndexRange) (i : Nat) :
    i ∈ s.visibleSpanWithin keys selection ↔ i ∈ s.visibleSpan keys ∧ i ∈ selection := by
  simp only [visibleSpan, visibleSpanWithin, mem_limitSpan]
  constructor
  · rintro ⟨hspan, hselection, hrecords⟩
    exact ⟨⟨hspan, hrecords, hrecords⟩, hselection⟩
  · rintro ⟨⟨hspan, hrecords, -⟩, hselection⟩
    exact ⟨hspan, hselection, hrecords⟩

theorem draws_visibleSpan (hsorts : PlotRecord.sortsByMainKey R = true) (hs : InKeyOrder s.toList)
    (hkeys : keys.lower ≤ keys.upper) : Draws s.toList keys (s.visibleSpan keys) := by
  have hmem := s.mem_visibleSpan keys hsorts
  have hbounds : runLowerBound s.toList keys.lower ≤ runUpperBound s.toList keys.upper :=
    runLowerBound_le_runUpperBound s.toList hkeys.2.2
  have hsort (r : R) : mainKey r = sortKey r := PlotRecord.mainKey_eq_sortKey hsorts r
  have hbelow {i : Nat} {r : R} (hr : s.toList[i]? = some r) :
      i < runLowerBound s.toList keys.lower ↔ keyLess (mainKey r) keys.lower = true := by
    rw [hsort]
    exact lt_runLowerBound_iff_keyLess hs keys.lower hr
  have habove {i : Nat} {r : R} (hr : s.toList[i]? = some r) :
      runUpperBound s.toList keys.upper ≤ i ↔ keyLess keys.upper (mainKey r) = true := by
    rw [hsort]
    exact runUpperBound_le_iff_keyLess hs keys.upper hr
  refine { between := ?between, nonempty := ?nonempty, records := ?records,
           segments := ?segments, one_below := ?one_below, one_above := ?one_above }
  case between =>
    rw [← size_eq]
    exact s.between_visibleSpanWithin keys s.indexRange
  case nonempty =>
    intro hne
    have hlength := List.length_pos_iff.2 hne
    have hle := runLowerBound_le s.toList keys.lower
    have hfirst : runLowerBound s.toList keys.lower - 1 ∈ s.visibleSpan keys := by
      rw [hmem]
      omega
    exact Nat.lt_of_le_of_lt hfirst.1 hfirst.2
  case records =>
    intro i r hr hin
    obtain ⟨hi, -⟩ := List.getElem?_eq_some_iff.1 hr
    rw [Extent.contains, Bool.and_eq_true, decide_eq_true_iff, decide_eq_true_iff] at hin
    have hnotBelow : ¬i < runLowerBound s.toList keys.lower := by
      rw [hbelow hr, keyLess_iff]
      exact Int.not_lt.2 hin.1.2.2
    have hnotAbove : ¬runUpperBound s.toList keys.upper ≤ i := by
      rw [habove hr, keyLess_iff]
      exact Int.not_lt.2 hin.2.2.2
    rw [hmem]
    omega
  case segments =>
    intro i r next hr hnext hnotAbove hnotBelow
    obtain ⟨hi, -⟩ := List.getElem?_eq_some_iff.1 hnext
    have hupper := mt (habove hr).1 (Bool.eq_false_iff.1 hnotAbove)
    have hlower := mt (hbelow hnext).1 (Bool.eq_false_iff.1 hnotBelow)
    rw [hmem, hmem]
    omega
  case one_below =>
    intro i j r other hr hother hi hj hbelow₁ hbelow₂
    have hlt₁ := (hbelow hr).2 hbelow₁
    have hlt₂ := (hbelow hother).2 hbelow₂
    rw [hmem] at hi hj
    omega
  case one_above =>
    intro i j r other hr hother hi hj habove₁ habove₂
    have hle₁ := (habove hr).2 habove₁
    have hle₂ := (habove hother).2 habove₂
    rw [hmem] at hi hj
    omega

end Store

/-- Where the records are sorted by the keys they are drawn at, the visible span is what
has to be drawn for any window whose bounds are in order as numbers; elsewhere it is all
records. For any window and any selection, whether or not their bounds are in order, the
span under the selection has its bounds in order and among the records, and covers
exactly what lies in the visible span and in the selection. -/
theorem visibleSpan_draws (s : Store R) (keys : Extent) :
    (PlotRecord.sortsByMainKey R = true → InKeyOrder s.toList → keys.lower ≤ keys.upper →
        Draws s.toList keys (s.visibleSpan keys)) ∧
      (PlotRecord.sortsByMainKey R = false → s.visibleSpan keys = ⟨0, s.size⟩) ∧
      (∀ n, s.size ≤ n → s.visibleSpanWithin keys ⟨0, n⟩ = s.visibleSpan keys) ∧
      ∀ selection : IndexRange,
        (s.visibleSpanWithin keys selection).start ≤ (s.visibleSpanWithin keys selection).stop ∧
          (s.visibleSpanWithin keys selection).stop ≤ s.size ∧
          ∀ i, i ∈ s.visibleSpanWithin keys selection ↔
            i ∈ s.visibleSpan keys ∧ i ∈ selection := by
  have hall : s.indexRange.Between s.indexRange :=
    ⟨Nat.le_refl _, s.indexRange_ordered, Nat.le_refl _⟩
  refine ⟨fun hsorts hs hkeys => s.draws_visibleSpan keys hsorts hs hkeys, fun hsorts => ?_,
    fun n hn => ?_, fun selection => ?_⟩
  · have hspan : s.visibleSpan keys = s.limitSpan s.indexRange s.indexRange := by
      rw [Store.visibleSpan, Store.visibleSpanWithin, hsorts]
      rfl
    rw [hspan, s.limitSpan_of_all _ _ hall, hall.clampTo_eq_right]
    rfl
  · have hmany : s.indexRange.Between ⟨0, n⟩ := ⟨Nat.le_refl _, s.indexRange_ordered, hn⟩
    rw [Store.visibleSpan, Store.visibleSpanWithin, Store.visibleSpanWithin,
      s.limitSpan_of_all _ _ hmany, s.limitSpan_of_all _ _ hall]
  · have hbetween := s.between_visibleSpanWithin keys selection
    exact ⟨hbetween.start_le_stop, hbetween.stop_le, s.mem_visibleSpanWithin keys selection⟩

/-- Samples with a gap, twice the key 2, and keys that are no numbers at both ends. -/
def gappedSamples : Store Sample where
  buffer := .ofList [⟨⟨0xFFF8000000000000⟩, 0⟩, ⟨.ofNat 1, 0⟩, ⟨.ofNat 2, 0⟩, ⟨.ofNat 2, 0⟩,
    ⟨.ofNat 7, 0⟩, ⟨.nan, 0⟩] 0

/-- One point of a curve. -/
def singlePoint : Store CurvePoint where
  buffer := .ofList [default] 0

/-- A window in the gap shows the line across it, from the second sample at 2 to the one
at 7, and a selection of the first four samples leaves the first end of that line. A
window out of order shows all points of a curve. -/
theorem gappedSamples_draws :
    PlotRecord.sortsByMainKey Sample = true ∧ InKeyOrder gappedSamples.toList ∧
      Binary64.ofNat 3 ≤ Binary64.ofNat 5 ∧ gappedSamples.size ≤ maxIndex ∧
      PlotRecord.sortsByMainKey CurvePoint = false ∧
      Draws gappedSamples.toList ⟨.ofNat 3, .ofNat 5⟩ ⟨3, 5⟩ ∧
      gappedSamples.visibleSpanWithin ⟨.ofNat 3, .ofNat 5⟩ ⟨0, maxIndex⟩ = ⟨3, 5⟩ ∧
      (∀ i, i ∈ gappedSamples.visibleSpanWithin ⟨.ofNat 3, .ofNat 5⟩ ⟨0, 4⟩ ↔
        i ∈ (⟨3, 5⟩ : IndexRange) ∧ i ∈ (⟨0, 4⟩ : IndexRange)) ∧
      singlePoint.visibleSpan ⟨.ofNat 5, .ofNat 3⟩ = ⟨0, 1⟩ := by
  have hs : InKeyOrder gappedSamples.toList := by decide
  have hkeys : Binary64.ofNat 3 ≤ Binary64.ofNat 5 := by decide
  have hsize : gappedSamples.size ≤ maxIndex := by decide
  have hspan : gappedSamples.visibleSpan ⟨.ofNat 3, .ofNat 5⟩ = ⟨3, 5⟩ := by decide +kernel
  obtain ⟨hdraws, -, hunselected, hselected⟩ :=
    visibleSpan_draws gappedSamples ⟨.ofNat 3, .ofNat 5⟩
  obtain ⟨-, hcurve, -⟩ := visibleSpan_draws singlePoint ⟨.ofNat 5, .ofNat 3⟩
  rw [hspan] at hdraws hunselected hselected
  exact ⟨rfl, hs, hkeys, hsize, rfl, hdraws rfl hs hkeys, hunselected maxIndex hsize,
    (hselected ⟨0, 4⟩).2.2, hcurve rfl⟩

end PlotSeries
