import PlotSeries.Proofs.Bounds
import PlotSeries.Proofs.Contents
import PlotSeries.Proofs.IndexRanges
import PlotSeries.Record.Kinds
import PlotSeries.Store.Query

/-!
# Windows of keys

The bounds that a store finds for a window of keys, and the records between them.

* `findStart_le_size`, `findStop_le_size`, `findStart_mono`, `findStop_mono`: the bounds
  lie within the records and go up with their keys, in records in any order.
* `mem_keySpan`: in key order, the span between the bounds covers the records that are
  neither below the one key nor above the other, whether or not the two keys are in order
  (`findStart_findStop_bracket`).
* `recordsIn_eq_filter`: so a store that looks only at the span of a window finds all the
  records that are drawn in it.
-/

namespace PlotSeries

/-- A filter that refuses what stands in front of a span and behind it can be applied to
the span alone. -/
theorem filter_span_eq {α : Type} {l : List α} {p : α → Bool} {i j : Nat} (hij : i ≤ j)
    (hfront : ∀ a ∈ l.take i, p a = false) (hbehind : ∀ a ∈ l.drop j, p a = false) :
    ((l.take j).drop i).filter p = l.filter p := by
  have htake : (l.take j).take i = l.take i := by rw [List.take_take, Nat.min_eq_left hij]
  have hnone {part : List α} (h : ∀ a ∈ part, p a = false) : part.filter p = [] :=
    List.filter_eq_nil_iff.2 fun a ha => Bool.eq_false_iff.1 (h a ha)
  calc
    ((l.take j).drop i).filter p
        = (l.take i).filter p ++ ((l.take j).drop i).filter p ++ (l.drop j).filter p := by
      rw [hnone hfront, hnone hbehind, List.nil_append, List.append_nil]
    _ = l.filter p := by
      rw [← List.filter_append, ← htake, List.take_append_drop, ← List.filter_append,
        List.take_append_drop]

variable {R : Type} [PlotRecord R]

namespace Store

/-! ## The bounds of a window -/

section Bounds

variable (s : Store R) (key : Binary64)

theorem findStart_false : s.findStart key false = runLowerBound s.toList key := s.lowerBound_eq key

theorem findStop_false : s.findStop key false = runUpperBound s.toList key := s.upperBound_eq key

/-- One record more in front, if there is one. -/
theorem findStart_true : s.findStart key true = s.findStart key false - 1 := rfl

/-- One record more behind, if there is one. -/
theorem findStop_true : s.findStop key true = min (s.findStop key false + 1) s.size := rfl

theorem findStart_le_size (expanded : Bool) : s.findStart key expanded ≤ s.size := by
  have hle : s.findStart key false ≤ s.size := s.lowerBound_le_size key
  cases expanded with
  | false => exact hle
  | true => exact Nat.le_trans (Nat.sub_le _ _) hle

theorem findStop_le_size (expanded : Bool) : s.findStop key expanded ≤ s.size := by
  cases expanded with
  | false => exact s.upperBound_le_size key
  | true => exact Nat.min_le_right _ _

variable {key} {other : Binary64} (h : keyLe key other = true)
include h

theorem findStart_mono (expanded : Bool) : s.findStart key expanded ≤ s.findStart other expanded := by
  have hle : s.findStart key false ≤ s.findStart other false := by
    rw [findStart_false, findStart_false]
    exact runLowerBound_mono s.toList (keyLe_iff.1 h)
  cases expanded with
  | false => exact hle
  | true =>
    rw [findStart_true, findStart_true]
    omega

theorem findStop_mono (expanded : Bool) : s.findStop key expanded ≤ s.findStop other expanded := by
  have hle : s.findStop key false ≤ s.findStop other false := by
    rw [findStop_false, findStop_false]
    exact runUpperBound_mono s.toList (keyLe_iff.1 h)
  cases expanded with
  | false => exact hle
  | true =>
    rw [findStop_true, findStop_true]
    omega

end Bounds

/-! ## The records of a window -/

/-- The span of a window covers the records that are neither below it nor above it. -/
theorem mem_keySpan {s : Store R} (hs : InKeyOrder s.toList) (lower upper : Binary64) {i : Nat}
    {r : R} (hr : s.toList[i]? = some r) :
    i ∈ s.keySpan ⟨lower, upper⟩ false ↔
      keyLess (sortKey r) lower = false ∧ keyLess upper (sortKey r) = false := by
  have hbelow := lt_runLowerBound_iff_keyLess hs lower hr
  have habove := runUpperBound_le_iff_keyLess hs upper hr
  rw [← Bool.not_eq_true, ← Bool.not_eq_true, ← hbelow, ← habove, IndexRange.mem_iff, keySpan,
    findStart_false, findStop_false]
  dsimp only
  omega

/-- The record is drawn at a key of the window, if there is one. -/
def drawnIn (keys : Option Extent) (r : R) : Bool :=
  keys.all fun window => window.contains (mainKey r)

/-- The records that a store looks at are all that are drawn in the window. -/
theorem recordsIn_eq_filter {s : Store R} (hs : InKeyOrder s.toList) (keys : Option Extent) :
    s.recordsIn keys = s.toList.filter (drawnIn keys) := by
  cases keys with
  | none => exact (List.filter_eq_self.2 fun _ _ => rfl).symm
  | some window =>
    cases hsorts : PlotRecord.sortsByMainKey R with
    | false =>
      simp only [recordsIn, hsorts, Bool.false_eq_true, if_false]
      rfl
    | true =>
      have hsort (r : R) : mainKey r = sortKey r := PlotRecord.mainKey_eq_sortKey hsorts r
      simp only [recordsIn, hsorts, if_true, keySpan, findStart_false, findStop_false]
      refine filter_span_eq (Nat.le_max_right _ _) (fun r hr => ?_) (fun r hr => ?_)
      · -- in front of the span a key is below the window
        have hlt := take_runLowerBound hs window.lower r hr
        rw [Extent.contains, hsort, Bool.and_eq_false_iff]
        exact .inl (decide_eq_false fun hle => Int.not_le.2 hlt hle.2.2)
      · -- behind the span it is above the window
        have hlt := drop_runUpperBound hs window.upper r
          ((List.drop_subset_drop_left _ (Nat.le_max_left _ _)) hr)
        rw [Extent.contains, hsort, Bool.and_eq_false_iff]
        exact .inr (decide_eq_false fun hle => Int.not_le.2 hlt hle.2.2)

end Store

/-- Of a store in key order, the records from the start found for one key up to the stop
found for another are those that are neither below the first nor above the second; for
keys that are numbers, those between them as numbers. With one record more on each side,
the start is one less unless it is the first index, and the stop one more unless it is
the number of records. All bounds lie within the records and go up with their keys. -/
theorem findStart_findStop_bracket {s : Store R} (hs : InKeyOrder s.toList) (lower upper : Binary64) :
    (∀ i r, s.get? i = some r →
        ((s.findStart lower false ≤ i ∧
            i < max (s.findStop upper false) (s.findStart lower false)) ↔
          keyLess (sortKey r) lower = false ∧ keyLess upper (sortKey r) = false) ∧
        (lower.isNaN = false → upper.isNaN = false →
          ((s.findStart lower false ≤ i ∧
              i < max (s.findStop upper false) (s.findStart lower false)) ↔
            lower ≤ sortKey r ∧ sortKey r ≤ upper))) ∧
      (∀ key, s.findStart key true =
        if s.findStart key false = 0 then 0 else s.findStart key false - 1) ∧
      (∀ key, s.findStop key true =
        if s.findStop key false = s.size then s.size else s.findStop key false + 1) ∧
      (∀ key expanded, s.findStart key expanded ≤ s.size ∧ s.findStop key expanded ≤ s.size) ∧
      ∀ key other expanded, keyLe key other = true →
        s.findStart key expanded ≤ s.findStart other expanded ∧
          s.findStop key expanded ≤ s.findStop other expanded := by
  refine ⟨fun i r hr => ?_, fun key => ?_, fun key => ?_, fun key expanded => ?_,
    fun key other expanded h => ?_⟩
  · have hspan := Store.mem_keySpan hs lower upper ((s.get?_eq i).symm.trans hr)
    refine ⟨hspan, fun hlower hupper => hspan.trans ?_⟩
    rw [Binary64.le_and_le_iff hlower hupper, ← Bool.not_eq_true, ← Bool.not_eq_true, keyLess_iff,
      keyLess_iff, Int.not_lt, Int.not_lt]
  · rw [s.findStart_true]
    split <;> omega
  · have hle := s.findStop_le_size key false
    rw [s.findStop_true]
    split <;> omega
  · exact ⟨s.findStart_le_size key expanded, s.findStop_le_size key expanded⟩
  · exact ⟨s.findStart_mono h expanded, s.findStop_mono h expanded⟩

/-- Samples at both zeros, between numbers and keys that are no numbers at both ends. -/
def zeroSamples : Store Sample where
  buffer := .ofList [⟨⟨0xFFF8000000000000⟩, 0⟩, ⟨.nearest true 1 0, 0⟩, ⟨.nearest true 0 0, 0⟩,
    ⟨0, 0⟩, ⟨.ofNat 1, 0⟩, ⟨.nan, 0⟩] 0

/-- The sample at negative zero lies between the bounds of a window from positive zero to
negative zero, and the start for positive zero is not behind that for negative zero. -/
theorem zeroSamples_bracket :
    InKeyOrder zeroSamples.toList ∧
      zeroSamples.get? 2 = some ⟨.nearest true 0 0, 0⟩ ∧
      Binary64.isNaN 0 = false ∧ (Binary64.nearest true 0 0).isNaN = false ∧
      keyLe 0 (.nearest true 0 0) = true ∧
      zeroSamples.findStart 0 false ≤ 2 ∧
      2 < max (zeroSamples.findStop (.nearest true 0 0) false) (zeroSamples.findStart 0 false) ∧
      zeroSamples.findStart 0 true ≤ zeroSamples.findStart (.nearest true 0 0) true := by
  have hs : InKeyOrder zeroSamples.toList := by decide
  have hget : zeroSamples.get? 2 = some ⟨.nearest true 0 0, 0⟩ := by decide
  have hpositive : Binary64.isNaN 0 = false := by decide
  have hnegative : (Binary64.nearest true 0 0).isNaN = false := by decide
  have hle : keyLe 0 (.nearest true 0 0) = true := by decide
  obtain ⟨hbracket, -, -, -, hmono⟩ := findStart_findStop_bracket hs 0 (.nearest true 0 0)
  obtain ⟨hstart, hstop⟩ := ((hbracket 2 _ hget).2 hpositive hnegative).2 (by decide)
  exact ⟨hs, hget, hpositive, hnegative, hle, hstart, hstop, (hmono 0 _ true hle).1⟩

end PlotSeries
