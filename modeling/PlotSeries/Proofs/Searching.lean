import PlotSeries.Proofs.Checked.Merge
import PlotSeries.Binary64.Rounding
import PlotSeries.Record.Kinds

/-!
# Searching a row

What the two searches find in a row of records in any order. Both are bisections for the end
of the records of one kind, those below a key or those not above it. A bisection stays in the
row and ends at an index where the row changes from that kind to the other (`ChangesAt`): it
keeps the last record it found of the one kind in front of it and the last of the other behind
it (`Bracket`), so this needs no order.

In a row in key order the records of the one kind come first, and there is only one such index,
their number (`ChangesAt.eq_countP`).
-/

namespace PlotSeries

variable {R : Type}

/-- The row changes at an index from records of one kind to others: the record in front of the
index, if there is one, is of that kind, and the record at it, if there is one, is not. -/
structure ChangesAt (p : R → Bool) (row : List R) (i : Nat) : Prop where
  le_length : i ≤ row.length
  before : i = 0 ∨ ∃ r, row[i - 1]? = some r ∧ p r = true
  after : i = row.length ∨ ∃ r, row[i]? = some r ∧ p r = false

section First

variable {p : R → Bool} {row : List R} {i : Nat} (h : ChangesAt p row i)
  (hfirst : row.Pairwise fun a b => p b = true → p a = true)

include hfirst in
theorem holds_of_le {j k : Nat} {a b : R} (hjk : j ≤ k) (ha : row[j]? = some a)
    (hb : row[k]? = some b) (hp : p b = true) : p a = true := by
  obtain ⟨hj, rfl⟩ := List.getElem?_eq_some_iff.1 ha
  obtain ⟨hk, rfl⟩ := List.getElem?_eq_some_iff.1 hb
  rcases Nat.lt_or_eq_of_le hjk with hlt | rfl
  · exact List.pairwise_iff_getElem.1 hfirst j k hj hk hlt hp
  · exact hp

include h hfirst

theorem ChangesAt.holds_of_mem_take : ∀ a ∈ row.take i, p a = true := by
  intro a ha
  obtain ⟨j, hj, rfl⟩ := List.mem_take_iff_getElem.1 ha
  obtain hzero | ⟨r, hr, hp⟩ := h.before
  · omega
  · exact holds_of_le hfirst (by omega) (List.getElem?_eq_getElem _) hr hp

theorem ChangesAt.fails_of_mem_drop : ∀ a ∈ row.drop i, ¬p a = true := by
  intro a ha hp
  obtain ⟨j, hj, rfl⟩ := List.mem_drop_iff_getElem.1 ha
  obtain hend | ⟨r, hr, hnot⟩ := h.after
  · omega
  · rw [holds_of_le hfirst (Nat.le_add_right i j) hr (List.getElem?_eq_getElem _) hp] at hnot
    cases hnot

/-- Where the records of the kind come first, the row changes once, at their number. -/
theorem ChangesAt.eq_countP : i = row.countP p := by
  have htake : (row.take i).countP p = (row.take i).length :=
    List.countP_eq_length.2 (h.holds_of_mem_take hfirst)
  have hdrop : (row.drop i).countP p = 0 := List.countP_eq_zero.2 (h.fails_of_mem_drop hfirst)
  calc
    i = (row.take i).countP p + (row.drop i).countP p := by
      rw [htake, hdrop, Nat.add_zero, List.length_take, Nat.min_eq_left h.le_length]
    _ = row.countP p := by rw [← List.countP_append, List.take_append_drop]

end First

/-! ## Bisecting a row -/

/-- The intervals of indices that a bisection of a row goes through. -/
def rowIntervals (p : R → Bool) (row : List R) : List (Nat × Nat) :=
  intervals row.length fun i => p (row.get i)

/-- A bisection of a row for the end of the records of one kind ends at an index where the row
changes. It takes at most as many steps as the length of the row has binary digits, and if that
length leaves one bit of a word free, then the two ends of an interval can be added in a word. -/
structure BisectsTo (p : R → Bool) (row : List R) (i : Nat) : Prop where
  changes : ChangesAt p row i
  last : (rowIntervals p row).getLast? = some (i, i)
  steps : ∀ k, row.length < 2 ^ k → (rowIntervals p row).length ≤ k + 1
  sums : row.length < 2 ^ 63 → ∀ interval ∈ rowIntervals p row, interval.1 + interval.2 < 2 ^ 64

theorem bisectsTo_bisect (p : R → Bool) (row : List R) :
    BisectsTo p row (bisect row.length fun i => p (row.get i)) := by
  have hbracket := bracket_bisect fun i => p (row.get i)
  have hget (i : Fin row.length) : row[i.val]? = some (row.get i) := List.getElem?_eq_getElem i.isLt
  refine ⟨⟨hbracket.le_size, ?_, ?_⟩, getLast?_intervals _, fun k hk => length_intervals_le hk,
    fun hlength interval hmem => ?_⟩
  · obtain hzero | ⟨i, hi, hp⟩ := hbracket.right
    · exact .inl hzero
    · refine .inr ⟨row.get i, ?_, hp⟩
      rw [← hi, Nat.add_sub_cancel]
      exact hget i
  · obtain hend | ⟨i, hi, hp⟩ := hbracket.left
    · exact .inl hend
    · refine .inr ⟨row.get i, ?_, hp⟩
      rw [← hi]
      exact hget i
  · -- both ends of the interval are indices of the row or its length
    have h := bracket_of_mem_intervals hmem
    have hle := h.le
    have hsize := h.le_size
    omega

/-! ## The two searches -/

variable [PlotRecord R]

/-- The record is below the key. -/
def isBelow (key : Binary64) (r : R) : Bool := keyLess (sortKey r) key

/-- The record is not above the key. -/
def isNotAbove (key : Binary64) (r : R) : Bool := !keyLess key (sortKey r)

section Sorted

variable {row : List R} (hrow : InKeyOrder row) (key : Binary64)
include hrow

theorem InKeyOrder.isBelow_first :
    row.Pairwise fun a b => isBelow key b = true → isBelow key a = true := by
  refine hrow.imp fun {a b} hab hb => ?_
  rw [recordLe_iff] at hab
  rw [isBelow, keyLess_sortKey_iff] at hb ⊢
  exact Int.lt_of_le_of_lt hab hb

theorem InKeyOrder.isNotAbove_first :
    row.Pairwise fun a b => isNotAbove key b = true → isNotAbove key a = true := by
  refine hrow.imp fun {a b} hab hb => ?_
  rw [recordLe_iff] at hab
  rw [isNotAbove, not_keyLess_key_iff] at hb ⊢
  exact Int.le_trans hab hb

end Sorted

/-- The two searches of a row never look outside it and come to an end, at an index where the
row changes: from records below the key to others, and from records not above it to others.
If the row is in key order, the two indices are the numbers of those records. The bounds of a
window of keys are in order in any row. -/
theorem searches_end_at_changes (row : List R) (key : Binary64) :
    (∀ (σ : Type) (s : σ),
      (Checked.lowerBound row key).run s = .ok (runLowerBound row key) s ∧
        (Checked.upperBound row key).run s = .ok (runUpperBound row key) s) ∧
      BisectsTo (isBelow key) row (runLowerBound row key) ∧
      BisectsTo (isNotAbove key) row (runUpperBound row key) ∧
      (InKeyOrder row →
        runLowerBound row key = row.countP (isBelow key) ∧
          runUpperBound row key = row.countP (isNotAbove key)) ∧
      ∀ upper, keyLess upper key = false → runLowerBound row key ≤ runUpperBound row upper := by
  have hlower := bisectsTo_bisect (isBelow key) row
  have hupper := bisectsTo_bisect (isNotAbove key) row
  refine ⟨fun σ s => ⟨Checked.lowerBound_eq row key s, Checked.upperBound_eq row key s⟩,
    hlower, hupper, fun hrow => ⟨?_, ?_⟩, fun upper h => ?_⟩
  · exact hlower.changes.eq_countP (hrow.isBelow_first key)
  · exact hupper.changes.eq_countP (hrow.isNotAbove_first key)
  · exact runLowerBound_le_runUpperBound row (keyLess_eq_false_iff.1 h)

/-- Samples in key order: a NaN with its sign bit set, −1, both zeros, a zero again and a NaN. -/
def zerosBetweenNaNs : List Sample :=
  [⟨⟨0xFFF8000000000000⟩, ⟨1⟩⟩, ⟨.ofInt (-1), ⟨2⟩⟩, ⟨.zero, ⟨3⟩⟩, ⟨⟨0x8000000000000000⟩, ⟨4⟩⟩,
    ⟨.zero, ⟨5⟩⟩, ⟨.nan, ⟨6⟩⟩]

/-- Both zeros find the three samples at zero, in at most three steps. -/
theorem zerosBetweenNaNs_searched :
    InKeyOrder zerosBetweenNaNs ∧
      (Checked.lowerBound zerosBetweenNaNs .zero).run () = .ok 2 () ∧
      (Checked.upperBound zerosBetweenNaNs ⟨0x8000000000000000⟩).run () = .ok 5 () ∧
      (rowIntervals (isBelow .zero) zerosBetweenNaNs).length ≤ 4 ∧
      runLowerBound zerosBetweenNaNs .zero ≤
        runUpperBound zerosBetweenNaNs ⟨0x8000000000000000⟩ := by
  have hrow : InKeyOrder zerosBetweenNaNs := by decide
  have hbelow : zerosBetweenNaNs.countP (isBelow .zero) = 2 := by decide
  have hnotAbove : zerosBetweenNaNs.countP (isNotAbove ⟨0x8000000000000000⟩) = 5 := by decide
  obtain ⟨hrunLower, hlower, -, hcountLower, hle⟩ := searches_end_at_changes zerosBetweenNaNs .zero
  obtain ⟨hrunUpper, -, -, hcountUpper, -⟩ :=
    searches_end_at_changes zerosBetweenNaNs ⟨0x8000000000000000⟩
  refine ⟨hrow, ?_, ?_, hlower.steps 3 (by decide), hle _ (by decide)⟩
  · rw [(hrunLower Unit ()).1, (hcountLower hrow).1, hbelow]
  · rw [(hrunUpper Unit ()).2, (hcountUpper hrow).2, hnotAbove]

end PlotSeries
