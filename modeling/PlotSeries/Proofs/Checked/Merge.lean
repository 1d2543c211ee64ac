import PlotSeries.Proofs.Checked.Program
import PlotSeries.Proofs.Bounds

/-!
# Searching, sorting and merging in place

The loops of the library as checked programs, and what they compute on rows that
need not be in key order.

* `search_eq`: a bisection stays in its row; `lowerBound_eq` and `upperBound_eq`
  are the two searches.
* `sortRow_eq`: the comparison of keys is a total order, so a sort never fails.
* `mergeRow_eq`: merging two runs in place, with a copy of the part of the first
  that is overwritten, does what `mergeRuns` does. The invariant is that the gap
  between the write index and the read index is what is left of the copy.
-/

namespace PlotSeries.Checked

variable {R : Type} [PlotRecord R]

/-! ## Searching -/

section Searching

variable {σ : Type}

omit [PlotRecord R]

/-- Bisection of the indices of a row from `left` up to `right`. -/
def search (goRight : R → Bool) (row : List R) (left right : Nat) : Program σ Nat :=
  if left < right then do
    let mid := (left + right) / 2
    let record ← readAt row mid
    if goRight record then search goRight row (mid + 1) right else search goRight row left mid
  else pure left
termination_by right - left

theorem search_eq (goRight : R → Bool) (row : List R) {left right : Nat} (h : right ≤ row.length)
    (s : σ) :
    (search goRight row left right).run s =
      .ok (bisectFrom (fun i : Fin row.length => goRight row[i]) left right h) s := by
  fun_induction bisectFrom (fun i : Fin row.length => goRight row[i]) left right h with
  | case1 left right hn hlt mid hmid ih =>
    have hread := readAt_eq (List.getElem?_eq_getElem (show mid < row.length by omega)) s
    rw [search, if_pos hlt, bind_ok hread, if_pos (show goRight row[mid] = true from hmid)]
    exact ih
  | case2 left right hn hlt mid hmid ih =>
    have hread := readAt_eq (List.getElem?_eq_getElem (show mid < row.length by omega)) s
    rw [search, if_pos hlt, bind_ok hread, if_neg (show ¬goRight row[mid] = true from hmid)]
    exact ih
  | case3 left right hn hge =>
    rw [search, if_neg hge]
    rfl

end Searching

section Bounds

variable {σ : Type}

/-- Index of the first record of a row whose key is not less than `key`. -/
def lowerBound (row : List R) (key : Binary64) : Program σ Nat :=
  search (fun record => keyLess (sortKey record) key) row 0 row.length

/-- Index of the first record of a row whose key is greater than `key`. -/
def upperBound (row : List R) (key : Binary64) : Program σ Nat :=
  search (fun record => !keyLess key (sortKey record)) row 0 row.length

theorem lowerBound_eq (row : List R) (key : Binary64) (s : σ) :
    (lowerBound row key).run s = .ok (runLowerBound row key) s :=
  search_eq _ row (Nat.le_refl _) s

theorem upperBound_eq (row : List R) (key : Binary64) (s : σ) :
    (upperBound row key).run s = .ok (runUpperBound row key) s :=
  search_eq _ row (Nat.le_refl _) s

end Bounds

/-! ## Sorting -/

/-- The comparison of keys is a total order on the records of a row. -/
def Consistent (row : List R) : Prop :=
  ∀ a ∈ row, ∀ b ∈ row,
    compareKeys (sortKey b) (sortKey a) = (compareKeys (sortKey a) (sortKey b)).swap ∧
      ∀ c ∈ row, compareKeys (sortKey a) (sortKey b) ≠ .gt →
        compareKeys (sortKey b) (sortKey c) ≠ .gt → compareKeys (sortKey a) (sortKey c) ≠ .gt

instance (row : List R) : Decidable (Consistent row) :=
  inferInstanceAs (Decidable (∀ a ∈ row, ∀ b ∈ row, _ ∧ ∀ c ∈ row, _ → _ → _))

/-- Sort a row stably by key, if its keys can be sorted. -/
def sortRow : Program (List R) Unit := do
  let row ← get
  if Consistent row then set (sortByKey row) else throw .inconsistentOrder

theorem consistent (row : List R) : Consistent row := by
  intro a _ b _
  refine ⟨Std.OrientedCmp.eq_swap, fun c _ hab hbc => ?_⟩
  rw [Ne, Ordering.ne_gt_iff_isLE] at hab hbc ⊢
  exact Std.TransCmp.isLE_trans hab hbc

theorem sortRow_eq (row : List R) : sortRow.run row = .ok ⟨⟩ (sortByKey row) := by
  rw [sortRow, get_bind, if_pos (consistent row)]
  rfl

/-! ## Merging -/

/-- Merge a copy of the end of the first run, from `i` on, with the second run from
`j` up to `stop`, and write the result from `out` on, until one of them is used up.
What is left of the copy goes from the second result on. -/
def mergeWindow (left : List R) (stop i j out : Nat) : Program (List R) (Nat × Nat) :=
  if i < left.length ∧ j < stop then do
    let b ← readAt (← get) j
    let a ← readAt left i
    if keyLess (sortKey b) (sortKey a) then do
      write out b
      mergeWindow left stop i (j + 1) (out + 1)
    else do
      write out a
      mergeWindow left stop (i + 1) j (out + 1)
  else pure (i, out)
termination_by (left.length - i) + (stop - j)

/-- Write what is left of the copy. -/
def copyRest (left : List R) (i out : Nat) : Program (List R) Unit :=
  if i < left.length then do
    write out (← readAt left i)
    copyRest left (i + 1) (out + 1)
  else pure ()
termination_by left.length - i

/-- Merge the run of the first `mid` records of a row with the run of the others. -/
def mergeRow (mid : Nat) : Program (List R) Unit := do
  let row ← get
  if mid = 0 ∨ row.length ≤ mid then pure ()
  else
    let first ← slice row 0 mid
    let head ← readAt row mid
    let start ← upperBound first (sortKey head)
    let second ← slice row mid row.length
    let last ← readAt row (← subtract mid 1)
    let stop := mid + (← lowerBound second (sortKey last))
    if start = mid ∨ stop = mid then pure ()
    else
      let left ← slice row start mid
      let (i, out) ← mergeWindow left stop 0 mid start
      copyRest left i out

theorem take_set_succ {α : Type} {row : List α} {out : Nat} (h : out < row.length) (a : α) :
    (row.set out a).take (out + 1) = row.take out ++ [a] := by
  rw [List.take_add_one, List.take_set_of_le (Nat.le_refl out), List.getElem?_set_self h]
  rfl

omit [PlotRecord R] in
theorem copyRest_eq (left : List R) {row : List R} {i out : Nat} (hi : i ≤ left.length)
    (h : out + (left.length - i) ≤ row.length) :
    (copyRest left i out).run row =
      .ok ⟨⟩ (row.take out ++ left.drop i ++ row.drop (out + (left.length - i))) := by
  fun_induction copyRest left i out generalizing row with
  | case1 i out hlt ih =>
    have hread := readAt_eq (List.getElem?_eq_getElem hlt) row
    have hout : out < row.length := by omega
    rw [bind_ok hread, bind_ok (write_eq hout _), ih (by omega) (by rw [List.length_set]; omega)]
    rw [take_set_succ hout, List.drop_set_of_lt (by omega), List.drop_eq_getElem_cons hlt]
    rw [show out + 1 + (left.length - (i + 1)) = out + (left.length - i) by omega]
    simp only [List.append_assoc, List.singleton_append]
  | case2 i out hge =>
    have hdone : i = left.length := by omega
    subst hdone
    simp only [Nat.sub_self, Nat.add_zero, List.drop_length, List.append_nil, List.take_append_drop]
    rfl

theorem mergeWindow_eq (left row : List R) (stop i j out : Nat) (hi : i ≤ left.length)
    (hgap : out + (left.length - i) = j) (hj : j ≤ stop) (hstop : stop ≤ row.length) :
    ∃ i' out' row', (mergeWindow left stop i j out).run row = .ok (i', out') row' ∧
      (copyRest left i' out').run row' =
        .ok ⟨⟩ (row.take out ++ (left.drop i).merge ((row.take stop).drop j) recordLe ++
          row.drop stop) := by
  fun_induction mergeWindow left stop i j out generalizing row with
  | case1 i j out hlt ih1 ih2 =>
    obtain ⟨hil, hjs⟩ := hlt
    have hjr : j < row.length := by omega
    have hout : out < row.length := by omega
    have hwindow : (row.take stop).drop j = row[j] :: (row.take stop).drop (j + 1) := by
      rw [List.drop_eq_getElem_cons (by rw [List.length_take]; omega), List.getElem_take]
    have hle : recordLe left[i] row[j] = !keyLess (sortKey row[j]) (sortKey left[i]) := rfl
    rw [get_bind, bind_ok (readAt_eq (List.getElem?_eq_getElem hjr) row),
      bind_ok (readAt_eq (List.getElem?_eq_getElem hil) row), hwindow,
      List.drop_eq_getElem_cons hil, List.cons_merge_cons, hle]
    cases hless : keyLess (sortKey row[j]) (sortKey left[i]) with
    | true =>
      have hrest := ih1 (row.set out row[j]) hi (by omega) (by omega) (by simpa using hstop)
      rw [take_set_succ hout, List.take_set, List.drop_set_of_lt (by omega),
        List.drop_set_of_lt (by omega), List.drop_eq_getElem_cons hil] at hrest
      rw [if_pos rfl, bind_ok (write_eq hout _)]
      simpa using hrest
    | false =>
      have hrest := ih2 (row.set out left[i]) hil (by omega) hj (by simpa using hstop)
      rw [take_set_succ hout, List.take_set, List.drop_set_of_lt (by omega),
        List.drop_set_of_lt (by omega), hwindow] at hrest
      rw [if_neg (by simp), bind_ok (write_eq hout _)]
      simpa using hrest
  | case2 i j out hge =>
    refine ⟨i, out, row, rfl, ?_⟩
    rw [copyRest_eq left hi (by omega)]
    by_cases hil : i < left.length
    · have hend : j = stop := by omega
      have hwindow : (row.take stop).drop j = [] :=
        List.drop_eq_nil_of_le (by rw [List.length_take]; omega)
      rw [hwindow, List.merge_right, hgap, hend]
    · have hend : out = j := by omega
      have hleft : left.drop i = [] := List.drop_eq_nil_of_le (by omega)
      have hsplit : row.take j ++ (row.take stop).drop j = row.take stop := by
        have h := List.take_append_drop j (row.take stop)
        rwa [List.take_take, Nat.min_eq_left hj] at h
      rw [hleft, List.nil_merge, List.append_nil, hgap, hend, hsplit, List.take_append_drop,
        List.take_append_drop]

theorem mergeRuns_of_empty {row : List R} {mid : Nat} (h : mid = 0 ∨ row.length ≤ mid) :
    mergeRuns row mid = row := by
  dsimp only [mergeRuns]
  rcases h with rfl | h
  · rw [List.take_zero, List.getLast?_nil]
  · rw [List.drop_eq_nil_of_le h, List.head?_nil]
    split
    next hnone => cases hnone
    next => rfl

theorem mergeRuns_of_lt {row : List R} {mid : Nat} (hmid : 0 < mid) (h : mid < row.length) :
    mergeRuns row mid =
      let start := runUpperBound (row.take mid) (sortKey row[mid])
      let stop := runLowerBound (row.drop mid) (sortKey row[mid - 1])
      if start = mid ∨ stop = 0 then row
      else
        (row.take mid).take start ++
          ((row.take mid).drop start).merge ((row.drop mid).take stop) recordLe ++
            (row.drop mid).drop stop := by
  have hlast : (row.take mid).getLast? = some row[mid - 1] := by
    rw [List.getLast?_eq_getElem?, List.length_take, Nat.min_eq_left (Nat.le_of_lt h),
      List.getElem?_take_of_lt (by omega), List.getElem?_eq_getElem]
  have hhead : (row.drop mid).head? = some row[mid] := by
    rw [List.head?_drop, List.getElem?_eq_getElem h]
  dsimp only [mergeRuns]
  rw [hlast, hhead]

/-- Merging in place does what `mergeRuns` does, on runs in any order. -/
theorem mergeRow_eq (row : List R) (mid : Nat) :
    (mergeRow mid).run row = .ok ⟨⟩ (mergeRuns row mid) := by
  rw [mergeRow, get_bind]
  by_cases hmid : mid = 0 ∨ row.length ≤ mid
  · rw [if_pos hmid, mergeRuns_of_empty hmid]
    rfl
  · rw [not_or, Nat.not_le] at hmid
    obtain ⟨hpos, hlt⟩ := hmid
    rw [if_neg (by omega), mergeRuns_of_lt (by omega) hlt]
    rw [bind_ok (slice_eq (Nat.zero_le mid) (by omega) row), List.drop_zero,
      bind_ok (readAt_eq (List.getElem?_eq_getElem hlt) row), bind_ok (upperBound_eq _ _ row),
      bind_ok (slice_eq (by omega) (Nat.le_refl _) row), List.take_length,
      bind_ok (subtract_eq (by omega) row),
      bind_ok (readAt_eq (List.getElem?_eq_getElem (by omega)) row),
      bind_ok (lowerBound_eq _ _ row)]
    have hstart : runUpperBound (row.take mid) (sortKey row[mid]) ≤ (row.take mid).length :=
      runUpperBound_le _ _
    have hstop : runLowerBound (row.drop mid) (sortKey row[mid - 1]) ≤ (row.drop mid).length :=
      runLowerBound_le _ _
    generalize runUpperBound (row.take mid) (sortKey row[mid]) = start at hstart ⊢
    generalize runLowerBound (row.drop mid) (sortKey row[mid - 1]) = stop at hstop ⊢
    rw [List.length_take] at hstart
    rw [List.length_drop] at hstop
    dsimp only
    by_cases hdone : start = mid ∨ stop = 0
    · rw [if_pos hdone, if_pos (by omega)]
      rfl
    · rw [if_neg hdone, if_neg (by omega), bind_ok (slice_eq (by omega) (by omega) row)]
      obtain ⟨i, out, row', hwindow, hrest⟩ := mergeWindow_eq ((row.take mid).drop start) row
        (mid + stop) 0 mid start (Nat.zero_le _) (by simp; omega) (by omega) (by omega)
      rw [bind_ok hwindow, hrest]
      have htake : (row.take (mid + stop)).drop mid = (row.drop mid).take stop := by
        rw [List.drop_take, Nat.add_sub_cancel_left]
      rw [List.drop_zero, List.take_take, Nat.min_eq_left (by omega), htake, List.drop_drop]

end PlotSeries.Checked
