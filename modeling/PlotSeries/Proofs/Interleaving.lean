import PlotSeries.Run

/-!
# Interleavings

`Interleaving l r m`: the list `m` consists of the elements of `l` and of `r`,
those of each list in their order. Nothing is lost, copied or changed
(`Interleaving.perm`), and nothing is assumed of the elements, so this also
describes what a merge does to runs that are out of order
(`interleaving_mergeRuns`).
-/

namespace PlotSeries

/-- The third list takes its elements from the first two in turn, in any
alternation, until both are used up. -/
inductive Interleaving {α : Type} : List α → List α → List α → Prop where
  | nil : Interleaving [] [] []
  | left {a : α} {l r m : List α} : Interleaving l r m → Interleaving (a :: l) r (a :: m)
  | right {a : α} {l r m : List α} : Interleaving l r m → Interleaving l (a :: r) (a :: m)

namespace Interleaving

variable {α : Type} {l r m l' r' m' : List α}

theorem left_only : ∀ l : List α, Interleaving l [] l
  | [] => .nil
  | _ :: l => .left (left_only l)

theorem right_only : ∀ r : List α, Interleaving [] r r
  | [] => .nil
  | _ :: r => .right (right_only r)

/-- One interleaving behind another. -/
theorem append (h : Interleaving l r m) (h' : Interleaving l' r' m') :
    Interleaving (l ++ l') (r ++ r') (m ++ m') := by
  induction h with
  | nil => exact h'
  | left _ ih => exact .left ih
  | right _ ih => exact .right ih

theorem left_first (l r : List α) : Interleaving l r (l ++ r) := by
  simpa using (left_only l).append (right_only r)

theorem right_first (l r : List α) : Interleaving l r (r ++ l) := by
  simpa using (right_only r).append (left_only l)

/-- An interleaving is a permutation of the two lists together. -/
theorem perm (h : Interleaving l r m) : m.Perm (l ++ r) := by
  induction h with
  | nil => exact .refl _
  | left _ ih => exact ih.cons _
  | right _ ih => exact (ih.cons _).trans List.perm_middle.symm

/-- A merge by any comparison. -/
theorem merge (le : α → α → Bool) (l r : List α) : Interleaving l r (l.merge r le) := by
  induction l generalizing r with
  | nil => simpa using right_only r
  | cons a l ihl =>
    induction r with
    | nil => simpa using left_only (a :: l)
    | cons b r ihr =>
      rw [List.cons_merge_cons]
      split
      · exact .left (ihl _)
      · exact .right ihr

end Interleaving

/-- Merging the two runs that a list consists of interleaves them, whether or not
they are in key order. -/
theorem interleaving_mergeRuns {R : Type} [PlotRecord R] (records : List R) (mid : Nat) :
    Interleaving (records.take mid) (records.drop mid) (mergeRuns records mid) := by
  have hsame : Interleaving (records.take mid) (records.drop mid) records := by
    have := Interleaving.left_first (records.take mid) (records.drop mid)
    rwa [List.take_append_drop] at this
  dsimp only [mergeRuns]
  split
  next last head _ _ =>
    split
    · exact hsame
    · -- the window is a merge; the part before it is of the first run, the part behind of the second
      generalize runUpperBound (records.take mid) (sortKey head) = start
      generalize runLowerBound (records.drop mid) (sortKey last) = stop
      have hwindow := ((Interleaving.left_only ((records.take mid).take start)).append
        (Interleaving.merge recordLe ((records.take mid).drop start)
          ((records.drop mid).take stop))).append
        (Interleaving.right_only ((records.drop mid).drop stop))
      rwa [List.take_append_drop, List.append_nil, List.nil_append, List.take_append_drop] at hwindow
  next => exact hsame

end PlotSeries
