import PlotSeries.Proofs.Checked.Operations
import PlotSeries.Proofs.Interleaving
import PlotSeries.Proofs.StableSort

/-!
# No record is lost, copied or changed

`Operation.Conserves` says what each operation may do to the records of a store:
additions interleave them with the new ones, removals cut one block out of them,
sorting keeps them and the order of those with equal keys (`IsStableSort`), and nothing
else moves. `records_conserved` holds of every store, in key order or not, and of every
batch, whether or not it is sorted as declared; and it holds of the programs that shift
the live records behind a grown pool and merge runs over themselves.
-/

namespace PlotSeries

variable {R : Type} [PlotRecord R]

/-- How the records after an operation come from those before it. -/
def Operation.Conserves (op : Operation R) (before after : List R) : Prop :=
  match op with
  | replace records _ sorted | replaceCopy records sorted =>
    if sorted then after = records else after = sortByKey records ∧ IsStableSort records after
  | addBatch records sorted =>
    if sorted then Interleaving before records after
    else Interleaving before (sortByKey records) after ∧ IsStableSort records (sortByKey records)
  | add record => Interleaving before [record] after
  | removeUpTo _ => ∃ n, n ≤ before.length ∧ after = before.drop n
  | removeFrom _ => ∃ n, n ≤ before.length ∧ after = before.take n
  | removeBetween _ _ => ∃ i j, i ≤ j ∧ j ≤ before.length ∧ after = before.take i ++ before.drop j
  | removeKey _ =>
    ∃ i j, i ≤ j ∧ j ≤ i + 1 ∧ j ≤ before.length ∧ after = before.take i ++ before.drop j
  | clear | reset => after = []
  | sort => IsStableSort before after
  | write index record => after = before.set index record
  | edit writes => IsStableSort (writeAllTo before writes).1 after
  | collect records => IsStableSort records after
  | squeeze _ | setAutoSqueeze _ | setPolicy _ | copy => after = before

theorem interleaving_addTo (l : List R) (record : R) : Interleaving l [record] (addTo l record) := by
  unfold addTo
  split
  next first last hfirst hlast =>
    split
    · exact .left_first l [record]
    · split
      · exact .right_first l [record]
      · generalize runUpperBound l (sortKey record) = i
        have hinsert := (Interleaving.left_only (l.take i)).append
          (Interleaving.right_first (l.drop i) [record])
        rwa [List.take_append_drop] at hinsert
  next => exact .left_first l [record]

theorem interleaving_appendRunTo (l run : List R) : Interleaving l run (appendRunTo l run) := by
  have hmerge := interleaving_mergeRuns (l ++ run) l.length
  rw [List.take_left, List.drop_left] at hmerge
  unfold appendRunTo
  split
  next head last hhead hlast =>
    split
    · exact hmerge
    · exact .left_first l run
  next => exact .left_first l run

theorem interleaving_addBatchTo (l records : List R) (sorted : Bool) :
    Interleaving l (Store.inOrder records sorted) (addBatchTo l records sorted) := by
  unfold addBatchTo
  split
  next hnone =>
    obtain rfl := List.getLast?_eq_none_iff.1 hnone
    have hempty : Store.inOrder ([] : List R) sorted = [] := by
      cases sorted <;> simp [Store.inOrder, sortByKey]
    rw [hempty]
    exact .left_only l
  next batchLast hlast =>
    split
    next hnone =>
      rw [List.head?_eq_none_iff.1 hnone]
      exact .right_only _
    next first hfirst =>
      split
      next h =>
        have hsorted : sorted = true := (Bool.and_eq_true _ _ ▸ h).1
        rw [hsorted]
        exact .right_first l records
      next => exact interleaving_appendRunTo l _

theorem removeKeyFrom_eq_cut (l : List R) (key : Binary64) :
    ∃ i j, i ≤ j ∧ j ≤ i + 1 ∧ j ≤ l.length ∧ removeKeyFrom l key = l.take i ++ l.drop j := by
  have hsame : ∃ i j, i ≤ j ∧ j ≤ i + 1 ∧ j ≤ l.length ∧ l = l.take i ++ l.drop j :=
    ⟨0, 0, by omega, by omega, by omega, rfl⟩
  unfold removeKeyFrom
  dsimp only
  generalize runLowerBound l key = i
  split
  next record hrecord =>
    split
    · obtain ⟨hi, -⟩ := List.getElem?_eq_some_iff.1 hrecord
      exact ⟨i, i + 1, by omega, by omega, by omega, List.eraseIdx_eq_take_drop_succ l i⟩
    · exact hsame
  next => exact hsame

theorem Operation.conserves_onList (op : Operation R) (l : List R) :
    op.Conserves l (op.onList l).state := by
  cases op with
  | replace records _ sorted | replaceCopy records sorted =>
    cases sorted with
    | true => rfl
    | false => exact ⟨rfl, isStableSort_sortByKey records⟩
  | addBatch records sorted =>
    have h := interleaving_addBatchTo l records sorted
    cases sorted with
    | true => exact h
    | false => exact ⟨h, isStableSort_sortByKey records⟩
  | add record => exact interleaving_addTo l record
  | removeUpTo key => exact ⟨runUpperBound l key, runUpperBound_le l key, rfl⟩
  | removeFrom key => exact ⟨runLowerBound l key, runLowerBound_le l key, rfl⟩
  | removeBetween lower upper =>
    have hsame : ∃ i j, i ≤ j ∧ j ≤ l.length ∧ l = l.take i ++ l.drop j :=
      ⟨0, 0, by omega, by omega, rfl⟩
    simp only [Conserves, onList]
    split
    · exact hsame
    · split
      next h => exact ⟨_, _, h, runUpperBound_le l upper, rfl⟩
      next => exact hsame
  | removeKey key => exact removeKeyFrom_eq_cut l key
  | sort | edit | collect => exact isStableSort_sortByKey _
  | write index record =>
    simp only [Conserves, onList]
    split
    next => rfl
    next h => exact (List.set_eq_of_length_le (Nat.le_of_not_lt h)).symm
  | clear | reset | squeeze | setAutoSqueeze | setPolicy | copy => rfl

/-- Every operation conserves the records of every store, and so does its program,
which moves, merges and overwrites them in place. -/
theorem records_conserved (op : Operation R) (s : Store R) (log : List Event) :
    op.Conserves s.toList (op.apply s).state.toList ∧
      op.Conserves s.toList (Checked.final (op.program.run (.of s log))).live := by
  have hstate : (op.apply s).state.toList = (op.onList s.toList).state :=
    congrArg Outcome.state (op.contents_apply s)
  have hlive : (Checked.final (op.program.run (.of s log))).live = (op.apply s).state.toList := by
    rw [op.program_eq, Outcome.result]
    split <;> rfl
  rw [hlive, hstate]
  exact ⟨op.conserves_onList _, op.conserves_onList _⟩

end PlotSeries
