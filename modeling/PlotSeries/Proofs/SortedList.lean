import PlotSeries.Proofs.Contents
import PlotSeries.Proofs.StableSort
import PlotSeries.Record.Kinds

/-!
# A store is a stably sorted list

`Operation.onSortedList` says what each operation does to a plain list that is
sorted again, stably, whenever records are added to it: no search, no merge, no
slots. A store whose users declare only sorted batches sorted, and sort after
overwriting records (`Disciplined`), holds that list after every step
(`run_toList_eq_foldl`), whatever its policy.

On a list in key order, each operation is compared with its counterpart by
`Operation.onList_eq_onSortedList`, path by path: `addTo_eq_sortByKey`,
`addBatchTo_eq_sortByKey` and `removeKeyFrom_eq_eraseP` are its parts.
-/

namespace PlotSeries

variable {R : Type} [PlotRecord R]

/-! ## Operations on a plain list -/

namespace Operation

/-- What an operation does to a list kept in order by stable sorting. -/
def onSortedList (op : Operation R) (l : List R) : List R :=
  match op with
  | replace records _ _ => sortByKey records
  | replaceCopy records _ => sortByKey records
  | addBatch records _ => sortByKey (l ++ records)
  | add record => sortByKey (l ++ [record])
  | removeUpTo key => l.filter fun r => keyLess key (sortKey r)
  | removeFrom key => l.filter fun r => keyLess (sortKey r) key
  | removeBetween lower upper =>
    if lower < upper then l.filter fun r => !decide (lower ≤ sortKey r ∧ sortKey r ≤ upper) else l
  | removeKey key => l.eraseP fun r => (sortKey r).numEq key
  | clear => []
  | sort => sortByKey l
  | squeeze _ => l
  | write index record => l.set index record
  | edit writes =>
    -- the writes before the first one out of bounds
    let inBounds := writes.takeWhile fun w => decide (w.1 < l.length)
    sortByKey (inBounds.foldl (fun l w => l.set w.1 w.2) l)
  | setAutoSqueeze _ => l
  | setPolicy _ => l
  | collect records => sortByKey records
  | copy => l
  | reset => []

/-- The batch that an operation declares sorted, if any. -/
def sortedBatch? : Operation R → Option (List R)
  | replace records _ true => some records
  | replaceCopy records true => some records
  | addBatch records true => some records
  | _ => none

/-- The operation overwrites a record where it stands. -/
def isWrite : Operation R → Bool
  | write .. => true
  | _ => false

/-- The operation restores the order. -/
def isSort : Operation R → Bool
  | sort => true
  | _ => false

end Operation

/-- Batches declared sorted are in key order, and nothing but another write or a
sort comes after a write; `afterWrite` tells whether a write came last. -/
def Disciplined (afterWrite : Bool) : List (Operation R) → Prop
  | [] => True
  | op :: ops =>
    (∀ batch ∈ op.sortedBatch?, InKeyOrder batch) ∧
      (afterWrite = true → op.isWrite = true ∨ op.isSort = true) ∧ Disciplined op.isWrite ops

instance Disciplined.decidable : (afterWrite : Bool) → (ops : List (Operation R)) →
    Decidable (Disciplined afterWrite ops)
  | _, [] => inferInstanceAs (Decidable True)
  | _, op :: ops =>
    have := Disciplined.decidable op.isWrite ops
    inferInstanceAs (Decidable (_ ∧ _ ∧ _))

/-! ## Adding to a list in key order -/

theorem inOrder_eq_sortByKey {records : List R} {sorted : Bool}
    (h : sorted = true → InKeyOrder records) : Store.inOrder records sorted = sortByKey records := by
  cases sorted with
  | false => rfl
  | true => exact (h rfl).sortByKey_eq.symm

section InOrder

variable {l : List R} (hl : InKeyOrder l)
include hl

theorem addTo_eq_sortByKey (record : R) : addTo l record = sortByKey (l ++ [record]) := by
  have hone : InKeyOrder [record] := List.pairwise_singleton _ _
  unfold addTo
  split
  next first last hfirst hlast =>
    split
    next h =>
      rw [Bool.not_eq_true', keyLess_eq_false_iff] at h
      refine (sortByKey_append_of_le hl hone fun x hx y hy => ?_).symm
      rw [List.mem_singleton.1 hy]
      exact Int.le_trans (hl.place_le_getLast hlast x hx) h
    next =>
      split
      next h =>
        refine (sortByKey_append_of_lt hl hone fun x hx y hy => ?_).symm
        rw [List.mem_singleton.1 hx]
        exact Int.lt_of_lt_of_le (keyLess_iff.1 h) (hl.head_place_le hfirst y hy)
      next => exact (sortByKey_append_singleton hl record).symm
  next h =>
    cases l with
    | nil => exact hone.sortByKey_eq.symm
    | cons a l =>
      have hlast := List.getLast?_eq_some_getLast (List.cons_ne_nil a l)
      exact absurd hlast (h a _ rfl)

theorem appendRunTo_eq_sortByKey {run : List R} (hrun : InKeyOrder run) :
    appendRunTo l run = sortByKey (l ++ run) := by
  have hmerge : mergeRuns (l ++ run) l.length = sortByKey (l ++ run) := by
    refine mergeRuns_eq_sortByKey ?_ ?_
    · rwa [List.take_left']
      rfl
    · rwa [List.drop_left']
      rfl
  unfold appendRunTo
  split
  next head last hhead hlast =>
    split
    · exact hmerge
    next h =>
      rw [keyLess_iff, Int.not_lt] at h
      refine (sortByKey_append_of_le hl hrun fun x hx y hy => ?_).symm
      exact Int.le_trans (hl.place_le_getLast hlast x hx)
        (Int.le_trans h (hrun.head_place_le hhead y hy))
  next h =>
    refine (sortByKey_append_of_le hl hrun fun x hx y hy => ?_).symm
    exact absurd (List.getLast?_eq_some_getLast (List.ne_nil_of_mem hx))
      (h _ _ (List.head?_eq_some_head (List.ne_nil_of_mem hy)))

theorem addBatchTo_eq_sortByKey {records : List R} {sorted : Bool}
    (h : sorted = true → InKeyOrder records) :
    addBatchTo l records sorted = sortByKey (l ++ records) := by
  unfold addBatchTo
  split
  next hlast =>
    rw [List.getLast?_eq_none_iff.1 hlast, List.append_nil, hl.sortByKey_eq]
  next batchLast hlast =>
    split
    next hfirst =>
      rw [List.head?_eq_none_iff.1 hfirst, List.nil_append, inOrder_eq_sortByKey h]
    next first hfirst =>
      split
      next hbelow =>
        rw [Bool.and_eq_true] at hbelow
        have hrecords := h hbelow.1
        refine (sortByKey_append_of_lt hl hrecords fun x hx y hy => ?_).symm
        exact Int.lt_of_le_of_lt (hrecords.place_le_getLast hlast x hx)
          (Int.lt_of_lt_of_le (keyLess_iff.1 hbelow.2) (hl.head_place_le hfirst y hy))
      next =>
        rw [inOrder_eq_sortByKey h, appendRunTo_eq_sortByKey hl (inKeyOrder_sortByKey records),
          sortByKey_append_sortByKey]

/-! ## Removing from a list in key order -/

omit hl [PlotRecord R] in
/-- A filter that refuses one block of a list drops that block. -/
theorem filter_eq_take_append_drop {p : R → Bool} {i j : Nat} (hij : i ≤ j)
    (htake : ∀ r ∈ l.take i, p r = true) (hblock : ∀ r ∈ (l.take j).drop i, p r = false)
    (hdrop : ∀ r ∈ l.drop j, p r = true) : l.filter p = l.take i ++ l.drop j := by
  have hparts : l = l.take i ++ (l.take j).drop i ++ l.drop j := by
    have hi : l.take i = (l.take j).take i := by rw [List.take_take, Nat.min_eq_left hij]
    rw [hi, List.take_append_drop, List.take_append_drop]
  conv => lhs; rw [hparts]
  rw [List.filter_append, List.filter_append, List.filter_eq_self.2 htake,
    List.filter_eq_self.2 hdrop, List.filter_eq_nil_iff.2 (by simpa using hblock), List.append_nil]

theorem drop_runUpperBound_eq_filter (key : Binary64) :
    l.drop (runUpperBound l key) = l.filter fun r => keyLess key (sortKey r) := by
  have h := filter_eq_take_append_drop (l := l) (p := fun r => keyLess key (sortKey r))
    (Nat.zero_le (runUpperBound l key)) (by simp) (fun r hr => ?_) (fun r hr => ?_)
  · exact h.symm
  · exact keyLess_eq_false_iff.2 (take_runUpperBound hl key r hr)
  · exact keyLess_key_iff.2 (drop_runUpperBound hl key r hr)

theorem take_runLowerBound_eq_filter (key : Binary64) :
    l.take (runLowerBound l key) = l.filter fun r => keyLess (sortKey r) key := by
  have h := filter_eq_take_append_drop (l := l) (p := fun r => keyLess (sortKey r) key)
    (runLowerBound_le l key) (fun r hr => ?_) (fun r hr => ?_) (by simp)
  · rw [h, List.drop_length, List.append_nil]
  · exact keyLess_sortKey_iff.2 (take_runLowerBound hl key r hr)
  · rw [List.take_length] at hr
    exact keyLess_eq_false_iff.2 (drop_runLowerBound hl key r hr)

theorem removeBetween_eq_filter {lower upper : Binary64} (h : lower < upper) :
    l.take (runLowerBound l lower) ++ l.drop (runUpperBound l upper) =
      l.filter fun r => !decide (lower ≤ sortKey r ∧ sortKey r ≤ upper) := by
  obtain ⟨hlower, hupper, hlt⟩ := h
  have hle := runLowerBound_le_runUpperBound l (Int.le_of_lt hlt)
  refine (filter_eq_take_append_drop hle (fun r hr => ?_) (fun r hr => ?_) (fun r hr => ?_)).symm
  · have := take_runLowerBound hl lower r hr
    simp only [Binary64.le_and_le_iff hlower hupper, Bool.not_eq_true', decide_eq_false_iff_not]
    exact fun h => Int.not_le.2 this h.1
  · have hlow := drop_runLowerBound hl lower r
      (List.mem_of_mem_take (i := runUpperBound l upper - runLowerBound l lower)
        (by rwa [← List.drop_take]))
    have hhigh := take_runUpperBound hl upper r (List.mem_of_mem_drop hr)
    simp only [Binary64.le_and_le_iff hlower hupper, Bool.not_eq_false', decide_eq_true_iff]
    exact ⟨hlow, hhigh⟩
  · have := drop_runUpperBound hl upper r hr
    simp only [Binary64.le_and_le_iff hlower hupper, Bool.not_eq_true', decide_eq_false_iff_not]
    exact fun h => Int.not_le.2 this h.2

theorem removeKeyFrom_eq_eraseP (key : Binary64) :
    removeKeyFrom l key = l.eraseP fun r => (sortKey r).numEq key := by
  have hbelow : ∀ r ∈ l.take (runLowerBound l key), ¬(sortKey r).numEq key = true := by
    intro r hr h
    exact Int.ne_of_lt (take_runLowerBound hl key r hr) (Binary64.numEq_iff.1 h).2.2
  have habove := drop_runLowerBound hl key
  have hsplit := List.eraseP_append_right (l.drop (runLowerBound l key)) hbelow
  rw [List.take_append_drop] at hsplit
  unfold removeKeyFrom
  rw [hsplit]
  generalize runLowerBound l key = i at habove
  dsimp only
  cases h : l[i]? with
  | none =>
    rw [List.drop_eq_nil_of_le (List.getElem?_eq_none_iff.1 h), List.eraseP_nil, List.append_nil,
      List.take_of_length_le (List.getElem?_eq_none_iff.1 h)]
  | some record =>
    obtain ⟨hi, rfl⟩ := List.getElem?_eq_some_iff.1 h
    rw [List.drop_eq_getElem_cons hi] at habove ⊢
    dsimp only
    split
    next heq =>
      rw [List.eraseP_cons_of_pos (p := fun r => (sortKey r).numEq key) heq,
        List.eraseIdx_eq_take_drop_succ]
    next hne =>
      -- no record behind has the key either, or the one here would stand in its place too
      have hnone : ∀ r ∈ l[i] :: l.drop (i + 1), ¬(sortKey r).numEq key = true := by
        intro r hr h
        have hkey := (Binary64.numEq_iff.1 h).2
        refine hne ((Binary64.numEq_iff_of_number hkey.1).2 (Int.le_antisymm ?_ ?_))
        · have hrun : InKeyOrder (l[i] :: l.drop (i + 1)) := by
            rw [← List.drop_eq_getElem_cons hi]
            exact hl.sublist (List.drop_sublist i l)
          exact Int.le_trans (hrun.head_place_le rfl r hr) (Int.le_of_eq hkey.2)
        · exact habove _ (List.mem_cons_self ..)
      rw [List.eraseP_of_forall_not hnone, ← List.drop_eq_getElem_cons hi, List.take_append_drop]

end InOrder

/-! ## Steps -/

namespace Operation

/-- A sort and a write do the same to any list. -/
theorem onList_eq_of_isWrite_or_isSort {op : Operation R}
    (h : op.isWrite = true ∨ op.isSort = true) (l : List R) :
    (op.onList l).state = op.onSortedList l := by
  cases op with
  | write index record =>
    simp only [onList, onSortedList]
    split
    next => rfl
    next h => rw [List.set_eq_of_length_le (Nat.le_of_not_lt h)]
  | sort => rfl
  | _ => simp [isWrite, isSort] at h

/-- On a list in key order, an operation whose declared batch is sorted does what
it does to a stably sorted list. -/
theorem onList_eq_onSortedList {op : Operation R} {l : List R} (hl : InKeyOrder l)
    (hop : ∀ batch ∈ op.sortedBatch?, InKeyOrder batch) :
    (op.onList l).state = op.onSortedList l := by
  cases op with
  | replace records spare sorted =>
    exact inOrder_eq_sortByKey (by rintro rfl; exact hop records rfl)
  | replaceCopy records sorted =>
    exact inOrder_eq_sortByKey (by rintro rfl; exact hop records rfl)
  | addBatch records sorted =>
    exact addBatchTo_eq_sortByKey hl (by rintro rfl; exact hop records rfl)
  | add record => exact addTo_eq_sortByKey hl record
  | removeUpTo key => exact drop_runUpperBound_eq_filter hl key
  | removeFrom key => exact take_runLowerBound_eq_filter hl key
  | removeBetween lower upper =>
    simp only [onList, onSortedList]
    split
    next h =>
      simp only [Bool.or_eq_true, Bool.not_eq_true', decide_eq_false_iff_not,
        List.isEmpty_iff] at h
      rcases h with rfl | h
      · simp
      · rw [if_neg h]
    next h =>
      simp only [Bool.or_eq_true, Bool.not_eq_true', decide_eq_false_iff_not, not_or,
        Classical.not_not] at h
      rw [if_pos h.2, if_pos (runLowerBound_le_runUpperBound l (Int.le_of_lt h.2.2.2))]
      exact removeBetween_eq_filter hl h.2
  | removeKey key => exact removeKeyFrom_eq_eraseP hl key
  | write index record => exact onList_eq_of_isWrite_or_isSort (.inl rfl) l
  | edit writes => exact congrArg sortByKey (writeAllTo_eq_foldl l writes)
  | clear | sort | squeeze | setAutoSqueeze | setPolicy | collect | copy | reset => rfl

/-- Everything but a write keeps a stably sorted list in key order. -/
theorem inKeyOrder_onSortedList {op : Operation R} {l : List R} (hl : InKeyOrder l)
    (hop : op.isWrite = false) : InKeyOrder (op.onSortedList l) := by
  cases op with
  | replace records | replaceCopy records | collect records => exact inKeyOrder_sortByKey records
  | addBatch records => exact inKeyOrder_sortByKey (l ++ records)
  | add record => exact inKeyOrder_sortByKey (l ++ [record])
  | removeUpTo | removeFrom => exact hl.sublist List.filter_sublist
  | removeBetween lower upper =>
    simp only [onSortedList]
    split
    · exact hl.sublist List.filter_sublist
    · exact hl
  | removeKey key => exact hl.sublist (List.eraseP_sublist)
  | sort => exact inKeyOrder_sortByKey l
  | edit writes => exact inKeyOrder_sortByKey _
  | write => cases hop
  | clear | reset => exact List.Pairwise.nil
  | squeeze | setAutoSqueeze | setPolicy | copy => exact hl

end Operation

/-! ## Runs -/

theorem Disciplined.take {afterWrite : Bool} {ops : List (Operation R)}
    (h : Disciplined afterWrite ops) (n : Nat) : Disciplined afterWrite (ops.take n) := by
  induction ops generalizing afterWrite n with
  | nil => simpa using h
  | cons op ops ih =>
    cases n with
    | zero => trivial
    | succ n => exact ⟨h.1, h.2.1, ih h.2.2 n⟩

/-- The last of the operations is a write, or there is none and a write came before. -/
def endsInWrite (afterWrite : Bool) (ops : List (Operation R)) : Bool :=
  (ops.getLast?.map Operation.isWrite).getD afterWrite

omit [PlotRecord R] in
theorem endsInWrite_cons (afterWrite : Bool) (op : Operation R) (ops : List (Operation R)) :
    endsInWrite afterWrite (op :: ops) = endsInWrite op.isWrite ops := by
  rw [endsInWrite, endsInWrite, List.getLast?_cons]
  cases ops.getLast? <;> rfl

/-- One step of a disciplined run: the list is that of a stably sorted list, and in
key order unless the step is a write. -/
theorem Disciplined.step {afterWrite : Bool} {op : Operation R} {ops : List (Operation R)}
    (h : Disciplined afterWrite (op :: ops)) {l : List R} (hl : afterWrite = false → InKeyOrder l) :
    (op.onList l).state = op.onSortedList l ∧
      (op.isWrite = false → InKeyOrder (op.onSortedList l)) := by
  cases afterWrite with
  | false =>
    exact ⟨Operation.onList_eq_onSortedList (hl rfl) h.1,
      Operation.inKeyOrder_onSortedList (hl rfl)⟩
  | true =>
    have hop := h.2.1 rfl
    refine ⟨Operation.onList_eq_of_isWrite_or_isSort hop l, fun hw => ?_⟩
    cases op with
    | sort => exact inKeyOrder_sortByKey l
    | _ => simp [hw, Operation.isSort] at hop

/-- A disciplined run from a list in key order. -/
theorem Disciplined.foldl_onList {afterWrite : Bool} {ops : List (Operation R)}
    (h : Disciplined afterWrite ops) {l : List R} (hl : afterWrite = false → InKeyOrder l) :
    ops.foldl (fun l op => (op.onList l).state) l = ops.foldl (fun l op => op.onSortedList l) l ∧
      (endsInWrite afterWrite ops = false →
        InKeyOrder (ops.foldl (fun l op => op.onSortedList l) l)) := by
  induction ops generalizing afterWrite l with
  | nil => exact ⟨rfl, hl⟩
  | cons op ops ih =>
    obtain ⟨heq, horder⟩ := h.step hl
    rw [List.foldl_cons, List.foldl_cons, heq, endsInWrite_cons]
    exact ih h.2.2 horder

/-- After every step of a disciplined run of a new store, the records are, one by
one, those of the stably sorted list that the same operations lead to; and they
are in key order, unless the step was a write whose sort is still to come. -/
theorem run_toList_eq_foldl (policy : SqueezePolicy) (ops : List (Operation R))
    (h : Disciplined false ops) (n : Nat) :
    (Operation.run (ops.take n) { policy }).state.toList =
        (ops.take n).foldl (fun l op => op.onSortedList l) [] ∧
      (endsInWrite false (ops.take n) = false →
        InKeyOrder (Operation.run (ops.take n) { policy }).state.toList) := by
  obtain ⟨heq, horder⟩ := (h.take n).foldl_onList (l := []) fun _ => List.Pairwise.nil
  have hrun := Operation.toList_run (ops.take n) { policy }
  rw [hrun]
  exact ⟨heq, fun hw => heq ▸ horder hw⟩

/-- A run over both zeros, an infinity and NaNs of both signs, through the front
pool, a merge, a removal, a write and its sort, and a squeeze. -/
def mixedRun : List (Operation Sample) :=
  [.addBatch [⟨⟨0x8000000000000000⟩, ⟨1⟩⟩, ⟨0, ⟨2⟩⟩, ⟨.ofNat 1, ⟨3⟩⟩] true,
    .add ⟨⟨0xFFF8000000000001⟩, ⟨4⟩⟩,
    .addBatch [⟨.nan, ⟨5⟩⟩, ⟨0, ⟨6⟩⟩] false,
    .removeBetween ⟨0xFFF0000000000000⟩ ⟨0x8000000000000000⟩,
    .write 0 ⟨.ofNat 7, ⟨7⟩⟩,
    .sort,
    .squeeze ⟨true, true⟩]

theorem mixedRun_toList_eq_foldl :
    Disciplined false mixedRun ∧
      (Operation.run (mixedRun.take 7) {}).state.toList =
        (mixedRun.take 7).foldl (fun l op => op.onSortedList l) [] ∧
      (endsInWrite false (mixedRun.take 7) = false →
        InKeyOrder (Operation.run (mixedRun.take 7) {}).state.toList) :=
  have h : Disciplined false mixedRun := by decide
  ⟨h, run_toList_eq_foldl {} mixedRun h 7⟩

end PlotSeries
