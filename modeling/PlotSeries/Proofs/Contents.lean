import PlotSeries.Store.Operation

/-!
# What operations do to the list of records

Every operation on a store acts on the list of its records alone:
`Operation.onList` gives its result, its fault and what an edit saw from that
list, and `Operation.contents_apply` says that no layout, sorted or not, makes a
difference. The functions on lists follow the paths of the store, without the
slots: `addTo`, `addBatchTo`, `writeAllTo`.
-/

namespace PlotSeries

theorem insertIdx_eq_take_drop {α : Type} {l : List α} {i : Nat} (h : i ≤ l.length) (a : α) :
    l.insertIdx i a = l.take i ++ a :: l.drop i := by
  induction l generalizing i with
  | nil =>
    obtain rfl : i = 0 := by simpa using h
    rfl
  | cons b l ih =>
    cases i with
    | zero => rfl
    | succ i => simp [ih (Nat.le_of_succ_le_succ h)]

/-! ## Operations on lists -/

/-- The list after the writes before the first one out of bounds, and the fault
of that one, if any. -/
def writeAllTo {R : Type} (l : List R) : List (Nat × R) → List R × Option Fault
  | [] => (l, none)
  | (i, record) :: rest =>
    if i < l.length then writeAllTo (l.set i record) rest
    else (l, some (.indexOutOfBounds i l.length))

/-- The writes before the first one out of bounds are made one after the other. -/
theorem writeAllTo_eq_foldl {R : Type} (l : List R) (writes : List (Nat × R)) :
    (writeAllTo l writes).1 =
      (writes.takeWhile fun w => decide (w.1 < l.length)).foldl (fun l w => l.set w.1 w.2) l := by
  induction writes generalizing l with
  | nil => rfl
  | cons w writes ih =>
    obtain ⟨i, record⟩ := w
    rw [writeAllTo, List.takeWhile_cons]
    split
    next h =>
      rw [ih, List.length_set]
      simp [h]
    next h => simp [h]

/-- The fault is that of the first write out of bounds. -/
theorem writeAllTo_fault {R : Type} (l : List R) (writes : List (Nat × R)) :
    (writeAllTo l writes).2 =
      (writes.find? fun w => decide (l.length ≤ w.1)).map fun w =>
        .indexOutOfBounds w.1 l.length := by
  induction writes generalizing l with
  | nil => rfl
  | cons w writes ih =>
    rw [writeAllTo, List.find?_cons]
    by_cases h : w.1 < l.length
    · rw [if_pos h, ih, List.length_set, decide_eq_false (Nat.not_le.2 h)]
    · rw [if_neg h, decide_eq_true (Nat.not_lt.1 h)]
      rfl

variable {R : Type} [PlotRecord R]

/-- The list with a record behind it, in front of it or at its upper bound. -/
def addTo (l : List R) (record : R) : List R :=
  match l.head?, l.getLast? with
  | some first, some last =>
    if !keyLess (sortKey record) (sortKey last) then l ++ [record]
    else if keyLess (sortKey record) (sortKey first) then record :: l
    else
      let i := runUpperBound l (sortKey record)
      l.take i ++ record :: l.drop i
  | _, _ => l ++ [record]

/-- The list with a run behind it, merged if the two overlap. -/
def appendRunTo (l run : List R) : List R :=
  match run.head?, l.getLast? with
  | some head, some last =>
    if keyLess (sortKey head) (sortKey last) then mergeRuns (l ++ run) l.length else l ++ run
  | _, _ => l ++ run

/-- The list with a batch in its place, in front of it or behind it. -/
def addBatchTo (l records : List R) (sorted : Bool) : List R :=
  match records.getLast? with
  | none => l
  | some batchLast =>
    match l.head? with
    | none => Store.inOrder records sorted
    | some first =>
      if sorted && keyLess (sortKey batchLast) (sortKey first) then records ++ l
      else appendRunTo l (Store.inOrder records sorted)

/-- The list without the first record whose key is not less than `key`, if that
equals `key`. -/
def removeKeyFrom (l : List R) (key : Binary64) : List R :=
  let i := runLowerBound l key
  match l[i]? with
  | some record => if (sortKey record).numEq key then l.eraseIdx i else l
  | none => l

namespace Operation

/-- What an operation does to the list of records. -/
def onList (op : Operation R) (l : List R) : Outcome (List R) R :=
  match op with
  | replace records _ sorted => { state := Store.inOrder records sorted }
  | replaceCopy records sorted => { state := Store.inOrder records sorted }
  | addBatch records sorted => { state := addBatchTo l records sorted }
  | add record => { state := addTo l record }
  | removeUpTo key => { state := l.drop (runUpperBound l key) }
  | removeFrom key => { state := l.take (runLowerBound l key) }
  | removeBetween lower upper =>
    if l.isEmpty || !decide (lower < upper) then { state := l }
    else
      let start := runLowerBound l lower
      let stop := runUpperBound l upper
      if start ≤ stop then { state := l.take start ++ l.drop stop }
      else { state := l, fault := some (.spanOutOfOrder start stop) }
  | removeKey key => { state := removeKeyFrom l key }
  | clear => { state := [] }
  | sort => { state := sortByKey l }
  | squeeze _ => { state := l }
  | write index record =>
    if index < l.length then { state := l.set index record }
    else { state := l, fault := some (.indexOutOfBounds index l.length) }
  | edit writes =>
    let (written, fault) := writeAllTo l writes
    { state := sortByKey written, fault, seen := if fault.isNone then some written else none }
  | setAutoSqueeze _ => { state := l }
  | setPolicy _ => { state := l }
  | collect records => { state := sortByKey records }
  | copy => { state := l }
  | reset => { state := [] }

end Operation

/-- An outcome seen through the list of records, without what was reported. -/
def Outcome.contents (o : Outcome (Store R) R) : Outcome (List R) R :=
  { state := o.state.toList, fault := o.fault, seen := o.seen }

/-! ## The store through its list -/

namespace Store

theorem size_eq {R : Type} (s : Store R) : s.size = s.toList.length :=
  (Buffer.length_toList s.buffer).symm

theorem get?_eq {R : Type} (s : Store R) (i : Nat) : s.get? i = s.toList[i]? :=
  Buffer.get?_eq s.buffer i

theorem first?_eq {R : Type} (s : Store R) : s.first? = s.toList.head? :=
  (s.get?_eq 0).trans List.head?_eq_getElem?.symm

theorem last?_eq {R : Type} (s : Store R) : s.last? = s.toList.getLast? := by
  rw [List.getLast?_eq_getElem?, ← size_eq]
  exact s.get?_eq _

theorem getElem_buffer {R : Type} (s : Store R) (i : Nat) (h : i < s.buffer.size)
    (h' : i < s.toList.length) : s.buffer[i] = s.toList[i] :=
  Buffer.getElem_eq_toList _ _ h

theorem isEmpty_eq {R : Type} (s : Store R) : s.isEmpty = s.toList.isEmpty := by
  rw [isEmpty, size_eq, Bool.eq_iff_iff, beq_iff_eq, List.isEmpty_iff_length_eq_zero]

/-- Bisections over the same number of equal answers agree. -/
theorem bisect_congr {n m : Nat} (h : n = m) {f : Fin n → Bool} {g : Fin m → Bool}
    (hfg : ∀ i : Fin n, f i = g (i.cast h)) : bisect n f = bisect m g := by
  subst h
  exact congrArg _ (funext hfg)

theorem lowerBound_eq (s : Store R) (key : Binary64) : s.lowerBound key = runLowerBound s.toList key :=
  bisect_congr s.size_eq fun i =>
    congrArg (fun r => keyLess (sortKey r) key) (s.getElem_buffer i i.isLt (i.cast s.size_eq).isLt)

theorem upperBound_eq (s : Store R) (key : Binary64) : s.upperBound key = runUpperBound s.toList key :=
  bisect_congr s.size_eq fun i =>
    congrArg (fun r => !keyLess key (sortKey r)) (s.getElem_buffer i i.isLt (i.cast s.size_eq).isLt)

/-! ## Giving slots back -/

@[simp] theorem toList_squeeze {R : Type} (s : Store R) (request : SqueezeRequest) :
    (s.squeeze request).value.toList = s.toList := by
  simp only [squeeze, toList, Logged.value_bind, Logged.value_pure]
  cases request.pool <;> cases request.tail <;> simp

@[simp] theorem toList_autoSqueeze {R : Type} (s : Store R) :
    s.autoSqueeze.value.toList = s.toList := by
  unfold autoSqueeze
  split
  · dsimp only
    split
    · simp
    · simp
  · simp

@[simp] theorem toList_setAutoSqueeze {R : Type} (s : Store R) (enabled : Bool) :
    (s.setAutoSqueeze enabled).value.toList = s.toList := by
  unfold setAutoSqueeze
  split
  · rfl
  · dsimp only
    split
    · exact toList_autoSqueeze _
    · rfl

/-! ## Adding records -/

theorem toList_prepend (s : Store R) (records : List R) :
    (s.prepend records).value.toList = records ++ s.toList := by
  unfold prepend
  split
  next h => exact Buffer.toList_prepend _ _ h
  next h =>
    have hpool : records.length ≤ (s.buffer.growPool (PlotRecord.ofSortKey 0) records.length).pool :=
      Nat.le_add_right _ _
    exact (Buffer.toList_prepend _ _ hpool).trans (by rw [Buffer.toList_growPool]; rfl)

theorem toList_add (s : Store R) (record : R) : (s.add record).value.toList = addTo s.toList record := by
  unfold add addTo
  rw [first?_eq, last?_eq]
  cases s.toList.head? with
  | none => exact Buffer.toList_push _ _
  | some first =>
    cases s.toList.getLast? with
    | none => exact Buffer.toList_push _ _
    | some last =>
      dsimp only
      split
      · exact Buffer.toList_push _ _
      · split
        · exact toList_prepend _ _
        · have hle : s.upperBound (sortKey record) ≤ s.toList.length := by
            rw [← size_eq]
            exact s.upperBound_le_size _
          rw [← upperBound_eq, ← insertIdx_eq_take_drop hle]
          exact Buffer.toList_insert _ _ _ (s.upperBound_le_size _)

theorem toList_appendRun (s : Store R) (run : List R) :
    (s.appendRun run).toList = appendRunTo s.toList run := by
  have happend : (s.buffer.append run).toList = s.toList ++ run := Buffer.toList_append _ _
  unfold appendRun appendRunTo
  rw [last?_eq, size_eq]
  cases run.head? with
  | none => exact happend
  | some head =>
    cases s.toList.getLast? with
    | none => exact happend
    | some last =>
      dsimp only
      split
      · rw [← happend]
        exact Buffer.toList_setAll _ _
      · exact happend

theorem toList_addBatch (s : Store R) (records : List R) (sorted : Bool) :
    (s.addBatch records sorted).value.toList = addBatchTo s.toList records sorted := by
  unfold addBatch addBatchTo
  rw [first?_eq]
  cases records.getLast? with
  | none => rfl
  | some batchLast =>
    cases s.toList.head? with
    | none => exact Buffer.toList_ofList _ _
    | some first =>
      dsimp only
      split
      · exact toList_prepend _ _
      · exact toList_appendRun _ _

theorem toList_replaceCopy (s : Store R) (records : List R) (sorted : Bool) :
    (s.replaceCopy records sorted).value.toList = inOrder records sorted := by
  have hclear : s.clear.toList = [] := Buffer.toList_clear _
  rw [replaceCopy, toList_addBatch, hclear, addBatchTo]
  cases h : records.getLast? with
  | none =>
    obtain rfl := List.getLast?_eq_none_iff.1 h
    cases sorted <;> simp [inOrder, sortByKey]
  | some batchLast => rfl

/-! ## Removing records -/

theorem toList_removeUpTo (s : Store R) (key : Binary64) :
    (s.removeUpTo key).value.toList = s.toList.drop (runUpperBound s.toList key) := by
  rw [removeUpTo, toList_autoSqueeze, ← upperBound_eq]
  exact Buffer.toList_dropFirst _ _ (s.upperBound_le_size key)

theorem toList_removeFrom (s : Store R) (key : Binary64) :
    (s.removeFrom key).value.toList = s.toList.take (runLowerBound s.toList key) := by
  rw [removeFrom, toList_autoSqueeze, ← lowerBound_eq]
  exact Buffer.toList_truncate _ _

theorem toList_removeKey (s : Store R) (key : Binary64) :
    (s.removeKey key).value.toList = removeKeyFrom s.toList key := by
  rw [removeKey, toList_autoSqueeze, removeKeyFrom, ← lowerBound_eq]
  split
  next h =>
    have h' : s.lowerBound key < s.toList.length := by rwa [← size_eq]
    rw [List.getElem?_eq_getElem h', getElem_buffer s _ h h']
    dsimp only
    split
    · split
      next h0 =>
        rw [h0, List.eraseIdx_zero, ← List.drop_one]
        exact Buffer.toList_dropFirst _ 1 (by omega)
      next =>
        rw [List.eraseIdx_eq_take_drop_succ]
        exact Buffer.toList_eraseSpan _ _ _
    · rfl
  next h =>
    rw [List.getElem?_eq_none (by rw [← size_eq]; exact Nat.le_of_not_lt h)]

/-! ## Overwriting records -/

theorem toList_writeAll {R : Type} (s : Store R) (writes : List (Nat × R)) :
    ((s.writeAll writes).1.toList, (s.writeAll writes).2) = writeAllTo s.toList writes := by
  induction writes generalizing s with
  | nil => rfl
  | cons w writes ih =>
    obtain ⟨i, record⟩ := w
    rw [writeAll, writeAllTo, ← size_eq]
    split
    next h =>
      have hset : (s.set i record h).toList = s.toList.set i record := Buffer.toList_set _ _ _ h
      rw [if_pos (show i < s.size from h), ih, hset]
    next h => rw [if_neg (show ¬i < s.size from h)]

theorem toList_sort (s : Store R) : s.sort.toList = sortByKey s.toList := Buffer.toList_setAll _ _

theorem contents_edit (s : Store R) (writes : List (Nat × R)) :
    (s.edit writes).contents = (Operation.edit writes).onList s.toList := by
  have h := s.toList_writeAll writes
  simp only [edit, Outcome.contents, Operation.onList, ← h, toList_sort]

theorem contents_removeBetween (s : Store R) (lower upper : Binary64) :
    (Outcome.ofExcept s (s.removeBetween lower upper)).contents =
      (Operation.removeBetween lower upper).onList s.toList := by
  simp only [removeBetween, Operation.onList, isEmpty_eq, lowerBound_eq, upperBound_eq]
  split
  · rfl
  · split
    · have herase := Buffer.toList_eraseSpan s.buffer (runLowerBound s.toList lower)
        (runUpperBound s.toList upper)
      simp only [Outcome.ofExcept, Outcome.ofLogged, Outcome.contents, toList_autoSqueeze]
      exact congrArg (fun l : List R => ({ state := l } : Outcome (List R) R)) herase
    · rfl

theorem contents_write (s : Store R) (index : Nat) (record : R) :
    (Outcome.ofExcept s ((s.write index record).map pure)).contents =
      (Operation.write index record).onList s.toList := by
  simp only [write, Operation.onList, ← size_eq]
  split
  next h =>
    rw [if_pos (show index < s.size from h)]
    have hset := Buffer.toList_set s.buffer index record h
    exact congrArg (fun l : List R => ({ state := l } : Outcome (List R) R)) hset
  next h =>
    rw [if_neg (show ¬index < s.size from h)]
    rfl

end Store

/-- No operation looks at more of a store than the list of its records. -/
theorem Operation.contents_apply (op : Operation R) (s : Store R) :
    (op.apply s).contents = op.onList s.toList := by
  -- an operation that is never at fault is compared by its list alone
  have hlogged : ∀ result : Logged (Store R), ∀ l, result.value.toList = l →
      (Outcome.ofLogged result : Outcome (Store R) R).contents = { state := l } := by
    rintro result l rfl
    rfl
  cases op with
  | replace records spare sorted =>
    exact congrArg (fun l : List R => ({ state := l } : Outcome (List R) R))
      (Buffer.toList_ofList (Store.inOrder records sorted) spare)
  | replaceCopy records sorted => exact hlogged _ _ (s.toList_replaceCopy records sorted)
  | addBatch records sorted => exact hlogged _ _ (s.toList_addBatch records sorted)
  | add record => exact hlogged _ _ (s.toList_add record)
  | removeUpTo key => exact hlogged _ _ (s.toList_removeUpTo key)
  | removeFrom key => exact hlogged _ _ (s.toList_removeFrom key)
  | removeBetween lower upper => exact s.contents_removeBetween lower upper
  | removeKey key => exact hlogged _ _ (s.toList_removeKey key)
  | clear => rfl
  | sort =>
    exact congrArg (fun l : List R => ({ state := l } : Outcome (List R) R)) s.toList_sort
  | squeeze request => exact hlogged _ _ (s.toList_squeeze request)
  | write index record => exact s.contents_write index record
  | edit writes => exact s.contents_edit writes
  | setAutoSqueeze enabled => exact hlogged _ _ (s.toList_setAutoSqueeze enabled)
  | setPolicy policy => rfl
  | collect records =>
    exact congrArg (fun l : List R => ({ state := l } : Outcome (List R) R))
      (Buffer.toList_ofList (Store.inOrder records false) 0)
  | copy => rfl
  | reset => rfl

/-! ## Runs -/

theorem Operation.run_state (ops : List (Operation R)) (s : Store R) :
    (run ops s).state = ops.foldl (fun s op => (op.apply s).state) s := by
  unfold run
  -- the fold goes on from any outcome; only its state matters
  generalize ho : ({ state := s } : Outcome (Store R) R) = o
  have hs : o.state = s := by rw [← ho]
  clear ho
  induction ops generalizing o s with
  | nil => exact hs
  | cons op ops ih => exact ih _ _ (congrArg (fun s => (op.apply s).state) hs)

/-- The list of records after a run. -/
theorem Operation.toList_run (ops : List (Operation R)) (s : Store R) :
    (run ops s).state.toList = ops.foldl (fun l op => (op.onList l).state) s.toList := by
  rw [run_state]
  induction ops generalizing s with
  | nil => rfl
  | cons op ops ih =>
    have hstep : (op.apply s).state.toList = (op.onList s.toList).state :=
      congrArg Outcome.state (op.contents_apply s)
    rw [List.foldl_cons, List.foldl_cons, ih, hstep]

end PlotSeries
