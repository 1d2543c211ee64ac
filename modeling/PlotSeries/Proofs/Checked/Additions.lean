import PlotSeries.Proofs.Checked.Memory

/-!
# Adding records, checked

The operations that replace records and add some, step by step on the memory of a
store. Each leaves the memory that the operation of `Store` describes
(`replace_eq`, `add_eq`, `addBatch_eq`), whether or not the records are in key
order and the batch is sorted as declared: the only bounds needed are that the pool
lies within the slots and that searches and merges stay within their rows.
-/

namespace PlotSeries.Checked

section Replacing

variable {R : Type} [PlotRecord R]

/-! ## Replacing all records -/

/-- Take a list with `spare` slots behind it for the slots. -/
def replace (records : List R) (spare : Nat) (sorted : Bool) : Program (Memory R) Unit := do
  modify fun m =>
    { m with slots := records, capacity := records.length + spare, pool := 0, growths := 0 }
  onlyIf (!sorted) (onSlots sortRow)

/-- Drop all slots. -/
def clear : Program (Memory R) Unit :=
  modify fun m => { m with slots := [], pool := 0, growths := 0 }

theorem length_inOrder (records : List R) (sorted : Bool) :
    (Store.inOrder records sorted).length = records.length := by
  cases sorted with
  | false => exact List.length_mergeSort records
  | true => rfl

theorem replace_eq (s : Store R) (records : List R) (spare : Nat) (sorted : Bool)
    (log : List Event) :
    (replace records spare sorted).run (Memory.of s log) =
      .ok ⟨⟩ (.of (s.replace records spare sorted) log) := by
  have hsort (m : Memory R) := onSlots_ok (sortRow_eq m.slots)
  rw [replace, modify_bind, onlyIf_eq fun _ => hsort _]
  cases sorted <;> simp [Memory.of, Store.replace, Buffer.ofList, Store.inOrder, sortByKey]

omit [PlotRecord R] in
theorem clear_eq (s : Store R) (log : List Event) :
    clear.run (Memory.of s log) = .ok ⟨⟩ (.of s.clear log) := rfl

theorem sort_eq (s : Store R) (log : List Event) :
    (onLive sortRow).run (Memory.of s log) = .ok ⟨⟩ (.of s.sort log) :=
  onLive_ok (sortRow_eq s.toList) log

end Replacing

section Adding

variable {R : Type} [PlotRecord R]

/-! ## Adding records -/

/-- Write records into the last slots of the pool, which become live. -/
def fill (records : List R) : Program (Memory R) Unit := do
  let start ← subtract (← get).pool records.length
  modify fun m => { m with pool := start }
  onSlots (copyFrom start (start + records.length) records)

/-- Write a record into the last slot of the pool, which becomes live. -/
def fillOne (record : R) : Program (Memory R) Unit := do
  let start ← subtract (← get).pool 1
  modify fun m => { m with pool := start }
  onSlots (write start record)

/-- Add records in front of all others. -/
def prepend (records : List R) : Program (Memory R) Unit := do
  let pool := (← get).pool
  onlyIf (decide (pool < records.length)) (growPool records.length)
  fill records

/-- Add one record in front of all others. -/
def prependOne (record : R) : Program (Memory R) Unit := do
  let pool := (← get).pool
  onlyIf (decide (pool = 0)) (growPool 1)
  fillOne record

/-- Add one record in its place. -/
def add (record : R) : Program (Memory R) Unit := do
  let row ← live
  match row.head?, row.getLast? with
  | some first, some last =>
    if !keyLess (sortKey record) (sortKey last) then push record
    else if keyLess (sortKey record) (sortKey first) then prependOne record
    else
      let row ← live
      let i ← upperBound row (sortKey record)
      insertAt ((← get).pool + i) record
  | _, _ => push record

/-- Sort the run behind the first `mid` records of a row, unless it is sorted, and
merge it with the run before it, if the two overlap. -/
def joinRuns (mid : Nat) (sorted : Bool) : Program (List R) Unit := do
  onlyIf (!sorted) (tail mid sortRow)
  if 0 < mid then
    let row ← get
    let head ← readAt row mid
    let last ← readAt row (← subtract mid 1)
    onlyIf (keyLess (sortKey head) (sortKey last)) (mergeRow mid)
  else pure ()

/-- Add a batch in its place. -/
def addBatch (records : List R) (sorted : Bool) : Program (Memory R) Unit :=
  match records.getLast? with
  | none => pure ()
  | some batchLast => do
    let old ← size
    if old = 0 then replace records 0 sorted
    else
      let row ← live
      let below := row.head?.any fun first => keyLess (sortKey batchLast) (sortKey first)
      if sorted && below then prepend records
      else
        extend records
        onLive (joinRuns old sorted)

omit [PlotRecord R] in
theorem fill_eq (s : Store R) {records : List R} (h : records.length ≤ s.buffer.pool)
    (log : List Event) :
    (fill records).run (Memory.of s log) =
      .ok ⟨⟩ (.of { s with buffer := s.buffer.prepend records } log) := by
  have hstop : s.buffer.pool - records.length + records.length ≤
      s.buffer.slots.toList.length := by
    rw [Nat.sub_add_cancel h]
    exact Memory.pool_le s log
  rw [fill, get_bind, Memory.of_pool, bind_ok (subtract_eq h _), modify_bind,
    onSlots_ok (copyFrom_eq rfl hstop)]
  simp only [Memory.of, Buffer.prepend, Buffer.toList_overwrite _ _ _ hstop]

omit [PlotRecord R] in
theorem fillOne_eq (s : Store R) (record : R) (h : 1 ≤ s.buffer.pool) (log : List Event) :
    (fillOne record).run (Memory.of s log) =
      .ok ⟨⟩ (.of { s with buffer := s.buffer.prepend [record] } log) := by
  have hstart : s.buffer.pool - 1 < s.buffer.slots.toList.length :=
    Nat.lt_of_lt_of_le (Nat.sub_lt h Nat.one_pos) (Memory.pool_le s log)
  rw [fillOne, get_bind, Memory.of_pool, bind_ok (subtract_eq h _), modify_bind,
    onSlots_ok (write_eq hstart record)]
  simp [Memory.of, Buffer.prepend, Buffer.overwrite]

theorem prepend_eq (s : Store R) (records : List R) (log : List Event) :
    (prepend records).run (Memory.of s log) = .ok ⟨⟩ (.ofLogged (s.prepend records) log) := by
  rw [prepend, get_bind, Store.prepend]
  dsimp only [Memory.of_pool]
  by_cases h : records.length ≤ s.buffer.pool
  · rw [onlyIf, if_neg (by simpa using h), if_pos h, Memory.ofLogged_pure]
    exact fill_eq s h log
  · have hgrow := growPool_eq s log (Nat.lt_of_not_le h)
    rw [onlyIf, if_pos (by simpa using h), if_neg h, bind_ok hgrow, Memory.ofLogged_bind,
      Memory.ofLogged_pure]
    exact fill_eq { s with buffer := s.buffer.growPool (PlotRecord.ofSortKey 0) records.length }
      (Nat.le_add_right _ _) _

theorem prependOne_eq (s : Store R) (record : R) (log : List Event) :
    (prependOne record).run (Memory.of s log) = .ok ⟨⟩ (.ofLogged (s.prepend [record]) log) := by
  rw [prependOne, get_bind, Store.prepend]
  dsimp only [Memory.of_pool, List.length_singleton]
  by_cases h : 1 ≤ s.buffer.pool
  · rw [onlyIf, if_neg (by simp; omega), if_pos h, Memory.ofLogged_pure]
    exact fillOne_eq s record h log
  · have hgrow := growPool_eq s log (Nat.lt_of_not_le h)
    rw [onlyIf, if_pos (by simp; omega), if_neg h, bind_ok hgrow, Memory.ofLogged_bind,
      Memory.ofLogged_pure]
    exact fillOne_eq { s with buffer := s.buffer.growPool (PlotRecord.ofSortKey 0) 1 } record
      (Nat.le_add_right _ _) _

omit [PlotRecord R] in
theorem push_eq (s : Store R) (record : R) (log : List Event) :
    (push record).run (Memory.of s log) =
      .ok ⟨⟩ (.of { s with buffer := s.buffer.push record } log) := by
  rw [push, get_bind, setSlots]
  simp [Memory.of, Buffer.push]

omit [PlotRecord R] in
theorem insertAt_eq (s : Store R) (record : R) {i : Nat} (h : i ≤ s.buffer.size)
    (log : List Event) :
    (insertAt (s.buffer.pool + i) record).run (Memory.of s log) =
      .ok ⟨⟩ (.of { s with buffer := s.buffer.insert i record h } log) := by
  have hle : s.buffer.pool + i ≤ s.buffer.slots.toList.length := Memory.slot_le s log h
  rw [insertAt, get_bind]
  dsimp only [Memory.of_slots]
  rw [if_pos hle, ← insertIdx_eq_take_drop hle, setSlots]
  simp [Memory.of, Buffer.insert, List.length_insertIdx_of_le_length hle]

theorem add_eq (s : Store R) (record : R) (log : List Event) :
    (add record).run (Memory.of s log) = .ok ⟨⟩ (.ofLogged (s.add record) log) := by
  rw [add, bind_ok (live_eq s log), Store.add, Store.first?_eq, Store.last?_eq]
  cases s.toList.head? with
  | none =>
    dsimp only
    rw [Memory.ofLogged_pure]
    exact push_eq s record log
  | some first =>
    cases s.toList.getLast? with
    | none =>
      dsimp only
      rw [Memory.ofLogged_pure]
      exact push_eq s record log
    | some last =>
      dsimp only
      split
      · rw [Memory.ofLogged_pure]
        exact push_eq s record log
      · split
        · exact prependOne_eq s record log
        · rw [bind_ok (live_eq s log), bind_ok (upperBound_eq _ _ _), get_bind,
            ← Store.upperBound_eq, Memory.ofLogged_pure]
          exact insertAt_eq s record (s.upperBound_le_size _) log

theorem joinRuns_eq {l records : List R} (hl : l ≠ []) (hrecords : records ≠ []) (sorted : Bool) :
    (joinRuns l.length sorted).run (l ++ records) =
      .ok ⟨⟩ (appendRunTo l (Store.inOrder records sorted)) := by
  have hpos : 0 < l.length := List.length_pos_iff.2 hl
  have htail : (tail l.length sortRow).run (l ++ records) = .ok ⟨⟩ (l ++ sortByKey records) := by
    have hsort : sortRow.run ((l ++ records).drop l.length) = .ok ⟨⟩ (sortByKey records) := by
      rw [List.drop_left, sortRow_eq]
    rw [tail_ok (by simp) hsort, List.take_left]
  have hsorted : (if (!sorted) = true then l ++ sortByKey records else l ++ records) =
      l ++ Store.inOrder records sorted := by
    cases sorted <;> rfl
  rw [joinRuns, bind_ok (onlyIf_eq fun _ => htail), hsorted, if_pos hpos, get_bind]
  have hlength := length_inOrder records sorted
  generalize Store.inOrder records sorted = run at hlength ⊢
  obtain ⟨head, rest, rfl⟩ : ∃ head rest, run = head :: rest :=
    List.exists_cons_of_ne_nil fun h => hrecords (by simpa [h] using hlength.symm)
  have hhead : (l ++ head :: rest)[l.length]? = some head := by simp
  have hlast : (l ++ head :: rest)[l.length - 1]? = some (l.getLast hl) := by
    rw [List.getElem?_append_left (by omega), ← List.getLast?_eq_getElem?,
      List.getLast?_eq_some_getLast]
  rw [bind_ok (readAt_eq hhead _), bind_ok (subtract_eq hpos _), bind_ok (readAt_eq hlast _),
    onlyIf_eq fun _ => mergeRow_eq _ _, appendRunTo, List.getLast?_eq_some_getLast hl]
  rfl

omit [PlotRecord R] in
theorem extend_eq (s : Store R) (records : List R) (log : List Event) :
    (extend records).run (Memory.of s log) =
      .ok ⟨⟩ (.of { s with buffer := s.buffer.append records } log) := by
  rw [extend, get_bind, setSlots]
  simp [Memory.of, Buffer.append]

omit [PlotRecord R] in
theorem setAll_append (b : Buffer R) {run records : List R} (h : run.length = records.length)
    (l : List R) : (b.append records).setAll l = (b.append run).setAll l := by
  have hpool := b.pool_le
  simp [Buffer.append, Buffer.setAll, h, hpool]

theorem buffer_appendRun (s : Store R) (run : List R) :
    (s.appendRun run).buffer = (s.buffer.append run).setAll (appendRunTo s.toList run) := by
  rw [← Store.toList_appendRun, Store.toList, Store.appendRun]
  dsimp only
  split
  · split
    · rw [Buffer.toList_setAll]
    · rw [Buffer.setAll_toList]
  · exact (Buffer.setAll_toList _).symm

theorem addBatch_eq (s : Store R) (records : List R) (sorted : Bool) (log : List Event) :
    (addBatch records sorted).run (Memory.of s log) =
      .ok ⟨⟩ (.ofLogged (s.addBatch records sorted) log) := by
  rw [addBatch, Store.addBatch, Store.first?_eq]
  cases hbatch : records.getLast? with
  | none =>
    dsimp only
    rw [Memory.ofLogged_pure]
    rfl
  | some batchLast =>
    dsimp only
    rw [bind_ok (size_eq s log), Store.size_eq]
    cases hl : s.toList with
    | nil =>
      rw [if_pos (by rfl), List.head?_nil]
      dsimp only
      rw [Memory.ofLogged_pure]
      exact replace_eq s records 0 sorted log
    | cons first rest =>
      rw [if_neg (by simp), bind_ok (live_eq s log), hl, List.head?_cons]
      dsimp only [Option.any_some]
      split
      · exact prepend_eq s records log
      · rw [bind_ok (extend_eq s records log), Memory.ofLogged_pure, ← hl]
        have hrecords : records ≠ [] := fun h => by simp [h] at hbatch
        have happend : (s.buffer.append records).toList = s.toList ++ records :=
          Buffer.toList_append _ _
        have hjoin := joinRuns_eq (by simp [hl] : s.toList ≠ []) hrecords sorted
        rw [← happend] at hjoin
        have hlive := onLive_ok (s := { s with buffer := s.buffer.append records }) hjoin log
        rw [hlive, setAll_append _ (length_inOrder records sorted), ← buffer_appendRun]
        rfl

end Adding

end PlotSeries.Checked
