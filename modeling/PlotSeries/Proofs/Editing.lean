import PlotSeries.Proofs.Checked.Operations
import PlotSeries.Proofs.Layout
import PlotSeries.Proofs.SortedList
import PlotSeries.Proofs.Stepwise

/-!
# Editing in place

An edit overwrites records one after the other, up to the first write out of bounds, and
then sorts the records, whether or not there was such a write.

* `Store.state_writeAll`: the writes put the list `Store.overwritten` in the place of the
  records. The unused slots in front and the bounds of the allocation stay, so that of two
  lists put there one after the other only the second is left, and an edit puts the sorted
  list there (`Store.edit_eq`).
* `Operation.run_writes`: overwriting the records one by one leads to the same store and
  the same fault, by induction on the writes; `Operation.run_writes_sort` adds the sort.
* `live_writeEach` and `run_checkedEdit` say what is in memory before the records are
  sorted and after it, also if a write panics.
-/

namespace PlotSeries

variable {R : Type}

namespace Store

variable (s : Store R) (writes : List (Nat × R))

/-- The writes before the first one out of bounds. -/
def writesInBounds : List (Nat × R) := writes.takeWhile fun w => decide (w.1 < s.size)

/-- The records after the writes before the first one out of bounds, one after the other. -/
def overwritten : List R := (s.writesInBounds writes).foldl (fun l w => l.set w.1 w.2) s.toList

variable {s} in
theorem size_set {i : Nat} (record : R) (h : i < s.buffer.size) :
    (s.set i record h).size = s.size := by
  rw [size_eq, size_eq, set, toList, Buffer.toList_set, List.length_set]
  rfl

theorem overwritten_eq : s.overwritten writes = (writeAllTo s.toList writes).1 := by
  rw [writeAllTo_eq_foldl, ← size_eq]
  rfl

theorem setAll_toList : ({ s with buffer := s.buffer.setAll s.toList } : Store R) = s := by
  have hsame : s.buffer.setAll s.toList = s.buffer := s.buffer.setAll_toList
  rw [hsame]

/-- The writes put the overwritten records in the place of the records. -/
theorem state_writeAll :
    (s.writeAll writes).1 = { s with buffer := s.buffer.setAll (s.overwritten writes) } := by
  induction writes generalizing s with
  | nil =>
    rw [overwritten_eq]
    exact s.setAll_toList.symm
  | cons w writes ih =>
    obtain ⟨i, record⟩ := w
    rw [writeAll, overwritten_eq, writeAllTo, ← size_eq]
    split
    next h =>
      have hset : (s.set i record h).buffer = s.buffer.setAll (s.toList.set i record) :=
        (s.buffer.setAll_set record h).symm
      have hlist : (s.set i record h).toList = s.toList.set i record := Buffer.toList_set _ _ _ h
      rw [if_pos (show i < s.size from h), ih, overwritten_eq, hlist, hset, Buffer.setAll_setAll]
      rfl
    next h =>
      rw [if_neg (show ¬i < s.size from h)]
      exact s.setAll_toList.symm

theorem toList_writeAll_fst : (s.writeAll writes).1.toList = s.overwritten writes := by
  rw [state_writeAll]
  exact Buffer.toList_setAll _ _

theorem length_overwritten : (s.overwritten writes).length = s.size := by
  rw [← toList_writeAll_fst, ← size_eq, size_eq_layout, layout_writeAll, ← size_eq_layout]

/-- The fault is that of the first write out of bounds. -/
theorem fault_writeAll :
    (s.writeAll writes).2 =
      (writes.find? fun w => decide (s.size ≤ w.1)).map fun w => .indexOutOfBounds w.1 s.size := by
  have hlist := congrArg Prod.snd (s.toList_writeAll writes)
  rw [writeAllTo_fault, ← size_eq] at hlist
  exact hlist

/-- The writes that are tried: those in bounds, and the one that is not. -/
def writesTried : List (Nat × R) := writes.take ((s.writesInBounds writes).length + 1)

variable {s} in
theorem writesTried_cons {w : Nat × R} (h : w.1 < s.size) :
    s.writesTried (w :: writes) = w :: s.writesTried writes := by
  rw [writesTried, writesInBounds, List.takeWhile_cons, if_pos (decide_eq_true h)]
  rfl

variable {s} in
theorem writesTried_cons_of_size_le {w : Nat × R} (h : s.size ≤ w.1) :
    s.writesTried (w :: writes) = [w] := by
  rw [writesTried, writesInBounds, List.takeWhile_cons, if_neg (by simpa using h)]
  rfl

variable [PlotRecord R]

theorem sort_setAll (l : List R) :
    sort { s with buffer := s.buffer.setAll l } =
      { s with buffer := s.buffer.setAll (sortByKey l) } := by
  have hlist : toList { s with buffer := s.buffer.setAll l } = l := Buffer.toList_setAll _ _
  rw [sort, hlist, Buffer.setAll_setAll]

/-- An edit puts the sorted records in the place of the records, shows the records before
they are sorted if no write is out of bounds, and reports nothing. -/
theorem edit_eq :
    let bad := writes.find? fun w => decide (s.size ≤ w.1)
    s.edit writes =
      { state := { s with buffer := s.buffer.setAll (sortByKey (s.overwritten writes)) }
        fault := bad.map fun w => .indexOutOfBounds w.1 s.size
        seen := if bad.isNone then some (s.overwritten writes) else none } := by
  intro bad
  have hlist := s.toList_writeAll_fst writes
  have hfault : (s.writeAll writes).2 = bad.map fun w => .indexOutOfBounds w.1 s.size :=
    s.fault_writeAll writes
  rw [edit]
  dsimp only
  rw [hlist, hfault, state_writeAll, sort_setAll, Option.isNone_map]

end Store

namespace Operation

variable [PlotRecord R]

/-- Writing the records one by one, up to the first write out of bounds. -/
theorem run_writes (s : Store R) (writes : List (Nat × R)) :
    run ((s.writesTried writes).map fun w => write w.1 w.2) s =
      { state := (s.writeAll writes).1, fault := (s.writeAll writes).2 } := by
  induction writes generalizing s with
  | nil => rfl
  | cons w writes ih =>
    obtain ⟨i, record⟩ := w
    by_cases h : i < s.buffer.size
    · have happly : (write i record).apply s = { state := s.set i record h } := by
        rw [apply, Store.write, dif_pos h]
        rfl
      have htried : s.writesTried writes = (s.set i record h).writesTried writes := by
        simp only [Store.writesTried, Store.writesInBounds, Store.size_set]
      rw [Store.writesTried_cons writes (show i < s.size from h), List.map_cons, run_cons, happly,
        Outcome.start_andThen, htried, ih, Store.writeAll, dif_pos h]
    · have happly : (write i record).apply s =
          { state := s, fault := some (.indexOutOfBounds i s.size) } := by
        rw [apply, Store.write, dif_neg h]
        rfl
      rw [Store.writesTried_cons_of_size_le writes (show s.size ≤ i from Nat.le_of_not_lt h),
        Store.writeAll, dif_neg h, List.map_singleton, run_cons, happly]
      rfl

/-- An edit is its writes and a sort, but for the records that it shows in between. -/
theorem run_writes_sort (s : Store R) (writes : List (Nat × R)) :
    run ((s.writesTried writes).map (fun w => write w.1 w.2) ++ [sort]) s =
      { s.edit writes with seen := none } := by
  have hsort (t : Store R) : run [sort] t = { state := t.sort } := rfl
  rw [run_append, run_writes, hsort]
  simp only [Outcome.andThen, List.append_nil, Option.or_none]
  rfl

end Operation

section Guard

variable (s : Store R) (writes : List (Nat × R))

/-- The records that the writes leave in memory, whether or not one of them panics. -/
theorem live_writeEach (log : List Event) :
    (Checked.final ((Checked.writeEach writes).run (.of s log))).live = s.overwritten writes := by
  have hlist : (s.writeAll writes).1.toList = s.overwritten writes := s.toList_writeAll_fst writes
  rw [Checked.writeEach_eq, ← hlist]
  cases s.writeAll writes with
  | mk written fault => cases fault <;> rfl

variable [PlotRecord R]

/-- What an edit leaves in memory, and the records or the panic it ends with. -/
theorem run_checkedEdit (log : List Event) :
    (Checked.edit writes).run (.of s log) =
      match writes.find? fun w => decide (s.size ≤ w.1) with
      | none => .ok (s.overwritten writes) (.of (s.edit writes).state log)
      | some w => .error (.indexOutOfBounds w.1 s.size) (.of (s.edit writes).state log) := by
  have hlist : (s.writeAll writes).1.toList = s.overwritten writes := s.toList_writeAll_fst writes
  have hfault := s.fault_writeAll writes
  have hstate : (s.edit writes).state = (s.writeAll writes).1.sort := rfl
  rw [Checked.edit_eq, hstate, ← hlist]
  cases hwritten : s.writeAll writes with
  | mk written fault =>
    rw [hwritten] at hfault
    obtain rfl : fault = _ := hfault
    cases writes.find? fun w => decide (s.size ≤ w.1) <;> rfl

/-- Whether or not a write is out of bounds, an edit leaves the stable sort of the records
with the writes before that one made on them, one after the other, and changes nothing
else in the store: not the number of records, the slots in use, the pool and what its slots
hold, its growths, the allocation or the policy. The writes as such leave the same records
before they are sorted, and an edit is these writes and then a sort. -/
theorem edit_restores_order :
    let after := (s.edit writes).state
    let bad := writes.find? fun w => decide (s.size ≤ w.1)
    after.toList = sortByKey (s.overwritten writes) ∧
      IsStableSort (s.overwritten writes) after.toList ∧
      after.size = s.size ∧ after.layout = s.layout ∧ after.policy = s.policy ∧
      after.buffer.slots.take s.buffer.pool = s.buffer.slots.take s.buffer.pool ∧
      (s.edit writes).events = [] ∧
      (s.edit writes).fault = bad.map (fun w => .indexOutOfBounds w.1 s.size) ∧
      (s.edit writes).seen = (if bad.isNone then some (s.overwritten writes) else none) ∧
      (∀ log,
        (Checked.final ((Checked.writeEach writes).run (.of s log))).live = s.overwritten writes ∧
        (Checked.edit writes).run (.of s log) =
          match bad with
          | none => .ok (s.overwritten writes) (.of after log)
          | some w => .error (.indexOutOfBounds w.1 s.size) (.of after log)) ∧
      Operation.run ((s.writesTried writes).map (fun w => .write w.1 w.2) ++ [.sort]) s =
        { s.edit writes with seen := none } := by
  intro after bad
  have hedit := s.edit_eq writes
  have hafter : after = { s with buffer := s.buffer.setAll (sortByKey (s.overwritten writes)) } :=
    congrArg Outcome.state hedit
  have hlength : (sortByKey (s.overwritten writes)).length = s.buffer.size := by
    rw [(sortByKey_perm _).length_eq, s.length_overwritten]
    rfl
  have hlist : after.toList = sortByKey (s.overwritten writes) := by
    rw [hafter]
    exact Buffer.toList_setAll _ _
  have hsorted : IsStableSort (s.overwritten writes) after.toList :=
    hlist ▸ isStableSort_sortByKey _
  refine ⟨hlist, hsorted, ?_, ?_, ?_, ?_, ?_, ?_, ?_,
    fun log => ⟨live_writeEach s writes log, ?_⟩, ?_⟩
  · rw [Store.size_eq, hlist, hlength]
    rfl
  · rw [hafter]
    exact s.buffer.layout_setAll hlength
  · rw [hafter]
  · rw [hafter]
    exact s.buffer.take_slots_setAll _
  · rw [hedit]
  · rw [hedit]
  · rw [hedit]
  · exact run_checkedEdit s writes log
  · exact Operation.run_writes_sort s writes

end Guard

end PlotSeries
