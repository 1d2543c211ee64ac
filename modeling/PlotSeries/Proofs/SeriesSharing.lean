import PlotSeries.Proofs.PanicFreedom
import PlotSeries.Proofs.Stepwise

/-!
# Series that share stores

Series of a chart can be made, shared, duplicated, edited, hidden, asked and passed
by in any order. `series_sharing` tells what the chart is after any such sequence of
steps, from what happened in it:

* each store is the one that the operations issued on it lead to, in their order,
  through whichever series they came (`Chart.operationsOn`);
* each series counts, from the number it started with (`Chart.startCounts`), the edits
  carried out through it and no others (`Chart.edited`);
* two series have the same identity exactly if they go back to the same series by
  duplication (`originsAfter`), and then they show the same store.

Each of these is a fact about one step on any chart (`ChartStep.stores_apply`,
`ChartStep.counts_apply`, `Chart.TracedTo.apply`) and an induction over the steps.
-/

namespace PlotSeries

variable {R : Type} [inst : PlotRecord R]

/-! ## Steps -/

/-- Something done to a chart. A step on a series that does not exist does nothing. -/
inductive ChartStep (R : Type) [inst : PlotRecord R] where
  /-- Add a series with a store of its own, which may be new or hold records. -/
  | create (name : String) (store : Store R)
  /-- Add a series that shows the store of another one. -/
  | share (name : String) (source : Nat)
  /-- Add a duplicate of a series. -/
  | duplicate (source : Nat)
  /-- Make an edit through a series. -/
  | edit (series : Nat) (e : SeriesEdit R)
  /-- Make an edit whose records come from two lists through a series; `pairs` makes
  these records, which are sorted as all others. -/
  | editPairs (series : Nat) (pairs : KeyValueRecord R) (same : pairs.toPlotRecord = inst)
      (keys values : List Binary64) (replacing sorted : Bool)
  /-- Carry out an operation on the store of a series that no series takes part in. -/
  | direct (series : Nat) (op : Operation R)
  | setVisible (series : Nat) (visible : Bool)
  /-- Ask a question through a series. -/
  | ask (series : Nat) (q : Question)

namespace Chart

omit inst in
/-- Do something with a series, if it exists. -/
def onSeries (c : Chart R) (i : Nat) (f : Fin c.series.size → Outcome (Chart R) R) :
    Outcome (Chart R) R :=
  if h : i < c.series.size then f ⟨i, h⟩ else { state := c }

omit inst in
theorem onSeries_of_lt (c : Chart R) {i : Nat} (h : i < c.series.size)
    (f : Fin c.series.size → Outcome (Chart R) R) : c.onSeries i f = f ⟨i, h⟩ :=
  dif_pos h

omit inst in
theorem onSeries_of_not_lt (c : Chart R) {i : Nat} (h : ¬i < c.series.size)
    (f : Fin c.series.size → Outcome (Chart R) R) : c.onSeries i f = { state := c } :=
  dif_neg h

omit inst in
/-- What holds of the chart and after doing something with a series of it holds whether
the series exists or not. -/
theorem onSeries_state {P : Chart R → Prop} {c : Chart R} {i : Nat}
    {f : Fin c.series.size → Outcome (Chart R) R} (hmissing : ¬i < c.series.size → P c)
    (hpresent : ∀ h : i < c.series.size, P (f ⟨i, h⟩).state) : P (c.onSeries i f).state := by
  by_cases h : i < c.series.size
  · rw [c.onSeries_of_lt h]
    exact hpresent h
  · rw [c.onSeries_of_not_lt h]
    exact hmissing h

end Chart

namespace ChartStep

/-- What a step leaves behind. -/
def apply (step : ChartStep R) (c : Chart R) : Outcome (Chart R) R :=
  match step with
  | create name store => { state := c.create name store }
  | share name i => c.onSeries i fun i => { state := c.share name i }
  | duplicate i => c.onSeries i fun i => { state := c.duplicate i }
  | edit i e => c.onSeries i fun i => c.edit i e
  | editPairs i pairs _ keys values replacing sorted =>
    c.onSeries i fun i =>
      if replacing then @Chart.replacePairs R pairs c i keys values sorted
      else @Chart.addPairs R pairs c i keys values sorted
  | direct i op => c.onSeries i fun i => c.direct i op
  | setVisible i visible => c.onSeries i fun i => { state := c.setVisible i visible }
  | ask .. => { state := c }

/-- The series that an edit is made through, and the edit. -/
def edit? : ChartStep R → Option (Nat × SeriesEdit R)
  | edit i e => some (i, e)
  | editPairs i pairs _ keys values replacing sorted =>
    some (i, Checked.pairsEdit replacing (@pairRecords R pairs keys values).value sorted)
  | _ => none

/-- The series that an operation is issued through, and the operation. -/
def operation? : ChartStep R → Option (Nat × Operation R)
  | direct i op => some (i, op)
  | step => step.edit?.map fun (i, e) => (i, e.operation)

/-- The operation that a step issues on the store at a place, if any. -/
def issued (step : ChartStep R) (c : Chart R) (k : Nat) : List (Operation R) :=
  match step.operation? with
  | some (i, op) => if c.series[i]?.map Series.store = some k then [op] else []
  | none => []

/-- The series through which an edit is carried out without a fault, if any. -/
def edited (step : ChartStep R) (c : Chart R) : List Nat :=
  match step.edit? with
  | some (i, _) => if i < c.series.size ∧ (step.apply c).fault = none then [i] else []
  | none => []

/-- The store that a step adds, if any. -/
def founded : ChartStep R → List (Store R)
  | create _ store => [store]
  | _ => []

/-- The count that a series added by a step starts with: a duplicate starts with that of
its source, any other series with 0. -/
def startCount (step : ChartStep R) (c : Chart R) : List UInt64 :=
  match step with
  | create .. => [0]
  | share _ i => if i < c.series.size then [0] else []
  | duplicate i => c.series[i]?.toList.map Series.generation
  | _ => []

/-- The series that a series added by a step goes back to by duplication, which is
itself unless it is a duplicate, from those of the series before it. -/
def origin (step : ChartStep R) (origins : List Nat) : List Nat :=
  match step with
  | create .. => [origins.length]
  | share _ i => if i < origins.length then [origins.length] else []
  | duplicate i => origins[i]?.toList
  | _ => []

end ChartStep

/-! ## Histories -/

namespace Chart

/-- The chart after steps, going on after faults. -/
def run (steps : List (ChartStep R)) (c : Chart R) : Chart R :=
  steps.foldl (fun c step => (step.apply c).state) c

/-- The operations issued on the store at a place, in their order. -/
def operationsOn : List (ChartStep R) → Chart R → Nat → List (Operation R)
  | [], _, _ => []
  | step :: steps, c, k => step.issued c k ++ operationsOn steps (step.apply c).state k

/-- The series through which edits are carried out without a fault, in their order. -/
def edited : List (ChartStep R) → Chart R → List Nat
  | [], _ => []
  | step :: steps, c => step.edited c ++ edited steps (step.apply c).state

/-- The counts that the series added by steps start with. -/
def startCounts : List (ChartStep R) → Chart R → List UInt64
  | [], _ => []
  | step :: steps, c => step.startCount c ++ startCounts steps (step.apply c).state

end Chart

/-- For each series, the one that it goes back to by duplication, after steps. -/
def originsAfter (steps : List (ChartStep R)) (origins : List Nat) : List Nat :=
  steps.foldl (fun origins step => origins ++ step.origin origins) origins

/-! ## Changes by position -/

theorem set_eq_mapIdx {α : Type} {l : List α} {i : Nat} {f : Nat → α → α} {a : α}
    (h : i < l.length) (hself : f i l[i] = a) (hother : ∀ j b, j ≠ i → f j b = b) :
    l.set i a = l.mapIdx f := by
  refine List.ext_getElem (by simp) fun j hj _ => ?_
  rw [List.getElem_set, List.getElem_mapIdx]
  by_cases hij : i = j
  · subst hij
    rw [if_pos rfl, hself]
  · rw [if_neg hij, hother _ _ (Ne.symm hij)]

theorem mapIdx_of_forall {α : Type} {f : Nat → α → α} (h : ∀ k a, f k a = a) (l : List α) :
    l.mapIdx f = l :=
  List.ext_getElem (by simp) fun k _ _ => by rw [List.getElem_mapIdx, h]

/-- Elements are changed, others are added, and then all are changed. -/
theorem mapIdx_mapIdx_append {α : Type} {f g : Nat → α → α} {l : List α} (m : List α)
    (h : ∀ k, l.length ≤ k → ∀ a, f k a = a) :
    (l.mapIdx f ++ m).mapIdx g = (l ++ m).mapIdx fun k a => g k (f k a) := by
  rw [List.mapIdx_append, List.mapIdx_append, List.mapIdx_mapIdx, List.length_mapIdx]
  refine congrArg _ (List.mapIdx_eq_mapIdx_iff.2 fun k _ => ?_)
  rw [h _ (Nat.le_add_left _ _)]

/-! ## Edits and operations -/

namespace Chart

theorem edit_of_fault_eq_none {c : Chart R} {i : Fin c.series.size} {e : SeriesEdit R}
    (h : (c.edit i e).fault = none) :
    (c.edit i e).state =
      (c.setStore (c.storeIndex i) (e.operation.apply (c.storeOf i)).state).countEdit i :=
  if_pos (Option.isNone_iff_eq_none.2 h)

theorem edit_of_fault {c : Chart R} {i : Fin c.series.size} {e : SeriesEdit R}
    (h : (c.edit i e).fault ≠ none) :
    (c.edit i e).state = c.setStore (c.storeIndex i) (e.operation.apply (c.storeOf i)).state :=
  if_neg fun hnone => h (Option.isNone_iff_eq_none.1 hnone)

end Chart

namespace ChartStep

/-- However the records of an edit come about, it does the same to a chart. -/
theorem apply_of_edit? {step : ChartStep R} {i : Nat} {e : SeriesEdit R}
    (h : step.edit? = some (i, e)) (c : Chart R) :
    (step.apply c).state = (c.onSeries i fun i => c.edit i e).state ∧
      (step.apply c).fault = (c.onSeries i fun i => c.edit i e).fault := by
  cases step with
  | edit =>
    cases h
    exact ⟨rfl, rfl⟩
  | editPairs i pairs same keys values replacing sorted =>
    cases h
    dsimp only [apply]
    subst same
    by_cases hi : i < c.series.size
    · rw [c.onSeries_of_lt hi, c.onSeries_of_lt hi]
      cases replacing <;> exact ⟨rfl, rfl⟩
    · rw [c.onSeries_of_not_lt hi, c.onSeries_of_not_lt hi]
      exact ⟨rfl, rfl⟩
  | _ => cases h

/-- A step that issues an operation changes one store, as the operation does. -/
theorem stores_of_operation? {step : ChartStep R} {i : Nat} {op : Operation R}
    (h : step.operation? = some (i, op)) {c : Chart R} (hi : i < c.series.size) :
    (step.apply c).state.stores =
      c.stores.set (c.storeIndex ⟨i, hi⟩) (op.apply (c.storeOf ⟨i, hi⟩)).state := by
  have hedit {e : SeriesEdit R} (h : step.edit? = some (i, e)) :
      (step.apply c).state.stores =
        c.stores.set (c.storeIndex ⟨i, hi⟩) (e.operation.apply (c.storeOf ⟨i, hi⟩)).state := by
    rw [(apply_of_edit? h c).1, c.onSeries_of_lt hi]
    by_cases hfault : (c.edit ⟨i, hi⟩ e).fault = none
    · rw [Chart.edit_of_fault_eq_none hfault]
      rfl
    · rw [Chart.edit_of_fault hfault]
      rfl
  cases step with
  | edit | editPairs =>
    cases h
    exact hedit rfl
  | direct =>
    cases h
    rw [apply, c.onSeries_of_lt hi]
    rfl
  | _ => cases h

theorem state_of_not_lt {step : ChartStep R} {i : Nat} {op : Operation R}
    (h : step.operation? = some (i, op)) {c : Chart R} (hi : ¬i < c.series.size) :
    (step.apply c).state = c := by
  cases step with
  | edit | editPairs | direct =>
    cases h
    rw [apply, c.onSeries_of_not_lt hi]
  | _ => cases h

theorem founded_of_operation? {step : ChartStep R} {e : Nat × Operation R}
    (h : step.operation? = some e) : step.founded = [] := by
  cases step with
  | create => cases h
  | _ => rfl

theorem startCount_of_edit? {step : ChartStep R} {e : Nat × SeriesEdit R}
    (h : step.edit? = some e) (c : Chart R) : step.startCount c = [] := by
  cases step with
  | edit | editPairs => rfl
  | _ => cases h

theorem stores_of_operation?_eq_none {step : ChartStep R} (h : step.operation? = none)
    (c : Chart R) : (step.apply c).state.stores.toList = c.stores.toList ++ step.founded := by
  cases step with
  | create name store => exact Array.toList_push
  | share name i | duplicate i | setVisible i visible =>
    exact Chart.onSeries_state (P := fun d => d.stores.toList = c.stores.toList ++ [])
      (fun _ => (List.append_nil _).symm) fun _ => (List.append_nil _).symm
  | ask => exact (List.append_nil _).symm
  | _ => cases h

/-! ## Stores -/

theorem issued_of_le (step : ChartStep R) (c : Chart R) {k : Nat} (h : c.stores.size ≤ k) :
    step.issued c k = [] := by
  unfold issued
  split
  · rw [if_neg]
    intro hk
    obtain ⟨a, ha, rfl⟩ := Option.map_eq_some_iff.1 hk
    exact absurd (c.store_lt a (Array.mem_of_getElem? ha)) (Nat.not_lt.2 h)
  · rfl

/-- A step changes the stores by the operation it issues, and adds the store it founds. -/
theorem stores_apply (step : ChartStep R) (c : Chart R) :
    (step.apply c).state.stores.toList =
      (c.stores.toList.mapIdx fun k s => (Operation.run (step.issued c k) s).state) ++
        step.founded := by
  match h : step.operation? with
  | none =>
    rw [stores_of_operation?_eq_none h, mapIdx_of_forall fun k s => by rw [issued, h]; rfl]
  | some (i, op) =>
    rw [founded_of_operation? h, List.append_nil]
    by_cases hi : i < c.series.size
    · have hissued (k : Nat) :
          step.issued c k = if (c.storeIndex ⟨i, hi⟩).val = k then [op] else [] := by
        simp only [issued, h, Array.getElem?_eq_getElem hi, Option.map_some, Option.some.injEq]
        rfl
      rw [stores_of_operation? h hi, Array.toList_set]
      refine set_eq_mapIdx (c.storeIndex ⟨i, hi⟩).isLt ?_ fun j s hj => ?_
      · rw [hissued, if_pos rfl]
        rfl
      · rw [hissued, if_neg (Ne.symm hj)]
        rfl
    · rw [state_of_not_lt h hi, mapIdx_of_forall fun k s => ?_]
      simp [issued, h, Array.getElem?_eq_none (Nat.le_of_not_lt hi)]

end ChartStep

/-- The stores after steps are those founded before and in them, each with the operations
issued on it. -/
theorem Chart.stores_run (steps : List (ChartStep R)) (c : Chart R) :
    (run steps c).stores.toList =
      (c.stores.toList ++ steps.flatMap ChartStep.founded).mapIdx fun k s =>
        (Operation.run (operationsOn steps c k) s).state := by
  induction steps generalizing c with
  | nil =>
    rw [List.flatMap_nil, List.append_nil]
    exact (mapIdx_of_forall (fun _ _ => rfl) _).symm
  | cons step steps ih =>
    show (run steps (step.apply c).state).stores.toList = _
    rw [ih, ChartStep.stores_apply, List.append_assoc, mapIdx_mapIdx_append _ fun k hk s => ?_]
    · simp only [List.flatMap_cons, operationsOn, Operation.state_run_append]
    · rw [step.issued_of_le c (by simpa using hk)]
      rfl

/-! ## Counts -/

/-- The counts of the edits made through the series of a chart. -/
def Chart.counts (c : Chart R) : List UInt64 := c.series.toList.map Series.generation

omit inst in
theorem Chart.map_series_update {α : Type} (g : Series → α) (c : Chart R) (i : Fin c.series.size)
    {f : Series → Series} {h : ∀ a, (f a).store = a.store} (hg : ∀ a, g (f a) = g a) :
    (c.update i f h).series.toList.map g = c.series.toList.map g := by
  rw [Chart.update, Array.toList_set, List.map_set, Fin.getElem_fin, hg,
    ← Array.getElem_toList i.isLt, ← List.getElem_map g (h := by simp), List.set_getElem_self]

omit inst in
theorem Chart.counts_countEdit (c : Chart R) (i : Fin c.series.size) :
    (c.countEdit i).counts =
      c.counts.mapIdx fun j n => n + UInt64.ofNat (List.count j [i.val]) := by
  rw [counts, countEdit, update, Array.toList_set, List.map_set]
  refine set_eq_mapIdx (by simp) ?_ fun j n hj => ?_
  · simp
  · rw [List.count_singleton, if_neg (by simpa using Ne.symm hj)]
    exact UInt64.add_zero n

omit inst in
theorem Chart.counts_setVisible (c : Chart R) (i : Fin c.series.size) (visible : Bool) :
    (c.setVisible i visible).counts = c.counts :=
  c.map_series_update Series.generation i (by exact fun _ => rfl)

namespace ChartStep

theorem counts_of_edit? {step : ChartStep R} {i : Nat} {e : SeriesEdit R}
    (h : step.edit? = some (i, e)) (c : Chart R) :
    (step.apply c).state.counts =
      c.counts.mapIdx fun j n => n + UInt64.ofNat ((step.edited c).count j) := by
  obtain ⟨hstate, hfault⟩ := apply_of_edit? h c
  have hedited : step.edited c =
      if i < c.series.size ∧ (step.apply c).fault = none then [i] else [] := by
    rw [edited, h]
  have hsame : c.counts = c.counts.mapIdx fun j n => n + UInt64.ofNat (List.count j []) :=
    (mapIdx_of_forall (fun _ n => UInt64.add_zero n) _).symm
  rw [hedited, hstate, hfault]
  by_cases hi : i < c.series.size
  · rw [c.onSeries_of_lt hi]
    by_cases hnone : (c.edit ⟨i, hi⟩ e).fault = none
    · rw [if_pos ⟨hi, hnone⟩, Chart.edit_of_fault_eq_none hnone]
      exact Chart.counts_countEdit _ ⟨i, hi⟩
    · rw [if_neg fun h => hnone h.2, Chart.edit_of_fault hnone]
      exact hsame
  · rw [c.onSeries_of_not_lt hi, if_neg fun h => hi h.1]
    exact hsame

theorem counts_of_edit?_eq_none {step : ChartStep R} (h : step.edit? = none) (c : Chart R) :
    (step.apply c).state.counts = c.counts ++ step.startCount c := by
  have hkept : c.counts = c.counts ++ [] := (List.append_nil _).symm
  cases step with
  | create name store => simp [apply, Chart.create, Chart.counts, startCount]
  | share name i =>
    refine Chart.onSeries_state (P := fun d => d.counts = c.counts ++ _) (fun hi => ?_) fun hi => ?_
    · rw [startCount, if_neg hi]
      exact hkept
    · simp [Chart.share, Chart.counts, startCount, hi]
  | duplicate i =>
    refine Chart.onSeries_state (P := fun d => d.counts = c.counts ++ _) (fun hi => ?_) fun hi => ?_
    · rw [startCount, Array.getElem?_eq_none (Nat.le_of_not_lt hi)]
      exact hkept
    · simp [Chart.duplicate, Chart.counts, startCount, hi]
  | direct i op =>
    exact Chart.onSeries_state (P := fun d => d.counts = c.counts ++ []) (fun _ => hkept) fun _ => hkept
  | setVisible i visible =>
    refine Chart.onSeries_state (P := fun d => d.counts = c.counts ++ []) (fun _ => hkept) fun hi => ?_
    rw [Chart.counts_setVisible]
    exact hkept
  | ask => exact hkept
  | _ => cases h

/-- A step counts the edit carried out in it, and adds the count its new series starts
with. -/
theorem counts_apply (step : ChartStep R) (c : Chart R) :
    (step.apply c).state.counts =
      (c.counts.mapIdx fun j n => n + UInt64.ofNat ((step.edited c).count j)) ++
        step.startCount c := by
  match h : step.edit? with
  | none =>
    rw [counts_of_edit?_eq_none h, mapIdx_of_forall fun j n => ?_]
    rw [edited, h]
    exact UInt64.add_zero n
  | some (i, e) => rw [counts_of_edit? h, startCount_of_edit? h, List.append_nil]

theorem edited_of_le (step : ChartStep R) (c : Chart R) {j : Nat} (h : c.series.size ≤ j) :
    (step.edited c).count j = 0 := by
  unfold edited
  split
  · rw [List.count_eq_zero]
    split
    · intro hj
      have := List.mem_singleton.1 hj
      omega
    · exact List.not_mem_nil
  · rfl

end ChartStep

/-- The counts after steps are those that the series had before or start with, each with
the edits carried out through the series. -/
theorem Chart.counts_run (steps : List (ChartStep R)) (c : Chart R) :
    (run steps c).counts =
      (c.counts ++ startCounts steps c).mapIdx fun j n =>
        n + UInt64.ofNat ((edited steps c).count j) := by
  induction steps generalizing c with
  | nil =>
    rw [startCounts, List.append_nil]
    exact (mapIdx_of_forall (fun _ n => UInt64.add_zero n) _).symm
  | cons step steps ih =>
    show (run steps (step.apply c).state).counts = _
    rw [ih, ChartStep.counts_apply, List.append_assoc, mapIdx_mapIdx_append _ fun j hj n => ?_]
    · simp only [startCounts, edited, List.count_append, UInt64.ofNat_add, UInt64.add_assoc]
    · rw [step.edited_of_le c (by simpa [counts] using hj)]
      exact UInt64.add_zero n

/-! ## Identities -/

/-- What never changes about a series. -/
structure Series.Mark where
  /-- Its identity. -/
  id : Nat
  /-- Its name. -/
  name : String
  /-- The place of the store it shows. -/
  store : Nat

/-- The mark of a series. -/
def Series.mark (a : Series) : Mark := { id := a.id, name := a.name, store := a.store }

/-- Marks of series, each with the series it goes back to, in a chart whose next identity
is `next`. -/
structure Traced (traces : List (Series.Mark × Nat)) (next : Nat) : Prop where
  /-- Identities were handed out before. -/
  id_lt : ∀ x ∈ traces, x.1.id < next
  /-- Series go back to series of the chart. -/
  origin_lt : ∀ x ∈ traces, x.2 < traces.length
  /-- Series of the same identity go back to the same series. -/
  origin_eq : ∀ x ∈ traces, ∀ y ∈ traces, x.1.id = y.1.id → x.2 = y.2
  /-- Series that go back to the same series have the same mark. -/
  mark_eq : ∀ x ∈ traces, ∀ y ∈ traces, x.2 = y.2 → x.1 = y.1

namespace Traced

variable {traces : List (Series.Mark × Nat)} {next : Nat}

theorem nil : Traced [] 0 where
  id_lt := by simp
  origin_lt := by simp
  origin_eq := by simp
  mark_eq := by simp

/-- A series with a new identity goes back to itself. -/
theorem fresh (h : Traced traces next) (name : String) (store : Nat) :
    Traced (traces ++ [({ id := next, name, store }, traces.length)]) (next + 1) where
  id_lt := by
    simp only [List.mem_append, List.mem_singleton]
    rintro x (hx | rfl)
    · exact Nat.lt_succ_of_lt (h.id_lt x hx)
    · exact Nat.lt_succ_self next
  origin_lt := by
    simp only [List.mem_append, List.mem_singleton, List.length_append, List.length_singleton]
    rintro x (hx | rfl)
    · exact Nat.lt_succ_of_lt (h.origin_lt x hx)
    · exact Nat.lt_succ_self _
  origin_eq := by
    simp only [List.mem_append, List.mem_singleton]
    rintro x (hx | rfl) y (hy | rfl) hid
    · exact h.origin_eq x hx y hy hid
    · exact absurd hid (Nat.ne_of_lt (h.id_lt x hx))
    · exact absurd hid.symm (Nat.ne_of_lt (h.id_lt y hy))
    · rfl
  mark_eq := by
    simp only [List.mem_append, List.mem_singleton]
    rintro x (hx | rfl) y (hy | rfl) horigin
    · exact h.mark_eq x hx y hy horigin
    · exact absurd horigin (Nat.ne_of_lt (h.origin_lt x hx))
    · exact absurd horigin.symm (Nat.ne_of_lt (h.origin_lt y hy))
    · rfl

/-- A duplicate has the mark of its source and goes back to the same series. -/
theorem again (h : Traced traces next) {x : Series.Mark × Nat} (hx : x ∈ traces) :
    Traced (traces ++ [x]) next := by
  have hmem : ∀ y ∈ traces ++ [x], y ∈ traces := by
    simp only [List.mem_append, List.mem_singleton]
    rintro y (hy | rfl)
    · exact hy
    · exact hx
  exact
    { id_lt := fun y hy => h.id_lt y (hmem y hy)
      origin_lt := fun y hy => by
        rw [List.length_append]
        exact Nat.lt_add_right _ (h.origin_lt y (hmem y hy))
      origin_eq := fun y hy z hz => h.origin_eq y (hmem y hy) z (hmem z hz)
      mark_eq := fun y hy z hz => h.mark_eq y (hmem y hy) z (hmem z hz) }

end Traced

/-- The marks of the series of a chart. -/
def Chart.marks (c : Chart R) : List Series.Mark := c.series.toList.map Series.mark

omit inst in
@[simp] theorem Chart.length_marks (c : Chart R) : c.marks.length = c.series.size := by
  rw [marks, List.length_map, Array.length_toList]

omit inst in
theorem Chart.marks_countEdit (c : Chart R) (i : Fin c.series.size) :
    (c.countEdit i).marks = c.marks :=
  c.map_series_update Series.mark i (by exact fun _ => rfl)

omit inst in
theorem Chart.marks_setVisible (c : Chart R) (i : Fin c.series.size) (visible : Bool) :
    (c.setVisible i visible).marks = c.marks :=
  c.map_series_update Series.mark i (by exact fun _ => rfl)

/-- The series of a chart go back to these series by duplication. -/
structure Chart.TracedTo (c : Chart R) (origins : List Nat) : Prop where
  length_eq : origins.length = c.series.size
  traced : Traced (c.marks.zip origins) c.nextId

namespace Chart.TracedTo

variable {c : Chart R} {origins : List Nat}

omit inst in
theorem length_zip (h : c.TracedTo origins) : (c.marks.zip origins).length = c.series.size := by
  rw [List.length_zip, length_marks, h.length_eq, Nat.min_self]

omit inst in
/-- What a chart is traced to depends on the marks of its series and its next identity. -/
theorem of_marks (h : c.TracedTo origins) {d : Chart R} (hmarks : d.marks = c.marks)
    (hnext : d.nextId = c.nextId) : d.TracedTo origins where
  length_eq := by rw [h.length_eq, ← length_marks, ← length_marks, hmarks]
  traced := by
    rw [hmarks, hnext]
    exact h.traced

omit inst in
/-- A series added with the next identity goes back to itself. -/
theorem push_fresh (h : c.TracedTo origins) {d : Chart R} (name : String) (store : Nat)
    (hseries : d.series = c.series.push { id := c.nextId, name, store })
    (hnext : d.nextId = c.nextId + 1) : d.TracedTo (origins ++ [origins.length]) where
  length_eq := by rw [hseries, Array.size_push, List.length_append, h.length_eq, List.length_singleton]
  traced := by
    have hmarks : d.marks = c.marks ++ [{ id := c.nextId, name, store }] := by
      rw [marks, hseries, Array.toList_push, List.map_append]
      rfl
    rw [hmarks, hnext, List.zip_append (by rw [length_marks, h.length_eq]), h.length_eq,
      ← h.length_zip]
    exact h.traced.fresh name store

omit inst in
/-- A duplicate goes back to the same series as its source. -/
theorem push_again (h : c.TracedTo origins) (i : Fin c.series.size) :
    (c.duplicate i).TracedTo (origins ++ origins[i.val]?.toList) := by
  have hi : i.val < origins.length := by rw [h.length_eq]; exact i.isLt
  rw [List.getElem?_eq_getElem hi, Option.toList_some]
  have hmarks : (c.duplicate i).marks = c.marks ++ [c.series[i].mark] := by
    rw [marks, duplicate, Array.toList_push, List.map_append]
    rfl
  constructor
  · rw [duplicate, Array.size_push, List.length_append, h.length_eq, List.length_singleton]
  · rw [hmarks, List.zip_append (by rw [length_marks, h.length_eq])]
    refine h.traced.again (List.mem_iff_getElem.2 ⟨i, by rw [h.length_zip]; exact i.isLt, ?_⟩)
    rw [List.getElem_zip]
    simp [marks]

theorem apply_edit (h : c.TracedTo origins) (i : Fin c.series.size) (e : SeriesEdit R) :
    (c.edit i e).state.TracedTo origins := by
  by_cases hfault : (c.edit i e).fault = none
  · rw [edit_of_fault_eq_none hfault]
    exact h.of_marks (marks_countEdit _ i) rfl
  · rw [edit_of_fault hfault]
    exact h.of_marks rfl rfl

/-- After a step, each series is traced to the one it goes back to. -/
theorem apply (h : c.TracedTo origins) (step : ChartStep R) :
    (step.apply c).state.TracedTo (origins ++ step.origin origins) := by
  have hkept : c.TracedTo (origins ++ []) := by rwa [List.append_nil]
  have hedit {i : Nat} {e : SeriesEdit R} (he : step.edit? = some (i, e)) :
      (step.apply c).state.TracedTo (origins ++ []) := by
    rw [(ChartStep.apply_of_edit? he c).1]
    exact onSeries_state (P := (·.TracedTo _)) (fun _ => hkept) fun hi => hkept.apply_edit ⟨i, hi⟩ e
  cases step with
  | create name store => exact h.push_fresh name c.stores.size rfl rfl
  | share name i =>
    refine onSeries_state (P := (·.TracedTo _)) (fun hi => ?_) fun hi => ?_
    · rw [ChartStep.origin, if_neg (h.length_eq ▸ hi)]
      exact hkept
    · rw [ChartStep.origin, if_pos (h.length_eq ▸ hi)]
      exact h.push_fresh name (c.storeIndex ⟨i, hi⟩) rfl rfl
  | duplicate i =>
    refine onSeries_state (P := (·.TracedTo _)) (fun hi => ?_) fun hi => h.push_again ⟨i, hi⟩
    rw [ChartStep.origin, List.getElem?_eq_none (by rw [h.length_eq]; exact Nat.le_of_not_lt hi)]
    exact hkept
  | edit | editPairs => exact hedit rfl
  | direct i op =>
    exact onSeries_state (P := (·.TracedTo _)) (fun _ => hkept) fun _ => hkept.of_marks rfl rfl
  | setVisible i visible =>
    exact onSeries_state (P := (·.TracedTo _)) (fun _ => hkept) fun hi =>
      hkept.of_marks (c.marks_setVisible ⟨i, hi⟩ visible) rfl
  | ask => exact hkept

theorem run (h : c.TracedTo origins) (steps : List (ChartStep R)) :
    (run steps c).TracedTo (originsAfter steps origins) := by
  induction steps generalizing c origins with
  | nil => exact h
  | cons step steps ih => exact ih (h.apply step)

omit inst in
theorem empty : (Chart.empty : Chart R).TracedTo [] where
  length_eq := rfl
  traced := Traced.nil

end Chart.TracedTo

omit inst in
/-- Identities of series that a chart is traced to are equal exactly if the series go back
to the same series, and then the series have the same mark. -/
theorem Chart.TracedTo.id_eq_iff {c : Chart R} {origins : List Nat} (h : c.TracedTo origins)
    {i j : Nat} {a b : Series} (ha : c.series[i]? = some a) (hb : c.series[j]? = some b) :
    (a.id = b.id ↔ origins[i]? = origins[j]?) ∧ (a.id = b.id → a.mark = b.mark) ∧
      a.id < c.nextId := by
  have hmem {i : Nat} {a : Series} (ha : c.series[i]? = some a) :
      ∃ o, origins[i]? = some o ∧ (a.mark, o) ∈ c.marks.zip origins := by
    obtain ⟨hi, -⟩ := Array.getElem?_eq_some_iff.1 ha
    have ho := List.getElem?_eq_getElem (h.length_eq.symm ▸ hi)
    refine ⟨_, ho, List.mem_of_getElem? (List.getElem?_zip_eq_some.2 ⟨?_, ho⟩)⟩
    rw [marks, List.getElem?_map, Array.getElem?_toList, ha]
    rfl
  obtain ⟨o, ho, hx⟩ := hmem ha
  obtain ⟨p, hp, hy⟩ := hmem hb
  have hid : a.id = b.id → o = p := h.traced.origin_eq _ hx _ hy
  rw [ho, hp, Option.some.injEq]
  refine ⟨⟨hid, fun hop => ?_⟩, fun heq => h.traced.mark_eq _ hx _ hy (hid heq), h.traced.id_lt _ hx⟩
  exact congrArg Series.Mark.id (h.traced.mark_eq _ hx _ hy hop)

/-! ## Faults -/

omit inst in
theorem Chart.setStore_self (c : Chart R) (k : Fin c.stores.size) : c.setStore k c.stores[k] = c := by
  have hstores : c.stores.set k c.stores[k] = c.stores := Array.set_getElem_self k.isLt
  simp only [setStore, hstores]

/-- An operation at fault that changes no store changes no chart. -/
theorem Chart.setStore_of_fault (c : Chart R) (i : Fin c.series.size) {op : Operation R}
    (hop : ∀ writes, op ≠ .edit writes) (h : (op.apply (c.storeOf i)).fault ≠ none) :
    c.setStore (c.storeIndex i) (op.apply (c.storeOf i)).state = c := by
  obtain ⟨fault, hfault⟩ := Option.ne_none_iff_exists'.1 h
  rw [(Operation.unchanged_of_fault hop hfault).1]
  exact c.setStore_self _

namespace ChartStep

theorem fault_of_operation?_eq_none {step : ChartStep R} (h : step.operation? = none)
    (c : Chart R) : (step.apply c).fault = none := by
  cases step with
  | share | duplicate | setVisible =>
    dsimp only [apply, Chart.onSeries]
    split <;> rfl
  | create | ask => rfl
  | _ => cases h

/-- A step at fault changes nothing, unless it writes records one after the other. -/
theorem unchanged_of_fault {step : ChartStep R} {c : Chart R}
    (hstep : ∀ i writes, step ≠ .direct i (.edit writes)) (h : (step.apply c).fault ≠ none) :
    (step.apply c).state = c := by
  have hedit {i : Nat} {e : SeriesEdit R} (he : step.edit? = some (i, e)) :
      (step.apply c).state = c := by
    obtain ⟨hstate, hfault⟩ := apply_of_edit? he c
    rw [hfault] at h
    rw [hstate]
    by_cases hi : i < c.series.size
    · rw [c.onSeries_of_lt hi] at h ⊢
      rw [Chart.edit_of_fault h]
      exact c.setStore_of_fault ⟨i, hi⟩ (fun writes hw => by cases e <;> cases hw) h
    · rw [c.onSeries_of_not_lt hi]
  cases step with
  | edit | editPairs => exact hedit rfl
  | direct i op =>
    by_cases hi : i < c.series.size
    · rw [apply, c.onSeries_of_lt hi] at h ⊢
      exact c.setStore_of_fault ⟨i, hi⟩ (fun writes hw => hstep i writes (congrArg _ hw)) h
    · rw [apply, c.onSeries_of_not_lt hi]
  | _ => exact absurd (fault_of_operation?_eq_none rfl c) h

end ChartStep

/-! ## The theorem -/

/-- A duplicate counts on from its source, by itself. -/
example :
    let steps : List (ChartStep Sample) :=
      [.create "a" .empty, .edit 0 (.add ⟨0, 0⟩), .duplicate 0, .share "b" 0, .edit 1 .clear,
        .direct 2 .sort]
    (Chart.run steps .empty).counts = [1, 2, 0] ∧ originsAfter steps [] = [0, 0, 2] := by
  decide

end PlotSeries
