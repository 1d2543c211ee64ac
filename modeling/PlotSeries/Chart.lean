import PlotSeries.Store.Operation
import PlotSeries.Store.Query

/-!
# Charts of series

A `Chart` holds named series over stores of records of one type. Several series may
show the same store, so a series refers to its store by its place in the chart. A
series counts the edits made through it, and only those.

The identities of series are numbered here from 0 on, chart by chart. Programs number
all their series together, from 1 on and whatever their records, so those of one chart
may leave numbers out. Identities are only compared with each other, which does not
depend on that.

* `Chart.create`, `Chart.share` and `Chart.duplicate` add a series.
* `Chart.edit` carries out an edit through a series, `Chart.direct` an operation
  on its store that no series takes part in.
-/

namespace PlotSeries

/-- A named series over one of the stores of a chart. -/
structure Series where
  /-- Identity of the series; a duplicate keeps it. -/
  id : Nat
  name : String
  visible : Bool := true
  /-- Number of edits made through this series, modulo 2 ^ 64. -/
  generation : UInt64 := 0
  /-- Place of its store among the stores of the chart. -/
  store : Nat
  deriving DecidableEq

/-- An edit that can be made through a series. -/
inductive SeriesEdit (R : Type) where
  | replace (records : List R) (spare : Nat) (sorted : Bool)
  | addBatch (records : List R) (sorted : Bool)
  | add (record : R)
  | removeUpTo (key : Binary64)
  | removeFrom (key : Binary64)
  | removeBetween (lower upper : Binary64)
  | clear

/-- The operation on the store that an edit stands for. -/
def SeriesEdit.operation {R : Type} : SeriesEdit R → Operation R
  | replace records spare sorted => .replace records spare sorted
  | addBatch records sorted => .addBatch records sorted
  | add record => .add record
  | removeUpTo key => .removeUpTo key
  | removeFrom key => .removeFrom key
  | removeBetween lower upper => .removeBetween lower upper
  | clear => .clear

/-- Series and the stores they show. -/
structure Chart (R : Type) where
  /-- The stores, each shown by at least one series. -/
  stores : Array (Store R) := #[]
  series : Array Series := #[]
  nextId : Nat := 0
  store_lt : ∀ a ∈ series, a.store < stores.size := by simp

namespace Chart

variable {R : Type}

/-- A chart without series. -/
def empty : Chart R := {}

instance : Inhabited (Chart R) := ⟨empty⟩

/-- The place of the store that a series shows. -/
def storeIndex (c : Chart R) (i : Fin c.series.size) : Fin c.stores.size :=
  ⟨c.series[i].store, c.store_lt _ (Array.getElem_mem i.isLt)⟩

/-- The store that a series shows. -/
def storeOf (c : Chart R) (i : Fin c.series.size) : Store R := c.stores[c.storeIndex i]

/-! ## Adding series -/

/-- Add a series with a store of its own. -/
def create (c : Chart R) (name : String) (store : Store R) : Chart R :=
  { stores := c.stores.push store
    series := c.series.push { id := c.nextId, name, store := c.stores.size }
    nextId := c.nextId + 1
    store_lt := by
      intro a ha
      rcases Array.mem_push.1 ha with ha | rfl
      · have := c.store_lt a ha
        simp only [Array.size_push]
        omega
      · simp }

/-- Add a series that shows the store of another one. -/
def share (c : Chart R) (name : String) (i : Fin c.series.size) : Chart R :=
  { c with
    series := c.series.push { id := c.nextId, name, store := (c.storeIndex i).val }
    nextId := c.nextId + 1
    store_lt := by
      intro a ha
      rcases Array.mem_push.1 ha with ha | rfl
      · exact c.store_lt a ha
      · exact (c.storeIndex i).isLt }

/-- Add a duplicate of a series: the same identity, name, visibility, count of
edits and store. -/
def duplicate (c : Chart R) (i : Fin c.series.size) : Chart R :=
  { c with
    series := c.series.push c.series[i]
    store_lt := by
      intro a ha
      rcases Array.mem_push.1 ha with ha | rfl
      · exact c.store_lt a ha
      · exact (c.storeIndex i).isLt }

/-! ## Changing series -/

/-- Change a series without moving it to another store. -/
def update (c : Chart R) (i : Fin c.series.size) (f : Series → Series)
    (h : ∀ a, (f a).store = a.store) : Chart R :=
  { c with
    series := c.series.set i (f c.series[i])
    store_lt := by
      intro a ha
      rcases Array.mem_or_eq_of_mem_set ha with ha | rfl
      · exact c.store_lt a ha
      · rw [h]
        exact (c.storeIndex i).isLt }

/-- Show or hide a series. -/
def setVisible (c : Chart R) (i : Fin c.series.size) (visible : Bool) : Chart R :=
  c.update i (fun a => { a with visible }) fun _ => rfl

/-- Count one more edit through a series. -/
def countEdit (c : Chart R) (i : Fin c.series.size) : Chart R :=
  c.update i (fun a => { a with generation := a.generation + 1 }) fun _ => rfl

/-! ## Changing stores -/

/-- Put a store in the place of another one. -/
def setStore (c : Chart R) (k : Fin c.stores.size) (store : Store R) : Chart R :=
  { c with
    stores := c.stores.set k store
    store_lt := by simpa using c.store_lt }

variable [PlotRecord R]

/-- Carry out an operation on the store of a series. No series counts it. -/
def direct (c : Chart R) (i : Fin c.series.size) (op : Operation R) : Outcome (Chart R) R :=
  let k := c.storeIndex i
  (op.apply c.stores[k]).mapState (c.setStore k)

/-- Make an edit through a series, which counts it unless it was at fault. -/
def edit (c : Chart R) (i : Fin c.series.size) (e : SeriesEdit R) : Outcome (Chart R) R :=
  let k := c.storeIndex i
  let outcome := e.operation.apply c.stores[k]
  outcome.mapState fun store =>
    let changed := c.setStore k store
    if outcome.fault.isNone then changed.countEdit i else changed

end Chart

/-! ## Records from two arrays -/

/-- The records of keys and values taken in pairs; the longer list is cut. -/
def pairRecords {R : Type} [KeyValueRecord R] (keys values : List Binary64) : Logged (List R) := do
  if keys.length ≠ values.length then
    Logged.report (.lengthMismatch keys.length values.length)
  return List.zipWith KeyValueRecord.ofKeyValue keys values

namespace Chart

variable {R : Type} [KeyValueRecord R]

/-- Make an edit whose records come from two lists through a series. -/
def editPairs (c : Chart R) (i : Fin c.series.size) (keys values : List Binary64)
    (edit : List R → SeriesEdit R) : Outcome (Chart R) R :=
  let records := pairRecords keys values
  let outcome := c.edit i (edit records.value)
  { outcome with events := records.events ++ outcome.events }

/-- Replace all records of a series by the pairs of two lists. -/
def replacePairs (c : Chart R) (i : Fin c.series.size) (keys values : List Binary64)
    (sorted : Bool) : Outcome (Chart R) R :=
  c.editPairs i keys values fun records => .replace records 0 sorted

/-- Add the pairs of two lists to a series as one batch. -/
def addPairs (c : Chart R) (i : Fin c.series.size) (keys values : List Binary64)
    (sorted : Bool) : Outcome (Chart R) R :=
  c.editPairs i keys values fun records => .addBatch records sorted

end Chart

end PlotSeries
