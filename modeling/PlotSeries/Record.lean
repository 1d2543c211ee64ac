import PlotSeries.Extent

/-!
# Plot records

What the store needs to know of a record: the key it is sorted by, the key and
value it is drawn at, and its extent on the value axis. Records are small values
of doubles, one per column.

* `PlotRecord` is the contract of a stored record.
* `KeyValueRecord` adds a constructor from one key and one value.
* `Columns` converts a record to its row of values and back.
-/

namespace PlotSeries

/-- A record that a store can hold. -/
class PlotRecord (R : Type) where
  sortKey : R → Binary64
  /-- The record with this sort key and zero in every other column. -/
  ofSortKey : Binary64 → R
  /-- The key the record is drawn at. -/
  mainKey : R → Binary64
  /-- The value that represents the record; a NaN marks a gap. -/
  mainValue : R → Binary64
  valueExtent : R → Extent
  sortsByMainKey : Bool
  mainKey_eq_sortKey : sortsByMainKey = true → ∀ r, mainKey r = sortKey r

export PlotRecord (sortKey mainKey mainValue)

/-- A record that one key and one value determine. -/
class KeyValueRecord (R : Type) extends PlotRecord R where
  ofKeyValue : Binary64 → Binary64 → R

/-- A record type whose values are rows of columns. -/
class Columns (R : Type) where
  row : R → List Binary64
  /-- The record of a row of the right length. -/
  ofRow? : List Binary64 → Option R

/-- Two records are equal as numbers in every column. -/
def Columns.agree {R : Type} [Columns R] (a b : R) : Bool :=
  ((row a).zip (row b)).all fun (x, y) => x.numEq y

end PlotSeries
