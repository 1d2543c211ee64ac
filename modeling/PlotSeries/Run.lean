import PlotSeries.KeyBounds
import PlotSeries.Record

/-!
# Runs of records

Lists of records in key order, and how two of them become one.

* `sortByKey` sorts a list; records with equal keys keep their order.
* `mergeRuns` merges the two runs that a list consists of. Only the part where
  the two overlap is merged, and of two records with equal keys the one of the
  first run comes first.
-/

namespace PlotSeries

variable {R : Type} [PlotRecord R]

/-- The first record does not come after the second. -/
def recordLe (a b : R) : Bool := keyLe (sortKey a) (sortKey b)

/-- Index of the first record of a run whose key is not less than `target`. -/
def runLowerBound (run : List R) (target : Binary64) : Nat :=
  lowerBound run.length (fun i => sortKey run[i]) target

/-- Index of the first record of a run whose key is greater than `target`. -/
def runUpperBound (run : List R) (target : Binary64) : Nat :=
  upperBound run.length (fun i => sortKey run[i]) target

/-- Stable sort by key. -/
def sortByKey (records : List R) : List R := records.mergeSort recordLe

/-- Merge the run of the first `mid` records with the run of the others. -/
def mergeRuns (records : List R) (mid : Nat) : List R :=
  let first := records.take mid
  let second := records.drop mid
  match first.getLast?, second.head? with
  | some last, some head =>
    let start := runUpperBound first (sortKey head)
    let stop := runLowerBound second (sortKey last)
    if start = mid ∨ stop = 0 then records
    else
      first.take start ++ (first.drop start).merge (second.take stop) recordLe ++
        second.drop stop
  | _, _ => records

end PlotSeries
