import PlotSeries.IndexRange
import PlotSeries.Store

/-!
# Queries on a store

What a viewport asks of a store: which records lie in a window of keys, and how
far the keys and values of the records extend.

* `Store.findStart` and `Store.findStop` bound the records of a window of keys,
  with one more record on each side on demand.
* `Store.limitSpan` clamps a span of indices to the records and to a selection.
* `Store.visibleSpan` is the span of records that a window of keys needs.
* `Store.keyExtent` and `Store.valueExtent` are the extents used for scaling axes.
-/

namespace PlotSeries

namespace Store

variable {R : Type}

/-- The indices of all records. -/
def indexRange (s : Store R) : IndexRange := ⟨0, s.size⟩

/-- The part of a span that lies in the selection and belongs to records. -/
def limitSpan (s : Store R) (span selection : IndexRange) : IndexRange :=
  (span.clampTo (selection.clampTo s.indexRange)).ordered

variable [PlotRecord R]

/-- Index of the first record whose key is at least `key`; one less, if possible,
when the record before it is wanted too. -/
def findStart (s : Store R) (key : Binary64) (expanded : Bool) : Nat :=
  if expanded then s.lowerBound key - 1 else s.lowerBound key

/-- One past the index of the last record whose key is at most `key`; one more, if
possible, when the record after it is wanted too. -/
def findStop (s : Store R) (key : Binary64) (expanded : Bool) : Nat :=
  if expanded then min (s.upperBound key + 1) s.size else s.upperBound key

/-- The span between the bounds of a window of keys, never out of order. -/
def keySpan (s : Store R) (keys : Extent) (expanded : Bool) : IndexRange :=
  let start := s.findStart keys.lower expanded
  ⟨start, max (s.findStop keys.upper expanded) start⟩

/-- The part within a selection of the span needed to draw a window of keys: one
record beyond each end is included, so that connecting lines reach the edges.
Where records are not sorted by the key they are drawn at, all are needed. -/
def visibleSpanWithin (s : Store R) (keys : Extent) (selection : IndexRange) : IndexRange :=
  let span := if PlotRecord.sortsByMainKey R then s.keySpan keys true else s.indexRange
  s.limitSpan span selection

/-- The span needed to draw a window of keys. -/
def visibleSpan (s : Store R) (keys : Extent) : IndexRange :=
  s.visibleSpanWithin keys s.indexRange

/-! ## Extents -/

/-- The record is no gap and is drawn at a key of the domain. -/
def qualifies (domain : SignDomain) (r : R) : Bool :=
  !(mainValue r).isNaN && domain.accepts (mainKey r)

/-- The extent of a list of keys, none of them a NaN. -/
def extentOfKeys (keys : List Binary64) : Option Extent :=
  keys.foldl (fun extent key =>
    match extent with
    | none => some (.point key)
    | some e => some ⟨e.lower.smaller key, e.upper.larger key⟩) none

/-- The records in whose part of the order the keys of the domain lie. -/
def domainRecords (s : Store R) (domain : SignDomain) : List R :=
  match domain with
  | .both => s.toList
  | .negative => s.toList.take (s.lowerBound 0)
  | .positive => s.toList.drop (s.upperBound 0)

/-- The extent of the keys that the qualifying records are drawn at, if there are
any. Where the records are sorted by these keys, the first and the last of the
qualifying records bound it. -/
def keyExtent (s : Store R) (domain : SignDomain) : Option Extent :=
  if PlotRecord.sortsByMainKey R then
    let records := s.domainRecords domain
    match records.find? (qualifies domain), records.reverse.find? (qualifies domain) with
    | some first, some last => some ⟨mainKey first, mainKey last⟩
    | _, _ => none
  else extentOfKeys ((s.toList.filter (qualifies domain)).map mainKey)

/-- The least accepted value of a list, the first of those equal as numbers. -/
def leastAccepted (domain : SignDomain) (values : List Binary64) : Option Binary64 :=
  values.foldl (fun least value =>
    if domain.accepts value && least.all (fun current => decide (value < current)) then some value
    else least) none

/-- The greatest accepted value of a list, the first of those equal as numbers. -/
def greatestAccepted (domain : SignDomain) (values : List Binary64) : Option Binary64 :=
  values.foldl (fun greatest value =>
    if domain.accepts value && greatest.all (fun current => decide (current < value)) then
      some value
    else greatest) none

/-- The records drawn at a key of the window, or all of them without a window.
Where the records are sorted by these keys, only the span of the window is
looked at. -/
def recordsIn (s : Store R) (keys : Option Extent) : List R :=
  match keys with
  | none => s.toList
  | some window =>
    let candidates :=
      if PlotRecord.sortsByMainKey R then
        let span := s.keySpan window false
        (s.toList.take span.stop).drop span.start
      else s.toList
    candidates.filter fun r => window.contains (mainKey r)

/-- The extent of the values of the records in a window of keys: from the least
lower bound in the domain to the greatest upper bound in it, if both exist. -/
def valueExtent (s : Store R) (domain : SignDomain) (keys : Option Extent) : Option Extent :=
  let extents := (s.recordsIn keys).map PlotRecord.valueExtent
  match leastAccepted domain (extents.map Extent.lower),
    greatestAccepted domain (extents.map Extent.upper) with
  | some lower, some upper => some ⟨lower, upper⟩
  | _, _ => none

end Store

end PlotSeries
