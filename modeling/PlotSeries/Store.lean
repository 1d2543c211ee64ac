import PlotSeries.Buffer
import PlotSeries.Event
import PlotSeries.Run

/-!
# Stores of plot records

A `Store` keeps records in key order in a buffer, so that records can be added at
either end without moving the others, and gives unused slots back as its policy
decides.

Every operation leaves the records in key order, records with equal keys in the
order they came in, provided that batches declared sorted are sorted. A batch
that is not is kept as it was declared; the searches and the merge are then still
determined, since they never look at more than the keys they probe.

* `Store.add` and `Store.addBatch` put records in their places.
* `Store.removeUpTo`, `removeFrom`, `removeBetween` and `removeKey` drop records
  by key and may then squeeze.
* `Store.write` overwrites a record where it stands; `Store.edit` overwrites
  several and sorts.
-/

namespace PlotSeries

/-- Records in key order, and the policy by which unused slots are given back. -/
structure Store (R : Type) where
  /-- The records and the unused slots around them. -/
  buffer : Buffer R := .empty
  /-- When unused slots are given back. -/
  policy : SqueezePolicy := {}

namespace Store

variable {R : Type}

/-- A new store with the standard policy. -/
def empty : Store R := {}

instance : Inhabited (Store R) := ⟨empty⟩

/-! ## Contents and allocation -/

/-- The records, in order. -/
def toList (s : Store R) : List R := s.buffer.toList

/-- Number of records. -/
def size (s : Store R) : Nat := s.buffer.size

/-- The store holds no record. -/
def isEmpty (s : Store R) : Bool := s.size == 0

/-- The record at an index, if there is one. -/
def get? (s : Store R) (i : Nat) : Option R := s.buffer.get? i

/-- The record with the smallest key, if any. -/
def first? (s : Store R) : Option R := s.buffer.first?

/-- The record with the largest key, if any. -/
def last? (s : Store R) : Option R := s.buffer.last?

/-- The record at an index that has to be in use. -/
def recordAt (s : Store R) (i : Nat) : Except Fault R :=
  if h : i < s.buffer.size then .ok s.buffer[i] else .error (.indexOutOfBounds i s.size)

/-- How the allocation of the store is split up. -/
def stats (s : Store R) : AllocationStats :=
  { total := s.buffer.capacity, live := s.size, pool := s.buffer.pool }

/-! ## Giving unused slots back -/

/-- Give back the parts asked for. -/
def squeeze (s : Store R) (request : SqueezeRequest) : Logged (Store R) := do
  let b := if request.pool then s.buffer.releasePool else s.buffer
  let b := if request.tail then b.releaseSpare else b
  Logged.report (.squeezed request b.capacity)
  return { s with buffer := b }

/-- Give back what the policy asks for, if it is enabled. -/
def autoSqueeze (s : Store R) : Logged (Store R) :=
  if s.policy.enabled then
    let request := s.policy.evaluate s.stats
    if request.any then do
      Logged.report (.squeezeDue s.stats request)
      s.squeeze request
    else pure s
  else pure s

/-- Change the policy. -/
def setPolicy (s : Store R) (policy : SqueezePolicy) : Store R := { s with policy }

/-- Enable or disable automatic squeezing; enabling it squeezes at once if due. -/
def setAutoSqueeze (s : Store R) (enabled : Bool) : Logged (Store R) :=
  if s.policy.enabled = enabled then pure s
  else
    let s := { s with policy.enabled := enabled }
    if enabled then s.autoSqueeze else pure s

/-- The same store in an allocation of its own. -/
def copy (s : Store R) : Store R := { s with buffer := s.buffer.copy }

/-- Drop all records; the allocation stays. -/
def clear (s : Store R) : Store R := { s with buffer := s.buffer.clear }

/-! ## Overwriting records -/

/-- Overwrite the record at an index in use, and leave the order as it is. -/
def set (s : Store R) (i : Nat) (record : R) (h : i < s.buffer.size) : Store R :=
  { s with buffer := s.buffer.set i record h }

/-- Overwrite the record at an index that has to be in use. -/
def write (s : Store R) (i : Nat) (record : R) : Except Fault (Store R) :=
  if h : i < s.buffer.size then .ok (s.set i record h) else .error (.indexOutOfBounds i s.size)

/-- The store after the writes before the first one out of bounds, and the fault
of that one, if any. -/
def writeAll (s : Store R) : List (Nat × R) → Store R × Option Fault
  | [] => (s, none)
  | (i, record) :: rest =>
    if h : i < s.buffer.size then (s.set i record h).writeAll rest
    else (s, some (.indexOutOfBounds i s.size))

/-! ## Places of keys -/

variable [PlotRecord R]

/-- Index of the first record whose key is not less than `key`. -/
def lowerBound (s : Store R) (key : Binary64) : Nat :=
  PlotSeries.lowerBound s.buffer.size (fun i => sortKey s.buffer[i]) key

/-- Index of the first record whose key is greater than `key`. -/
def upperBound (s : Store R) (key : Binary64) : Nat :=
  PlotSeries.upperBound s.buffer.size (fun i => sortKey s.buffer[i]) key

theorem lowerBound_le_size (s : Store R) (key : Binary64) : s.lowerBound key ≤ s.buffer.size :=
  lowerBound_le _ _ _

theorem upperBound_le_size (s : Store R) (key : Binary64) : s.upperBound key ≤ s.buffer.size :=
  upperBound_le _ _ _

/-- A record found by a key is one of at least one. -/
theorem one_le_size (s : Store R) (key : Binary64) (h : s.lowerBound key < s.buffer.size) :
    1 ≤ s.buffer.size :=
  Nat.lt_of_le_of_lt (Nat.zero_le _) h

/-! ## Replacing all records -/

/-- The records as given if they are declared sorted, else sorted by key. -/
def inOrder (records : List R) (sorted : Bool) : List R :=
  if sorted then records else sortByKey records

/-- Replace all records by a list that comes in an allocation of its own, with
`spare` slots behind it. -/
def replace (s : Store R) (records : List R) (spare : Nat) (sorted : Bool) : Store R :=
  { s with buffer := .ofList (inOrder records sorted) spare }

/-- A store of the given records with the standard policy. -/
def ofList (records : List R) : Store R := empty.replace records 0 false

/-- Restore the order of the records. -/
def sort (s : Store R) : Store R := { s with buffer := s.buffer.setAll (sortByKey s.toList) }

/-! ## Adding records -/

/-- Add records in front of all others, growing the pool if it is too short. -/
def prepend (s : Store R) (records : List R) : Logged (Store R) :=
  if records.length ≤ s.buffer.pool then
    pure { s with buffer := s.buffer.prepend records }
  else do
    let b := s.buffer.growPool (PlotRecord.ofSortKey 0) records.length
    Logged.report (.grewPool b.pool b.growths)
    return { s with buffer := b.prepend records }

/-- Add one record after the records whose key is not greater. -/
def add (s : Store R) (record : R) : Logged (Store R) :=
  match s.first?, s.last? with
  | some first, some last =>
    if !keyLess (sortKey record) (sortKey last) then
      pure { s with buffer := s.buffer.push record }
    else if keyLess (sortKey record) (sortKey first) then s.prepend [record]
    else
      let i := s.upperBound (sortKey record)
      pure { s with buffer := s.buffer.insert i record (s.upperBound_le_size _) }
  | _, _ => pure { s with buffer := s.buffer.push record }

/-- Add records behind all others, and merge the two runs if they overlap. -/
def appendRun (s : Store R) (records : List R) : Store R :=
  let mid := s.size
  let overlap :=
    match records.head?, s.last? with
    | some head, some last => keyLess (sortKey head) (sortKey last)
    | _, _ => false
  let b := s.buffer.append records
  { s with buffer := if overlap then b.setAll (mergeRuns b.toList mid) else b }

/-- Add a batch of records after the records whose keys are not greater. A batch
for an empty store becomes its allocation. A sorted batch below all records is
added in front of them, and any other batch behind them. -/
def addBatch (s : Store R) (records : List R) (sorted : Bool) : Logged (Store R) :=
  match records.getLast? with
  | none => pure s
  | some batchLast =>
    match s.first? with
    | none => pure (s.replace records 0 sorted)
    | some first =>
      if sorted && keyLess (sortKey batchLast) (sortKey first) then s.prepend records
      else pure (s.appendRun (inOrder records sorted))

/-- Replace all records by a batch. -/
def replaceCopy (s : Store R) (records : List R) (sorted : Bool) : Logged (Store R) :=
  s.clear.addBatch records sorted

/-! ## Removing records -/

/-- Drop the records whose key is at most `key`. Their slots join the pool. -/
def removeUpTo (s : Store R) (key : Binary64) : Logged (Store R) :=
  let count := s.upperBound key
  autoSqueeze { s with buffer := s.buffer.dropFirst count (s.upperBound_le_size key) }

/-- Drop the records whose key is at least `key`. -/
def removeFrom (s : Store R) (key : Binary64) : Logged (Store R) :=
  let count := s.lowerBound key
  autoSqueeze { s with buffer := s.buffer.truncate count }

/-- Drop the records whose key lies between `lower` and `upper`, both included.
Nothing happens unless `lower` is less than `upper` as a number. Bounds that are
found out of order are a fault. -/
def removeBetween (s : Store R) (lower upper : Binary64) : Except Fault (Logged (Store R)) :=
  if s.isEmpty || !decide (lower < upper) then .ok (pure s)
  else
    let start := s.lowerBound lower
    let stop := s.upperBound upper
    if start ≤ stop then .ok (autoSqueeze { s with buffer := s.buffer.eraseSpan start stop })
    else .error (.spanOutOfOrder start stop)

/-- Drop the first record whose key equals `key` as a number, if there is one. A
first record is dropped by turning its slot into pool. -/
def removeKey (s : Store R) (key : Binary64) : Logged (Store R) :=
  let i := s.lowerBound key
  autoSqueeze <|
    if h : i < s.buffer.size then
      if (sortKey s.buffer[i]).numEq key then
        if i = 0 then { s with buffer := s.buffer.dropFirst 1 (s.one_le_size key h) }
        else { s with buffer := s.buffer.eraseSpan i (i + 1) }
      else s
    else s

end Store

end PlotSeries
