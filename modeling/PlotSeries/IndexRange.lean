/-!
# Index ranges

Half-open intervals of record indices, used for selections and for spans of
visible records. A range whose bounds are out of order is kept as it is; it
covers no index.

* `IndexRange.inter` is the overlap of two ranges, and the empty range at 0 when
  their bounds miss each other.
* `IndexRange.clampTo` moves a range into another one: the overlap if there is
  one, else the empty range at an end of the other.
* `IndexRange.shifted` moves the bounds by signed offsets between 0 and the
  largest index.
-/

namespace PlotSeries

-- Powers of naturals are core's, whatever instances are in scope.
attribute [instance (high + 1), default_instance (high + 1)] instPowNat

/-- The largest index a range can be given or shifted to. -/
def maxIndex : Nat := 2 ^ 64 - 1

/-- The indices from `start` up to, and without, `stop`. -/
structure IndexRange where
  start : Nat
  stop : Nat
  deriving DecidableEq

namespace IndexRange

def empty : IndexRange := ⟨0, 0⟩

instance : Inhabited IndexRange := ⟨empty⟩

def size (a : IndexRange) : Nat := a.stop - a.start

def isEmpty (a : IndexRange) : Bool := a.size == 0

def isOrdered (a : IndexRange) : Bool := decide (a.start ≤ a.stop)

/-- The bounds of `b` lie between those of `a`. -/
def encloses (a b : IndexRange) : Bool := decide (a.start ≤ b.start) && decide (b.stop ≤ a.stop)

/-- The two ranges share an index. -/
def meets (a b : IndexRange) : Bool :=
  !a.isEmpty && !b.isEmpty && decide (a.start < b.stop) && decide (b.start < a.stop)

/-- Overlap of two ranges; the empty range at 0 when it would be out of order. -/
def inter (a b : IndexRange) : IndexRange :=
  let overlap : IndexRange := ⟨max a.start b.start, min a.stop b.stop⟩
  if overlap.isOrdered then overlap else empty

/-- The part of `a` inside `b`. Without one, the empty range at the start of `b`
if `a` stops at or before it, and at the stop of `b` otherwise. -/
def clampTo (a b : IndexRange) : IndexRange :=
  let overlap := a.inter b
  if !overlap.isEmpty then overlap
  else if a.stop ≤ b.start then ⟨b.start, b.start⟩
  else ⟨b.stop, b.stop⟩

/-- An index moved by a signed offset, held between 0 and the largest index. -/
def shiftIndex (i : Nat) (offset : Int) : Nat := min (i + offset).toNat maxIndex

def shifted (a : IndexRange) (startOffset stopOffset : Int) : IndexRange :=
  ⟨shiftIndex a.start startOffset, shiftIndex a.stop stopOffset⟩

/-- The range with its stop raised to its start if it lies below. -/
def ordered (a : IndexRange) : IndexRange := ⟨a.start, max a.stop a.start⟩

end IndexRange

end PlotSeries
