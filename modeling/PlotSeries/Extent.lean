import PlotSeries.Binary64

/-!
# Extents and sign domains

An `Extent` is a closed interval of numbers. A `SignDomain` restricts a
computation to the numbers of one sign, which is what a logarithmic axis can
show. A NaN is in no extent and in no sign domain.
-/

namespace PlotSeries

/-- The numbers from `lower` to `upper`, both included. An extent with
`upper < lower` holds no number. -/
structure Extent where
  lower : Binary64
  upper : Binary64
  deriving DecidableEq, Inhabited

namespace Extent

/-- The extent between two bounds given in either order. -/
def ofBounds (a b : Binary64) : Extent := if b < a then ⟨b, a⟩ else ⟨a, b⟩

/-- The extent that holds one value. -/
def point (a : Binary64) : Extent := ⟨a, a⟩

/-- The value lies between the bounds, as numbers. -/
def contains (e : Extent) (value : Binary64) : Bool :=
  decide (e.lower ≤ value) && decide (value ≤ e.upper)

end Extent

/-- The part of the number line that a computation looks at: all of it, the
numbers below zero or those above. -/
inductive SignDomain where
  | both
  | negative
  | positive
  deriving DecidableEq

instance : Inhabited SignDomain := ⟨.both⟩

/-- The value belongs to the domain. -/
def SignDomain.accepts (domain : SignDomain) (value : Binary64) : Bool :=
  match domain with
  | .both => !value.isNaN
  | .negative => decide (value < 0)
  | .positive => decide (0 < value)

end PlotSeries
