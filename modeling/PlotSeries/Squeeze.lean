import PlotSeries.Binary64.Rounding

/-!
# When to give unused slots back

After a removal a policy looks at how an allocation is split up and decides which
of its unused parts have become too large: the pool in front of the live
elements, the tail behind them, both or neither.

Allocations are judged by one of two pairs of thresholds, depending on their
size, and small ones are left alone. The thresholds are doubles, so the counts
are rounded to doubles before they are compared.
-/

namespace PlotSeries

/-- How the slots of an allocation are split up. -/
structure AllocationStats where
  total : Nat
  live : Nat
  pool : Nat
  deriving DecidableEq, Inhabited

/-- Unused slots behind the live elements. -/
def AllocationStats.tail (stats : AllocationStats) : Nat := stats.total - stats.live - stats.pool

/-- Which unused slots to give back. -/
structure SqueezeRequest where
  pool : Bool := false
  tail : Bool := false
  deriving DecidableEq, Inhabited

def SqueezeRequest.any (request : SqueezeRequest) : Bool := request.pool || request.tail

/-- The thresholds of automatic squeezing. A tail or a pool may be as many times as long as
the live part as its factor says. -/
structure SqueezePolicy where
  enabled : Bool := true
  /-- Allocations of at most this many slots are left alone. -/
  minAllocation : Nat := 1000
  /-- Allocations of more than this many slots are large. -/
  largeAllocation : Nat := 650000
  smallTailFactor : Binary64 := .ofNat 5
  smallPoolFactor : Binary64 := .nearest false 3 (-1)
  largeTailFactor : Binary64 := .nearest false 3 (-1)
  /-- The pool of a large allocation, this many times over, may be as long as the live part. -/
  largePoolDivisor : Binary64 := .ofNat 10
  deriving DecidableEq

namespace SqueezePolicy

/-- The policy of a new store. -/
def standard : SqueezePolicy := {}

instance : Inhabited SqueezePolicy := ⟨standard⟩

/-- The policy that leaves every allocation alone. -/
def disabled : SqueezePolicy := { enabled := false }

/-- The parts of an allocation that the thresholds find too large, whether or not
the policy is enabled. -/
def evaluate (policy : SqueezePolicy) (stats : AllocationStats) : SqueezeRequest :=
  let live := Binary64.ofNat stats.live
  let pool := Binary64.ofNat stats.pool
  let tail := Binary64.ofNat stats.tail
  if policy.largeAllocation < stats.total then
    { pool := decide (live < pool * policy.largePoolDivisor)
      tail := decide (live * policy.largeTailFactor < tail) }
  else if policy.minAllocation < stats.total then
    { pool := decide (live * policy.smallPoolFactor < pool)
      tail := decide (live * policy.smallTailFactor < tail) }
  else {}

end SqueezePolicy

end PlotSeries
