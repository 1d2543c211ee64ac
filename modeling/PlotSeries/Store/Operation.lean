import PlotSeries.Store

/-!
# Operations on a store

Everything that can be done to a store, as values of one type, so that a run of
operations is a list.

* `Outcome` is what an operation leaves behind: the new state, what was reported,
  and the fault if it was not carried out, or not to its end.
* `Operation.apply` carries out one operation, `Operation.run` a list of them.
-/

namespace PlotSeries

/-- What an operation on a state leaves behind. -/
structure Outcome (S R : Type) where
  /-- The new state. -/
  state : S
  /-- What was reported, in order. -/
  events : List Event := []
  /-- Why the operation was not carried out to its end, if so. -/
  fault : Option Fault := none
  /-- The records as an edit saw them before the order was restored. -/
  seen : Option (List R) := none

namespace Outcome

variable {S T R : Type}

/-- The outcome of a logged result. -/
def ofLogged (result : Logged S) : Outcome S R :=
  { state := result.value, events := result.events }

/-- The outcome of a logged result, or of a fault that changed nothing. -/
def ofExcept (before : S) : Except Fault (Logged S) → Outcome S R
  | .ok result => ofLogged result
  | .error fault => { state := before, fault := some fault }

/-- The outcome with its state put into another one. -/
def mapState (f : S → T) (o : Outcome S R) : Outcome T R :=
  { state := f o.state, events := o.events, fault := o.fault, seen := o.seen }

end Outcome

/-- An operation on a store. Each is named for the function of `Store` that
carries it out; `collect` and `reset` go on with a new store, `copy` with a copy. -/
inductive Operation (R : Type) where
  | replace (records : List R) (spare : Nat) (sorted : Bool)
  | replaceCopy (records : List R) (sorted : Bool)
  | addBatch (records : List R) (sorted : Bool)
  | add (record : R)
  | removeUpTo (key : Binary64)
  | removeFrom (key : Binary64)
  | removeBetween (lower upper : Binary64)
  | removeKey (key : Binary64)
  | clear
  | sort
  | squeeze (request : SqueezeRequest)
  | write (index : Nat) (record : R)
  | edit (writes : List (Nat × R))
  | setAutoSqueeze (enabled : Bool)
  | setPolicy (policy : SqueezePolicy)
  | collect (records : List R)
  | copy
  | reset

/-- Overwrite records one after the other, up to the first one out of bounds, and
restore the order in any case. The records are seen before that unless a write
was out of bounds. -/
def Store.edit {R : Type} [PlotRecord R] (s : Store R) (writes : List (Nat × R)) :
    Outcome (Store R) R :=
  let (written, fault) := s.writeAll writes
  let seen := if fault.isNone then some written.toList else none
  { state := written.sort, fault, seen }

namespace Operation

variable {R : Type} [PlotRecord R]

/-- Carry out an operation. -/
def apply (op : Operation R) (s : Store R) : Outcome (Store R) R :=
  match op with
  | replace records spare sorted => { state := s.replace records spare sorted }
  | replaceCopy records sorted => .ofLogged (s.replaceCopy records sorted)
  | addBatch records sorted => .ofLogged (s.addBatch records sorted)
  | add record => .ofLogged (s.add record)
  | removeUpTo key => .ofLogged (s.removeUpTo key)
  | removeFrom key => .ofLogged (s.removeFrom key)
  | removeBetween lower upper => .ofExcept s (s.removeBetween lower upper)
  | removeKey key => .ofLogged (s.removeKey key)
  | clear => { state := s.clear }
  | sort => { state := s.sort }
  | squeeze request => .ofLogged (s.squeeze request)
  | write index record => .ofExcept s ((s.write index record).map pure)
  | edit writes => s.edit writes
  | setAutoSqueeze enabled => .ofLogged (s.setAutoSqueeze enabled)
  | setPolicy policy => { state := s.setPolicy policy }
  | collect records => { state := .ofList records }
  | copy => { state := s.copy }
  | reset => { state := .empty }

/-- Carry out operations one after the other, going on after a fault. The outcome
has the first fault and what the last edit saw. -/
def run (ops : List (Operation R)) (s : Store R) : Outcome (Store R) R :=
  ops.foldl (fun before op =>
    let after := op.apply before.state
    { state := after.state
      events := before.events ++ after.events
      fault := before.fault.or after.fault
      seen := after.seen.or before.seen }) { state := s }

end Operation

end PlotSeries
