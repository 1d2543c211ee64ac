import PlotSeries.Squeeze

/-!
# Events

What the library reports while it works: growths of a pool, squeezes, the
decisions behind automatic squeezes, and arrays of unequal length. An event is a
value; its level and its message are functions of it.

* `Logged` is a result together with the events that led to it, in order.
* `Fault` is the cause of an operation that could not be carried out.
-/

namespace PlotSeries

/-- How much attention an event asks for. -/
inductive Level where
  | warn
  | debug
  | trace
  deriving DecidableEq

/-- The name of a level. -/
def Level.name : Level → String
  | .warn => "WARN"
  | .debug => "DEBUG"
  | .trace => "TRACE"

/-- Something worth reporting. -/
inductive Event where
  /-- A pool grew to this size, for this many times. -/
  | grewPool (size growths : Nat)
  /-- A squeeze of these parts left this many slots allocated. -/
  | squeezed (request : SqueezeRequest) (capacity : Nat)
  /-- The policy asked for a squeeze of this allocation. -/
  | squeezeDue (stats : AllocationStats) (request : SqueezeRequest)
  /-- As many keys met a different number of values. -/
  | lengthMismatch (keys values : Nat)
  deriving DecidableEq

namespace Event

/-- The level of an event. -/
def level : Event → Level
  | grewPool .. => .trace
  | squeezed .. => .trace
  | squeezeDue .. => .debug
  | lengthMismatch .. => .warn

/-- The message of an event. -/
def message : Event → String
  | grewPool size growths =>
    "grew pre-allocation to " ++ toString size ++ " (iteration " ++ toString growths ++ ")"
  | squeezed request capacity =>
    "squeezed store: pre=" ++ toString request.pool ++ " post=" ++ toString request.tail ++
      " capacity=" ++ toString capacity
  | squeezeDue stats request =>
    "auto-squeeze: total=" ++ toString stats.total ++ " live=" ++ toString stats.live ++
      " pre=" ++ toString stats.pool ++ " post=" ++ toString stats.tail ++
      " -> SqueezeRequest \x7b pre_allocation: " ++ toString request.pool ++
      ", post_allocation: " ++ toString request.tail ++ " \x7d"
  | lengthMismatch keys values =>
    "keys and values differ in length (" ++ toString keys ++ " vs " ++ toString values ++
      "), truncating"

end Event

/-- A result and the events that led to it, in order. -/
structure Logged (α : Type) where
  /-- The result. -/
  value : α
  /-- What was reported. -/
  events : List Event := []

namespace Logged

instance : Monad Logged where
  pure a := { value := a }
  bind x f :=
    let y := f x.value
    { value := y.value, events := x.events ++ y.events }

/-- Report one event. -/
def report (event : Event) : Logged Unit := { value := (), events := [event] }

@[simp] theorem value_pure {α : Type} (a : α) : (pure a : Logged α).value = a := rfl

@[simp] theorem events_pure {α : Type} (a : α) : (pure a : Logged α).events = [] := rfl

@[simp] theorem value_bind {α β : Type} (x : Logged α) (f : α → Logged β) :
    (x >>= f).value = (f x.value).value := rfl

@[simp] theorem events_bind {α β : Type} (x : Logged α) (f : α → Logged β) :
    (x >>= f).events = x.events ++ (f x.value).events := rfl

@[simp] theorem value_report (event : Event) : (report event).value = () := rfl

@[simp] theorem events_report (event : Event) : (report event).events = [event] := rfl

end Logged

/-- Why an operation was not carried out. -/
inductive Fault where
  /-- The index is not below the number of records. -/
  | indexOutOfBounds (index size : Nat)
  /-- The bounds found for a span of records are out of order. -/
  | spanOutOfOrder (start stop : Nat)
  deriving DecidableEq

end PlotSeries
