import PlotSeries.Proofs.Bounds
import PlotSeries.Proofs.Checked.Sharing
import PlotSeries.Record.Kinds

/-!
# When a store panics

A `Call` uses a store that series share: an operation, a question, or an edit made
through a series. Calls are carried out one after the other, whether or not some of
them panic (`Call.after`). `panic_freedom` gives the panic of every call in every
state that calls can lead to, batches wrongly declared sorted and writes out of
order included:

* an index that is not in use panics, and
* nothing else does: no subtraction goes below zero, no span leaves its row, and no
  sort meets an inconsistent order.

Each call gives back the store it borrows before the next one begins, so none of them
finds it borrowed. A user can also hold on to what a series lends out, and then use the
series again. That a borrow lasts from one call to the next is not described here, nor
is the panic `alreadyBorrowed` that such a use ends in.

Removing a window of keys would panic if the search for its start ended behind the
search for its end. That never happens, in records in any order
(`runLowerBound_le_runUpperBound`).
-/

namespace PlotSeries

open Checked

/-! ## Calls -/

/-- A use of a store that series share, over when it returns or panics. -/
inductive Call (R : Type) where
  | operate (op : Operation R)
  | ask (q : Question)
  | stats
  | edit (series : Nat) (e : SeriesEdit R)
  | editPairs (series : Nat) (make : Binary64 → Binary64 → R) (keys values : List Binary64)
      (replacing sorted : Bool)

/-- What a call returns. -/
inductive Reply (R : Type) where
  /-- The call is done; an edit saw these records. -/
  | done (seen : Option (List R))
  | answer (answer : Answer R)
  | stats (stats : AllocationStats)

namespace Call

variable {R : Type}

/-- The operation that a call carries out. -/
def operation? : Call R → Option (Operation R)
  | operate op => some op
  | ask _ => none
  | stats => none
  | edit _ e => some e.operation
  | editPairs _ make keys values replacing sorted =>
    some (pairsEdit replacing (List.zipWith make keys values) sorted).operation

variable [PlotRecord R]

/-- The program of a call. -/
def program : Call R → Program (Shared R) (Reply R)
  | operate op => do return .done (← writing op.program)
  | ask q => do return .answer (← reading q.program)
  | stats => do return .stats (← reading Checked.stats)
  | edit series e => do
    editThrough series e
    return .done none
  | editPairs series make keys values replacing sorted => do
    Checked.editPairs series make keys values replacing sorted
    return .done none

end Call

namespace Checked

variable {R : Type}

/-- A new store that nobody has borrowed. -/
def Shared.new (policy : SqueezePolicy) : Shared R :=
  { memory := .of { policy } [], borrows := 0, generations := fun _ => 0 }

end Checked

variable {R : Type} [PlotRecord R]

/-- The state after calls, going on after panics. -/
def Call.after (calls : List (Call R)) (x : Shared R) : Shared R :=
  calls.foldl (fun x call => final (call.program.run x)) x

/-! ## The panics of operations -/

/-- The panic of an operation on records behind `pool` unused slots. -/
def Operation.panic? (l : List R) (pool : Nat) : Operation R → Option Panic
  | write index _ => if index < l.length then none else some (.indexOutOfBounds index l.length)
  | edit writes =>
    (writes.find? fun w => decide (l.length ≤ w.1)).map fun w => .indexOutOfBounds w.1 l.length
  | removeBetween lower upper =>
    let start := runLowerBound l lower
    let stop := runUpperBound l upper
    if l ≠ [] ∧ lower < upper ∧ stop < start then
      some (.spanOutOfOrder (pool + start) (pool + stop))
    else none
  | _ => none

/-- The panic of a call on records behind `pool` unused slots. -/
def Call.panic? (l : List R) (pool : Nat) (call : Call R) : Option Panic :=
  match call with
  | .ask (.recordAt index) =>
    if index < l.length then none else some (.indexOutOfBounds index l.length)
  | _ => call.operation?.bind (Operation.panic? l pool)

theorem Operation.fault_onList (op : Operation R) (l : List R) (pool : Nat) :
    (op.onList l).fault.map (Fault.panic pool) = op.panic? l pool := by
  cases op with
  | write index record =>
    rw [onList, Operation.panic?]
    split <;> rfl
  | edit writes =>
    rw [onList, Operation.panic?]
    dsimp only
    rw [writeAllTo_fault, Option.map_map]
    rfl
  | removeBetween lower upper =>
    rw [onList, Operation.panic?]
    dsimp only
    by_cases hl : l = []
    · rw [if_pos (by simp [hl]), if_neg (fun h => h.1 hl)]
      rfl
    by_cases hlt : lower < upper
    · rw [if_neg (by simp [hl, hlt])]
      by_cases hle : runLowerBound l lower ≤ runUpperBound l upper
      · rw [if_pos hle, if_neg (fun h => by omega)]
        rfl
      · rw [if_neg hle, if_pos ⟨hl, hlt, Nat.lt_of_not_le hle⟩]
        rfl
    · rw [if_pos (by simp [hlt]), if_neg (fun h => hlt h.2.1)]
      rfl
  | _ => rfl

theorem Operation.fault_apply (op : Operation R) (s : Store R) :
    (op.apply s).fault.map (Fault.panic s.buffer.pool) = op.panic? s.toList s.buffer.pool := by
  have hfault : (op.apply s).fault = (op.onList s.toList).fault :=
    congrArg Outcome.fault (op.contents_apply s)
  rw [hfault, fault_onList]

/-- An operation that is at fault has changed nothing, unless it is an edit. -/
theorem Operation.unchanged_of_fault {op : Operation R} (hop : ∀ writes, op ≠ .edit writes)
    {s : Store R} {fault : Fault} (h : (op.apply s).fault = some fault) :
    (op.apply s).state = s ∧ (op.apply s).events = [] := by
  have hexcept {result : Except Fault (Logged (Store R))}
      (h : (Outcome.ofExcept s result : Outcome (Store R) R).fault = some fault) :
      (Outcome.ofExcept s result : Outcome (Store R) R).state = s ∧
        (Outcome.ofExcept s result : Outcome (Store R) R).events = [] := by
    cases result with
    | ok result => cases h
    | error fault => exact ⟨rfl, rfl⟩
  cases op with
  | removeBetween lower upper => exact hexcept h
  | write index record => exact hexcept h
  | edit writes => exact absurd rfl (hop writes)
  | _ => cases h

/-- The records between two keys can always be removed. -/
theorem panic?_removeBetween (l : List R) (pool : Nat) (lower upper : Binary64) :
    (Operation.removeBetween lower upper).panic? l pool = none := by
  rw [Operation.panic?]
  refine if_neg fun ⟨_, hlt, hcross⟩ => ?_
  have hle := runLowerBound_le_runUpperBound l (Int.le_of_lt hlt.2.2)
  omega

theorem panic?_seriesEdit (l : List R) (pool : Nat) (e : SeriesEdit R) :
    e.operation.panic? l pool = none := by
  cases e with
  | removeBetween lower upper => exact panic?_removeBetween l pool lower upper
  | _ => rfl

omit [PlotRecord R] in
theorem indexOutOfBounds_of_find? {l : List R} {writes : List (Nat × R)} {e : Panic}
    (h : ((writes.find? fun w => decide (l.length ≤ w.1)).map fun w =>
      Panic.indexOutOfBounds w.1 l.length) = some e) :
    ∃ index, l.length ≤ index ∧ e = .indexOutOfBounds index l.length := by
  obtain ⟨w, hw, rfl⟩ := Option.map_eq_some_iff.1 h
  have hge := List.find?_some hw
  exact ⟨w.1, of_decide_eq_true hge, rfl⟩

omit [PlotRecord R] in
theorem indexOutOfBounds_of_ite {l : List R} {index : Nat} {e : Panic}
    (h : (if index < l.length then none else some (Panic.indexOutOfBounds index l.length)) = some e) :
    ∃ index, l.length ≤ index ∧ e = .indexOutOfBounds index l.length := by
  split at h
  · cases h
  next hge => exact ⟨index, Nat.le_of_not_lt hge, (Option.some.inj h).symm⟩

theorem Call.panic?_of_operation? {call : Call R} {op : Operation R} (h : call.operation? = some op)
    (l : List R) (pool : Nat) : call.panic? l pool = op.panic? l pool := by
  have hbind : call.panic? l pool = call.operation?.bind (Operation.panic? l pool) := by
    cases call with
    | ask q => cases h
    | _ => rfl
  rw [hbind, h]
  rfl

/-- No call panics but for an index that is not in use. -/
theorem Call.indexOutOfBounds_of_panic? {call : Call R} {l : List R} {pool : Nat} {e : Panic}
    (h : call.panic? l pool = some e) :
    ∃ index, l.length ≤ index ∧ e = .indexOutOfBounds index l.length := by
  cases call with
  | operate op =>
    rw [panic?_of_operation? rfl] at h
    cases op with
    | write index record => exact indexOutOfBounds_of_ite h
    | edit writes => exact indexOutOfBounds_of_find? h
    | removeBetween lower upper =>
      rw [panic?_removeBetween] at h
      cases h
    | _ => cases h
  | ask q =>
    cases q with
    | recordAt index => exact indexOutOfBounds_of_ite h
    | _ => cases h
  | stats => cases h
  | edit | editPairs =>
    rw [panic?_of_operation? rfl, panic?_seriesEdit] at h
    cases h

/-! ## Steps -/

/-- The store that a call leaves. -/
def Call.next (call : Call R) (s : Store R) : Store R :=
  match call.operation? with
  | some op => (op.apply s).state
  | none => s

/-- What a call does to the memory of a store that nobody has borrowed. -/
structure Call.Step (call : Call R) (s : Store R) (x y : Shared R) (panic : Option Panic) : Prop where
  /-- The memory is that of the store that the call leaves, and the store is given back. -/
  given_back : ∃ log generations, y = ⟨.of (call.next s) log, 0, generations⟩
  /-- The call panics where it has to, and only there. -/
  panic_eq : panic = call.panic? s.toList s.buffer.pool
  /-- A call that panics has changed nothing, unless it is an edit. -/
  unchanged : panic ≠ none → (∀ writes, call ≠ .operate (.edit writes)) → y = x

/-- A call that ends with the memory of the store it leaves, and need not panic. -/
theorem Call.Step.of_ok {call : Call R} {s : Store R} {x : Shared R} {reply : Reply R}
    {log : List Event} {generations : Nat → UInt64}
    (hrun : call.program.run x = .ok reply ⟨.of (call.next s) log, 0, generations⟩)
    (hpanic : call.panic? s.toList s.buffer.pool = none) :
    call.Step s x (final (call.program.run x)) (Checked.panic? (call.program.run x)) := by
  rw [hrun]
  exact ⟨⟨log, generations, rfl⟩, hpanic.symm, fun h => absurd rfl h⟩

theorem Call.step_operate (op : Operation R) (s : Store R) (log : List Event)
    (generations : Nat → UInt64) :
    let x : Shared R := ⟨.of s log, 0, generations⟩
    let result := (Call.operate op).program.run x
    (Call.operate op).Step s x (final result) (Checked.panic? result) := by
  intro x result
  have hwriting := writing_program op s log generations
  have hpanic := op.fault_apply s
  dsimp only at hwriting
  cases hfault : (op.apply s).fault with
  | none =>
    rw [hfault] at hwriting hpanic
    exact .of_ok (bind_ok hwriting _) hpanic.symm
  | some fault =>
    rw [hfault] at hwriting hpanic
    have hresult : result = .error (fault.panic s.buffer.pool)
        ⟨.of (op.apply s).state (log ++ (op.apply s).events), 0, generations⟩ :=
      bind_error hwriting _
    rw [hresult]
    refine ⟨⟨_, _, rfl⟩, hpanic, fun _ hop => ?_⟩
    obtain ⟨hstate, hevents⟩ :=
      op.unchanged_of_fault (fun w h => hop w (congrArg Call.operate h)) hfault
    rw [final, hstate, hevents, List.append_nil]

theorem Question.fault_answer (q : Question) (s : Store R) :
    (match q.answer s with
      | .ok _ => none
      | .error fault => some (fault.panic s.buffer.pool)) =
      (Call.ask q : Call R).panic? s.toList s.buffer.pool := by
  cases q with
  | recordAt index =>
    rw [answer, Store.recordAt_eq, Call.panic?]
    by_cases h : index < s.toList.length
    · rw [List.getElem?_eq_getElem h, if_pos h]
      rfl
    · rw [List.getElem?_eq_none (Nat.le_of_not_lt h), if_neg h]
      rfl
  | _ => rfl

theorem Call.step_ask (q : Question) (s : Store R) (log : List Event) (generations : Nat → UInt64) :
    let x : Shared R := ⟨.of s log, 0, generations⟩
    let result := (Call.ask q : Call R).program.run x
    (Call.ask q : Call R).Step s x (final result) (Checked.panic? result) := by
  intro x result
  have hq := q.program_eq s log
  have hpanic := q.fault_answer s
  have hreading := reading_eq q.program (x := x) rfl
  cases hanswer : q.answer s with
  | ok answer =>
    rw [hanswer] at hq hpanic
    exact .of_ok (bind_ok (hreading.trans (onMemory_ok hq)) _) hpanic.symm
  | error fault =>
    rw [hanswer] at hq hpanic
    have hresult : result = .error (fault.panic s.buffer.pool) x :=
      bind_error (hreading.trans (onMemory_error hq)) _
    rw [hresult]
    exact ⟨⟨_, _, rfl⟩, hpanic, fun _ _ => rfl⟩

theorem run_editThrough_ok (i : Nat) (e : SeriesEdit R) (s : Store R) (log : List Event)
    (generations : Nat → UInt64) :
    ∃ log' generations',
      (editThrough i e).run ⟨.of s log, 0, generations⟩ =
        .ok ⟨⟩ ⟨.of (e.operation.apply s).state log', 0, generations'⟩ := by
  have hwriting := writing_program e.operation s log generations
  have hpanic := e.operation.fault_apply s
  rw [panic?_seriesEdit] at hpanic
  have hfault : (e.operation.apply s).fault = none := Option.map_eq_none_iff.1 hpanic
  dsimp only at hwriting
  rw [hfault] at hwriting
  rw [editThrough, bind_ok hwriting]
  exact ⟨_, _, rfl⟩

/-- What every call does, whatever the records and the log. -/
theorem Call.step (call : Call R) (s : Store R) (log : List Event) (generations : Nat → UInt64) :
    let x : Shared R := ⟨.of s log, 0, generations⟩
    let result := call.program.run x
    call.Step s x (final result) (Checked.panic? result) := by
  intro x result
  cases call with
  | operate op => exact step_operate op s log generations
  | ask q => exact step_ask q s log generations
  | stats =>
    have hstats := (reading_eq Checked.stats (x := x) rfl).trans (onMemory_ok (stats_eq s log))
    exact .of_ok (bind_ok hstats _) rfl
  | edit i e =>
    obtain ⟨log', generations', hrun⟩ := run_editThrough_ok i e s log generations
    exact .of_ok (bind_ok hrun _) (panic?_seriesEdit _ _ e)
  | editPairs i make keys values replacing sorted =>
    obtain ⟨log₀, hreport⟩ : ∃ log₀, (onlyIf (decide (keys.length ≠ values.length))
        (onMemory (report (.lengthMismatch keys.length values.length)))).run x =
          .ok ⟨⟩ ⟨.of s log₀, 0, generations⟩ := by
      cases decide (keys.length ≠ values.length) with
      | true => exact ⟨_, rfl⟩
      | false => exact ⟨_, rfl⟩
    let e := pairsEdit replacing (List.zipWith make keys values) sorted
    obtain ⟨log', generations', hrun⟩ := run_editThrough_ok i e s log₀ generations
    have hpairs : (Checked.editPairs i make keys values replacing sorted).run x =
        .ok ⟨⟩ ⟨.of (e.operation.apply s).state log', 0, generations'⟩ := by
      rw [Checked.editPairs, bind_ok hreport]
      exact hrun
    exact .of_ok (bind_ok hpairs _) (panic?_seriesEdit _ _ e)

/-- Calls lead to the memory of the store that their operations lead to, and nobody
has borrowed it. -/
theorem Call.after_eq (calls : List (Call R)) (s : Store R) (log : List Event)
    (generations : Nat → UInt64) :
    ∃ log' generations', Call.after calls (⟨.of s log, 0, generations⟩ : Shared R) =
      ⟨.of (Operation.run (calls.filterMap Call.operation?) s).state log', 0, generations'⟩ := by
  induction calls generalizing s log generations with
  | nil => exact ⟨log, generations, rfl⟩
  | cons call calls ih =>
    obtain ⟨log', generations', hnext⟩ := (call.step s log generations).given_back
    obtain ⟨log'', generations'', hafter⟩ := ih (call.next s) log' generations'
    have hrun : (Operation.run (calls.filterMap Call.operation?) (call.next s)).state =
        (Operation.run ((call :: calls).filterMap Call.operation?) s).state := by
      rw [Operation.run_state, Operation.run_state, List.filterMap_cons, Call.next]
      cases call.operation? <;> rfl
    refine ⟨log'', generations'', ?_⟩
    rw [← hrun, ← hafter, ← hnext]
    rfl

/-- After calls on a new store, its memory is that of the store `s` to which their
operations lead, and nobody has borrowed it. A call then

* leaves the memory of the store that its operation leaves, and panics exactly when
  that is at fault, as `Call.panic?` says;
* panics for nothing but an index that is not in use, so that no subtraction goes
  below zero;
* never panics for removing a window of keys, since the search for its start never
  ends behind that for its end, in records in any order;
* has changed nothing when it panics, except that an edit keeps its earlier writes. -/
theorem panic_freedom (policy : SqueezePolicy) (calls : List (Call R)) (call : Call R) :
    let s := (Operation.run (calls.filterMap Call.operation?) { policy }).state
    let x := Call.after calls (.new policy)
    let result := call.program.run x
    (∃ log generations, x = ⟨.of s log, 0, generations⟩) ∧
      (∃ log generations, final result = ⟨.of (call.next s) log, 0, generations⟩) ∧
      Checked.panic? result = call.panic? s.toList s.buffer.pool ∧
      (∀ op, call.operation? = some op →
        Checked.panic? result = (op.apply s).fault.map (Fault.panic s.buffer.pool)) ∧
      (∀ e, Checked.panic? result = some e →
        ∃ index, s.toList.length ≤ index ∧ e = .indexOutOfBounds index s.toList.length) ∧
      (∀ lower upper : Binary64, lower < upper → s.lowerBound lower ≤ s.upperBound upper) ∧
      (∀ lower upper, call.operation? = some (.removeBetween lower upper) →
        Checked.panic? result = none) ∧
      (Checked.panic? result ≠ none → (∀ writes, call ≠ .operate (.edit writes)) →
        final result = x) := by
  dsimp only
  obtain ⟨log, generations, hafter⟩ := Call.after_eq calls { policy } [] fun _ => 0
  generalize (Operation.run (calls.filterMap Call.operation?) { policy }).state = s at hafter ⊢
  have hx : Call.after calls (.new policy) = (⟨.of s log, 0, generations⟩ : Shared R) := hafter
  rw [hx]
  have hstep := call.step s log generations
  refine ⟨⟨log, generations, rfl⟩, hstep.given_back, hstep.panic_eq, fun op hop => ?_,
    fun e he => ?_, fun lower upper hlt => ?_, fun lower upper hop => ?_, hstep.unchanged⟩
  · rw [op.fault_apply]
    exact hstep.panic_eq.trans (Call.panic?_of_operation? hop _ _)
  · exact Call.indexOutOfBounds_of_panic? (hstep.panic_eq.symm.trans he)
  · rw [Store.lowerBound_eq, Store.upperBound_eq]
    exact runLowerBound_le_runUpperBound _ (Int.le_of_lt hlt.2.2)
  · rw [← panic?_removeBetween s.toList s.buffer.pool lower upper]
    exact hstep.panic_eq.trans (Call.panic?_of_operation? hop _ _)

/-- A batch wrongly declared sorted, and one below it that goes through a new pool. -/
def disorderedCalls : List (Call Sample) :=
  [.operate (.addBatch [⟨.ofNat 3, 0⟩, ⟨.ofNat 2, 0⟩] true), .edit 0 (.add ⟨.ofNat 1, 0⟩)]

/-- A write behind the last record panics and changes nothing. -/
theorem disorderedCalls_panic_freedom :
    let x := Call.after disorderedCalls (.new {})
    let result := (Call.operate (.write 3 ⟨0, 0⟩)).program.run x
    Checked.panic? result = some (.indexOutOfBounds 3 3) ∧ final result = x := by
  obtain ⟨-, -, hpanic, -, -, -, -, hunchanged⟩ :=
    panic_freedom {} disorderedCalls (.operate (.write 3 ⟨0, 0⟩))
  have hexpected : Checked.panic? ((Call.operate (.write 3 (⟨0, 0⟩ : Sample))).program.run
      (Call.after disorderedCalls (.new {}))) = some (.indexOutOfBounds 3 3) :=
    hpanic.trans (by decide)
  exact ⟨hexpected, hunchanged (by rw [hexpected]; simp) fun _ h => nomatch h⟩

end PlotSeries
