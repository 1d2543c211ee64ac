import PlotSeries.Proofs.Checked.Additions

/-!
# The operations as checked programs

Removing and overwriting records, and all operations together. A program that
carries out an operation on the memory of a store leaves exactly the memory that
`Operation.apply` describes, and panics exactly when that is at fault
(`program_eq`). Nothing is assumed of the records or of the batches declared
sorted; the one span whose bounds come from two searches is checked where it is
dropped, before anything has changed.
-/

namespace PlotSeries

/-- The check that fails when an operation on a store with `pool` unused slots in
front is at fault. -/
def Fault.panic (pool : Nat) : Fault → Checked.Panic
  | indexOutOfBounds index size => .indexOutOfBounds index size
  | spanOutOfOrder start stop => .spanOutOfOrder (pool + start) (pool + stop)

namespace Checked

/-! ## Removing records -/

section Removing

variable {R : Type} [PlotRecord R]

/-- Turn the records up to a key into pool. -/
def removeUpTo (key : Binary64) : Program (Memory R) Unit := do
  let count ← upperBound (← live) key
  modify fun m => { m with pool := m.pool + count }
  autoSqueeze

/-- Drop the records from a key on. -/
def removeFrom (key : Binary64) : Program (Memory R) Unit := do
  let count ← lowerBound (← live) key
  truncate ((← get).pool + count)
  autoSqueeze

/-- Drop the records between two keys, if the first is less than the second. -/
def removeBetween (lower upper : Binary64) : Program (Memory R) Unit := do
  let count ← size
  if count = 0 ∨ ¬lower < upper then pure ()
  else
    let row ← live
    let pool := (← get).pool
    let start ← lowerBound row lower
    let stop ← upperBound row upper
    drain (pool + start) (pool + stop)
    autoSqueeze

omit [PlotRecord R] in
/-- Drop the record at an index; the first one becomes pool. -/
def dropAt (i : Nat) : Program (Memory R) Unit :=
  if i = 0 then modify fun m => { m with pool := m.pool + 1 }
  else do removeAt ((← get).pool + i)

/-- Drop the first record whose key is not less than `key`, if that equals `key`. -/
def removeKey (key : Binary64) : Program (Memory R) Unit := do
  let row ← live
  let i ← lowerBound row key
  onlyIf (row[i]?.any fun record => (sortKey record).numEq key) (dropAt i)
  autoSqueeze

theorem removeUpTo_eq (s : Store R) (key : Binary64) (log : List Event) :
    (removeUpTo key).run (Memory.of s log) = .ok ⟨⟩ (.ofLogged (s.removeUpTo key) log) := by
  rw [removeUpTo, bind_ok (live_eq s log), bind_ok (upperBound_eq _ _ _), modify_bind,
    ← Store.upperBound_eq]
  exact autoSqueeze_eq { s with buffer := s.buffer.dropFirst _ (s.upperBound_le_size key) } log

theorem removeFrom_eq (s : Store R) (key : Binary64) (log : List Event) :
    (removeFrom key).run (Memory.of s log) = .ok ⟨⟩ (.ofLogged (s.removeFrom key) log) := by
  have htruncate : (truncate (s.buffer.pool + s.lowerBound key)).run (Memory.of s log) =
      .ok ⟨⟩ (.of { s with buffer := s.buffer.truncate (s.lowerBound key) } log) := by
    simp [truncate, Memory.of, Buffer.truncate]
  rw [removeFrom, bind_ok (live_eq s log), bind_ok (lowerBound_eq _ _ _), get_bind,
    ← Store.lowerBound_eq, Memory.of_pool, bind_ok htruncate]
  exact autoSqueeze_eq _ log

omit [PlotRecord R] in
theorem drain_eraseSpan (s : Store R) {i j : Nat} (h : i ≤ j) (hj : j ≤ s.buffer.size)
    (log : List Event) :
    (drain (s.buffer.pool + i) (s.buffer.pool + j)).run (Memory.of s log) =
      .ok ⟨⟩ (.of { s with buffer := s.buffer.eraseSpan i j } log) := by
  rw [drain_eq (Nat.add_le_add_left h _) (Memory.slot_le s log hj)]
  simp [Memory.of, Buffer.eraseSpan, List.take_of_length_le]

/-- Dropping the records between two keys panics on bounds that are out of order,
before anything has changed. -/
theorem removeBetween_eq (s : Store R) (lower upper : Binary64) (log : List Event) :
    (removeBetween lower upper).run (Memory.of s log) =
      match s.removeBetween lower upper with
      | .ok result => .ok ⟨⟩ (.ofLogged result log)
      | .error fault => .error (fault.panic s.buffer.pool) (.of s log) := by
  rw [removeBetween, bind_ok (size_eq s log), Store.removeBetween]
  by_cases hnothing : s.size = 0 ∨ ¬lower < upper
  · have hcond : (s.isEmpty || !decide (lower < upper)) = true := by
      simpa [Store.isEmpty] using hnothing
    rw [if_pos hnothing, if_pos hcond]
    dsimp only
    rw [Memory.ofLogged_pure]
    rfl
  · have hcond : ¬(s.isEmpty || !decide (lower < upper)) = true := by
      simpa [Store.isEmpty] using hnothing
    rw [if_neg hnothing, if_neg hcond, bind_ok (live_eq s log), get_bind,
      bind_ok (lowerBound_eq _ _ _), bind_ok (upperBound_eq _ _ _), ← Store.lowerBound_eq,
      ← Store.upperBound_eq, Memory.of_pool]
    by_cases h : s.lowerBound lower ≤ s.upperBound upper
    · rw [if_pos h, bind_ok (drain_eraseSpan s h (s.upperBound_le_size upper) log)]
      exact autoSqueeze_eq _ log
    · rw [if_neg h, bind_error (drain_error (by omega) _)]
      rfl

omit [PlotRecord R] in
theorem dropAt_eq (s : Store R) {i : Nat} (h : i < s.buffer.size) (log : List Event) :
    (dropAt i).run (Memory.of s log) =
      .ok ⟨⟩ (.of (if i = 0 then { s with buffer := s.buffer.dropFirst 1 (by omega) }
        else { s with buffer := s.buffer.eraseSpan i (i + 1) }) log) := by
  rw [dropAt]
  by_cases hi : i = 0
  · rw [if_pos hi, if_pos hi]
    rfl
  · rw [if_neg hi, if_neg hi, get_bind, Memory.of_pool, removeAt_eq (Memory.slot_lt s log h)]
    simp [Memory.of, Buffer.eraseSpan, List.take_of_length_le, Nat.add_assoc]

theorem removeKey_eq (s : Store R) (key : Binary64) (log : List Event) :
    (removeKey key).run (Memory.of s log) = .ok ⟨⟩ (.ofLogged (s.removeKey key) log) := by
  rw [removeKey, bind_ok (live_eq s log), bind_ok (lowerBound_eq _ _ _), Store.removeKey,
    ← Store.lowerBound_eq]
  by_cases h : s.lowerBound key < s.buffer.size
  · have hget : s.toList[s.lowerBound key]? = some s.buffer[s.lowerBound key] := by
      have h' : s.lowerBound key < s.toList.length := by rwa [← Store.size_eq]
      rw [s.getElem_buffer _ h h', List.getElem?_eq_getElem h']
    rw [dif_pos h, hget, Option.any_some, bind_ok (onlyIf_eq fun _ => dropAt_eq s h log)]
    cases (sortKey s.buffer[s.lowerBound key]).numEq key with
    | true => exact autoSqueeze_eq _ log
    | false => exact autoSqueeze_eq s log
  · have hget : s.toList[s.lowerBound key]? = none :=
      List.getElem?_eq_none (by rw [← Store.size_eq]; exact Nat.le_of_not_lt h)
    rw [dif_neg h, hget, Option.any_none]
    exact autoSqueeze_eq s log

end Removing

/-! ## Overwriting records -/

section Overwriting

variable {R : Type}

/-- Run a second program after a first one, also if that panics. -/
def andThen {σ α : Type} (p : Program σ α) (q : Program σ Unit) : Program σ α := fun s =>
  match p.run s with
  | .ok a t => (do q; pure a : Program σ α).run t
  | .error e t => (do q; throw e : Program σ α).run t

/-- Overwrite records one after the other. -/
def writeEach : List (Nat × R) → Program (Memory R) Unit
  | [] => pure ()
  | (i, record) :: rest => do
    onLive (write i record)
    writeEach rest

/-- Overwrite records, look at all of them, and restore the order in any case. -/
def edit [PlotRecord R] (writes : List (Nat × R)) : Program (Memory R) (List R) :=
  andThen (do writeEach writes; live) (onLive sortRow)

theorem write_run (s : Store R) {i : Nat} (record : R) (h : i < s.buffer.size) (log : List Event) :
    (onLive (write i record)).run (Memory.of s log) = .ok ⟨⟩ (.of (s.set i record h) log) := by
  have hlt : i < s.toList.length := by rwa [← Store.size_eq]
  rw [onLive_ok (write_eq hlt record) log, Store.set, ← Buffer.setAll_set]
  rfl

theorem write_run_error (s : Store R) {i : Nat} (record : R) (h : s.buffer.size ≤ i)
    (log : List Event) :
    (onLive (write i record)).run (Memory.of s log) =
      .error (.indexOutOfBounds i s.size) (.of s log) := by
  have hle : s.toList.length ≤ i := by rwa [← Store.size_eq]
  rw [onLive_error (write_error hle record) log, Store.toList, Buffer.setAll_toList, ← Store.toList,
    Store.size_eq]

theorem writeEach_eq (s : Store R) (writes : List (Nat × R)) (log : List Event) :
    (writeEach writes).run (Memory.of s log) =
      match s.writeAll writes with
      | (written, none) => .ok ⟨⟩ (.of written log)
      | (written, some fault) => .error (fault.panic s.buffer.pool) (.of written log) := by
  induction writes generalizing s with
  | nil => rfl
  | cons w writes ih =>
    obtain ⟨i, record⟩ := w
    rw [writeEach, Store.writeAll]
    by_cases h : i < s.buffer.size
    · rw [dif_pos h, bind_ok (write_run s record h log), ih]
      rfl
    · rw [dif_neg h, bind_error (write_run_error s record (Nat.le_of_not_lt h) log)]
      rfl

theorem edit_eq [PlotRecord R] (s : Store R) (writes : List (Nat × R)) (log : List Event) :
    (edit writes).run (Memory.of s log) =
      match s.writeAll writes with
      | (written, none) => .ok written.toList (.of written.sort log)
      | (written, some fault) => .error (fault.panic s.buffer.pool) (.of written.sort log) := by
  have hwrites := writeEach_eq s writes log
  show andThen _ _ _ = _
  rw [andThen]
  generalize s.writeAll writes = outcome at hwrites ⊢
  obtain ⟨written, fault⟩ := outcome
  cases fault with
  | none =>
    rw [bind_ok hwrites, live_eq]
    exact bind_ok (sort_eq written log) _
  | some fault =>
    rw [bind_error hwrites]
    exact bind_ok (sort_eq written log) _

end Overwriting

/-! ## Policies -/

section Policies

variable {R : Type}

/-- Change the policy. -/
def setPolicy (policy : SqueezePolicy) : Program (Memory R) Unit :=
  modify fun m => { m with policy := policy }

/-- Enable or disable automatic squeezing; enabling it squeezes at once if due. -/
def setAutoSqueeze (enabled : Bool) : Program (Memory R) Unit := do
  let policy := (← get).policy
  onlyIf (decide (policy.enabled ≠ enabled)) do
    modify fun m => { m with policy.enabled := enabled }
    onlyIf enabled autoSqueeze

/-- Go on with a copy in an allocation of its own. -/
def copy : Program (Memory R) Unit :=
  modify fun m => { m with capacity := m.slots.length }

/-- Go on with a new store. -/
def reset (policy : SqueezePolicy) : Program (Memory R) Unit :=
  modify fun m =>
    { slots := [], capacity := 0, pool := 0, growths := 0, policy := policy, log := m.log }

theorem setAutoSqueeze_eq (s : Store R) (enabled : Bool) (log : List Event) :
    (setAutoSqueeze enabled).run (Memory.of s log) =
      .ok ⟨⟩ (.ofLogged (s.setAutoSqueeze enabled) log) := by
  have hchange : (do modify fun m => { m with policy.enabled := enabled }; onlyIf enabled autoSqueeze :
      Program (Memory R) Unit).run (Memory.of s log) =
        .ok ⟨⟩ (.ofLogged (if enabled then
          Store.autoSqueeze { s with policy.enabled := enabled }
          else pure { s with policy.enabled := enabled }) log) := by
    cases enabled with
    | true => exact autoSqueeze_eq { s with policy.enabled := true } log
    | false =>
      rw [if_neg (by simp), Memory.ofLogged_pure]
      rfl
  rw [setAutoSqueeze, get_bind]
  dsimp only [Memory.of_policy]
  rw [onlyIf_eq fun _ => hchange, Store.setAutoSqueeze]
  by_cases h : s.policy.enabled = enabled
  · rw [if_neg (by simpa using h), if_pos h, Memory.ofLogged_pure]
  · rw [if_pos (by simpa using h), if_neg h]

end Policies

end Checked

/-! ## All operations -/

section Programs

variable {R : Type} [PlotRecord R]

open Checked in
/-- The program that carries out an operation; an edit shows the records it saw. -/
def Operation.program : Operation R → Program (Memory R) (Option (List R))
  | .replace records spare sorted => do Checked.replace records spare sorted; return none
  | .replaceCopy records sorted => do Checked.clear; Checked.addBatch records sorted; return none
  | .addBatch records sorted => do Checked.addBatch records sorted; return none
  | .add record => do Checked.add record; return none
  | .removeUpTo key => do Checked.removeUpTo key; return none
  | .removeFrom key => do Checked.removeFrom key; return none
  | .removeBetween lower upper => do Checked.removeBetween lower upper; return none
  | .removeKey key => do Checked.removeKey key; return none
  | .clear => do Checked.clear; return none
  | .sort => do onLive sortRow; return none
  | .squeeze request => do Checked.squeeze request; return none
  | .write index record => do onLive (Checked.write index record); return none
  | .edit writes => do return some (← Checked.edit writes)
  | .setAutoSqueeze enabled => do Checked.setAutoSqueeze enabled; return none
  | .setPolicy policy => do Checked.setPolicy policy; return none
  | .collect records => do Checked.reset {}; Checked.replace records 0 false; return none
  | .copy => do Checked.copy; return none
  | .reset => do Checked.reset {}; return none

/-- What a program leaves that does what an outcome describes, in a store that had
`pool` unused slots in front. -/
def Outcome.result (o : Outcome (Store R) R) (pool : Nat) (log : List Event) :
    EStateM.Result Checked.Panic (Checked.Memory R) (Option (List R)) :=
  match o.fault with
  | none => .ok o.seen (.of o.state (log ++ o.events))
  | some fault => .error (fault.panic pool) (.of o.state (log ++ o.events))

open Checked in
/-- The program of an operation, run on the memory of a store, leaves what the
operation on the store leaves, and panics if that is at fault. -/
theorem Operation.program_eq (op : Operation R) (s : Store R) (log : List Event) :
    op.program.run (Memory.of s log) = (op.apply s).result s.buffer.pool log := by
  have hok {p : Program (Memory R) Unit} {result : Logged (Store R)}
      (h : p.run (Memory.of s log) = .ok ⟨⟩ (.ofLogged result log)) :
      (do p; return none : Program (Memory R) (Option (List R))).run (Memory.of s log) =
        (Outcome.ofLogged result).result s.buffer.pool log :=
    bind_ok h _
  have hplain {p : Program (Memory R) Unit} {t : Store R}
      (h : p.run (Memory.of s log) = .ok ⟨⟩ (.of t log)) :
      (do p; return none : Program (Memory R) (Option (List R))).run (Memory.of s log) =
        ({ state := t } : Outcome (Store R) R).result s.buffer.pool log := by
    rw [bind_ok h, Outcome.result]
    dsimp only
    rw [List.append_nil]
    rfl
  have herror {α : Type} {p : Program (Memory R) α} {t : Store R} {fault : Fault}
      (h : p.run (Memory.of s log) = .error (fault.panic s.buffer.pool) (.of t log))
      (f : α → Program (Memory R) (Option (List R))) :
      (p >>= f).run (Memory.of s log) =
        ({ state := t, fault := some fault } : Outcome (Store R) R).result s.buffer.pool log := by
    rw [bind_error h, Outcome.result]
    dsimp only
    rw [List.append_nil]
  cases op with
  | replace records spare sorted => exact hplain (replace_eq s records spare sorted log)
  | replaceCopy records sorted =>
    rw [Operation.program, bind_ok (clear_eq s log)]
    exact bind_ok (addBatch_eq s.clear records sorted log) _
  | addBatch records sorted => exact hok (addBatch_eq s records sorted log)
  | add record => exact hok (add_eq s record log)
  | removeUpTo key => exact hok (removeUpTo_eq s key log)
  | removeFrom key => exact hok (removeFrom_eq s key log)
  | removeBetween lower upper =>
    have hremove := removeBetween_eq s lower upper log
    rw [Operation.apply]
    cases h : s.removeBetween lower upper with
    | ok result => exact hok (by rw [hremove, h])
    | error fault =>
      rw [h] at hremove
      exact herror hremove _
  | removeKey key => exact hok (removeKey_eq s key log)
  | clear => exact hplain (clear_eq s log)
  | sort => exact hplain (sort_eq s log)
  | squeeze request => exact hok (squeeze_eq s request log)
  | write index record =>
    rw [Operation.apply, Store.write]
    by_cases h : index < s.buffer.size
    · rw [dif_pos h]
      exact hplain (write_run s record h log)
    · have hwrite := write_run_error s record (Nat.le_of_not_lt h) log
      rw [dif_neg h]
      exact herror hwrite _
  | edit writes =>
    have hedit := edit_eq s writes log
    rw [Operation.apply, Store.edit]
    cases h : s.writeAll writes with
    | mk written fault =>
      rw [h] at hedit
      cases fault with
      | none =>
        rw [Operation.program, bind_ok hedit, Outcome.result]
        dsimp only
        rw [List.append_nil]
        rfl
      | some fault => exact herror hedit _
  | setAutoSqueeze enabled => exact hok (setAutoSqueeze_eq s enabled log)
  | setPolicy policy => exact hplain rfl
  | collect records =>
    have hreset : (Checked.reset {}).run (Memory.of s log) = .ok ⟨⟩ (Memory.of .empty log) := rfl
    have hreplace := replace_eq Store.empty records 0 false log
    rw [Operation.program, bind_ok hreset, bind_ok hreplace, Operation.apply, Outcome.result]
    dsimp only
    rw [List.append_nil]
    rfl
  | copy =>
    have hcopy : (Checked.copy : Program (Memory R) Unit).run (Memory.of s log) =
        .ok ⟨⟩ (Memory.of s.copy log) := by
      simp only [Memory.of, Store.copy, Buffer.copy, ← Array.length_toList]
      rfl
    exact hplain hcopy
  | reset => exact hplain rfl

end Programs

end PlotSeries
