import PlotSeries.Chart
import PlotSeries.Proofs.Checked.Questions

/-!
# A store shared by series

A store that several series show is borrowed for every use, to read or to write,
and given back afterwards, also when the use panics (`reading_eq`, `writing_eq`). An
edit made through a series borrows the store and is then counted by the series;
`run_editThrough` and `run_editPairs` compare such edits with those of a chart.
-/

namespace PlotSeries

namespace Checked

/-- A store that is borrowed to be used, and what the series that show it count. -/
structure Shared (R : Type) where
  memory : Memory R
  /-- The number of readers, or -1 while someone writes. -/
  borrows : Int
  /-- The number of edits made through each series. -/
  generations : Nat → UInt64

section Borrowing

variable {R α : Type}

/-- Run a program on the memory. -/
def onMemory (p : Program (Memory R) α) : Program (Shared R) α := fun x =>
  match p.run x.memory with
  | .ok a m => .ok a { x with memory := m }
  | .error e m => .error e { x with memory := m }

/-- Borrow the store to read it. -/
def reading (p : Program (Memory R) α) : Program (Shared R) α := do
  if (← get).borrows < 0 then throw .alreadyBorrowed
  else
    modify fun x => { x with borrows := x.borrows + 1 }
    andThen (onMemory p) (modify fun x => { x with borrows := x.borrows - 1 })

/-- Borrow the store to write it. -/
def writing (p : Program (Memory R) α) : Program (Shared R) α := do
  if (← get).borrows ≠ 0 then throw .alreadyBorrowed
  else
    modify fun x => { x with borrows := -1 }
    andThen (onMemory p) (modify fun x => { x with borrows := 0 })

theorem onMemory_ok {p : Program (Memory R) α} {x : Shared R} {a : α} {m : Memory R}
    (h : p.run x.memory = .ok a m) : (onMemory p).run x = .ok a { x with memory := m } := by
  show onMemory p x = _
  rw [onMemory, h]

theorem onMemory_error {p : Program (Memory R) α} {x : Shared R} {e : Panic} {m : Memory R}
    (h : p.run x.memory = .error e m) : (onMemory p).run x = .error e { x with memory := m } := by
  show onMemory p x = _
  rw [onMemory, h]

theorem andThen_ok {σ : Type} {p : Program σ α} {q : Program σ Unit} {s t u : σ} {a : α}
    (hp : p.run s = .ok a t) (hq : q.run t = .ok ⟨⟩ u) : (andThen p q).run s = .ok a u := by
  show andThen p q s = _
  rw [andThen, hp]
  exact bind_ok hq _

theorem andThen_error {σ : Type} {p : Program σ α} {q : Program σ Unit} {s t u : σ} {e : Panic}
    (hp : p.run s = .error e t) (hq : q.run t = .ok ⟨⟩ u) : (andThen p q).run s = .error e u := by
  show andThen p q s = _
  rw [andThen, hp]
  exact bind_ok hq _

/-- A store that nobody has borrowed can be read, and is given back. -/
theorem reading_eq (p : Program (Memory R) α) {x : Shared R} (h : x.borrows = 0) :
    (reading p).run x = (onMemory p).run x := by
  obtain ⟨m, borrows, generations⟩ := x
  obtain rfl : borrows = 0 := h
  rw [reading, get_bind, if_neg (Int.lt_irrefl 0), modify_bind]
  cases hp : p.run m with
  | ok a m' =>
    rw [andThen_ok (onMemory_ok hp) (modify_run _ _), onMemory_ok hp]
    rfl
  | error e m' =>
    rw [andThen_error (onMemory_error hp) (modify_run _ _), onMemory_error hp]
    rfl

/-- A store that nobody has borrowed can be written, and is given back. -/
theorem writing_eq (p : Program (Memory R) α) {x : Shared R} (h : x.borrows = 0) :
    (writing p).run x = (onMemory p).run x := by
  obtain ⟨m, borrows, generations⟩ := x
  obtain rfl : borrows = 0 := h
  rw [writing, get_bind, if_neg (fun hne => hne rfl), modify_bind]
  cases hp : p.run m with
  | ok a m' => rw [andThen_ok (onMemory_ok hp) (modify_run _ _), onMemory_ok hp]
  | error e m' => rw [andThen_error (onMemory_error hp) (modify_run _ _), onMemory_error hp]

end Borrowing

/-! ## Edits through series -/

section Edits

variable {R : Type} [PlotRecord R]

/-- Count one more edit through a series. -/
def countEdit (i : Nat) : Program (Shared R) Unit :=
  modify fun x =>
    { x with generations := fun j => if j = i then x.generations j + 1 else x.generations j }

/-- Make an edit through a series, which counts it unless it panics. -/
def editThrough (i : Nat) (e : SeriesEdit R) : Program (Shared R) Unit := do
  let _ ← writing e.operation.program
  countEdit i

omit [PlotRecord R] in
/-- The edit that takes records from two lists. -/
def pairsEdit (replacing : Bool) (records : List R) (sorted : Bool) : SeriesEdit R :=
  if replacing then .replace records 0 sorted else .addBatch records sorted

/-- Make an edit whose records come from two lists; the longer one is cut. -/
def editPairs (i : Nat) (make : Binary64 → Binary64 → R) (keys values : List Binary64)
    (replacing sorted : Bool) : Program (Shared R) Unit := do
  onlyIf (decide (keys.length ≠ values.length))
    (onMemory (report (.lengthMismatch keys.length values.length)))
  editThrough i (pairsEdit replacing (List.zipWith make keys values) sorted)

/-- An operation on a store that nobody has borrowed. -/
theorem writing_program (op : Operation R) (s : Store R) (log : List Event)
    (generations : Nat → UInt64) :
    (writing op.program).run ⟨.of s log, 0, generations⟩ =
      let o := op.apply s
      match o.fault with
      | none => .ok o.seen ⟨.of o.state (log ++ o.events), 0, generations⟩
      | some fault =>
        .error (fault.panic s.buffer.pool) ⟨.of o.state (log ++ o.events), 0, generations⟩ := by
  have hop := op.program_eq s log
  rw [writing_eq _ rfl]
  rw [Outcome.result] at hop
  dsimp only
  cases hfault : (op.apply s).fault with
  | none =>
    rw [hfault] at hop
    exact onMemory_ok hop
  | some fault =>
    rw [hfault] at hop
    exact onMemory_error hop

end Edits

/-! ## Charts -/

section Charts

variable {R : Type}

/-- One store of a chart, and what the series of the chart count. -/
def Shared.ofChart (c : Chart R) (k : Nat) (log : List Event) : Shared R :=
  { memory := .of (c.stores[k]?.getD .empty) log
    borrows := 0
    generations := fun j => (c.series[j]?.map Series.generation).getD 0 }

theorem ofChart_setStore (c : Chart R) (k : Fin c.stores.size) (store : Store R) (log : List Event) :
    Shared.ofChart (c.setStore k store) k log =
      { Shared.ofChart c k log with memory := .of store log } := by
  have hk : k.val < c.stores.size := k.isLt
  simp [Shared.ofChart, Chart.setStore]

theorem ofChart_countEdit (c : Chart R) (i : Fin c.series.size) (k : Nat) (log : List Event) :
    Shared.ofChart (c.countEdit i) k log =
      let x := Shared.ofChart c k log
      { x with generations := fun j => if j = i.val then x.generations j + 1 else x.generations j } := by
  have hi : i.val < c.series.size := i.isLt
  have hgeneration (j : Nat) : ((c.countEdit i).series[j]?.map Series.generation).getD 0 =
      if j = i.val then (c.series[j]?.map Series.generation).getD 0 + 1
      else (c.series[j]?.map Series.generation).getD 0 := by
    by_cases h : j = i.val
    · subst h
      simp [Chart.countEdit, Chart.update]
    · have hne : i.val ≠ j := fun hij => h hij.symm
      simp [Chart.countEdit, Chart.update, h, Array.getElem?_set_ne, hne]
  simp only [Shared.ofChart, hgeneration]
  rfl

variable [PlotRecord R]

/-- An edit through a series leaves what the edit of a chart leaves. -/
theorem run_editThrough (c : Chart R) (i : Fin c.series.size) (e : SeriesEdit R) (log : List Event) :
    (editThrough i e).run (.ofChart c (c.storeIndex i) log) =
      let o := c.edit i e
      let x := Shared.ofChart o.state (c.storeIndex i) (log ++ o.events)
      match o.fault with
      | none => .ok ⟨⟩ x
      | some fault => .error (fault.panic (c.storeOf i).buffer.pool) x := by
  have hstore : c.stores[(c.storeIndex i).val]?.getD .empty = c.storeOf i := by
    have hk : (c.storeIndex i).val < c.stores.size := (c.storeIndex i).isLt
    rw [Array.getElem?_eq_getElem hk]
    rfl
  have hwriting := writing_program e.operation (c.storeOf i) log
    fun j => (c.series[j]?.map Series.generation).getD 0
  have hdef : c.stores[c.storeIndex i] = c.storeOf i := rfl
  rw [editThrough, Shared.ofChart, hstore, Chart.edit, hdef]
  generalize e.operation.apply (c.storeOf i) = o at hwriting ⊢
  dsimp only [Outcome.mapState] at hwriting ⊢
  cases hfault : o.fault with
  | none =>
    rw [hfault] at hwriting
    have hcount := ofChart_countEdit (c.setStore (c.storeIndex i) o.state) i (c.storeIndex i)
      (log ++ o.events)
    rw [ofChart_setStore] at hcount
    rw [bind_ok hwriting, countEdit, modify_run, Option.isNone_none, if_pos rfl]
    exact congrArg (EStateM.Result.ok PUnit.unit) hcount.symm
  | some fault =>
    rw [hfault] at hwriting
    rw [bind_error hwriting, Option.isNone_some, if_neg (by simp), ofChart_setStore]
    rfl

/-- An edit from two lists through a series leaves what that of a chart leaves. -/
theorem run_editPairs {R : Type} [KeyValueRecord R] (c : Chart R) (i : Fin c.series.size)
    (keys values : List Binary64) (replacing sorted : Bool) (log : List Event) :
    (editPairs i KeyValueRecord.ofKeyValue keys values replacing sorted).run
        (.ofChart c (c.storeIndex i) log) =
      let o : Outcome (Chart R) R :=
        if replacing then c.replacePairs i keys values sorted else c.addPairs i keys values sorted
      let x := Shared.ofChart o.state (c.storeIndex i) (log ++ o.events)
      match o.fault with
      | none => .ok ⟨⟩ x
      | some fault => .error (fault.panic (c.storeOf i).buffer.pool) x := by
  have hthrough (log : List Event) := run_editThrough c i
    (pairsEdit replacing (List.zipWith KeyValueRecord.ofKeyValue keys values) sorted) log
  have hedit : (if replacing = true then c.replacePairs i keys values sorted
      else c.addPairs i keys values sorted) =
        let records := pairRecords keys values
        let o := c.edit i (pairsEdit replacing records.value sorted)
        { o with events := records.events ++ o.events } := by
    cases replacing <;> rfl
  rw [hedit, editPairs]
  by_cases h : keys.length = values.length
  · have hpairs : pairRecords (R := R) keys values =
        pure (List.zipWith KeyValueRecord.ofKeyValue keys values) := by
      simp [pairRecords, h]
    rw [hpairs, onlyIf, if_neg (by simpa using h)]
    exact hthrough log
  · have hpairs : pairRecords (R := R) keys values = do
        Logged.report (.lengthMismatch keys.length values.length)
        return List.zipWith KeyValueRecord.ofKeyValue keys values := by
      simp [pairRecords, h]
    let event := Event.lengthMismatch keys.length values.length
    have hreport : (onMemory (report event)).run (Shared.ofChart c (c.storeIndex i) log) =
        .ok ⟨⟩ (.ofChart c (c.storeIndex i) (log ++ [event])) := rfl
    have hedit := hthrough (log ++ [event])
    dsimp only at hedit
    rw [List.append_assoc] at hedit
    rw [hpairs, onlyIf, if_pos (by simpa using h), bind_ok hreport]
    exact hedit

end Charts

end Checked

end PlotSeries
