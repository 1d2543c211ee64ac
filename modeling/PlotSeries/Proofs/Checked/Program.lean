import PlotSeries.Run

/-!
# Checked programs

A `Program` works on a state in single steps, each of which checks what it relies
on: that a subtraction does not go below zero, that an index or a span lies within
a row of slots, that two rows have the same length, that a comparison is an order.
A check that fails is a `Panic`; the program ends there and leaves the state as it
is. Sums are not checked, so rows may be of any length.

A row of slots that a program only reads is a value (`readAt`, `slice`); a row it
writes to is its state (`write`, `copyFrom`, `copyWithin`, `sortRow`), or the end
of its state (`tail`).
-/

namespace PlotSeries.Checked

/-- The check that failed. -/
inductive Panic where
  /-- The second number is larger than the first. -/
  | underflow (a b : Nat)
  /-- A word does not have this bit. -/
  | shiftTooFar (bit : Nat)
  | indexOutOfBounds (index size : Nat)
  | spanOutOfOrder (start stop : Nat)
  | spanOutOfBounds (stop size : Nat)
  | lengthMismatch (target source : Nat)
  /-- The comparison of a sort is not a total order on what is sorted. -/
  | inconsistentOrder
  /-- Someone else reads or writes what is to be written. -/
  | alreadyBorrowed
  deriving DecidableEq

/-- A program that reads and changes a state; a panic keeps the changes made before it. -/
abbrev Program (σ α : Type) := EStateM Panic σ α

section Monad

variable {σ α β : Type}

/-- The panic that ended a program, if any. -/
def panic? : EStateM.Result Panic σ α → Option Panic
  | .ok _ _ => none
  | .error e _ => some e

/-- The state in which a program ended. -/
def final : EStateM.Result Panic σ α → σ
  | .ok _ s => s
  | .error _ s => s

theorem bind_ok {p : Program σ α} {s t : σ} {a : α} (h : p.run s = .ok a t) (f : α → Program σ β) :
    (p >>= f).run s = (f a).run t := by
  show EStateM.bind p f s = f a t
  have h : p s = .ok a t := h
  simp only [EStateM.bind, h]

theorem bind_error {p : Program σ α} {s t : σ} {e : Panic} (h : p.run s = .error e t)
    (f : α → Program σ β) : (p >>= f).run s = .error e t := by
  show EStateM.bind p f s = .error e t
  have h : p s = .error e t := h
  simp only [EStateM.bind, h]

theorem get_bind (f : σ → Program σ β) (s : σ) : (get >>= f).run s = (f s).run s := rfl

theorem modify_run (g : σ → σ) (s : σ) : (modify g : Program σ PUnit).run s = .ok ⟨⟩ (g s) := rfl

theorem modify_bind (g : σ → σ) (f : PUnit → Program σ β) (s : σ) :
    (modify g >>= f).run s = (f ⟨⟩).run (g s) := rfl

end Monad

/-! ## Numbers -/

section Numbers

variable {σ : Type}

/-- The difference of two numbers, the first of which has to be at least the second. -/
def subtract (a b : Nat) : Program σ Nat := if b ≤ a then pure (a - b) else throw (.underflow a b)

/-- The word in which only this bit is set. -/
def oneBit (bit : Nat) : Program σ Nat := if bit < 64 then pure (2 ^ bit) else throw (.shiftTooFar bit)

theorem subtract_eq {a b : Nat} (h : b ≤ a) (s : σ) : (subtract a b).run s = .ok (a - b) s := by
  rw [subtract, if_pos h]
  rfl

theorem oneBit_eq {bit : Nat} (h : bit < 64) (s : σ) : (oneBit bit).run s = .ok (2 ^ bit) s := by
  rw [oneBit, if_pos h]
  rfl

end Numbers

/-! ## Reading rows -/

section Reading

variable {σ α : Type}

/-- The element of a row at an index. -/
def readAt (row : List α) (i : Nat) : Program σ α :=
  match row[i]? with
  | some a => pure a
  | none => throw (.indexOutOfBounds i row.length)

/-- The elements of a row from `start` up to `stop`. -/
def slice (row : List α) (start stop : Nat) : Program σ (List α) :=
  if start ≤ stop then
    if stop ≤ row.length then pure ((row.take stop).drop start)
    else throw (.spanOutOfBounds stop row.length)
  else throw (.spanOutOfOrder start stop)

theorem readAt_eq {row : List α} {i : Nat} {a : α} (h : row[i]? = some a) (s : σ) :
    (readAt row i).run s = .ok a s := by
  rw [readAt, h]
  rfl

theorem readAt_error {row : List α} {i : Nat} (h : row[i]? = none) (s : σ) :
    (readAt row i : Program σ α).run s = .error (.indexOutOfBounds i row.length) s := by
  rw [readAt, h]
  rfl

theorem slice_eq {row : List α} {start stop : Nat} (h : start ≤ stop) (hstop : stop ≤ row.length)
    (s : σ) : (slice row start stop).run s = .ok ((row.take stop).drop start) s := by
  rw [slice, if_pos h, if_pos hstop]
  rfl

end Reading

/-! ## Writing rows -/

section Writing

variable {α β : Type}

/-- Write an element at an index. -/
def write (i : Nat) (a : α) : Program (List α) Unit := do
  let row ← get
  if i < row.length then set (row.set i a) else throw (.indexOutOfBounds i row.length)

/-- Write a row of the right length over the elements from `start` up to `stop`. -/
def copyFrom (start stop : Nat) (source : List α) : Program (List α) Unit := do
  let target ← slice (← get) start stop
  if target.length = source.length then
    modify fun row => row.take start ++ source ++ row.drop stop
  else throw (.lengthMismatch target.length source.length)

/-- Write the elements from `start` up to `stop` over those from `target` on. -/
def copyWithin (start stop target : Nat) : Program (List α) Unit := do
  let row ← get
  let moved ← slice row start stop
  if target + moved.length ≤ row.length then
    set (row.take target ++ moved ++ row.drop (target + moved.length))
  else throw (.spanOutOfBounds (target + moved.length) row.length)

/-- Run a program on the elements from `start` on. -/
def tail (start : Nat) (p : Program (List α) β) : Program (List α) β := fun row =>
  if start ≤ row.length then
    match p.run (row.drop start) with
    | .ok b rest => .ok b (row.take start ++ rest)
    | .error e rest => .error e (row.take start ++ rest)
  else .error (.spanOutOfBounds start row.length) row

theorem write_eq {row : List α} {i : Nat} (h : i < row.length) (a : α) :
    (write i a).run row = .ok ⟨⟩ (row.set i a) := by
  rw [write, get_bind, if_pos h]
  rfl

theorem write_error {row : List α} {i : Nat} (h : row.length ≤ i) (a : α) :
    (write i a).run row = .error (.indexOutOfBounds i row.length) row := by
  rw [write, get_bind, if_neg (Nat.not_lt.2 h)]
  rfl

theorem copyFrom_eq {row source : List α} {start stop : Nat} (h : start + source.length = stop)
    (hstop : stop ≤ row.length) :
    (copyFrom start stop source).run row = .ok ⟨⟩ (row.take start ++ source ++ row.drop stop) := by
  have hlength : ((row.take stop).drop start).length = source.length := by simp; omega
  rw [copyFrom, get_bind, bind_ok (slice_eq (by omega) hstop row), if_pos hlength]
  rfl

theorem copyWithin_eq {row : List α} {start stop target : Nat} (h : start ≤ stop)
    (hstop : stop ≤ row.length) (htarget : target + (stop - start) ≤ row.length) :
    (copyWithin start stop target).run row =
      .ok ⟨⟩ (row.take target ++ (row.take stop).drop start ++ row.drop (target + (stop - start))) := by
  have hlength : ((row.take stop).drop start).length = stop - start := by simp; omega
  rw [copyWithin, get_bind, bind_ok (slice_eq h hstop row), hlength, if_pos htarget]
  rfl

theorem tail_ok {row rest : List α} {start : Nat} {p : Program (List α) β} {b : β}
    (hstart : start ≤ row.length) (h : p.run (row.drop start) = .ok b rest) :
    (tail start p).run row = .ok b (row.take start ++ rest) := by
  simp only [tail, EStateM.run, if_pos hstart] at h ⊢
  simp only [h]

theorem tail_error {row rest : List α} {start : Nat} {p : Program (List α) β} {e : Panic}
    (hstart : start ≤ row.length) (h : p.run (row.drop start) = .error e rest) :
    (tail start p).run row = .error e (row.take start ++ rest) := by
  simp only [tail, EStateM.run, if_pos hstart] at h ⊢
  simp only [h]

end Writing

end PlotSeries.Checked
