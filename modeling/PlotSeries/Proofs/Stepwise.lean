import PlotSeries.Proofs.Contents

/-!
# Runs step by step

Conditions on the steps of a run, and what follows from them for the states that
the run goes through.

* `Operation.run_append`, `Operation.run_cons`: a run of two parts, and a run as its first
  step and the rest, are the outcomes of the parts put together (`Outcome.andThen`).
* `Throughout P ops s`: each operation of the run satisfies `P` in the state it is
  carried out in; `throughout_iff` says the same by positions.
* `Throughout.invariant`: what is kept by steps that satisfy the condition holds at
  the end of the run, and so, by `Throughout.take`, after each of its steps.
-/

namespace PlotSeries

namespace Outcome

variable {S R : Type}

/-- Two outcomes, one after the other: the first fault, and what was seen last. -/
def andThen (before after : Outcome S R) : Outcome S R :=
  { state := after.state
    events := before.events ++ after.events
    fault := before.fault.or after.fault
    seen := after.seen.or before.seen }

theorem andThen_assoc (a b c : Outcome S R) :
    (a.andThen b).andThen c = a.andThen (b.andThen c) := by
  simp only [andThen, List.append_assoc, Option.or_assoc]

theorem start_andThen (s : S) (o : Outcome S R) : andThen { state := s } o = o := by
  simp only [andThen, List.nil_append, Option.none_or, Option.or_none]

end Outcome

variable {R : Type} [PlotRecord R]

namespace Operation

/-- What a run leaves behind goes on from what was there before it. -/
theorem foldl_andThen (ops : List (Operation R)) (o : Outcome (Store R) R) :
    ops.foldl (fun before op => before.andThen (op.apply before.state)) o =
      o.andThen (run ops o.state) := by
  induction ops generalizing o with
  | nil => simp [run, Outcome.andThen]
  | cons op ops ih =>
    have hrun : run (op :: ops) o.state = _ :=
      ih (.andThen { state := o.state } (op.apply o.state))
    rw [List.foldl_cons, ih, hrun, Outcome.start_andThen, Outcome.andThen_assoc]
    rfl

theorem run_append (ops more : List (Operation R)) (s : Store R) :
    run (ops ++ more) s = (run ops s).andThen (run more (run ops s).state) := by
  rw [← foldl_andThen, run, List.foldl_append]
  rfl

theorem run_cons (op : Operation R) (ops : List (Operation R)) (s : Store R) :
    run (op :: ops) s = (op.apply s).andThen (run ops (op.apply s).state) := by
  have hrun : run (op :: ops) s = _ :=
    foldl_andThen ops (.andThen { state := s } (op.apply s))
  rw [hrun, Outcome.start_andThen]

@[simp] theorem state_run_nil (s : Store R) : (run [] s).state = s := rfl

@[simp] theorem state_run_cons (op : Operation R) (ops : List (Operation R)) (s : Store R) :
    (run (op :: ops) s).state = (run ops (op.apply s).state).state := by
  rw [run_state, run_state, List.foldl_cons]

theorem state_run_append (ops more : List (Operation R)) (s : Store R) :
    (run (ops ++ more) s).state = (run more (run ops s).state).state := by
  rw [run_append]
  rfl

end Operation

/-- Each operation of a run satisfies a condition in the state it is carried out in. -/
def Throughout (P : Operation R → Store R → Prop) : List (Operation R) → Store R → Prop
  | [], _ => True
  | op :: ops, s => P op s ∧ Throughout P ops (op.apply s).state

instance Throughout.decidable {P : Operation R → Store R → Prop} [∀ op s, Decidable (P op s)] :
    (ops : List (Operation R)) → (s : Store R) → Decidable (Throughout P ops s)
  | [], _ => inferInstanceAs (Decidable True)
  | op :: ops, s =>
    have := Throughout.decidable (P := P) ops (op.apply s).state
    inferInstanceAs (Decidable (_ ∧ _))

theorem throughout_iff {P : Operation R → Store R → Prop} {ops : List (Operation R)} {s : Store R} :
    Throughout P ops s ↔
      ∀ n (h : n < ops.length), P ops[n] (Operation.run (ops.take n) s).state := by
  induction ops generalizing s with
  | nil => exact ⟨fun _ n h => absurd h (Nat.not_lt_zero n), fun _ => trivial⟩
  | cons op ops ih =>
    rw [Throughout, ih]
    constructor
    · rintro ⟨hop, hops⟩ n h
      cases n with
      | zero => exact hop
      | succ n => simpa using hops n (Nat.lt_of_succ_lt_succ h)
    · intro h
      exact ⟨h 0 (Nat.succ_pos _), fun n hn => by simpa using h (n + 1) (Nat.succ_lt_succ hn)⟩

namespace Throughout

variable {P Q : Operation R → Store R → Prop} {ops : List (Operation R)} {s : Store R}

theorem of_forall (h : ∀ op s, P op s) (ops : List (Operation R)) (s : Store R) :
    Throughout P ops s :=
  throughout_iff.2 fun _ _ => h _ _

theorem and (hP : Throughout P ops s) (hQ : Throughout Q ops s) :
    Throughout (fun op s => P op s ∧ Q op s) ops s :=
  throughout_iff.2 fun n h => ⟨throughout_iff.1 hP n h, throughout_iff.1 hQ n h⟩

theorem take (h : Throughout P ops s) (n : Nat) : Throughout P (ops.take n) s := by
  induction ops generalizing n s with
  | nil => simpa using h
  | cons op ops ih =>
    cases n with
    | zero => trivial
    | succ n => exact ⟨h.1, ih h.2 n⟩

/-- What every step keeps holds at the end of a run. -/
theorem invariant {I : Store R → Prop} (h : Throughout P ops s)
    (hstep : ∀ {op s}, P op s → I s → I (op.apply s).state) (hs : I s) :
    I (Operation.run ops s).state := by
  induction ops generalizing s with
  | nil => exact hs
  | cons op ops ih =>
    rw [Operation.state_run_cons]
    exact ih h.2 (hstep h.1 hs)

end Throughout

end PlotSeries
