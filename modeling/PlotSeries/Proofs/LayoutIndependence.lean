import PlotSeries.Proofs.Questions
import PlotSeries.Record.Kinds

/-!
# What a user sees does not depend on the layout

Two stores of the same records, in order or not, cannot be told apart by what
happens to their records: every operation leaves the same records, is at fault on
the same ones and shows an edit the same ones, and every question has the same
answer. So a run can be followed through its `transcript` alone, and squeezes,
changes of policy and copies can be put into it or left out anywhere
(`layout_independence`).
-/

namespace PlotSeries

variable {R : Type}

/-- An operation on the layout or the policy of a store, not on its records. -/
def Operation.isLayout : Operation R → Bool
  | squeeze _ | setAutoSqueeze _ | setPolicy _ | copy => true
  | _ => false

/-- A step of a run in which a store is also asked questions. -/
inductive Step (R : Type) where
  | operate (op : Operation R)
  | ask (q : Question)

/-- The step is an operation on the layout. -/
def Step.isLayout : Step R → Bool
  | operate op => op.isLayout
  | ask _ => false

/-- What a step shows of the records. -/
inductive Observation (R : Type) where
  /-- The records an operation left, its fault and what an edit saw. -/
  | changed (contents : Outcome (List R) R)
  | answered (answer : Except Fault (Answer R))

variable [PlotRecord R]

/-- The store after a step. -/
def Step.next (step : Step R) (s : Store R) : Store R :=
  match step with
  | .operate op => (op.apply s).state
  | .ask _ => s

/-- What a step shows. -/
def Step.observe (step : Step R) (s : Store R) : Observation R :=
  match step with
  | .operate op => .changed (op.apply s).contents
  | .ask q => .answered (q.answer s)

/-- What the steps of a run show, those on the layout left out, and the records
at its end. -/
def transcript : List (Step R) → Store R → List (Observation R) × List R
  | [], s => ([], s.toList)
  | step :: steps, s =>
    let rest := transcript steps (step.next s)
    if step.isLayout then rest else (step.observe s :: rest.1, rest.2)

/-! ## Steps -/

theorem Operation.contents_congr {s t : Store R} (h : s.toList = t.toList) (op : Operation R) :
    (op.apply s).contents = (op.apply t).contents := by
  rw [contents_apply, contents_apply, h]

theorem Operation.toList_of_isLayout {op : Operation R} (hop : op.isLayout = true) (s : Store R) :
    (op.apply s).state.toList = s.toList := by
  have hstate := congrArg Outcome.state (op.contents_apply s)
  cases op with
  | squeeze | setAutoSqueeze | setPolicy | copy => exact hstate
  | _ => cases hop

theorem Step.observe_congr {s t : Store R} (h : s.toList = t.toList) (step : Step R) :
    step.observe s = step.observe t := by
  cases step with
  | operate op => exact congrArg Observation.changed (op.contents_congr h)
  | ask q => exact congrArg Observation.answered (q.answer_congr h)

theorem Step.toList_next_congr {s t : Store R} (h : s.toList = t.toList) (step : Step R) :
    (step.next s).toList = (step.next t).toList := by
  cases step with
  | operate op => exact congrArg Outcome.state (op.contents_congr h)
  | ask q => exact h

theorem Step.toList_next_of_isLayout {step : Step R} (hstep : step.isLayout = true) (s : Store R) :
    (step.next s).toList = s.toList := by
  cases step with
  | operate op => exact Operation.toList_of_isLayout hstep s
  | ask q => cases hstep

/-! ## Runs -/

theorem transcript_congr {s t : Store R} (h : s.toList = t.toList) (steps : List (Step R)) :
    transcript steps s = transcript steps t := by
  induction steps generalizing s t with
  | nil => rw [transcript, transcript, h]
  | cons step steps ih =>
    have hnext := ih (step.toList_next_congr h)
    rw [transcript, transcript, hnext, step.observe_congr h]

/-- Steps on the layout can be left out. -/
theorem transcript_filter (steps : List (Step R)) (s : Store R) :
    transcript (steps.filter fun step => !step.isLayout) s = transcript steps s := by
  induction steps generalizing s with
  | nil => rfl
  | cons step steps ih =>
    rw [List.filter_cons, transcript]
    cases hstep : step.isLayout with
    | false =>
      rw [if_pos (by rfl), transcript, hstep, if_neg (by simp), if_neg (by simp), ih]
    | true =>
      rw [if_neg (by simp), if_pos rfl, ih]
      exact transcript_congr (Step.toList_next_of_isLayout hstep s).symm steps

/-- Stores of the same records behave alike, whatever their layouts and policies:
under one operation, to one question, and in runs that differ only in what they do
to the layout. -/
theorem layout_independence (s t : Store R) (h : s.toList = t.toList) :
    (∀ op : Operation R, (op.apply s).contents = (op.apply t).contents) ∧
      (∀ q : Question, q.answer s = q.answer t) ∧
      ∀ steps steps' : List (Step R),
        (steps.filter fun step => !step.isLayout) = (steps'.filter fun step => !step.isLayout) →
        transcript steps s = transcript steps' t := by
  refine ⟨Operation.contents_congr h, Question.answer_congr h, fun steps steps' hsteps => ?_⟩
  calc
    transcript steps s = transcript (steps.filter fun step => !step.isLayout) s :=
      (transcript_filter steps s).symm
    _ = transcript (steps'.filter fun step => !step.isLayout) t := by
      rw [hsteps, transcript_congr h]
    _ = transcript steps' t := transcript_filter steps' t

/-- Two samples out of order behind a grown pool. -/
def pooledSamples : Store Sample where
  buffer := ((Buffer.ofList [⟨.ofNat 2, 0⟩, ⟨.ofNat 1, 0⟩] 3).growPool ⟨0, 0⟩ 1)

/-- The same samples in an allocation of their own, never squeezed. -/
def packedSamples : Store Sample where
  buffer := .ofList [⟨.ofNat 2, 0⟩, ⟨.ofNat 1, 0⟩] 0
  policy := .disabled

theorem pooled_packed_layout_independence :
    pooledSamples.toList = packedSamples.toList ∧ pooledSamples.stats ≠ packedSamples.stats ∧
      (∀ op : Operation Sample,
        (op.apply pooledSamples).contents = (op.apply packedSamples).contents) ∧
      (∀ q : Question, q.answer pooledSamples = q.answer packedSamples) ∧
      ∀ steps steps' : List (Step Sample),
        (steps.filter fun step => !step.isLayout) = (steps'.filter fun step => !step.isLayout) →
        transcript steps pooledSamples = transcript steps' packedSamples :=
  ⟨by decide, by decide, layout_independence pooledSamples packedSamples (by decide)⟩

end PlotSeries
