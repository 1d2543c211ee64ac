import PlotSeries.Proofs.Checked.Operations
import PlotSeries.Proofs.Questions

/-!
# The questions as checked programs

The questions to a store, step by step on its memory. `Question.program_eq`: each
gives the answer of the store and changes nothing, and the only one that can panic
is the question for a record at an index that is not in use. On records out of
order a search ends anywhere in its row, so that every span cut out afterwards
still lies within it.
-/

namespace PlotSeries

namespace Checked

variable {R : Type} [PlotRecord R]

/-! ## Windows of keys -/

/-- Index of the first record whose key is at least `key`, or one less. -/
def findStart (key : Binary64) (expanded : Bool) : Program (Memory R) Nat := do
  let count ← size
  if count = 0 then pure count
  else
    let i ← lowerBound (← live) key
    if expanded = true ∧ 0 < i then subtract i 1 else pure i

/-- One past the index of the last record whose key is at most `key`, or one more. -/
def findStop (key : Binary64) (expanded : Bool) : Program (Memory R) Nat := do
  let count ← size
  if count = 0 then pure count
  else
    let i ← upperBound (← live) key
    pure (if expanded = true ∧ i < count then i + 1 else i)

/-- The span between the bounds of a window of keys, never out of order. -/
def keySpan (keys : Extent) (expanded : Bool) : Program (Memory R) IndexRange := do
  let start ← findStart keys.lower expanded
  let stop ← findStop keys.upper expanded
  pure ⟨start, max stop start⟩

omit [PlotRecord R] in
/-- The part of a span that lies in a selection and belongs to records. -/
def limitSpan (span selection : IndexRange) : Program (Memory R) IndexRange := do
  let count ← size
  pure (span.clampTo (selection.clampTo ⟨0, count⟩)).ordered

/-- The part within a selection of the span needed to draw a window of keys. -/
def visibleSpan (keys : Extent) (selection : IndexRange) : Program (Memory R) IndexRange := do
  if PlotRecord.sortsByMainKey R then
    let span ← keySpan keys true
    limitSpan span selection
  else
    let count ← size
    limitSpan ⟨0, count⟩ selection

theorem findStart_eq (s : Store R) (key : Binary64) (expanded : Bool) (log : List Event) :
    (findStart key expanded).run (Memory.of s log) =
      .ok (s.findStart key expanded) (.of s log) := by
  have hle := s.lowerBound_le_size key
  rw [findStart, bind_ok (size_eq s log), Store.findStart]
  by_cases hsize : s.size = 0
  · have hzero : s.lowerBound key = 0 := by
      rw [Store.size] at hsize
      omega
    rw [if_pos hsize, hsize, hzero]
    cases expanded <;> rfl
  · rw [if_neg hsize, bind_ok (live_eq s log), bind_ok (lowerBound_eq _ _ _), ← Store.lowerBound_eq]
    cases expanded with
    | false =>
      rw [if_neg (by simp)]
      rfl
    | true =>
      rw [if_pos rfl]
      by_cases hpos : 0 < s.lowerBound key
      · rw [if_pos ⟨rfl, hpos⟩, subtract_eq hpos]
      · have hzero : s.lowerBound key = 0 := by omega
        rw [if_neg (fun h => hpos h.2), hzero]
        rfl

theorem findStop_eq (s : Store R) (key : Binary64) (expanded : Bool) (log : List Event) :
    (findStop key expanded).run (Memory.of s log) =
      .ok (s.findStop key expanded) (.of s log) := by
  have hle : s.upperBound key ≤ s.size := s.upperBound_le_size key
  rw [findStop, bind_ok (size_eq s log), Store.findStop]
  by_cases hsize : s.size = 0
  · have hzero : s.upperBound key = 0 := by omega
    rw [if_pos hsize, hsize, hzero]
    cases expanded <;> rfl
  · rw [if_neg hsize, bind_ok (live_eq s log), bind_ok (upperBound_eq _ _ _), ← Store.upperBound_eq]
    have hstop : (if expanded = true ∧ s.upperBound key < s.size then s.upperBound key + 1
        else s.upperBound key) =
          if expanded = true then min (s.upperBound key + 1) s.size else s.upperBound key := by
      cases expanded with
      | false => rfl
      | true =>
        rw [if_pos rfl]
        by_cases hlt : s.upperBound key < s.size
        · rw [if_pos ⟨rfl, hlt⟩]
          omega
        · rw [if_neg (fun h => hlt h.2)]
          omega
    rw [← hstop]
    rfl

theorem keySpan_eq (s : Store R) (keys : Extent) (expanded : Bool) (log : List Event) :
    (keySpan keys expanded).run (Memory.of s log) = .ok (s.keySpan keys expanded) (.of s log) := by
  rw [keySpan, bind_ok (findStart_eq s _ _ log), bind_ok (findStop_eq s _ _ log)]
  rfl

omit [PlotRecord R] in
theorem limitSpan_eq (s : Store R) (span selection : IndexRange) (log : List Event) :
    (limitSpan span selection).run (Memory.of s log) =
      .ok (s.limitSpan span selection) (.of s log) := by
  rw [limitSpan, bind_ok (size_eq s log)]
  rfl

theorem visibleSpan_eq (s : Store R) (keys : Extent) (selection : IndexRange) (log : List Event) :
    (visibleSpan keys selection).run (Memory.of s log) =
      .ok (s.visibleSpanWithin keys selection) (.of s log) := by
  rw [visibleSpan, Store.visibleSpanWithin]
  cases PlotRecord.sortsByMainKey R with
  | true =>
    rw [if_pos rfl, if_pos rfl, bind_ok (keySpan_eq s keys true log)]
    exact limitSpan_eq s _ selection log
  | false =>
    rw [if_neg (by simp), if_neg (by simp), bind_ok (size_eq s log)]
    exact limitSpan_eq s _ selection log

/-! ## Extents -/

/-- The part of a row in which the keys of a domain lie. -/
def domainSide (row : List R) (domain : SignDomain) : Program (Memory R) (List R) :=
  match domain with
  | .both => pure row
  | .negative => do slice row 0 (← lowerBound row 0)
  | .positive => do slice row (← upperBound row 0) row.length

/-- Extend an extent of keys by the key of a record that qualifies. -/
def extendByKey (domain : SignDomain) (extent : Option Extent) (r : R) : Option Extent :=
  if (mainValue r).isNaN || !domain.accepts (mainKey r) then extent
  else
    match extent with
    | none => some ⟨mainKey r, mainKey r⟩
    | some e => some ⟨e.lower.smaller (mainKey r), e.upper.larger (mainKey r)⟩

/-- The extent of the keys that the qualifying records are drawn at. -/
def keyExtent (domain : SignDomain) : Program (Memory R) (Option Extent) := do
  let row ← live
  if row.isEmpty then pure none
  else if PlotRecord.sortsByMainKey R then
    let side ← domainSide row domain
    match side.find? (Store.qualifies domain), side.reverse.find? (Store.qualifies domain) with
    | some first, some last => pure (some ⟨mainKey first, mainKey last⟩)
    | _, _ => pure none
  else pure (row.foldl (extendByKey domain) none)

/-- Lower the least and raise the greatest value found so far by a record in a window. -/
def extendByValue (domain : SignDomain) (keys : Option Extent)
    (found : Option Binary64 × Option Binary64) (r : R) : Option Binary64 × Option Binary64 :=
  if keys.any fun window => !window.contains (mainKey r) then found
  else
    let e := PlotRecord.valueExtent r
    (if domain.accepts e.lower && found.1.all (fun least => decide (e.lower < least)) then
        some e.lower else found.1,
      if domain.accepts e.upper && found.2.all (fun greatest => decide (greatest < e.upper)) then
        some e.upper else found.2)

/-- The span of the records that a window of keys is looked for in. -/
def valueSpan (keys : Option Extent) : Program (Memory R) IndexRange := do
  match keys with
  | some window =>
    if PlotRecord.sortsByMainKey R then keySpan window false
    else
      let row ← live
      pure ⟨0, row.length⟩
  | none =>
    let row ← live
    pure ⟨0, row.length⟩

/-- The extent of the values of the records in a window of keys. -/
def valueExtent (domain : SignDomain) (keys : Option Extent) :
    Program (Memory R) (Option Extent) := do
  let row ← live
  if row.isEmpty then pure none
  else
    let span ← valueSpan keys
    let part ← slice row span.start span.stop
    match part.foldl (extendByValue domain keys) (none, none) with
    | (some lower, some upper) => pure (some ⟨lower, upper⟩)
    | _ => pure none

theorem domainSide_eq (s : Store R) (domain : SignDomain) (log : List Event) :
    (domainSide s.toList domain).run (Memory.of s log) =
      .ok (s.domainRecords domain) (.of s log) := by
  cases domain with
  | both => rfl
  | negative =>
    have hle := runLowerBound_le s.toList 0
    rw [domainSide, bind_ok (lowerBound_eq _ _ _), slice_eq (Nat.zero_le _) hle, List.drop_zero,
      ← Store.lowerBound_eq]
    rfl
  | positive =>
    have hle := runUpperBound_le s.toList 0
    rw [domainSide, bind_ok (upperBound_eq _ _ _), slice_eq hle (Nat.le_refl _), List.take_length,
      ← Store.upperBound_eq]
    rfl

theorem foldl_extendByKey (domain : SignDomain) (row : List R) :
    row.foldl (extendByKey domain) none =
      Store.extentOfKeys ((row.filter (Store.qualifies domain)).map mainKey) := by
  rw [Store.extentOfKeys]
  generalize (none : Option Extent) = extent
  induction row generalizing extent with
  | nil => rfl
  | cons r row ih =>
    rw [List.foldl_cons, ih, List.filter_cons]
    have hskip : ((mainValue r).isNaN || !domain.accepts (mainKey r)) =
        !Store.qualifies domain r := by
      rw [Store.qualifies, Bool.not_and, Bool.not_not]
    unfold extendByKey
    rw [hskip]
    cases Store.qualifies domain r with
    | true => rfl
    | false => rfl

theorem keyExtent_eq (s : Store R) (domain : SignDomain) (log : List Event) :
    (keyExtent domain).run (Memory.of s log) = .ok (s.keyExtent domain) (.of s log) := by
  rw [keyExtent, bind_ok (live_eq s log), Store.keyExtent]
  cases hl : s.toList with
  | nil =>
    have hnone : s.domainRecords domain = [] := by
      cases domain <;> simp [Store.domainRecords, hl]
    rw [if_pos (by rfl), hnone]
    cases PlotRecord.sortsByMainKey R <;> rfl
  | cons r rest =>
    rw [if_neg (by simp), ← hl]
    cases PlotRecord.sortsByMainKey R with
    | true =>
      rw [if_pos rfl, if_pos rfl, bind_ok (domainSide_eq s domain log)]
      dsimp only
      cases (s.domainRecords domain).find? (Store.qualifies domain) with
      | none => rfl
      | some first =>
        cases (s.domainRecords domain).reverse.find? (Store.qualifies domain) <;> rfl
    | false =>
      rw [if_neg (by simp), if_neg (by simp), foldl_extendByKey]
      rfl

/-- Two folds over the elements of interest, in one pass. -/
theorem foldl_pair {α β γ : Type} (p : α → Bool) (f : β → α → β) (g : γ → α → γ) (row : List α)
    (b : β) (c : γ) :
    row.foldl (fun found a => if p a then (f found.1 a, g found.2 a) else found) (b, c) =
      ((row.filter p).foldl f b, (row.filter p).foldl g c) := by
  induction row generalizing b c with
  | nil => rfl
  | cons a row ih =>
    rw [List.foldl_cons, List.filter_cons]
    cases p a with
    | true => exact ih _ _
    | false => exact ih _ _

theorem foldl_extendByValue (domain : SignDomain) (keys : Option Extent) (row : List R) :
    row.foldl (extendByValue domain keys) (none, none) =
      let extents := (row.filter fun r => keys.all fun window => window.contains (mainKey r)).map
        PlotRecord.valueExtent
      (Store.leastAccepted domain (extents.map Extent.lower),
        Store.greatestAccepted domain (extents.map Extent.upper)) := by
  dsimp only
  unfold Store.leastAccepted Store.greatestAccepted
  rw [List.foldl_map, List.foldl_map, List.foldl_map, List.foldl_map, ← foldl_pair]
  congr 1
  funext found r
  unfold extendByValue
  cases keys with
  | none => rfl
  | some window =>
    rw [Option.any_some, Option.all_some]
    cases window.contains (mainKey r) <;> rfl

theorem keySpan_le (s : Store R) (window : Extent) :
    (s.keySpan window false).start ≤ (s.keySpan window false).stop ∧
      (s.keySpan window false).stop ≤ s.toList.length := by
  have hstart := s.lowerBound_le_size window.lower
  have hstop := s.upperBound_le_size window.upper
  rw [← Store.size_eq]
  exact ⟨Nat.le_max_right _ _, Nat.max_le.2 ⟨hstop, hstart⟩⟩

/-- A window of keys is looked for in a span of the records. -/
theorem valueSpan_eq (s : Store R) (keys : Option Extent) (log : List Event) :
    ∃ span : IndexRange, (valueSpan keys).run (Memory.of s log) = .ok span (.of s log) ∧
      span.start ≤ span.stop ∧ span.stop ≤ s.toList.length ∧
      s.recordsIn keys = ((s.toList.take span.stop).drop span.start).filter fun r =>
        keys.all fun window => window.contains (mainKey r) := by
  have hall : (live >>= fun row => pure ⟨0, row.length⟩ : Program (Memory R) IndexRange).run
      (Memory.of s log) = .ok ⟨0, s.toList.length⟩ (.of s log) := bind_ok (live_eq s log) _
  cases keys with
  | none =>
    have hself : s.toList.filter (fun _ => true) = s.toList := List.filter_eq_self.2 fun _ _ => rfl
    refine ⟨⟨0, s.toList.length⟩, hall, Nat.zero_le _, Nat.le_refl _, ?_⟩
    simp [Store.recordsIn, hself]
  | some window =>
    cases hsort : PlotRecord.sortsByMainKey R with
    | true =>
      obtain ⟨hle, hstop⟩ := keySpan_le s window
      refine ⟨s.keySpan window false, ?_, hle, hstop, ?_⟩
      · rw [valueSpan, hsort, if_pos rfl]
        exact keySpan_eq s window false log
      · simp [Store.recordsIn, hsort]
    | false =>
      refine ⟨⟨0, s.toList.length⟩, ?_, Nat.zero_le _, Nat.le_refl _, ?_⟩
      · rw [valueSpan, hsort, if_neg (by simp)]
        exact hall
      · simp [Store.recordsIn, hsort]

theorem valueExtent_eq (s : Store R) (domain : SignDomain) (keys : Option Extent)
    (log : List Event) :
    (valueExtent domain keys).run (Memory.of s log) =
      .ok (s.valueExtent domain keys) (.of s log) := by
  obtain ⟨span, hspan, hle, hstop, hrecords⟩ := valueSpan_eq s keys log
  rw [valueExtent, bind_ok (live_eq s log), Store.valueExtent, hrecords]
  have hfold := foldl_extendByValue domain keys ((s.toList.take span.stop).drop span.start)
  dsimp only at hfold ⊢
  generalize Store.leastAccepted domain _ = least at hfold ⊢
  generalize Store.greatestAccepted domain _ = greatest at hfold ⊢
  cases hl : s.toList with
  | nil =>
    rw [hl, List.take_nil, List.drop_nil, List.foldl_nil] at hfold
    cases hfold
    rfl
  | cons r rest =>
    rw [if_neg (by simp), ← hl, bind_ok hspan, bind_ok (slice_eq hle hstop _), hfold]
    cases least with
    | none => rfl
    | some lower => cases greatest <;> rfl

end Checked

/-! ## All questions -/

section Programs

variable {R : Type} [PlotRecord R]

open Checked in
/-- The program that answers a question. -/
def Question.program : Question → Program (Memory R) (Answer R)
  | .size => do return .number (← Checked.size)
  | .isEmpty => do return .flag ((← Checked.size) == 0)
  | .records => do return .records (← live)
  | .get index => do return .record? (← live)[index]?
  | .recordAt index => do return .record (← readAt (← live) index)
  | .first => do return .record? (← live).head?
  | .last => do return .record? (← live).getLast?
  | .indexRange => do return .span ⟨0, ← Checked.size⟩
  | .findStart key expanded => do return .number (← Checked.findStart key expanded)
  | .findStop key expanded => do return .number (← Checked.findStop key expanded)
  | .limitSpan span selection => do return .span (← Checked.limitSpan span selection)
  | .visibleSpan keys selection => do return .span (← Checked.visibleSpan keys selection)
  | .keyExtent domain => do return .extent? (← Checked.keyExtent domain)
  | .valueExtent domain keys => do return .extent? (← Checked.valueExtent domain keys)

open Checked in
/-- The program of a question, run on the memory of a store, gives the answer of the
store, or panics where that is at fault, and leaves the memory as it is. -/
theorem Question.program_eq (q : Question) (s : Store R) (log : List Event) :
    q.program.run (Memory.of s log) =
      match q.answer s with
      | .ok answer => .ok answer (.of s log)
      | .error fault => .error (fault.panic s.buffer.pool) (.of s log) := by
  cases q with
  | size | isEmpty | indexRange => exact bind_ok (size_eq s log) _
  | records => exact bind_ok (live_eq s log) _
  | get index =>
    rw [answer, Store.get?_eq]
    exact bind_ok (live_eq s log) _
  | first =>
    rw [answer, Store.first?_eq]
    exact bind_ok (live_eq s log) _
  | last =>
    rw [answer, Store.last?_eq]
    exact bind_ok (live_eq s log) _
  | recordAt index =>
    rw [program, bind_ok (live_eq s log), answer, Store.recordAt_eq]
    cases h : s.toList[index]? with
    | some record => exact bind_ok (readAt_eq h _) _
    | none => exact bind_error (readAt_error h _) _
  | findStart key expanded => exact bind_ok (findStart_eq s key expanded log) _
  | findStop key expanded => exact bind_ok (findStop_eq s key expanded log) _
  | limitSpan span selection => exact bind_ok (limitSpan_eq s span selection log) _
  | visibleSpan keys selection => exact bind_ok (visibleSpan_eq s keys selection log) _
  | keyExtent domain => exact bind_ok (keyExtent_eq s domain log) _
  | valueExtent domain keys => exact bind_ok (valueExtent_eq s domain keys log) _

end Programs

end PlotSeries
