import PlotSeries.Proofs.Checked.Program
import PlotSeries.Store.Query

/-!
# Index ranges as sets of indices

Which indices a range covers, and what overlaps and clamping do to them. The overlap of two
ranges covers the indices that both cover (`mem_inter`). As a value it depends on neither
the order nor the grouping of the ranges (`inter_comm`, `inter_assoc`), because one that
would be out of order is the empty range at 0, whose overlap with any range is itself
(`empty_inter`).

A range clamped to another one covers the same indices (`mem_clampTo`), whether or not the
bounds of either are in order, and its own bounds are in order and between those of the
other (`between_clampTo`). What has been clamped stays where it is (`clampTo_clampTo`). A
range that shares no index with the other one goes to the closer end of it
(`clampTo_of_nonempty_disjoint`), but an empty range between the bounds of the other one
goes to its stop in any case (`clampTo_of_empty`). Therefore `Store.limitSpan` keeps the
indices of records that lie in the selection, and nothing else (`Store.mem_limitSpan`).
-/

namespace PlotSeries

namespace IndexRange

/-- The indices that a range covers. -/
instance : Membership Nat IndexRange := ⟨fun a i => a.start ≤ i ∧ i < a.stop⟩

variable {a b : IndexRange} {i : Nat}

theorem mem_iff : i ∈ a ↔ a.start ≤ i ∧ i < a.stop := Iff.rfl

instance (i : Nat) (a : IndexRange) : Decidable (i ∈ a) :=
  inferInstanceAs (Decidable (_ ∧ _))

theorem isEmpty_iff : a.isEmpty = true ↔ a.stop ≤ a.start := by
  rw [isEmpty, beq_iff_eq, size]
  omega

theorem isEmpty_eq_false_iff : a.isEmpty = false ↔ a.start < a.stop := by
  rw [← Bool.not_eq_true, isEmpty_iff, Nat.not_le]

theorem isOrdered_iff : a.isOrdered = true ↔ a.start ≤ a.stop := decide_eq_true_iff

theorem encloses_iff : a.encloses b = true ↔ a.start ≤ b.start ∧ b.stop ≤ a.stop := by
  rw [encloses, Bool.and_eq_true, decide_eq_true_iff, decide_eq_true_iff]

/-- A range is empty exactly if it covers no index. -/
theorem exists_mem_iff : (∃ i, i ∈ a) ↔ a.isEmpty = false := by
  rw [isEmpty_eq_false_iff]
  constructor
  · rintro ⟨i, hstart, hstop⟩
    omega
  · intro h
    exact ⟨a.start, Nat.le_refl _, h⟩

/-! ## Overlaps -/

theorem inter_eq (a b : IndexRange) :
    a.inter b =
      if max a.start b.start ≤ min a.stop b.stop then ⟨max a.start b.start, min a.stop b.stop⟩
      else empty := by
  simp only [inter, isOrdered_iff]

theorem mem_inter : i ∈ a.inter b ↔ i ∈ a ∧ i ∈ b := by
  rw [inter_eq]
  split
  · simp only [mem_iff]
    omega
  · simp only [mem_iff, empty]
    omega

theorem isOrdered_inter (a b : IndexRange) : (a.inter b).isOrdered = true := by
  rw [inter_eq, isOrdered_iff]
  split
  next h => exact h
  next => exact Nat.le_refl _

theorem inter_comm (a b : IndexRange) : a.inter b = b.inter a := by
  rw [inter_eq, inter_eq b a, Nat.max_comm, Nat.min_comm]

/-- Nothing overlaps the empty range at 0, and its overlap stays there. -/
theorem empty_inter (a : IndexRange) : empty.inter a = empty := by
  have hstop : min empty.stop a.stop = 0 := Nat.zero_min _
  rw [inter_eq, hstop]
  split
  next h =>
    rw [Nat.le_zero.1 h]
    rfl
  next => rfl

/-- The overlap of three ranges lies between the last of their starts and the first of
their stops. -/
theorem inter_inter_eq (a b c : IndexRange) :
    (a.inter b).inter c =
      if max (max a.start b.start) c.start ≤ min (min a.stop b.stop) c.stop then
        ⟨max (max a.start b.start) c.start, min (min a.stop b.stop) c.stop⟩
      else empty := by
  rw [inter_eq a b]
  split
  next h => exact inter_eq _ c
  next h =>
    -- the first two miss each other, so all three do
    rw [empty_inter, if_neg (by omega)]

theorem inter_assoc (a b c : IndexRange) : (a.inter b).inter c = a.inter (b.inter c) := by
  have hstart : max (max b.start c.start) a.start = max (max a.start b.start) c.start := by omega
  have hstop : min (min b.stop c.stop) a.stop = min (min a.stop b.stop) c.stop := by omega
  rw [inter_comm a (b.inter c), inter_inter_eq, inter_inter_eq, hstart, hstop]

/-- The overlap covers an index if the last of the starts lies before the first of the stops. -/
theorem isEmpty_inter_eq_false_iff :
    (a.inter b).isEmpty = false ↔ max a.start b.start < min a.stop b.stop := by
  rw [isEmpty_eq_false_iff, inter_eq]
  split
  next => exact Iff.rfl
  next h =>
    constructor
    · intro hempty
      exact absurd hempty (Nat.lt_irrefl _)
    · intro hlt
      exact absurd (Nat.le_of_lt hlt) h

theorem meets_iff_inter : a.meets b = true ↔ (a.inter b).isEmpty = false := by
  rw [isEmpty_inter_eq_false_iff]
  simp only [meets, Bool.and_eq_true, Bool.not_eq_true', isEmpty_eq_false_iff, decide_eq_true_iff]
  omega

/-- Two ranges meet exactly if they share an index. -/
theorem meets_iff : a.meets b = true ↔ ∃ i, i ∈ a ∧ i ∈ b := by
  rw [meets_iff_inter, ← exists_mem_iff]
  exact exists_congr fun i => mem_inter

/-! ## Clamping -/

/-- The overlap where there is one, and otherwise an end of the range clamped to. -/
theorem clampTo_eq (a b : IndexRange) :
    a.clampTo b =
      if max a.start b.start < min a.stop b.stop then ⟨max a.start b.start, min a.stop b.stop⟩
      else if a.stop ≤ b.start then ⟨b.start, b.start⟩ else ⟨b.stop, b.stop⟩ := by
  by_cases h : max a.start b.start < min a.stop b.stop
  · have hinter : a.inter b = ⟨max a.start b.start, min a.stop b.stop⟩ := by
      rw [inter_eq, if_pos (Nat.le_of_lt h)]
    have hne : (!(a.inter b).isEmpty) = true := by rw [isEmpty_inter_eq_false_iff.2 h]; rfl
    rw [if_pos h, clampTo, if_pos hne, hinter]
  · have hempty : ¬(!(a.inter b).isEmpty) = true := by
      rw [Bool.not_eq_true', isEmpty_inter_eq_false_iff]
      exact h
    rw [if_neg h, clampTo, if_neg hempty]

/-- A range clamped to another one covers what both cover. -/
theorem mem_clampTo : i ∈ a.clampTo b ↔ i ∈ a ∧ i ∈ b := by
  rw [clampTo_eq]
  split
  · simp only [mem_iff]
    omega
  · split
    · simp only [mem_iff]
      omega
    · simp only [mem_iff]
      omega

theorem isOrdered_clampTo (a b : IndexRange) : (a.clampTo b).isOrdered = true := by
  rw [clampTo_eq, isOrdered_iff]
  split
  next h => exact Nat.le_of_lt h
  next => split <;> exact Nat.le_refl _

/-- The bounds of a range are in order and between those of another one. -/
structure Between (a b : IndexRange) : Prop where
  le_start : b.start ≤ a.start
  start_le_stop : a.start ≤ a.stop
  stop_le : a.stop ≤ b.stop

theorem between_clampTo (a : IndexRange) (hb : b.start ≤ b.stop) : (a.clampTo b).Between b := by
  rw [clampTo_eq]
  split
  next h => exact ⟨Nat.le_max_right _ _, Nat.le_of_lt h, Nat.min_le_right _ _⟩
  next =>
    split
    · exact ⟨Nat.le_refl _, Nat.le_refl _, hb⟩
    · exact ⟨hb, Nat.le_refl _, Nat.le_refl _⟩

theorem Between.ordered_eq (h : a.Between b) : a.ordered = a := by
  rw [ordered, Nat.max_eq_left h.start_le_stop]

/-- A range clamped to one within it becomes that one. -/
theorem Between.clampTo_eq_right (h : b.Between a) : a.clampTo b = b := by
  obtain ⟨start, stop⟩ := b
  have hle : start ≤ stop := h.start_le_stop
  rw [clampTo_eq, Nat.max_eq_right h.le_start, Nat.min_eq_right h.stop_le]
  split
  next => rfl
  next hempty =>
    obtain rfl : start = stop := Nat.le_antisymm hle (Nat.not_lt.1 hempty)
    exact ite_self _

theorem Between.encloses (h : a.Between b) : b.encloses a = true :=
  encloses_iff.2 ⟨h.le_start, h.stop_le⟩

/-- A range that covers an index and lies within another one stays as it is. -/
theorem Between.clampTo_eq_left (h : a.Between b) (hne : a.start < a.stop) : a.clampTo b = a := by
  rw [clampTo_eq, Nat.max_eq_left h.le_start, Nat.min_eq_left h.stop_le, if_pos hne]

/-- The empty ranges at the ends of another one stay where they are. -/
theorem end_clampTo {x : Nat} (hx : x = b.start ∨ x = b.stop) (hb : b.start ≤ b.stop) :
    (⟨x, x⟩ : IndexRange).clampTo b = ⟨x, x⟩ := by
  have hempty : ¬max x b.start < min x b.stop := by omega
  rw [clampTo_eq, if_neg hempty]
  rcases hx with rfl | rfl
  · exact if_pos (Nat.le_refl _)
  · split
    next h => rw [Nat.le_antisymm h hb]
    next => rfl

/-- Clamping to the same range again changes nothing. -/
theorem clampTo_clampTo (a : IndexRange) (hb : b.start ≤ b.stop) :
    (a.clampTo b).clampTo b = a.clampTo b := by
  have hbetween := between_clampTo a hb
  rw [clampTo_eq a b] at hbetween ⊢
  split at hbetween
  next h =>
    rw [if_pos h]
    exact hbetween.clampTo_eq_left h
  next h =>
    rw [if_neg h]
    split
    · exact end_clampTo (.inl rfl) hb
    · exact end_clampTo (.inr rfl) hb

/-- A range that shares no index with another one is moved to an end of that one. -/
theorem clampTo_of_disjoint (h : ¬∃ i, i ∈ a ∧ i ∈ b) :
    a.clampTo b = if a.stop ≤ b.start then ⟨b.start, b.start⟩ else ⟨b.stop, b.stop⟩ := by
  rw [← meets_iff, meets_iff_inter, isEmpty_inter_eq_false_iff] at h
  rw [clampTo_eq, if_neg h]

/-! ### The nearest end -/

/-- How far an index is from the bounds of a range and what lies between them. -/
def distance (a : IndexRange) (i : Nat) : Nat := (a.start - i) + (i - a.stop)

/-- The empty range `c` stands at an end of `b`, and the other end is no closer to `a`. -/
def AtNearestEnd (a b c : IndexRange) : Prop :=
  (c = ⟨b.start, b.start⟩ ∧ a.distance b.start ≤ a.distance b.stop) ∨
    (c = ⟨b.stop, b.stop⟩ ∧ a.distance b.stop ≤ a.distance b.start)

instance (a b c : IndexRange) : Decidable (a.AtNearestEnd b c) :=
  inferInstanceAs (Decidable (_ ∨ _))

/-- The range is empty, lies strictly between the bounds of `b` and is closer to its start. -/
def EmptyNearStart (a b : IndexRange) : Prop :=
  b.start < a.start ∧ a.stop = a.start ∧ a.distance b.start < a.distance b.stop

instance (a b : IndexRange) : Decidable (a.EmptyNearStart b) :=
  inferInstanceAs (Decidable (_ ∧ _ ∧ _))

/-- A range that covers an index, but none of an ordered one, goes to its nearest end. -/
theorem clampTo_of_nonempty_disjoint (ha : a.start < a.stop) (hb : b.start ≤ b.stop)
    (h : ¬∃ i, i ∈ a ∧ i ∈ b) : a.AtNearestEnd b (a.clampTo b) := by
  rw [clampTo_of_disjoint h]
  rw [← meets_iff, meets_iff_inter, isEmpty_inter_eq_false_iff] at h
  split
  next hle => exact .inl ⟨rfl, by simp only [distance]; omega⟩
  next hlt =>
    -- it starts behind the other one, or that one is empty
    exact .inr ⟨rfl, by simp only [distance]; omega⟩

/-- A range without an index shares none with any other. -/
theorem not_exists_mem_of_empty (ha : a.stop ≤ a.start) : ¬∃ i, i ∈ a ∧ i ∈ b := by
  rintro ⟨i, ⟨hstart, hstop⟩, -⟩
  omega

/-- A range without an index goes to the start of the other one if it lies at or before it, and
else to its stop, however far that is. -/
theorem clampTo_of_empty (ha : a.stop = a.start) :
    a.clampTo b = if a.start ≤ b.start then ⟨b.start, b.start⟩ else ⟨b.stop, b.stop⟩ := by
  rw [clampTo_of_disjoint (not_exists_mem_of_empty (Nat.le_of_eq ha)), ha]

theorem atNearestEnd_clampTo_of_empty (ha : a.stop = a.start) (hb : b.start ≤ b.stop) :
    a.AtNearestEnd b (a.clampTo b) ↔ ¬a.EmptyNearStart b := by
  rw [clampTo_of_empty ha]
  simp only [AtNearestEnd, EmptyNearStart, distance]
  split
  next hle =>
    refine ⟨fun _ hnear => ?_, fun _ => .inl ⟨rfl, by omega⟩⟩
    exact absurd hnear.1 (Nat.not_lt.2 hle)
  next hlt =>
    constructor
    · rintro (⟨heq, hle⟩ | ⟨-, hle⟩) ⟨-, -, hnear⟩
      · -- both ends are in one place
        have hends : b.stop = b.start := congrArg start heq
        omega
      · omega
    · intro hfar
      exact .inr ⟨rfl, by omega⟩

/-- A range that covers an index lies before a place exactly if it stops there or earlier. -/
theorem stop_le_iff (ha : a.isEmpty = false) {x : Nat} : a.stop ≤ x ↔ ∀ i ∈ a, i < x := by
  rw [isEmpty_eq_false_iff] at ha
  constructor
  · rintro h i ⟨-, hi⟩
    omega
  · intro h
    have hlast := h (a.stop - 1) ⟨by omega, by omega⟩
    omega

end IndexRange

namespace Store

variable {R : Type} (s : Store R) (span selection : IndexRange)

theorem indexRange_ordered : s.indexRange.start ≤ s.indexRange.stop := Nat.zero_le _

theorem limitSpan_eq_clampTo :
    s.limitSpan span selection = span.clampTo (selection.clampTo s.indexRange) := by
  have hselection := IndexRange.between_clampTo selection s.indexRange_ordered
  exact (IndexRange.between_clampTo span hselection.start_le_stop).ordered_eq

theorem between_limitSpan : (s.limitSpan span selection).Between s.indexRange := by
  have hselection := IndexRange.between_clampTo selection s.indexRange_ordered
  have hspan := IndexRange.between_clampTo span hselection.start_le_stop
  rw [limitSpan_eq_clampTo]
  exact ⟨Nat.zero_le _, hspan.start_le_stop, Nat.le_trans hspan.stop_le hselection.stop_le⟩

/-- What is kept of a span are the indices of records that lie in the selection. -/
theorem mem_limitSpan {i : Nat} :
    i ∈ s.limitSpan span selection ↔ i ∈ span ∧ i ∈ selection ∧ i ∈ s.indexRange := by
  rw [limitSpan_eq_clampTo, IndexRange.mem_clampTo, IndexRange.mem_clampTo]

/-- A selection that covers all records does not restrict a span of records. -/
theorem limitSpan_of_all (h : s.indexRange.Between selection) :
    s.limitSpan span selection = span.clampTo s.indexRange := by
  rw [limitSpan_eq_clampTo, h.clampTo_eq_right]

/-- What has been limited to a selection stays as it is under the same selection. -/
theorem limitSpan_limitSpan :
    s.limitSpan (s.limitSpan span selection) selection = s.limitSpan span selection := by
  have hselection := IndexRange.between_clampTo selection s.indexRange_ordered
  rw [limitSpan_eq_clampTo, limitSpan_eq_clampTo,
    IndexRange.clampTo_clampTo span hselection.start_le_stop]

end Store

/-- Overlapping and clamping are operations on sets of indices, for ranges of any bounds.
The overlap of two ranges is an ordered range that covers what both cover, and it depends
on neither their order nor their grouping; it covers an index exactly if the two meet,
that is, if they share one. A range clamped to another one is ordered and covers the same;
if the other one is ordered, it encloses the result and clamping to it again changes
nothing. A range that covers an index, but none of an ordered range it is clamped to, goes
to the start of that one if it lies before it, and to its stop otherwise. -/
theorem indexRange_algebra (a b c : IndexRange) :
    ((∀ i, i ∈ a.inter b ↔ i ∈ a ∧ i ∈ b) ∧ (a.inter b).isOrdered = true ∧
        a.inter b = b.inter a ∧ (a.inter b).inter c = a.inter (b.inter c)) ∧
      ((a.meets b = true ↔ ∃ i, i ∈ a ∧ i ∈ b) ∧
        (a.meets b = true ↔ (a.inter b).isEmpty = false)) ∧
      ((∀ i, i ∈ a.clampTo b ↔ i ∈ a ∧ i ∈ b) ∧ (a.clampTo b).isOrdered = true) ∧
      (b.isOrdered = true →
        b.encloses (a.clampTo b) = true ∧ (a.clampTo b).clampTo b = a.clampTo b) ∧
      (a.isEmpty = false → b.isOrdered = true → (¬∃ i, i ∈ a ∧ i ∈ b) →
        (a.stop ≤ b.start ↔ ∀ i ∈ a, i < b.start) ∧
          a.clampTo b = if a.stop ≤ b.start then ⟨b.start, b.start⟩ else ⟨b.stop, b.stop⟩) := by
  refine ⟨⟨fun i => IndexRange.mem_inter, a.isOrdered_inter b, a.inter_comm b, a.inter_assoc b c⟩,
    ⟨IndexRange.meets_iff, IndexRange.meets_iff_inter⟩,
    ⟨fun i => IndexRange.mem_clampTo, a.isOrdered_clampTo b⟩, fun hb => ?_, fun ha _ hmiss => ?_⟩
  · rw [IndexRange.isOrdered_iff] at hb
    exact ⟨(IndexRange.between_clampTo a hb).encloses, IndexRange.clampTo_clampTo a hb⟩
  · exact ⟨IndexRange.stop_le_iff ha, IndexRange.clampTo_of_disjoint hmiss⟩

/-- A range behind another one goes to its stop; the overlaps with a third range, whose
bounds are out of order, do not depend on the grouping. -/
theorem separateRanges_algebra :
    let a : IndexRange := ⟨12, 15⟩
    let b : IndexRange := ⟨5, 9⟩
    let c : IndexRange := ⟨7, 2⟩
    a.isEmpty = false ∧ b.isOrdered = true ∧ (¬∃ i, i ∈ a ∧ i ∈ b) ∧ a.clampTo b = ⟨9, 9⟩ ∧
      (a.clampTo b).clampTo b = a.clampTo b ∧ (a.inter b).inter c = a.inter (b.inter c) := by
  intro a b c
  have hmiss : ¬∃ i, i ∈ a ∧ i ∈ b := by
    rintro ⟨i, ⟨hstart, -⟩, -, hstop⟩
    exact absurd (Nat.lt_of_le_of_lt hstart hstop) (by decide)
  obtain ⟨⟨-, -, -, hassoc⟩, -, -, hordered, hdisjoint⟩ := indexRange_algebra a b c
  exact ⟨rfl, rfl, hmiss, (hdisjoint rfl rfl hmiss).2, (hordered rfl).2, hassoc⟩

/-- A range that shares no index with another one becomes an empty range at an end of that
one, and it is the end closer to it, whichever it is on a tie, with one exception: an empty
range strictly between the bounds of the other one goes to its stop even where the start is
closer. -/
theorem clampTo_atNearestEnd_iff {a b : IndexRange} (ha : a.isOrdered = true)
    (hb : b.isOrdered = true) (hmiss : ¬∃ i, i ∈ a ∧ i ∈ b) :
    (a.AtNearestEnd b (a.clampTo b) ↔ ¬a.EmptyNearStart b) ∧
      (a.EmptyNearStart b → a.clampTo b = ⟨b.stop, b.stop⟩) := by
  rw [IndexRange.isOrdered_iff] at ha hb
  rcases Nat.eq_or_lt_of_le ha with hempty | hlt
  · refine ⟨IndexRange.atNearestEnd_clampTo_of_empty hempty.symm hb, ?_⟩
    rintro ⟨hinside, -, -⟩
    rw [IndexRange.clampTo_of_empty hempty.symm, if_neg (Nat.not_le.2 hinside)]
  · have hnonempty : ¬a.EmptyNearStart b := fun h => absurd h.2.1 (Nat.ne_of_gt hlt)
    exact ⟨iff_of_true (IndexRange.clampTo_of_nonempty_disjoint hlt hb hmiss) hnonempty,
      fun h => absurd h hnonempty⟩

/-- An empty range in the second half of another one goes to the stop, which is closer. -/
theorem lateEmpty_atNearestEnd :
    let a : IndexRange := ⟨7, 7⟩
    let b : IndexRange := ⟨1, 9⟩
    a.isOrdered = true ∧ b.isOrdered = true ∧ (¬∃ i, i ∈ a ∧ i ∈ b) ∧ ¬a.EmptyNearStart b ∧
      a.clampTo b = ⟨9, 9⟩ ∧ a.AtNearestEnd b ⟨9, 9⟩ := by
  intro a b
  have hmiss : ¬∃ i, i ∈ a ∧ i ∈ b := IndexRange.not_exists_mem_of_empty (Nat.le_refl 7)
  have hfar : ¬a.EmptyNearStart b := by decide
  exact ⟨rfl, rfl, hmiss, hfar, rfl, (clampTo_atNearestEnd_iff rfl rfl hmiss).1.2 hfar⟩

/-- An empty range in the first half goes to the stop as well, seven times as far away as the
start. -/
theorem earlyEmpty_not_atNearestEnd :
    let a : IndexRange := ⟨2, 2⟩
    let b : IndexRange := ⟨1, 9⟩
    a.isOrdered = true ∧ b.isOrdered = true ∧ (¬∃ i, i ∈ a ∧ i ∈ b) ∧ a.clampTo b = ⟨9, 9⟩ ∧
      a.distance b.start = 1 ∧ a.distance b.stop = 7 ∧ ¬a.AtNearestEnd b (a.clampTo b) := by
  intro a b
  have hmiss : ¬∃ i, i ∈ a ∧ i ∈ b := IndexRange.not_exists_mem_of_empty (Nat.le_refl 2)
  exact ⟨rfl, rfl, hmiss, rfl, rfl, rfl, by decide⟩

/-- What is kept of a span has its bounds in order and among the records, so that it can be
cut out of them, whatever the bounds of the span and of the selection are. It covers the
indices of records that lie in the span and in the selection, and no others, and the same
selection keeps all of it. -/
theorem limitSpan_covers_selected {R : Type} (s : Store R) (span selection : IndexRange) :
    let kept := s.limitSpan span selection
    (kept.start ≤ kept.stop ∧ kept.stop ≤ s.size) ∧
      (∀ {σ : Type} (m : σ),
        (Checked.slice s.toList kept.start kept.stop).run m =
          .ok ((s.toList.take kept.stop).drop kept.start) m) ∧
      (∀ i, i ∈ kept ↔
        i < s.size ∧ (span.start ≤ i ∧ i < span.stop) ∧
          (selection.start ≤ i ∧ i < selection.stop)) ∧
      s.limitSpan kept selection = kept := by
  intro kept
  have hbetween : kept.Between s.indexRange := s.between_limitSpan span selection
  have hlength : s.toList.length = s.size := Buffer.length_toList s.buffer
  refine ⟨⟨hbetween.start_le_stop, hbetween.stop_le⟩, fun m => ?_, fun i => ?_,
    s.limitSpan_limitSpan span selection⟩
  · have hstop : kept.stop ≤ s.toList.length := by
      rw [hlength]
      exact hbetween.stop_le
    exact Checked.slice_eq hbetween.start_le_stop hstop m
  · have hmem : i ∈ kept ↔ i ∈ span ∧ i ∈ selection ∧ i ∈ s.indexRange :=
      s.mem_limitSpan span selection
    rw [hmem]
    constructor
    · rintro ⟨hspan, hselection, -, hsize⟩
      exact ⟨hsize, hspan, hselection⟩
    · rintro ⟨hsize, hspan, hselection⟩
      exact ⟨hspan, hselection, Nat.zero_le i, hsize⟩

end PlotSeries
