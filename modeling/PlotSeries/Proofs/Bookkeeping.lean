import PlotSeries.Proofs.Layout
import PlotSeries.Proofs.Stepwise

/-!
# The bookkeeping of an allocation

In every state that operations lead to, the pool and the records lie within the
slots allocated, so the three parts that a store reports add up to its capacity
(`allocation_bookkeeping`). An allocation gets smaller only by an operation that
replaces it or gives its tail back: `Operation.MayLower` lists these, and every other
operation keeps or raises the capacity (`Operation.grows_apply`).
-/

namespace PlotSeries

/-- A layout that holds what another one held, in no fewer slots. -/
structure Layout.Grows (a b : Layout) : Prop where
  fits : a.Fits → b.Fits
  capacity_le : a.capacity ≤ b.capacity

namespace Layout

theorem Grows.refl (a : Layout) : a.Grows a := ⟨id, Nat.le_refl _⟩

theorem grows_extend (a : Layout) (n : Nat) : a.Grows (a.extend n) :=
  ⟨fun _ => a.fits_extend n, a.capacity_le_extend n⟩

theorem grows_takePool (a : Layout) (n : Nat) : a.Grows (a.takePool n) := ⟨id, Nat.le_refl _⟩

theorem grows_growPool (a : Layout) (need : Nat) : a.Grows (a.growPool need) :=
  ⟨fun _ => a.fits_growPool need, a.capacity_le_growPool need⟩

theorem Grows.trans {a b c : Layout} (hab : a.Grows b) (hbc : b.Grows c) : a.Grows c :=
  ⟨fun h => hbc.fits (hab.fits h), Nat.le_trans hab.capacity_le hbc.capacity_le⟩

end Layout

variable {R : Type} [PlotRecord R]

theorem Store.grows_prepend (s : Store R) (records : List R) :
    s.layout.Grows (s.prepend records).value.layout := by
  rw [layout_prepend, Layout.prepend]
  split
  · exact s.layout.grows_takePool _
  · exact (s.layout.grows_growPool _).trans (Layout.grows_takePool _ _)

theorem Store.grows_add (s : Store R) (record : R) : s.layout.Grows (s.add record).value.layout := by
  rcases s.layout_add record with h | h
  · exact h ▸ s.layout.grows_extend 1
  · exact h ▸ s.grows_prepend [record]

theorem Store.grows_addBatch (s : Store R) {records : List R} (sorted : Bool)
    (h : records = [] ∨ s.toList ≠ []) : s.layout.Grows (s.addBatch records sorted).value.layout := by
  by_cases hs : s.toList = []
  · obtain rfl : records = [] := h.resolve_right fun hne => hne hs
    exact Layout.Grows.refl _
  · rcases s.layout_addBatch records sorted hs with h | h | h
    · exact h ▸ .refl _
    · exact h ▸ s.grows_prepend records
    · exact h ▸ s.layout.grows_extend _

namespace Operation

/-- The operation may leave fewer slots allocated: it brings an allocation of its own,
or it gives the tail back, because it is asked to or because its policy asks for it. -/
def MayLower (op : Operation R) (s : Store R) : Prop :=
  match op with
  | replace .. | collect _ | copy | reset => True
  | replaceCopy records _ => records ≠ []
  | addBatch records _ => records ≠ [] ∧ s.toList = []
  | squeeze request => request.tail = true
  | removeUpTo _ | removeFrom _ | removeBetween .. | removeKey _ | setAutoSqueeze _ =>
    ∃ t ∈ op.judged? s, t.policy.enabled = true ∧ (t.policy.evaluate t.stats).tail = true
  | add _ | clear | sort | write .. | edit _ | setPolicy _ => False

/-- The layout left by an operation that consults its policy. -/
theorem layout_apply_of_judged? {op : Operation R} {s t : Store R} (h : op.judged? s = some t) :
    (op.apply s).state.layout = t.layout.squeeze t.request := by
  rw [apply_of_judged? h]
  exact t.layout_autoSqueeze

omit [PlotRecord R] in
/-- Giving back what the policy asks for keeps all slots if it does not ask for the tail. -/
theorem grows_squeeze_request {a : Layout} {t : Store R} (h : a.Grows t.layout)
    (ht : ¬(t.policy.enabled = true ∧ (t.policy.evaluate t.stats).tail = true)) :
    a.Grows (t.layout.squeeze t.request) := by
  have htail : t.request.tail = false := by
    unfold Store.request
    split
    next hen => exact eq_false_of_ne_true fun hreq => ht ⟨hen, hreq⟩
    next => rfl
  exact ⟨fun ha => (h.fits ha).squeeze _,
    (t.layout.capacity_squeeze_of_not_tail htail).symm ▸ h.capacity_le⟩

theorem grows_judged? {op : Operation R} {s t : Store R} (h : op.judged? s = some t) :
    s.layout.Grows t.layout :=
  have hwithin := layout_judged? h
  ⟨fun hs => hs.within hwithin, Nat.le_of_eq hwithin.capacity_eq.symm⟩

theorem grows_removal {op : Operation R} (hop : op.isRemoval = true) {s : Store R}
    (h : ∀ t ∈ op.judged? s, ¬(t.policy.enabled = true ∧ (t.policy.evaluate t.stats).tail = true)) :
    s.layout.Grows (op.apply s).state.layout := by
  cases hjudged : op.judged? s with
  | none => rw [apply_of_judged?_eq_none hop hjudged]; exact .refl _
  | some t =>
    rw [layout_apply_of_judged? hjudged]
    exact grows_squeeze_request (grows_judged? hjudged) (h t hjudged)

theorem grows_setAutoSqueeze {enabled : Bool} {s : Store R}
    (h : ∀ t ∈ (setAutoSqueeze enabled).judged? s,
      ¬(t.policy.enabled = true ∧ (t.policy.evaluate t.stats).tail = true)) :
    s.layout.Grows ((setAutoSqueeze enabled).apply s).state.layout := by
  cases hjudged : (setAutoSqueeze enabled).judged? s with
  | none =>
    have hlayout : ((setAutoSqueeze enabled).apply s).state.layout = s.layout := by
      simp only [judged?] at hjudged
      split at hjudged
      next => cases hjudged
      next hen =>
        simp only [apply, Store.setAutoSqueeze]
        split
        · rfl
        · cases enabled with
          | false => rfl
          | true => exact absurd ⟨rfl, by simpa using ‹¬s.policy.enabled = true›⟩ hen
    rw [hlayout]
    exact .refl _
  | some t =>
    rw [layout_apply_of_judged? hjudged]
    exact grows_squeeze_request (grows_judged? hjudged) (h t hjudged)

/-- An operation that is not listed keeps what is allocated. -/
theorem grows_apply {op : Operation R} {s : Store R} (h : ¬op.MayLower s) :
    s.layout.Grows (op.apply s).state.layout := by
  have hnone {o : Option (Store R)} {P : Store R → Prop} (h : ¬∃ t ∈ o, P t) : ∀ t ∈ o, ¬P t :=
    fun t ht hP => h ⟨t, ht, hP⟩
  cases op with
  | replace | collect | copy | reset => exact absurd trivial h
  | replaceCopy records sorted =>
    obtain rfl : records = [] := Classical.not_not.1 h
    exact ⟨fun _ => Nat.zero_le _, Nat.le_refl _⟩
  | addBatch records sorted =>
    refine s.grows_addBatch sorted ?_
    by_cases hrecords : records = []
    · exact .inl hrecords
    · exact .inr fun hs => h ⟨hrecords, hs⟩
  | add record => exact s.grows_add record
  | clear => exact ⟨fun _ => Nat.zero_le _, Nat.le_refl _⟩
  | sort => exact s.layout_sort ▸ .refl _
  | squeeze request =>
    refine ⟨fun hs => ?_, ?_⟩
    · exact (s.layout_squeeze request).symm ▸ hs.squeeze request
    · have hcapacity := s.layout.capacity_squeeze_of_not_tail (eq_false_of_ne_true h)
      exact Nat.le_of_eq (((congrArg Layout.capacity (s.layout_squeeze request)).trans hcapacity).symm)
  | write index record =>
    have hlayout : ((write index record).apply s).state.layout = s.layout := by
      simp only [apply, Store.write]
      split
      next hlt => exact Buffer.layout_set s.buffer index record hlt
      next => rfl
    exact hlayout ▸ .refl _
  | edit writes =>
    have hlayout : ((edit writes).apply s).state.layout = s.layout :=
      (Store.layout_sort _).trans (s.layout_writeAll writes)
    exact hlayout ▸ .refl _
  | setPolicy policy => exact .refl _
  | setAutoSqueeze enabled => exact grows_setAutoSqueeze (hnone h)
  | removeUpTo | removeFrom | removeBetween | removeKey => exact grows_removal rfl (hnone h)

/-- The slots in use are allocated, after any operation. -/
theorem fits_apply {op : Operation R} {s : Store R} (hs : s.layout.Fits) :
    (op.apply s).state.layout.Fits := by
  by_cases hlower : op.MayLower s
  · cases op with
    | replace records spare sorted =>
      simp only [apply, Store.layout_replace, Layout.Fits]
      omega
    | collect records =>
      exact (Store.layout_replace .empty records 0 false).symm ▸ Nat.le_refl _
    | copy => exact Nat.le_refl _
    | reset => exact Nat.le_refl _
    | replaceCopy records sorted =>
      have hclear : s.clear.toList = [] := Buffer.toList_clear _
      have hlayout := s.clear.layout_addBatch_of_nil records sorted hclear
      rw [if_neg hlower] at hlayout
      exact hlayout.symm ▸ Nat.le_refl _
    | addBatch records sorted =>
      have hlayout := s.layout_addBatch_of_nil records sorted hlower.2
      rw [if_neg hlower.1] at hlayout
      exact hlayout.symm ▸ Nat.le_refl _
    | squeeze request => exact (s.layout_squeeze request).symm ▸ hs.squeeze request
    | setAutoSqueeze | removeUpTo | removeFrom | removeBetween | removeKey =>
      obtain ⟨t, ht, -⟩ := hlower
      rw [layout_apply_of_judged? ht]
      exact (hs.within (layout_judged? ht)).squeeze _
    | add | clear | sort | write | edit | setPolicy => exact absurd hlower id
  · exact (grows_apply hlower).fits hs

theorem fits_run (ops : List (Operation R)) {s : Store R} (hs : s.layout.Fits) :
    (run ops s).state.layout.Fits :=
  (Throughout.of_forall (P := fun _ _ => True) (fun _ _ => trivial) ops s).invariant
    (I := fun s => s.layout.Fits) (fun _ => fits_apply) hs

end Operation

/-- In every state that operations lead to, from any policy on, the pool and the
records lie within the slots allocated, and the tail that is reported is what is left
of them. The capacity gets lower only by an operation that may lower it; adding a
record, or a batch to records, never does. -/
theorem allocation_bookkeeping (policy : SqueezePolicy) (ops : List (Operation R)) :
    let s := (Operation.run ops { policy }).state
    s.buffer.pool + s.size ≤ s.buffer.capacity ∧
      (s.stats.live ≤ s.stats.total ∧ s.stats.pool ≤ s.stats.total - s.stats.live) ∧
      (s.stats.tail : Int) = (s.buffer.capacity : Int) - s.buffer.pool - s.size ∧
      (∀ op : Operation R,
        (op.apply s).state.buffer.capacity < s.buffer.capacity → op.MayLower s) ∧
      (∀ record, s.buffer.capacity ≤ (s.add record).value.buffer.capacity) ∧
      ∀ records sorted, s.toList ≠ [] →
        s.buffer.capacity ≤ (s.addBatch records sorted).value.buffer.capacity := by
  intro s
  have hfits : s.buffer.slots.size ≤ s.buffer.capacity :=
    Operation.fits_run ops (s := { policy }) (Nat.le_refl _)
  have hsize := s.buffer.pool_add_size
  have hle : s.buffer.pool + s.size ≤ s.buffer.capacity := by
    rw [Store.size]
    omega
  refine ⟨hle, ?_, ?_, fun op hlt => ?_, fun record => (s.grows_add record).capacity_le,
    fun records sorted hs => (s.grows_addBatch sorted (.inr hs)).capacity_le⟩
  · simp only [Store.stats]
    omega
  · simp only [AllocationStats.tail, Store.stats]
    omega
  · refine Classical.byContradiction fun hnot => ?_
    exact absurd (Operation.grows_apply hnot).capacity_le (Nat.not_le.2 hlt)

end PlotSeries
