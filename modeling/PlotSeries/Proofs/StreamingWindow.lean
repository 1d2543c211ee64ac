import PlotSeries.Proofs.Layout
import PlotSeries.Proofs.Stepwise
import PlotSeries.Proofs.Thresholds
import PlotSeries.Record.Kinds

/-!
# The memory of a streaming window

A window of a stream gains records at or behind its first one and loses records
anywhere. Removals in front leave their slots in the pool, and nothing looks at the
layout when a record is added; still the allocation stays within a bound that depends
only on the largest number of records held at once, however long the stream is
(`capacity_le_windowCapacity`).

The reason is that every removal is followed by a judgement of the layout, after
which the pool is either given back or within `windowPool`; adding records does not
change the pool, so an allocation that doubles is at most the pool and the records.
-/

namespace PlotSeries

variable {R : Type} [PlotRecord R]

/-! ## Streams -/

namespace Operation

/-- The operation adds a record that is not below the first one, or removes records
by their keys. -/
def streams (op : Operation R) (s : Store R) : Bool :=
  match op with
  | add record => s.first?.all fun first => !keyLess (sortKey record) (sortKey first)
  | removeUpTo _ | removeFrom _ | removeBetween .. | removeKey _ => true
  | _ => false

/-- The policy compares the counts of the layout it is shown as integers. -/
def JudgedExactly (op : Operation R) (s : Store R) : Prop :=
  ∀ t ∈ op.judged? s, t.policy.evaluate t.stats = t.stats.excess

end Operation

/-! ## Bounds -/

/-- The pool that a store of at most `window` records may keep. -/
def windowPool (window : Nat) : Nat := max 1000 (3 * window / 2)

/-- The slots that a store of at most `window` records may have allocated. -/
def windowCapacity (window : Nat) : Nat := 2 * windowPool window + 2 * window

/-- A pool that does not exceed the thresholds is in bounds, in each of the three sizes
of allocations. -/
theorem AllocationStats.pool_le_windowPool {stats : AllocationStats} {window : Nat}
    (hpool : stats.pool ≤ stats.total) (hlive : stats.live ≤ window)
    (h : stats.excess.pool = false) : stats.pool ≤ windowPool window := by
  unfold excess at h
  unfold windowPool
  split at h
  · rw [decide_eq_false_iff_not] at h
    omega
  · split at h
    · rw [decide_eq_false_iff_not] at h
      omega
    · omega

/-- A store that has never held more than `window` records. -/
structure WithinWindow (window : Nat) (s : Store R) : Prop where
  policy_eq : s.policy = .standard
  fits : s.layout.Fits
  pool_le : s.layout.pool ≤ windowPool window
  capacity_le : s.layout.capacity ≤ windowCapacity window

namespace WithinWindow

variable {window : Nat} {s t : Store R}

omit [PlotRecord R] in
theorem empty (window : Nat) : WithinWindow window (Store.empty : Store R) :=
  ⟨rfl, Nat.le_refl _, Nat.zero_le _, Nat.zero_le _⟩

omit [PlotRecord R] in
/-- One more slot behind the others: if the allocation has to grow, all of it was pool
and records. -/
theorem extend (h : WithinWindow window s) (hpolicy : t.policy = s.policy)
    (hlayout : t.layout = s.layout.extend 1) (hsize : t.size ≤ window) :
    WithinWindow window t := by
  have hpool := s.layout_pool_le
  have hsizes : t.size = s.layout.used + 1 - s.layout.pool := by
    rw [Store.size_eq_layout, hlayout]
    rfl
  refine ⟨hpolicy.trans h.policy_eq, hlayout ▸ s.layout.fits_extend 1, hlayout ▸ h.pool_le, ?_⟩
  have hfits : s.layout.used ≤ s.layout.capacity := h.fits
  have hpool_le := h.pool_le
  have hcapacity_le := h.capacity_le
  have hthousand : 1000 ≤ windowPool window := Nat.le_max_left _ _
  rw [hlayout]
  show capacityFor s.layout.capacity (s.layout.used + 1) ≤ _
  unfold windowCapacity capacityFor at *
  split <;> omega

omit [PlotRecord R] in
/-- What the policy leaves of a layout in the same allocation. -/
theorem squeeze (h : WithinWindow window s) (hpolicy : t.policy = s.policy)
    (hwithin : t.layout.Within s.layout) (hsize : t.size ≤ window)
    (hexact : t.policy.evaluate t.stats = t.stats.excess) :
    WithinWindow window t.autoSqueeze.value := by
  have hfits := h.fits.within hwithin
  have hrequest : t.request = t.stats.excess := by
    rw [Store.request, hexact, if_pos (by rw [hpolicy, h.policy_eq]; rfl)]
  refine ⟨?_, ?_, ?_, ?_⟩
  · rw [t.policy_autoSqueeze, hpolicy, h.policy_eq]
  · rw [t.layout_autoSqueeze]
    exact hfits.squeeze _
  · rw [t.layout_autoSqueeze, Layout.pool_squeeze, hrequest]
    split
    · exact Nat.zero_le _
    next hkept =>
      exact t.stats.pool_le_windowPool (Nat.le_trans t.layout_pool_le hfits) hsize
        (eq_false_of_ne_true hkept)
  · rw [t.layout_autoSqueeze]
    calc
      (t.layout.squeeze t.request).capacity ≤ t.layout.capacity := hfits.capacity_squeeze_le _
      _ = s.layout.capacity := hwithin.capacity_eq
      _ ≤ windowCapacity window := h.capacity_le

end WithinWindow

/-! ## Steps -/

theorem Store.policy_add (s : Store R) (record : R) : (s.add record).value.policy = s.policy := by
  unfold add
  split
  · split
    · rfl
    · split
      · unfold prepend
        split <;> rfl
      · rfl
  · rfl

omit [PlotRecord R] in
/-- In an allocation of fewer than `2 ^ 50` slots nothing is rounded. -/
theorem Store.evaluate_eq_excess {s : Store R} (hpolicy : s.policy = .standard)
    (hfits : s.layout.Fits) (h : s.layout.capacity < 2 ^ 50) :
    s.policy.evaluate s.stats = s.stats.excess := by
  have hcapacity : s.stats.total < 2 ^ 50 := h
  have hsize : s.stats.live ≤ s.stats.total := Nat.le_trans (Nat.sub_le _ _) hfits
  have hpool : s.stats.pool ≤ s.stats.total := Nat.le_trans s.layout_pool_le hfits
  have htail : s.stats.tail ≤ s.stats.total := by
    unfold AllocationStats.tail
    omega
  rw [hpolicy]
  exact evaluate_standard (by omega) (by omega) (by omega)

/-- A step of a stream stays within the window. -/
theorem WithinWindow.apply {window : Nat} {op : Operation R} {s : Store R}
    (h : WithinWindow window s) (hop : op.streams s = true)
    (hsize : (op.apply s).state.size ≤ window)
    (hexact : windowCapacity window < 2 ^ 50 ∨ op.JudgedExactly s) :
    WithinWindow window (op.apply s).state := by
  by_cases hremoval : op.isRemoval = true
  · cases hjudged : op.judged? s with
    | none => rwa [Operation.apply_of_judged?_eq_none hremoval hjudged]
    | some t =>
      have hwithin := Operation.layout_judged? hjudged
      have hpolicy := Operation.policy_judged? hremoval hjudged
      rw [Operation.apply_of_judged? hjudged] at hsize ⊢
      refine h.squeeze hpolicy hwithin ?_ ?_
      · -- giving slots back drops no record
        have htoList := t.toList_autoSqueeze
        rwa [Outcome.ofLogged, Store.size_eq, htoList, ← Store.size_eq] at hsize
      · rcases hexact with hsmall | hexact
        · exact Store.evaluate_eq_excess (hpolicy.trans h.policy_eq)
            (h.fits.within hwithin)
            (Nat.lt_of_le_of_lt (hwithin.capacity_eq ▸ h.capacity_le) hsmall)
        · exact hexact t hjudged
  · cases op with
    | add record =>
      refine h.extend (s.policy_add record) (s.layout_add_of_not_below fun first hfirst => ?_) hsize
      rw [Operation.streams, Option.mem_def.1 hfirst] at hop
      simpa using hop
    | removeUpTo | removeFrom | removeBetween | removeKey => exact absurd rfl hremoval
    | _ => cases hop

/-- A stream whose window never holds more than `window` records never has more than
`windowCapacity window` slots allocated, after any number of steps. The counts are
assumed to be compared exactly wherever the policy judges them, which is so in any
case if the bound is below `2 ^ 50`. -/
theorem capacity_le_windowCapacity {window : Nat} {ops : List (Operation R)}
    (hstream : Throughout (fun op s => op.streams s = true) ops .empty)
    (hwindow : Throughout (fun op s => (op.apply s).state.size ≤ window) ops .empty)
    (hexact : windowCapacity window < 2 ^ 50 ∨ Throughout Operation.JudgedExactly ops .empty)
    (n : Nat) :
    (Operation.run (ops.take n) .empty).state.buffer.capacity ≤
      2 * max 1000 (3 * window / 2) + 2 * window := by
  have hjudged : Throughout (fun op s => windowCapacity window < 2 ^ 50 ∨ op.JudgedExactly s)
      ops .empty := by
    rcases hexact with hsmall | hexact
    · exact .of_forall (fun _ _ => .inl hsmall) _ _
    · exact throughout_iff.2 fun n hn => .inr (throughout_iff.1 hexact n hn)
  have hsteps := ((hstream.and hwindow).and hjudged).take n
  exact (hsteps.invariant (I := WithinWindow window) (fun hop h => h.apply hop.1.1 hop.1.2 hop.2)
    (WithinWindow.empty window)).capacity_le

/-- A window of at most two samples that moves on, with a removal that drops nothing. -/
def movingWindow : List (Operation Sample) :=
  [.add ⟨.ofNat 1, 0⟩, .add ⟨.ofNat 2, 0⟩, .removeUpTo (.ofNat 1), .add ⟨.ofNat 3, 0⟩,
    .removeKey .nan, .removeBetween (.ofNat 3) (.ofNat 2)]

theorem movingWindow_capacity_le :
    Throughout (fun op s => op.streams s = true) movingWindow .empty ∧
      Throughout (fun op s => (op.apply s).state.size ≤ 2) movingWindow .empty ∧
      (Operation.run (movingWindow.take 6) .empty).state.buffer.capacity ≤
        2 * max 1000 (3 * 2 / 2) + 2 * 2 :=
  have hstream : Throughout (fun op s => op.streams s = true) movingWindow .empty := by
    decide +kernel
  have hwindow : Throughout (fun op s => (op.apply s).state.size ≤ 2) movingWindow .empty := by
    decide +kernel
  ⟨hstream, hwindow, capacity_le_windowCapacity hstream hwindow (.inl (by decide)) 6⟩

end PlotSeries
