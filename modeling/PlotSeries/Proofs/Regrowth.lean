import PlotSeries.Proofs.Settling

/-!
# Growth after a squeeze

A tail that is over the thresholds is so long that the allocation loses more than half of
its slots with it (`Layout.Trimmed`). When the next record doubles what is left, the new
tail is about as long as the records and the pool, which is within the thresholds of any
size (`Layout.Trimmed.excess_extend`). So a tail that has been given back does not come
back to be given back once more (`no_thrashing`).
-/

namespace PlotSeries

/-! ## Counts -/

namespace AllocationStats

variable {stats : AllocationStats}

/-- The tails that exceed the thresholds. -/
theorem tail_gt_of_excess (h : stats.excess.tail = true) :
    1000 < stats.total ∧ 3 * stats.live < 2 * stats.tail ∧
      (stats.total ≤ 650000 → 5 * stats.live < stats.tail) := by
  unfold excess at h
  split at h
  · rw [decide_eq_true_iff] at h
    omega
  · split at h
    · rw [decide_eq_true_iff] at h
      omega
    · cases h

/-- The pools that are within the thresholds. -/
theorem pool_le_of_excess (h : stats.excess.pool = false) (hsize : 1000 < stats.total) :
    2 * stats.pool ≤ 3 * stats.live ∧ (650000 < stats.total → 10 * stats.pool ≤ stats.live) := by
  unfold excess at h
  split at h
  · rw [decide_eq_false_iff_not] at h
    omega
  · rw [decide_eq_false_iff_not] at h
    omega

end AllocationStats

/-! ## Layouts -/

namespace Layout

/-- What is left of an allocation whose tail was over the thresholds: no tail, less than
half of the slots, and a pool within the thresholds of allocations of the old size. -/
structure Trimmed (a b : Layout) : Prop where
  pool_le : b.pool ≤ b.used
  capacity_eq : b.capacity = b.used
  thousand_lt : 1000 < a.capacity
  two_mul_capacity_lt : 2 * b.capacity < a.capacity
  two_mul_pool_le : 2 * b.pool ≤ 3 * b.stats.live
  ten_mul_pool_le : 650000 < a.capacity → 10 * b.pool ≤ b.stats.live

theorem trimmed_squeeze {a : Layout} (hpool : a.pool ≤ a.used) (hfits : a.Fits)
    (h : a.stats.excess.tail = true) : a.Trimmed (a.squeeze a.stats.excess) := by
  have hle : a.used ≤ a.capacity := hfits
  have hcapacity := (a.capacity_squeeze a.stats.excess).trans (if_pos h)
  have hused := a.used_squeeze a.stats.excess
  have hpool' := a.pool_squeeze a.stats.excess
  have hlive : a.stats.live = a.used - a.pool := rfl
  have hlive' : (a.squeeze a.stats.excess).stats.live = a.stats.live := by
    show (a.squeeze a.stats.excess).used - (a.squeeze a.stats.excess).pool = a.used - a.pool
    rw [hused, hpool']
    split <;> omega
  have htail := a.tail_eq
  have htotal : a.stats.total = a.capacity := rfl
  have hpoolStats : a.stats.pool = a.pool := rfl
  obtain ⟨hsize, hlong, hlonger⟩ := a.stats.tail_gt_of_excess h
  cases hkept : a.stats.excess.pool with
  | true =>
    rw [if_pos hkept] at hused hpool'
    exact ⟨by omega, hcapacity, hsize, by omega, by omega, by omega⟩
  | false =>
    rw [if_neg (by simp [hkept])] at hused hpool'
    obtain ⟨hshort, hshorter⟩ := a.stats.pool_le_of_excess hkept hsize
    exact ⟨by omega, hcapacity, hsize, by omega, by omega, by omega⟩

namespace Trimmed

variable {a b : Layout} (h : a.Trimmed b)
include h

theorem capacity_extend : (b.extend 1).capacity = max (2 * b.capacity) (max (b.used + 1) 4) := by
  have hcapacity := h.capacity_eq
  show capacityFor b.capacity (b.used + 1) = _
  unfold capacityFor
  rw [if_neg (by omega)]

/-- The doubled allocation is not larger than it was before the tail was given back. -/
theorem capacity_extend_le : (b.extend 1).capacity ≤ a.capacity := by
  have hcapacity := h.capacity_eq
  have hthousand := h.thousand_lt
  have hlt := h.two_mul_capacity_lt
  rw [h.capacity_extend]
  omega

/-- After one more record, neither the pool nor the tail that the doubling has made is
over the thresholds. -/
theorem excess_extend : (b.extend 1).stats.excess = {} := by
  have htotal : (b.extend 1).stats.total = max (2 * b.capacity) (max (b.used + 1) 4) :=
    h.capacity_extend
  have hlive : (b.extend 1).stats.live = b.used + 1 - b.pool := rfl
  have hlive' : b.stats.live = b.used - b.pool := rfl
  have hpool : (b.extend 1).stats.pool = b.pool := rfl
  have htail : (b.extend 1).stats.tail =
    (b.extend 1).stats.total - (b.extend 1).stats.live - (b.extend 1).stats.pool := rfl
  obtain ⟨hle, hcapacity, -, hlt, hshort, hshorter⟩ := h
  unfold AllocationStats.excess
  split
  · -- the allocation was larger still, so the pool was within the narrower thresholds
    rw [decide_eq_false (by omega), decide_eq_false (by omega)]
  · split
    · rw [decide_eq_false (by omega), decide_eq_false (by omega)]
    · rfl

end Trimmed

end Layout

/-! ## Stores -/

namespace Store

variable {R : Type}

/-- The policy compares the counts of the store as integers. -/
def ComparedExactly (s : Store R) : Prop := s.policy.evaluate s.stats = s.stats.excess

/-- What a pass that gives back the tail leaves of the allocation. -/
theorem trimmed_autoSqueeze {s : Store R} (hpolicy : s.policy = .standard) (hfits : s.layout.Fits)
    (hexact : s.ComparedExactly) (htail : (s.policy.evaluate s.stats).tail = true) :
    s.layout.Trimmed s.autoSqueeze.value.layout := by
  have hrequest : s.request = s.layout.stats.excess := (request_eq_evaluate hpolicy).trans hexact
  rw [hexact] at htail
  rw [layout_autoSqueeze, hrequest]
  exact Layout.trimmed_squeeze s.layout_pool_le hfits htail

variable [PlotRecord R]

/-- A record that is not below the last one is put behind it. -/
theorem add_of_not_below_last {s : Store R} {record : R}
    (h : ∀ last ∈ s.last?, keyLess (sortKey record) (sortKey last) = false) :
    s.add record = pure { s with buffer := s.buffer.push record } := by
  unfold add
  split
  next first last hfirst hlast => rw [if_pos (by rw [h last hlast]; rfl)]
  next => rfl

end Store

variable {R : Type} [PlotRecord R]

/-- The growth of an allocation does not bring back a tail that the policy has released.
If the tail was over the thresholds and has been given back, with or without the pool,
and a record is then added behind all others, the allocation doubles, and the policy
finds neither the pool nor the new tail too long; so the next idle removal does nothing.
The counts are assumed to be compared exactly where the policy judges them, which is so
in any case if the allocation had fewer than `2 ^ 50` slots. -/
theorem no_thrashing {s : Store R} {record : R} (hpolicy : s.policy = .standard)
    (hfits : s.buffer.pool + s.size ≤ s.buffer.capacity)
    (htail : (s.policy.evaluate s.stats).tail = true)
    (hlast : ∀ last ∈ s.last?, keyLess (sortKey record) (sortKey last) = false)
    (hexact : s.buffer.capacity < 2 ^ 50 ∨
      s.ComparedExactly ∧ (s.autoSqueeze.value.add record).value.ComparedExactly) :
    let t := s.autoSqueeze.value
    let u := (t.add record).value
    u.toList = s.toList ++ [record] ∧
      u.buffer.capacity = max (2 * t.buffer.capacity) (max (t.buffer.pool + t.size + 1) 4) ∧
      u.policy.evaluate u.stats = {} ∧
      ∀ op : Operation R, op.Idle u → op.apply u = { state := u } := by
  intro t u
  have hlast' : ∀ last ∈ t.last?, keyLess (sortKey record) (sortKey last) = false := by
    rw [Store.last?_eq, s.toList_autoSqueeze, ← Store.last?_eq]
    exact hlast
  have hu : u = { t with buffer := t.buffer.push record } :=
    congrArg Logged.value (Store.add_of_not_below_last hlast')
  have hpolicy' : u.policy = .standard := by
    rw [hu]
    exact s.policy_autoSqueeze.trans hpolicy
  have hfits' : s.layout.Fits := Store.fits_of_le hfits
  have hexact₁ : s.ComparedExactly :=
    hexact.elim (Store.evaluate_eq_excess hpolicy hfits') And.left
  have htrimmed : s.layout.Trimmed t.layout :=
    Store.trimmed_autoSqueeze hpolicy hfits' hexact₁ htail
  have hlayout : u.layout = t.layout.extend 1 := by
    rw [hu]
    exact t.buffer.layout_push record
  have hexact₂ : u.ComparedExactly := by
    refine hexact.elim (fun hsmall => ?_) And.right
    refine Store.evaluate_eq_excess hpolicy' ?_ (Nat.lt_of_le_of_lt ?_ hsmall)
    · rw [hlayout]
      exact t.layout.fits_extend 1
    · rw [hlayout]
      exact htrimmed.capacity_extend_le
  have hnone : u.policy.evaluate u.stats = {} := by
    rw [hexact₂, Store.stats_eq_layout, hlayout]
    exact htrimmed.excess_extend
  refine ⟨?_, ?_, hnone, fun op hop => ?_⟩
  · rw [hu, ← s.toList_autoSqueeze]
    exact t.buffer.toList_push record
  · rw [Store.size, Buffer.pool_add_size]
    exact (congrArg Layout.capacity hlayout).trans htrimmed.capacity_extend
  · have hrest : u.request.any = false := by
      rw [Store.request_eq_evaluate hpolicy', hnone]
      rfl
    rw [hop.apply_eq, Store.autoSqueeze_of_not_any hrest]
    rfl

/-- A store of 300 samples behind a pool as long, and with a tail that is too long. -/
def longTail : Store Sample where
  buffer := { slots := .replicate 600 default, pool := 300, capacity := 2200 }

/-- The tail is given back and the pool kept; one more sample doubles the 600 slots, and
the next removal leaves the 1200 as they are. -/
theorem longTail_not_thrashing :
    longTail.policy = .standard ∧
      longTail.buffer.pool + longTail.size ≤ longTail.buffer.capacity ∧
      (longTail.policy.evaluate longTail.stats).tail = true ∧
      (∀ last ∈ longTail.last?, keyLess (sortKey (default : Sample)) (sortKey last) = false) ∧
      longTail.buffer.capacity < 2 ^ 50 ∧
      (longTail.autoSqueeze.value.add default).value.buffer.capacity = 1200 ∧
      (Operation.removeKey .nan).apply (longTail.autoSqueeze.value.add default).value =
        { state := (longTail.autoSqueeze.value.add default).value } :=
  have hfits : longTail.buffer.pool + longTail.size ≤ longTail.buffer.capacity := by decide +kernel
  have htail : (longTail.policy.evaluate longTail.stats).tail = true := by decide +kernel
  have hlast : ∀ last ∈ longTail.last?,
      keyLess (sortKey (default : Sample)) (sortKey last) = false := by decide +kernel
  have hsmall : longTail.buffer.capacity < 2 ^ 50 := by decide
  have hresult := no_thrashing rfl hfits htail hlast (.inl hsmall)
  ⟨rfl, hfits, htail, hlast, hsmall, hresult.2.1.trans (by decide +kernel),
    hresult.2.2.2 _ (Operation.idle_removeKey_of_isNaN (by decide) _)⟩

end PlotSeries
