import PlotSeries.Proofs.InsertionOrder
import PlotSeries.Proofs.StreamingWindow

/-!
# Squeezes that last

The standard policy does not work against itself. After a pass over a layout it has
nothing more to ask for, unless it gave back the pool alone: the pool then joins the
tail, and a second pass may give that back (`Layout.due_settle`). A third one finds
nothing to do (`Layout.any_due_settle_settle`), whatever is rounded when the counts are
compared.

A removal that drops nothing is a pass over the store (`Operation.Idle.apply_eq`), so a
run of such removals comes to rest after two of them (`idle_removals_settle`).
-/

namespace PlotSeries

/-! ## Layouts -/

namespace Layout

/-- How the allocation of a layout is split up. -/
def stats (a : Layout) : AllocationStats := ⟨a.capacity, a.used - a.pool, a.pool⟩

/-- What the standard policy asks for. -/
def due (a : Layout) : SqueezeRequest := SqueezePolicy.standard.evaluate a.stats

/-- The layout after a pass of the standard policy. -/
def settle (a : Layout) : Layout := a.squeeze a.due

theorem tail_eq (a : Layout) : a.stats.tail = a.capacity - (a.used - a.pool) - a.pool := rfl

theorem settle_of_not_due {a : Layout} (h : a.due.any = false) : a.settle = a :=
  a.squeeze_of_not_any h

/-- A layout with neither pool nor tail has nothing to give back. -/
theorem any_due_of_packed {a : Layout} (hpool : a.pool = 0) (hcapacity : a.capacity = a.used) :
    a.due.any = false := by
  have htail : a.stats.tail = 0 := by
    rw [tail_eq, hpool, hcapacity]
    omega
  rw [SqueezeRequest.any, Bool.or_eq_false_iff]
  exact ⟨pool_evaluate_of_pool_eq_zero hpool, tail_evaluate_of_tail_eq_zero htail⟩

/-- A pass that gives back the pool leaves none to be given back. -/
theorem pool_due_settle_of_pool {a : Layout} (h : a.due.pool = true) :
    a.settle.due.pool = false := by
  refine pool_evaluate_of_pool_eq_zero ?_
  exact (a.pool_squeeze a.due).trans (if_pos h)

section Passes

variable {a : Layout} (hpool : a.pool ≤ a.used) (hfits : a.Fits)
include hpool hfits

/-- A pass that gives back the tail leaves nothing to do. -/
theorem any_due_settle_of_tail (h : a.due.tail = true) : a.settle.due.any = false := by
  have hused : a.settle.used = if a.due.pool then a.used - a.pool else a.used :=
    a.used_squeeze a.due
  have hpool' : a.settle.pool = if a.due.pool then 0 else a.pool := a.pool_squeeze a.due
  have hcapacity : a.settle.capacity = a.settle.used := (a.capacity_squeeze a.due).trans (if_pos h)
  cases hdue : a.due.pool with
  | true =>
    rw [if_pos hdue] at hpool'
    exact any_due_of_packed hpool' hcapacity
  | false =>
    -- the pool was within the thresholds, and the allocation has become smaller
    rw [if_neg (by simp [hdue])] at hused hpool'
    have hle : a.used ≤ a.capacity := hfits
    have hlive : a.settle.stats.live = a.stats.live := by
      simp only [stats, hused, hpool']
    have htail : a.settle.stats.tail = 0 := by
      rw [tail_eq, hcapacity]
      omega
    rw [SqueezeRequest.any, Bool.or_eq_false_iff]
    refine ⟨pool_evaluate_of_total_le hlive hpool' ?_ ?_ hdue, tail_evaluate_of_tail_eq_zero htail⟩
    · show a.settle.used - a.settle.pool + a.settle.pool ≤ a.settle.capacity
      omega
    · show a.settle.capacity ≤ a.capacity
      omega

/-- A second pass acts only if the first one gave back the pool alone, and then it gives
back the tail alone. -/
theorem due_settle (h : a.settle.due.any = true) :
    a.due = ⟨true, false⟩ ∧ a.settle.due = ⟨false, true⟩ := by
  have htail : a.due.tail = false := by
    refine eq_false_of_ne_true fun htail => ?_
    rw [any_due_settle_of_tail hpool hfits htail] at h
    cases h
  have hpool' : a.due.pool = true := by
    refine Classical.byContradiction fun hkept => ?_
    have hnone : a.due.any = false := by
      rw [SqueezeRequest.any, eq_false_of_ne_true hkept, htail]
      rfl
    rw [settle_of_not_due hnone, hnone] at h
    cases h
  have hnext := pool_due_settle_of_pool hpool'
  rw [SqueezeRequest.any, hnext, Bool.false_or] at h
  refine ⟨?_, ?_⟩
  · rw [← hpool', ← htail]
  · rw [← hnext, ← h]

/-- After two passes there is nothing left to do. -/
theorem any_due_settle_settle : a.settle.settle.due.any = false := by
  cases h : a.settle.due.any with
  | false => rw [settle_of_not_due h, h]
  | true =>
    have htail : a.settle.due.tail = true := by rw [(due_settle hpool hfits h).2]
    exact any_due_settle_of_tail (pool_squeeze_le hpool _) (hfits.squeeze _) htail

end Passes

end Layout

/-! ## Buffers -/

namespace Buffer

variable {α : Type} {b : Buffer α}

theorem dropFirst_eq_self {count : Nat} {h : count ≤ b.size}
    (hsize : (b.dropFirst count h).size = b.size) : b.dropFirst count h = b := by
  have hlength := b.toList_dropFirst count h
  rw [← length_toList, hlength, List.length_drop, length_toList] at hsize
  obtain rfl : count = 0 := by omega
  rfl

theorem with_slots_eq_self {slots : Array α} (h : slots = b.slots) (hpool : b.pool ≤ slots.size) :
    { b with slots, pool_le := hpool } = b := by
  subst h
  rfl

theorem truncate_eq_self {count : Nat} (hsize : (b.truncate count).size = b.size) :
    b.truncate count = b := by
  have hpool := b.pool_add_size
  have hlength := b.toList_truncate count
  rw [← length_toList, hlength, List.length_take, length_toList] at hsize
  have hslots : b.slots.take (b.pool + count) = b.slots := by
    rw [Array.take_eq_extract]
    exact Array.extract_eq_self_of_le (by omega)
  exact with_slots_eq_self hslots _

theorem eraseSpan_eq_self {i j : Nat} (hij : i ≤ j) (hj : j ≤ b.size)
    (hsize : (b.eraseSpan i j).size = b.size) : b.eraseSpan i j = b := by
  have hpool := b.pool_add_size
  have hlength := b.toList_eraseSpan i j
  rw [← length_toList, hlength, List.length_append, List.length_take, List.length_drop,
    length_toList] at hsize
  obtain rfl : i = j := by omega
  have hslots : b.slots.take (b.pool + i) ++ b.slots.extract (b.pool + i) b.slots.size =
      b.slots := by
    rw [Array.take_eq_extract, Array.extract_append_extract, Nat.min_eq_left (Nat.zero_le _),
      Nat.max_eq_right (by omega)]
    exact Array.extract_eq_self_of_le (Nat.le_refl _)
  exact with_slots_eq_self hslots _

/-- A removal that drops nothing leaves the slots and the pool as they are. -/
theorem Cut.eq_self {c : Buffer α} (h : b.Cut c) (hsize : c.size = b.size) : c = b := by
  cases h with
  | same => rfl
  | dropFirst count hcount => exact dropFirst_eq_self hsize
  | truncate count => exact truncate_eq_self hsize
  | eraseSpan hij hj => exact eraseSpan_eq_self hij hj hsize

end Buffer

/-! ## Passes over a store -/

namespace Store

variable {R : Type}

theorem fits_of_le {s : Store R} (h : s.buffer.pool + s.size ≤ s.buffer.capacity) :
    s.layout.Fits := by
  have hsize := s.buffer.pool_add_size
  show s.buffer.slots.size ≤ s.buffer.capacity
  rw [size] at h
  omega

theorem stats_eq_layout (s : Store R) : s.stats = s.layout.stats := rfl

theorem request_eq_evaluate {s : Store R} (h : s.policy = .standard) :
    s.request = s.policy.evaluate s.stats := by
  rw [request, h]
  rfl

theorem request_eq_due {s : Store R} (h : s.policy = .standard) : s.request = s.layout.due := by
  rw [request_eq_evaluate h, h, stats_eq_layout]
  rfl

theorem layout_autoSqueeze_eq_settle {s : Store R} (h : s.policy = .standard) :
    s.autoSqueeze.value.layout = s.layout.settle := by
  rw [layout_autoSqueeze, request_eq_due h]
  rfl

/-- Passes of the policy, one after the other. -/
def passes (s : Store R) : Nat → Logged (Store R)
  | 0 => pure s
  | n + 1 => do
    let t ← s.autoSqueeze
    t.passes n

theorem passes_of_not_any {s : Store R} (h : s.request.any = false) (n : Nat) :
    s.passes n = pure s := by
  induction n with
  | zero => rfl
  | succ n ih =>
    rw [passes, autoSqueeze_of_not_any h]
    exact ih

/-- Once two passes have left nothing to do, no further pass does anything. -/
theorem passes_add_two {s : Store R} (h : s.autoSqueeze.value.autoSqueeze.value.request.any = false)
    (n : Nat) :
    s.passes (n + 2) =
      { value := s.autoSqueeze.value.autoSqueeze.value
        events := s.autoSqueeze.events ++ s.autoSqueeze.value.autoSqueeze.events } := by
  have hrest := passes_of_not_any h n
  simp only [passes, bind, hrest, Logged.value_pure, Logged.events_pure, List.append_nil]

end Store

/-! ## Removals that drop nothing -/

variable {R : Type} [PlotRecord R]

namespace Operation

/-- The operation is a removal that looks for records, consults its policy and leaves
all records as they are. -/
structure Idle (op : Operation R) (s : Store R) : Prop where
  isRemoval : op.isRemoval = true
  judged : (op.judged? s).isSome = true
  toList_eq : (op.apply s).state.toList = s.toList

/-- A removal of a key that is not a number is idle. -/
theorem idle_removeKey_of_isNaN {key : Binary64} (h : key.isNaN = true) (s : Store R) :
    (removeKey key).Idle s := by
  refine ⟨rfl, ?_, inserts_removeKey_of_isNaN h s⟩
  unfold judged?
  dsimp only
  repeat' split
  all_goals rfl

/-- An idle removal hands the store to its policy as it is. -/
theorem Idle.judged?_eq {op : Operation R} {s : Store R} (h : op.Idle s) :
    op.judged? s = some s := by
  obtain ⟨t, ht⟩ := Option.isSome_iff_exists.1 h.judged
  obtain ⟨b, hcut, rfl⟩ := cut_judged? h.isRemoval ht
  have htoList : b.toList = s.buffer.toList := by
    have hstate := h.toList_eq
    rw [apply_of_judged? ht] at hstate
    exact (Store.toList_autoSqueeze _).symm.trans hstate
  have hsize : b.size = s.buffer.size := by
    rw [← Buffer.length_toList, htoList, Buffer.length_toList]
  rw [ht, hcut.eq_self hsize]

/-- An idle removal is a pass of the policy. -/
theorem Idle.apply_eq {op : Operation R} {s : Store R} (h : op.Idle s) :
    op.apply s = .ofLogged s.autoSqueeze :=
  apply_of_judged? h.judged?_eq

/-- A run of idle removals is as many passes. -/
theorem run_idle {ops : List (Operation R)} {s : Store R} (h : Throughout Idle ops s) :
    run ops s = .ofLogged (s.passes ops.length) := by
  induction ops generalizing s with
  | nil => rfl
  | cons op ops ih =>
    have hrest := h.2
    rw [h.1.apply_eq] at hrest
    rw [run_cons, h.1.apply_eq]
    exact congrArg _ (ih hrest)

end Operation

/-! ## Coming to rest -/

/-- Two passes of the standard policy, in which nothing but the policy acts, bring any
layout to rest: it asks for nothing more and every further pass leaves the store as it is
and reports nothing, so any longer run of idle removals ends where two of them do. The
second pass acts only if the first one gave back the pool alone, and then it gives back
the tail alone. -/
theorem idle_removals_settle {s : Store R} (hpolicy : s.policy = .standard)
    (hfits : s.buffer.pool + s.size ≤ s.buffer.capacity) :
    let once := s.autoSqueeze.value
    let twice := once.autoSqueeze.value
    ((twice.policy.evaluate twice.stats).any = false ∧ twice.autoSqueeze = pure twice) ∧
      ((once.policy.evaluate once.stats).any = true →
        s.policy.evaluate s.stats = ⟨true, false⟩ ∧
          once.policy.evaluate once.stats = ⟨false, true⟩) ∧
      ∀ ops : List (Operation R), Throughout Operation.Idle ops s → 2 ≤ ops.length →
        Operation.run ops s =
          { state := twice, events := s.autoSqueeze.events ++ once.autoSqueeze.events } := by
  intro once twice
  have hpolicy₁ : once.policy = .standard := s.policy_autoSqueeze.trans hpolicy
  have hpolicy₂ : twice.policy = .standard := once.policy_autoSqueeze.trans hpolicy₁
  have hfits' : s.layout.Fits := Store.fits_of_le hfits
  have hlayout₁ : once.layout = s.layout.settle := Store.layout_autoSqueeze_eq_settle hpolicy
  have hlayout₂ : twice.layout = s.layout.settle.settle := by
    rw [Store.layout_autoSqueeze_eq_settle hpolicy₁, hlayout₁]
  have hrest : twice.request.any = false := by
    rw [Store.request_eq_due hpolicy₂, hlayout₂]
    exact Layout.any_due_settle_settle s.layout_pool_le hfits'
  refine ⟨⟨?_, Store.autoSqueeze_of_not_any hrest⟩, fun h => ?_, fun ops hops hlength => ?_⟩
  · rwa [Store.request_eq_evaluate hpolicy₂] at hrest
  · rw [← Store.request_eq_evaluate hpolicy₁, Store.request_eq_due hpolicy₁, hlayout₁] at h ⊢
    rw [← Store.request_eq_evaluate hpolicy, Store.request_eq_due hpolicy]
    exact Layout.due_settle s.layout_pool_le hfits' h
  · obtain ⟨n, hn⟩ := Nat.exists_eq_add_of_le' hlength
    rw [Operation.run_idle hops, hn, Store.passes_add_two hrest]
    rfl

/-- A store of 140 samples behind a pool that is too long, and with a tail that is not. -/
def longPool : Store Sample where
  buffer := { slots := .replicate 360 default, pool := 220, capacity := 1020 }

/-- The first removal gives back the pool, after which the tail is too long; the second
gives back the tail, and the third finds nothing to do. -/
theorem longPool_settles :
    longPool.policy = .standard ∧
      longPool.buffer.pool + longPool.size ≤ longPool.buffer.capacity ∧
      Throughout Operation.Idle (List.replicate 3 (.removeKey .nan)) longPool ∧
      longPool.autoSqueeze.value.policy.evaluate longPool.autoSqueeze.value.stats = ⟨false, true⟩ ∧
      (Operation.run (List.replicate 3 (.removeKey .nan)) longPool).state.buffer.capacity = 140 :=
  have hfits : longPool.buffer.pool + longPool.size ≤ longPool.buffer.capacity := by decide +kernel
  have hidle (s : Store Sample) : (Operation.removeKey .nan).Idle s :=
    Operation.idle_removeKey_of_isNaN (by decide) s
  have hops : Throughout Operation.Idle (List.replicate 3 (.removeKey .nan)) longPool :=
    ⟨hidle _, hidle _, hidle _, trivial⟩
  have hsettle := idle_removals_settle rfl hfits
  ⟨rfl, hfits, hops, (hsettle.2.1 (by decide +kernel)).2, by
    rw [hsettle.2.2 _ hops (by decide)]
    decide +kernel⟩

end PlotSeries
