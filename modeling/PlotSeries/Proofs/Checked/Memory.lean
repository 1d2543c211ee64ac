import PlotSeries.Proofs.Checked.Merge
import PlotSeries.Proofs.Contents

/-!
# The memory of a store

A `Memory` holds what a store consists of, without any relation between its parts:
nothing says that the pool lies within the slots. `Memory.of` is the memory of a
store. The programs here are the steps in which a vector is read and changed, each
with its checks, and the first of those that the operations of a store are made of:
`live`, `growPool`, `squeeze`, `autoSqueeze`.

A lemma `…_eq` says that a program, run on the memory of a store, does not panic
and leaves the memory of the store that the operation of the same name leaves,
slot by slot, the unused ones included.
-/

namespace PlotSeries.Checked

/-- The parts of a store, and what was reported so far. -/
structure Memory (R : Type) where
  /-- The slots of the vector in use, the pool first. -/
  slots : List R
  /-- The number of slots allocated. -/
  capacity : Nat
  pool : Nat
  growths : Nat
  policy : SqueezePolicy
  log : List Event

/-- The records in a memory. -/
def Memory.live {R : Type} (m : Memory R) : List R := m.slots.drop m.pool

/-- The memory of a store. -/
def Memory.of {R : Type} (s : Store R) (log : List Event) : Memory R :=
  { slots := s.buffer.slots.toList
    capacity := s.buffer.capacity
    pool := s.buffer.pool
    growths := s.buffer.growths
    policy := s.policy
    log := log }

section Fields

variable {R : Type} (s : Store R) (log : List Event)

@[simp] theorem Memory.of_slots : (Memory.of s log).slots = s.buffer.slots.toList := rfl
@[simp] theorem Memory.of_pool : (Memory.of s log).pool = s.buffer.pool := rfl
@[simp] theorem Memory.of_policy : (Memory.of s log).policy = s.policy := rfl

theorem Memory.pool_le : (Memory.of s log).pool ≤ (Memory.of s log).slots.length := by
  simpa using s.buffer.pool_le

/-- The slot before which a live record stands, or the end of the row. -/
theorem Memory.slot_le {i : Nat} (h : i ≤ s.buffer.size) :
    s.buffer.pool + i ≤ (Memory.of s log).slots.length := by
  have hsize := s.buffer.pool_add_size
  rw [of_slots, Array.length_toList]
  omega

/-- The slot of a live record. -/
theorem Memory.slot_lt {i : Nat} (h : i < s.buffer.size) :
    s.buffer.pool + i < (Memory.of s log).slots.length :=
  slot_le s log (Nat.succ_le_of_lt h)

end Fields

/-- The memory of a store after what a logged result reported. -/
def Memory.ofLogged {R : Type} (result : Logged (Store R)) (log : List Event) : Memory R :=
  .of result.value (log ++ result.events)

theorem Memory.ofLogged_pure {R : Type} (s : Store R) (log : List Event) :
    Memory.ofLogged (pure s) log = .of s log := by
  rw [ofLogged, Logged.value_pure, Logged.events_pure, List.append_nil]

theorem Memory.ofLogged_bind {R α : Type} (x : Logged α) (f : α → Logged (Store R))
    (log : List Event) : Memory.ofLogged (x >>= f) log = .ofLogged (f x.value) (log ++ x.events) := by
  rw [ofLogged, ofLogged, Logged.value_bind, Logged.events_bind, List.append_assoc]

section Steps

variable {R α : Type}

/-! ## Steps on the vector -/

/-- Run a program on the slots. -/
def onSlots (p : Program (List R) α) : Program (Memory R) α := fun m =>
  match p.run m.slots with
  | .ok a slots => .ok a { m with slots := slots }
  | .error e slots => .error e { m with slots := slots }

/-- Change the slots to a row that may need a larger allocation. -/
def setSlots (slots : List R) : Program (Memory R) Unit :=
  modify fun m => { m with slots := slots, capacity := capacityFor m.capacity slots.length }

/-- Add a slot behind all others. -/
def push (record : R) : Program (Memory R) Unit := do
  setSlots ((← get).slots ++ [record])

/-- Add slots behind all others. -/
def extend (records : List R) : Program (Memory R) Unit := do
  setSlots ((← get).slots ++ records)

/-- Add slots with a filler behind all others, or drop the last ones, up to a number of slots. -/
def resize (size : Nat) (filler : R) : Program (Memory R) Unit := do
  let slots := (← get).slots
  setSlots (slots.take size ++ List.replicate (size - slots.length) filler)

/-- Put a slot before the one at an index, or behind all others. -/
def insertAt (i : Nat) (record : R) : Program (Memory R) Unit := do
  let slots := (← get).slots
  if i ≤ slots.length then setSlots (slots.take i ++ record :: slots.drop i)
  else throw (.indexOutOfBounds i slots.length)

/-- Drop the slots from `start` up to `stop`. -/
def drain (start stop : Nat) : Program (Memory R) Unit := do
  let _ ← slice (← get).slots start stop
  modify fun m => { m with slots := m.slots.take start ++ m.slots.drop stop }

/-- Drop the slot at an index. -/
def removeAt (i : Nat) : Program (Memory R) Unit := do
  let _ ← readAt (← get).slots i
  modify fun m => { m with slots := m.slots.take i ++ m.slots.drop (i + 1) }

/-- Drop all slots from an index on, if there are any. -/
def truncate (size : Nat) : Program (Memory R) Unit :=
  modify fun m => { m with slots := m.slots.take size }

/-- Report an event. -/
def report (event : Event) : Program (Memory R) Unit :=
  modify fun m => { m with log := m.log ++ [event] }

theorem onSlots_ok {p : Program (List R) α} {m : Memory R} {a : α} {slots : List R}
    (h : p.run m.slots = .ok a slots) : (onSlots p).run m = .ok a { m with slots := slots } := by
  show onSlots p m = _
  rw [onSlots, h]

theorem onSlots_error {p : Program (List R) α} {m : Memory R} {e : Panic} {slots : List R}
    (h : p.run m.slots = .error e slots) :
    (onSlots p).run m = .error e { m with slots := slots } := by
  show onSlots p m = _
  rw [onSlots, h]

theorem resize_eq {m : Memory R} {size : Nat} (more : Nat) (h : size = m.slots.length + more)
    (filler : R) :
    (resize size filler).run m =
      let slots := m.slots ++ List.replicate more filler
      .ok ⟨⟩ { m with slots := slots, capacity := capacityFor m.capacity slots.length } := by
  rw [resize, get_bind]
  dsimp only
  rw [h, List.take_of_length_le (Nat.le_add_right _ _), Nat.add_sub_cancel_left]
  rfl

theorem drain_eq {m : Memory R} {start stop : Nat} (h : start ≤ stop)
    (hstop : stop ≤ m.slots.length) :
    (drain start stop).run m =
      .ok ⟨⟩ { m with slots := m.slots.take start ++ m.slots.drop stop } := by
  rw [drain, get_bind, bind_ok (slice_eq h hstop m)]
  rfl

theorem drain_error {start stop : Nat} (h : ¬start ≤ stop) (m : Memory R) :
    (drain start stop).run m = .error (.spanOutOfOrder start stop) m := by
  have hslice : (slice m.slots start stop).run m = .error (.spanOutOfOrder start stop) m := by
    rw [slice, if_neg h]
    rfl
  rw [drain, get_bind, bind_error hslice]

theorem removeAt_eq {m : Memory R} {i : Nat} (h : i < m.slots.length) :
    (removeAt i).run m = .ok ⟨⟩ { m with slots := m.slots.take i ++ m.slots.drop (i + 1) } := by
  rw [removeAt, get_bind, bind_ok (readAt_eq (List.getElem?_eq_getElem h) m)]
  rfl

end Steps

/-! ## The live records -/

section Live

variable {R α : Type}

/-- The number of live records. -/
def size : Program (Memory R) Nat := do
  let m ← get
  subtract m.slots.length m.pool

/-- The live records, to read. -/
def live : Program (Memory R) (List R) := do
  let m ← get
  slice m.slots m.pool m.slots.length

/-- Run a program on the live records, to write. -/
def onLive (p : Program (List R) α) : Program (Memory R) α := do
  onSlots (tail (← get).pool p)

theorem size_eq (s : Store R) (log : List Event) :
    size.run (Memory.of s log) = .ok s.size (Memory.of s log) := by
  rw [size, get_bind, subtract_eq (Memory.pool_le s log)]
  simp [Store.size, Buffer.size]

theorem live_eq (s : Store R) (log : List Event) :
    live.run (Memory.of s log) = .ok s.toList (Memory.of s log) := by
  rw [live, get_bind, slice_eq (Memory.pool_le s log) (Nat.le_refl _), List.take_length]
  rfl

/-- A program that rewrites the live records, run on the memory of a store. -/
theorem onLive_ok {p : Program (List R) α} {s : Store R} {a : α} {l : List R}
    (h : p.run s.toList = .ok a l) (log : List Event) :
    (onLive p).run (Memory.of s log) =
      .ok a (Memory.of { s with buffer := s.buffer.setAll l } log) := by
  rw [onLive, get_bind, onSlots_ok (tail_ok (Memory.pool_le s log) h)]
  simp [Memory.of, Buffer.setAll]

theorem onLive_error {p : Program (List R) α} {s : Store R} {e : Panic} {l : List R}
    (h : p.run s.toList = .error e l) (log : List Event) :
    (onLive p).run (Memory.of s log) =
      .error e (Memory.of { s with buffer := s.buffer.setAll l } log) := by
  rw [onLive, get_bind, onSlots_error (tail_error (Memory.pool_le s log) h)]
  simp [Memory.of, Buffer.setAll]

end Live

/-! ## Growing the pool -/

section Grow

variable {R : Type} [PlotRecord R]

/-- Give the pool room for `need` slots, unless it has it. -/
def growPool (need : Nat) : Program (Memory R) Unit := do
  let m ← get
  if need ≤ m.pool then pure ()
  else
    let exponent := max 4 (min (min (m.growths + 4) maxGrowths) 15)
    let pool ← subtract (need + (← oneBit exponent)) 12
    let growths := min (m.growths + 1) maxGrowths
    modify fun m => { m with growths := growths }
    let difference ← subtract pool m.pool
    resize (m.slots.length + difference) (PlotRecord.ofSortKey 0)
    onSlots (copyWithin m.pool m.slots.length (m.pool + difference))
    modify fun m => { m with pool := pool }
    report (.grewPool pool growths)

theorem poolSlack_eq (growths : Nat) :
    max 4 (min (min (growths + 4) maxGrowths) 15) < 64 ∧
      12 ≤ 2 ^ max 4 (min (min (growths + 4) maxGrowths) 15) ∧
      poolSlack growths = 2 ^ max 4 (min (min (growths + 4) maxGrowths) 15) - 12 := by
  have hexponent : max 4 (min (min (growths + 4) maxGrowths) 15) = min (growths + 4) 15 := by
    unfold maxGrowths
    omega
  rw [hexponent]
  refine ⟨by omega, ?_, rfl⟩
  calc
    12 ≤ 2 ^ 4 := by decide
    _ ≤ 2 ^ min (growths + 4) 15 := Nat.pow_le_pow_right (by decide) (by omega)

theorem growPool_run (m : Memory R) {need : Nat} (hpool : m.pool ≤ m.slots.length)
    (h : m.pool < need) :
    (growPool need).run m =
      let pool := need + poolSlack m.growths
      let growths := min (m.growths + 1) maxGrowths
      let longer := m.slots ++ List.replicate (pool - m.pool) (PlotRecord.ofSortKey 0)
      .ok ⟨⟩
        { m with
          slots := longer.take pool ++ m.slots.drop m.pool
          capacity := capacityFor m.capacity longer.length
          pool := pool
          growths := growths
          log := m.log ++ [.grewPool pool growths] } := by
  obtain ⟨hbit, hslack, heq⟩ := poolSlack_eq m.growths
  rw [growPool, get_bind, if_neg (Nat.not_le.2 h)]
  dsimp only
  rw [bind_ok (oneBit_eq hbit m), bind_ok (subtract_eq (by omega) m), modify_bind, heq]
  rw [Nat.add_sub_assoc hslack]
  generalize hslots : 2 ^ max 4 (min (min (m.growths + 4) maxGrowths) 15) - 12 = slack
  rw [bind_ok (subtract_eq (by omega) _), bind_ok (resize_eq (need + slack - m.pool) (by rfl) _)]
  dsimp only
  -- the live records move behind the new pool, to the end of the longer row
  have hend : m.pool + (need + slack - m.pool) = need + slack := by omega
  generalize hlonger : m.slots ++ List.replicate (need + slack - m.pool) (PlotRecord.ofSortKey 0) =
    longer
  have hlength : longer.length = m.slots.length + (need + slack - m.pool) := by
    rw [← hlonger, List.length_append, List.length_replicate]
  have hlive : longer.take m.slots.length = m.slots := by rw [← hlonger, List.take_left]
  rw [bind_ok (onSlots_ok (copyWithin_eq hpool (by dsimp only; omega) (by dsimp only; omega))),
    hend]
  dsimp only
  have hrest : longer.drop (need + slack + (m.slots.length - m.pool)) = [] :=
    List.drop_eq_nil_of_le (by omega)
  rw [hlive, hrest, List.append_nil]
  rfl

/-- Growing the pool leaves the memory of the store with the longer pool. -/
theorem growPool_eq (s : Store R) (log : List Event) {need : Nat} (h : s.buffer.pool < need) :
    (growPool need).run (Memory.of s log) =
      let b := s.buffer.growPool (PlotRecord.ofSortKey 0) need
      .ok ⟨⟩ (Memory.of { s with buffer := b } (log ++ [.grewPool b.pool b.growths])) := by
  rw [growPool_run _ (Memory.pool_le s log) h]
  simp [Memory.of, Buffer.growPool, List.take_of_length_le, List.take_append]

end Grow

/-! ## Giving slots back -/

section Squeeze

variable {R : Type}

/-- Run a program if a flag is set. -/
def onlyIf {σ : Type} (flag : Bool) (p : Program σ Unit) : Program σ Unit :=
  if flag then p else pure ()

theorem onlyIf_eq {σ : Type} {flag : Bool} {p : Program σ Unit} {s t : σ}
    (h : flag = true → p.run s = .ok ⟨⟩ t) :
    (onlyIf flag p).run s = .ok ⟨⟩ (if flag then t else s) := by
  cases flag with
  | true => exact h rfl
  | false => rfl

/-- Give up the pool and forget its growths. -/
def releasePool : Program (Memory R) Unit := do
  let pool := (← get).pool
  onlyIf (decide (0 < pool)) do
    drain 0 pool
    modify fun m => { m with pool := 0 }
  modify fun m => { m with growths := 0 }

/-- Give up the spare capacity. -/
def releaseSpare : Program (Memory R) Unit :=
  modify fun m => { m with capacity := m.slots.length }

/-- Give back the parts asked for. -/
def squeeze (request : SqueezeRequest) : Program (Memory R) Unit := do
  onlyIf request.pool releasePool
  onlyIf request.tail releaseSpare
  report (.squeezed request (← get).capacity)

/-- How the allocation is split up. -/
def stats : Program (Memory R) AllocationStats := do
  let m ← get
  let live ← size
  pure { total := m.capacity, live := live, pool := m.pool }

/-- Give back what the policy asks for, if it is enabled. -/
def autoSqueeze : Program (Memory R) Unit := do
  let policy := (← get).policy
  onlyIf policy.enabled do
    let stats ← stats
    let request := policy.evaluate stats
    onlyIf request.any do
      report (.squeezeDue stats request)
      squeeze request

theorem releasePool_run (m : Memory R) (hpool : m.pool ≤ m.slots.length) :
    releasePool.run m = .ok ⟨⟩ { m with slots := m.slots.drop m.pool, pool := 0, growths := 0 } := by
  have hdrain : (do drain 0 m.pool; modify fun m => { m with pool := 0 } :
      Program (Memory R) Unit).run m = .ok ⟨⟩ { m with slots := m.slots.drop m.pool, pool := 0 } := by
    rw [bind_ok (drain_eq (Nat.zero_le _) hpool)]
    rfl
  rw [releasePool, get_bind]
  dsimp only
  rw [bind_ok (onlyIf_eq fun _ => hdrain)]
  by_cases h : 0 < m.pool
  · rw [if_pos (decide_eq_true h)]
    rfl
  · have hzero : m.pool = 0 := by omega
    rw [if_neg (by simpa using h), hzero, List.drop_zero, ← hzero]
    rfl

theorem releaseSpare_run (m : Memory R) :
    releaseSpare.run m = .ok ⟨⟩ { m with capacity := m.slots.length } := rfl

theorem squeeze_eq (s : Store R) (request : SqueezeRequest) (log : List Event) :
    (squeeze request).run (Memory.of s log) = .ok ⟨⟩ (.ofLogged (s.squeeze request) log) := by
  rw [squeeze, bind_ok (onlyIf_eq fun _ => releasePool_run _ (Memory.pool_le s log)),
    bind_ok (onlyIf_eq fun _ => releaseSpare_run _), get_bind]
  obtain ⟨pool, tail⟩ := request
  cases pool <;> cases tail <;>
    simp [Memory.of, Memory.ofLogged, Store.squeeze, Buffer.releasePool, Buffer.releaseSpare,
      List.take_of_length_le, report]

theorem stats_eq (s : Store R) (log : List Event) :
    stats.run (Memory.of s log) = .ok s.stats (Memory.of s log) := by
  rw [stats, get_bind, bind_ok (size_eq s log)]
  rfl

theorem autoSqueeze_eq (s : Store R) (log : List Event) :
    autoSqueeze.run (Memory.of s log) = .ok ⟨⟩ (.ofLogged s.autoSqueeze log) := by
  have hdone := (Memory.ofLogged_pure s log).symm
  rw [autoSqueeze, get_bind, Store.autoSqueeze]
  dsimp only [Memory.of_policy]
  cases henabled : s.policy.enabled with
  | false => exact congrArg _ hdone
  | true =>
    rw [onlyIf, if_pos rfl, bind_ok (stats_eq s log), if_pos rfl]
    generalize s.policy.evaluate s.stats = request
    cases hany : request.any with
    | false => exact congrArg _ hdone
    | true =>
      rw [onlyIf, if_pos rfl, if_pos rfl, Memory.ofLogged_bind]
      exact squeeze_eq s request _

end Squeeze

end PlotSeries.Checked
