import PlotSeries.Proofs.Bookkeeping

/-!
# Squeezes one after the other

A squeeze gives back the pool before the tail, so the slots of the pool leave with the tail
(`Buffer.squeeze`). What has been given back is not there to be given back again
(`Buffer.releasePool_squeeze`). Hence two squeezes are one that gives back what either of
them does (`Buffer.squeeze_squeeze`), unless the first gives back the tail alone and the
second the pool alone: the slots of the pool are then a new tail
(`Buffer.releasePool_releaseSpare`).

What a squeeze does to the store is read off its layout (`Store.pool_squeeze`,
`Store.growths_squeeze`, `Store.capacity_squeeze`).
-/

namespace PlotSeries

/-- The first request gives back the tail and leaves the pool, and the second one gives back
the pool and leaves the tail. -/
def SqueezeRequest.tailBeforePool (first second : SqueezeRequest) : Bool :=
  first.tail && !first.pool && second.pool && !second.tail

namespace Buffer

variable {α : Type}

/-- The buffer after the parts asked for have been given back. -/
def squeeze (b : Buffer α) (request : SqueezeRequest) : Buffer α :=
  let rest := if request.pool then b.releasePool else b
  if request.tail then rest.releaseSpare else rest

/-- Without a pool, and growths of it to forget, there is nothing to give back in front. -/
theorem releasePool_eq_self {b : Buffer α} (hpool : b.pool = 0) (hgrowths : b.growths = 0) :
    b.releasePool = b := by
  obtain ⟨slots, pool, growths, capacity, hle⟩ := b
  subst hpool hgrowths
  simp only [releasePool, Array.extract_size]

theorem releasePool_squeeze (b : Buffer α) {request : SqueezeRequest} (h : request.pool = true) :
    (b.squeeze request).releasePool = b.squeeze request := by
  obtain ⟨pool, tail⟩ := request
  subst h
  cases tail <;> exact releasePool_eq_self rfl rfl

/-- A pool that is given back after the tail is a new tail. -/
theorem releasePool_releaseSpare (b : Buffer α) :
    b.releaseSpare.releasePool =
      { b.releasePool.releaseSpare with
        capacity := b.releasePool.releaseSpare.capacity + b.pool } := by
  have hpool := b.pool_le
  have hcapacity : b.releasePool.releaseSpare.capacity + b.pool = b.slots.size := by
    simp only [releasePool, releaseSpare, Array.size_extract]
    omega
  rw [hcapacity]
  rfl

/-- Two squeezes are one that gives back what either of them does; if the tail goes before
the pool, the slots of the pool stay allocated. -/
theorem squeeze_squeeze (b : Buffer α) (first second : SqueezeRequest) :
    let once := b.squeeze ⟨first.pool || second.pool, first.tail || second.tail⟩
    (b.squeeze first).squeeze second =
      if first.tailBeforePool second then { once with capacity := once.capacity + b.pool }
      else once := by
  obtain ⟨pool, tail⟩ := first
  obtain ⟨pool', tail'⟩ := second
  cases pool' with
  | false =>
    -- no more than the tail is given back again
    cases pool <;> cases tail <;> cases tail' <;> rfl
  | true =>
    cases pool with
    | true =>
      -- the pool has gone already
      have hpool : (b.squeeze ⟨true, tail⟩).releasePool = b.squeeze ⟨true, tail⟩ :=
        b.releasePool_squeeze rfl
      have htail := congrArg releaseSpare hpool
      cases tail' with
      | false => cases tail <;> exact hpool
      | true => cases tail <;> exact htail
    | false =>
      cases tail with
      | false => cases tail' <;> rfl
      | true =>
        cases tail' with
        | false => exact b.releasePool_releaseSpare
        | true => rfl

/-- Two slots of a pool outlast the tail that goes before them. -/
example :
    let b : Buffer Nat := { slots := #[0, 0, 7, 8], pool := 2, capacity := 6 }
    ((b.squeeze ⟨false, true⟩).squeeze ⟨true, false⟩).capacity = 4 ∧
      (b.squeeze ⟨true, true⟩).capacity = 2 := by decide

/-- A squeeze finds nothing to give back where the same one has been before. -/
theorem squeeze_same (b : Buffer α) (request : SqueezeRequest) :
    (b.squeeze request).squeeze request = b.squeeze request := by
  have h := b.squeeze_squeeze request request
  have horder : request.tailBeforePool request = false := by
    obtain ⟨pool, tail⟩ := request
    cases pool <;> cases tail <;> rfl
  simpa [horder] using h

end Buffer

namespace Store

variable {R : Type} (s : Store R) (request : SqueezeRequest)

theorem pool_squeeze :
    (s.squeeze request).value.buffer.pool = if request.pool then 0 else s.buffer.pool :=
  (congrArg Layout.pool (s.layout_squeeze request)).trans (s.layout.pool_squeeze request)

theorem growths_squeeze :
    (s.squeeze request).value.buffer.growths = if request.pool then 0 else s.buffer.growths :=
  (congrArg Layout.growths (s.layout_squeeze request)).trans (s.layout.growths_squeeze request)

theorem capacity_squeeze :
    let t := (s.squeeze request).value
    t.buffer.capacity = if request.tail then t.buffer.pool + t.size else s.buffer.capacity := by
  intro t
  have hlayout : t.layout = s.layout.squeeze request := s.layout_squeeze request
  have hused : (s.layout.squeeze request).used = t.buffer.pool + t.size := by
    rw [← hlayout]
    exact t.buffer.pool_add_size.symm
  rw [← hused]
  exact (congrArg Layout.capacity hlayout).trans (s.layout.capacity_squeeze request)

end Store

variable {R : Type} [PlotRecord R]

/-- In every state that operations lead to, from any policy on, a squeeze keeps the records and
the policy, and allocates no more slots than before; the parts that are asked for are gone
afterwards, and the others are as they were. The same squeeze again changes nothing. Two
squeezes leave the store that a single one leaves which gives back what either of them does;
only if the tail goes before the pool, the slots of that pool stay allocated. -/
theorem squeeze_algebra (policy : SqueezePolicy) (ops : List (Operation R))
    (first second : SqueezeRequest) :
    let s := (Operation.run ops { policy }).state
    let t := (s.squeeze first).value
    let once := (s.squeeze ⟨first.pool || second.pool, first.tail || second.tail⟩).value
    (t.toList = s.toList ∧ t.policy = s.policy ∧ t.buffer.capacity ≤ s.buffer.capacity) ∧
      (t.buffer.pool = (if first.pool then 0 else s.buffer.pool) ∧
        t.buffer.growths = (if first.pool then 0 else s.buffer.growths) ∧
        t.buffer.capacity =
          if first.tail then t.buffer.pool + t.size else s.buffer.capacity) ∧
      (t.squeeze first).value = t ∧
      (t.squeeze second).value =
        if first.tailBeforePool second then
          { once with
            buffer := { once.buffer with capacity := once.buffer.capacity + s.buffer.pool } }
        else once := by
  intro s t once
  have hfits : s.layout.Fits := Operation.fits_run ops (s := { policy }) (Nat.le_refl _)
  have hlayout : t.layout = s.layout.squeeze first := s.layout_squeeze first
  have htwice (request : SqueezeRequest) : (t.squeeze request).value =
      { s with buffer := (s.buffer.squeeze first).squeeze request } := rfl
  refine ⟨⟨s.toList_squeeze first, s.policy_squeeze first, ?_⟩,
    ⟨s.pool_squeeze first, s.growths_squeeze first, s.capacity_squeeze first⟩, ?_, ?_⟩
  · show t.layout.capacity ≤ s.layout.capacity
    rw [hlayout]
    exact hfits.capacity_squeeze_le first
  · rw [htwice, s.buffer.squeeze_same first]
    rfl
  · rw [htwice, s.buffer.squeeze_squeeze first second]
    cases first.tailBeforePool second <;> rfl

end PlotSeries
