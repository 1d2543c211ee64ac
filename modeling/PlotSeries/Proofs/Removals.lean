import PlotSeries.Proofs.Bounds
import PlotSeries.Proofs.Squeezing
import PlotSeries.Record.Kinds

/-!
# What removals do to the layout

A removal first takes records out of the row of slots and then lets the policy judge what is
left (`Operation.remainder`). The first part moves at most the end of the pool
(`Operation.pool_remainder`): past all records dropped up to a key, which are those before its
upper bound (`Operation.size_removeUpTo`), or past a first record that is dropped by its own
key (`Store.findsFirst`). It neither grows nor gives back anything, so the policy judges the
records and the pool as they are then, within the allocation there was before
(`Operation.stats_remainder`).

The second part is a squeeze and its two reports, or nothing at all. The only removal
without a second part is that of a window with nothing to look for
(`Operation.apply_eq_remainder`).
-/

namespace PlotSeries

variable {R : Type} [PlotRecord R]

namespace Store

/-- The search for a key ends at the first record, and this one has it as a number. -/
def findsFirst (s : Store R) (key : Binary64) : Bool :=
  s.lowerBound key == 0 && s.first?.any fun first => (sortKey first).numEq key

theorem findsFirst_iff (s : Store R) (key : Binary64) :
    s.findsFirst key = true ↔
      s.lowerBound key = 0 ∧
        ∃ h : s.lowerBound key < s.buffer.size,
          (sortKey s.buffer[s.lowerBound key]).numEq key = true := by
  rw [findsFirst, Bool.and_eq_true, beq_iff_eq]
  refine and_congr_right fun hzero => ?_
  simp only [hzero, first?, Buffer.first?, Buffer.get?]
  by_cases h : 0 < s.buffer.size
  · simp [h]
  · simp [h]

end Store

namespace Operation

/-- The operation removes a window with nothing to look for: the store holds no record, or
the bounds of the window are not in order as numbers. -/
def exitsEarly (op : Operation R) (s : Store R) : Bool :=
  match op with
  | removeBetween lower upper => s.isEmpty || !decide (lower < upper)
  | _ => false

/-- The number of slots by which a removal moves the end of the pool. -/
def slotsToPool (op : Operation R) (s : Store R) : Nat :=
  match op with
  | removeUpTo key => s.upperBound key
  | removeKey key => if s.findsFirst key then 1 else 0
  | _ => 0

/-- What a removal leaves of a store before the policy acts. -/
def remainder (op : Operation R) (s : Store R) : Store R := (op.judged? s).getD s

variable {op : Operation R} (hop : op.isRemoval = true) (s : Store R)
include hop

/-- Every removal consults the policy, but that of a window with nothing to look for. -/
theorem judged?_eq_none_iff : op.judged? s = none ↔ op.exitsEarly s = true := by
  cases op with
  | removeUpTo key | removeFrom key => simp [judged?, exitsEarly]
  | removeBetween lower upper =>
    have hbounds (h : lower < upper) : s.lowerBound lower ≤ s.upperBound upper := by
      rw [s.lowerBound_eq, s.upperBound_eq]
      exact runLowerBound_le_runUpperBound s.toList (Int.le_of_lt h.2.2)
    simp only [judged?, exitsEarly, Store.isEmpty_eq]
    by_cases hempty : s.toList = []
    · simp [hempty]
    by_cases hlt : lower < upper
    · simp [hempty, hlt, hbounds hlt]
    · simp [hlt]
  | removeKey key =>
    simp only [judged?, exitsEarly]
    repeat' split
    all_goals simp
  | _ => cases hop

/-- A removal is what it leaves and a pass of the policy over it, or nothing at all. -/
theorem apply_eq_remainder :
    op.apply s =
      if op.exitsEarly s then { state := op.remainder s }
      else .ofLogged (op.remainder s).autoSqueeze := by
  have hearly := judged?_eq_none_iff hop s
  cases hjudged : op.judged? s with
  | none =>
    rw [if_pos (hearly.1 hjudged), remainder, hjudged]
    cases op with
    | removeBetween lower upper =>
      have hempty : (s.isEmpty || !decide (lower < upper)) = true := hearly.1 hjudged
      show Outcome.ofExcept s (s.removeBetween lower upper) = _
      rw [Store.removeBetween, if_pos hempty]
      rfl
    | _ => cases hearly.1 hjudged
  | some t =>
    rw [if_neg fun h => by simp [hearly.2 h] at hjudged, remainder, hjudged]
    exact apply_of_judged? hjudged

theorem size_remainder : (op.remainder s).size = (op.apply s).state.size := by
  rw [apply_eq_remainder hop]
  split
  · rfl
  · rw [Store.size_eq, Store.size_eq]
    exact congrArg List.length (Store.toList_autoSqueeze _).symm

theorem cut_remainder : ∃ b, s.buffer.Cut b ∧ op.remainder s = { s with buffer := b } := by
  unfold remainder
  cases hjudged : op.judged? s with
  | none => exact ⟨s.buffer, .same, rfl⟩
  | some t => exact cut_judged? hop hjudged

theorem policy_remainder : (op.remainder s).policy = s.policy := by
  obtain ⟨b, -, h⟩ := cut_remainder hop s
  rw [h]

theorem growths_remainder : (op.remainder s).buffer.growths = s.buffer.growths := by
  obtain ⟨b, hcut, h⟩ := cut_remainder hop s
  rw [h]
  cases hcut <;> rfl

theorem within_remainder : (op.remainder s).layout.Within s.layout := by
  obtain ⟨b, hcut, h⟩ := cut_remainder hop s
  rw [h]
  exact hcut.within

omit hop in
/-- The records dropped up to a key are those before its upper bound. -/
theorem size_removeUpTo (key : Binary64) :
    ((removeUpTo key).apply s).state.size + s.upperBound key = s.size := by
  have hle : s.upperBound key ≤ s.size := s.upperBound_le_size key
  have hdropped : ((removeUpTo key).remainder s).size = s.size - s.upperBound key := by
    rw [Store.size_eq, Store.size_eq, ← List.length_drop]
    exact congrArg List.length (Buffer.toList_dropFirst _ _ hle)
  rw [← size_remainder rfl, hdropped]
  omega

/-- The end of the pool moves past the records dropped in front, and nothing else moves it. -/
theorem pool_remainder :
    (op.remainder s).buffer.pool = s.buffer.pool + op.slotsToPool s := by
  cases op with
  | removeUpTo key | removeFrom key => rfl
  | removeBetween lower upper =>
    simp only [remainder, judged?]
    split <;> rfl
  | removeKey key =>
    have hfirst := s.findsFirst_iff key
    simp only [remainder, judged?, slotsToPool]
    split
    next hlt =>
      split
      next heq =>
        split
        next hzero =>
          rw [if_pos (hfirst.2 ⟨hzero, hlt, heq⟩)]
          rfl
        next hzero =>
          rw [if_neg fun h => hzero (hfirst.1 h).1]
          rfl
      next hne =>
        rw [if_neg fun h => hne (hfirst.1 h).2.2]
        rfl
    next hnot =>
      rw [if_neg fun h => hnot (hfirst.1 h).2.1]
      rfl
  | _ => cases hop

/-- The policy judges the records and the pool after the removal, in the allocation before. -/
theorem stats_remainder :
    (op.remainder s).stats =
      { total := s.buffer.capacity
        live := (op.apply s).state.size
        pool := s.buffer.pool + op.slotsToPool s } := by
  have hcapacity : (op.remainder s).buffer.capacity = s.buffer.capacity :=
    (within_remainder hop s).capacity_eq
  rw [Store.stats, hcapacity, size_remainder hop, pool_remainder hop]

end Operation

/-- In every state that operations lead to, from any policy on, no removal is at fault, and
each keeps the policy. If the policy is disabled, or there is nothing to look for, or the
layout after the removal is within the thresholds, then nothing is reported and nothing but
the end of the pool is moved: past all records that are dropped up to a key, or past a first
record that is dropped by its key. Otherwise the policy's decision on the layout after the
removal is reported, with its parts, which add up to the allocation, then the squeeze; the
parts asked for are gone, and the others are as the removal left them. -/
theorem removals_keep_or_squeeze (policy : SqueezePolicy) (ops : List (Operation R))
    {op : Operation R} (hop : op.isRemoval = true) :
    let s := (Operation.run ops { policy }).state
    let after := op.apply s
    let pool := s.buffer.pool + op.slotsToPool s
    let left : AllocationStats := ⟨s.buffer.capacity, after.state.size, pool⟩
    let request := s.policy.evaluate left
    (after.fault = none ∧ after.state.size ≤ s.size ∧ after.state.policy = s.policy ∧
      ∀ key, op = .removeUpTo key → after.state.size + op.slotsToPool s = s.size) ∧
      (s.policy.enabled = false ∨ op.exitsEarly s = true ∨ request.any = false →
        after.events = [] ∧ after.state.buffer.pool = pool ∧
          after.state.buffer.growths = s.buffer.growths ∧
          after.state.buffer.capacity = s.buffer.capacity) ∧
      (s.policy.enabled = true → op.exitsEarly s = false → request.any = true →
        left.total = left.live + left.pool + left.tail ∧
          (∃ due done, after.events = [due, done] ∧
            due.level = .debug ∧
            due.message =
              "auto-squeeze: total=" ++ toString left.total ++ " live=" ++ toString left.live ++
                " pre=" ++ toString left.pool ++ " post=" ++ toString left.tail ++
                " -> SqueezeRequest \x7b pre_allocation: " ++ toString request.pool ++
                ", post_allocation: " ++ toString request.tail ++ " \x7d" ∧
            done.level = .trace ∧
            done.message =
              "squeezed store: pre=" ++ toString request.pool ++ " post=" ++
                toString request.tail ++ " capacity=" ++ toString after.state.buffer.capacity) ∧
          after.state.buffer.pool = (if request.pool then 0 else pool) ∧
          after.state.buffer.growths = (if request.pool then 0 else s.buffer.growths) ∧
          after.state.buffer.capacity =
            if request.tail then after.state.buffer.pool + after.state.size
            else s.buffer.capacity) := by
  intro s after pool left request
  let t := op.remainder s
  have hstats : t.stats = left := Operation.stats_remainder hop s
  have hpool : t.buffer.pool = pool := Operation.pool_remainder hop s
  have hgrowths : t.buffer.growths = s.buffer.growths := Operation.growths_remainder hop s
  have hpolicy : t.policy = s.policy := Operation.policy_remainder hop s
  have hsize : t.size = after.state.size := Operation.size_remainder hop s
  have hwithin : t.layout.Within s.layout := Operation.within_remainder hop s
  have hcapacity : t.buffer.capacity = s.buffer.capacity := hwithin.capacity_eq
  have happly : after = if op.exitsEarly s then { state := t } else .ofLogged t.autoSqueeze :=
    Operation.apply_eq_remainder hop s
  refine ⟨⟨?fault, ?size, ?policy, ?dropped⟩, fun hquiet => ?quiet,
    fun hen hearly hany => ?due⟩
  case fault =>
    rw [happly]
    split <;> rfl
  case size =>
    have hused : t.buffer.slots.size ≤ s.buffer.slots.size := hwithin.used_le
    rw [← hsize, Store.size, Store.size, Buffer.size, Buffer.size]
    omega
  case policy =>
    rw [happly]
    split
    · exact hpolicy
    · exact t.policy_autoSqueeze.trans hpolicy
  case dropped =>
    rintro key rfl
    exact Operation.size_removeUpTo s key
  case quiet =>
    have hafter : after = { state := t } := by
      rw [happly]
      split
      next => rfl
      next hearly =>
        have hnone : t.request.any = false := by
          rw [Store.request, hpolicy, hstats]
          rcases hquiet with hoff | hearly' | hnone
          · rw [hoff]
            rfl
          · exact absurd hearly' hearly
          · split
            · exact hnone
            · rfl
        rw [Store.autoSqueeze_of_not_any hnone]
        rfl
    rw [hafter]
    exact ⟨rfl, hpool, hgrowths, hcapacity⟩
  case due =>
    have hrequest : t.request = request := by
      rw [Store.request, hpolicy, hstats, if_pos hen]
    have hafter : after =
        .ofLogged (Logged.report (.squeezeDue left request) >>= fun _ => t.squeeze request) := by
      rw [happly, hearly, if_neg (by simp), Store.autoSqueeze_of_any (hrequest ▸ hany), hrequest,
        hstats]
    have hstate : after.state = (t.squeeze request).value := congrArg Outcome.state hafter
    refine ⟨?_, ?_, ?_, ?_, ?_⟩
    · have hfits : s.layout.Fits := Operation.fits_run ops (s := { policy }) (Nat.le_refl _)
      have hle : t.buffer.slots.size ≤ t.buffer.capacity := hfits.within hwithin
      have hparts := t.buffer.pool_add_size
      show s.buffer.capacity =
        after.state.size + pool + (s.buffer.capacity - after.state.size - pool)
      rw [← hsize, ← hpool, ← hcapacity, Store.size]
      omega
    · rw [hafter]
      exact ⟨_, _, rfl, rfl, rfl, rfl, rfl⟩
    · rw [hstate, t.pool_squeeze, hpool]
    · rw [hstate, t.growths_squeeze, hgrowths]
    · rw [hstate, t.capacity_squeeze, hcapacity]

/-- A policy that looks at allocations of more than two slots. -/
def eagerPolicy : SqueezePolicy := { minAllocation := 2 }

/-- A batch of four samples. -/
def fourSamples : List (Operation Sample) :=
  [.addBatch ([1, 2, 3, 4].map fun n => ⟨.ofNat n, 0⟩) true]

/-- The first of four samples leaves a slot to the pool, and so far that is all; three of them
leave a pool that is too long, which is reported and given back. -/
theorem fourSamples_keep_or_squeeze :
    let s := (Operation.run fourSamples { policy := eagerPolicy }).state
    let one : Operation Sample := .removeKey (.ofNat 1)
    let three : Operation Sample := .removeUpTo (.ofNat 3)
    (one.isRemoval = true ∧ three.isRemoval = true ∧ s.policy.enabled = true) ∧
      ((one.apply s).events = [] ∧ (one.apply s).state.buffer.pool = 1) ∧
      (∃ due done, (three.apply s).events = [due, done] ∧ due.level = .debug ∧
        done.level = .trace) ∧
      (three.apply s).state.buffer.pool = 0 ∧ (three.apply s).state.buffer.capacity = 4 := by
  intro s one three
  have hone : one.isRemoval = true := rfl
  have hthree : three.isRemoval = true := rfl
  have hen : s.policy.enabled = true := by decide +kernel
  obtain ⟨-, hquiet, -⟩ := removals_keep_or_squeeze eagerPolicy fourSamples hone
  obtain ⟨-, -, hdue⟩ := removals_keep_or_squeeze eagerPolicy fourSamples hthree
  obtain ⟨hevents, hpool, -, -⟩ := hquiet (.inr (.inr (by decide +kernel)))
  obtain ⟨-, ⟨due, done, hreports, hdebug, -, htrace, -⟩, hgone, -, hcapacity⟩ :=
    hdue hen (by decide +kernel) (by decide +kernel)
  refine ⟨⟨hone, hthree, hen⟩, ⟨hevents, hpool.trans (by decide +kernel)⟩,
    ⟨due, done, hreports, hdebug, htrace⟩, hgone.trans (by decide +kernel),
    hcapacity.trans (by decide +kernel)⟩

end PlotSeries
