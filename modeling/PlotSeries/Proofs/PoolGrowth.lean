import PlotSeries.Proofs.InsertionOrder
import PlotSeries.Proofs.Layout

/-!
# Growth of the pool

Records below all others are added in front of them, into the pool. A pool that is too
short for them is not extended but replaced by one of their number and the slack of its
next growth, so what is left of it afterwards is that slack (`Layout.prepend_of_pool_lt`).

* `Operation.apply_of_isPrepend`: an operation on records in key order that adds records
  below all others does what `Store.prepend` does, and only the layout and the number of
  records decide what becomes of the layout and what is reported.
* `Layout.Prepended`: what any number of records make of a layout that come in front one
  by one. The pool grows as seldom as the slots it gains allow, by induction on the
  records (`Layout.Prepended.cons`, `Operation.prepended_run`).
-/

namespace PlotSeries

/-! ## Layouts -/

theorem twelve_lt_two_pow (growths : Nat) : 12 < 2 ^ min (growths + 4) 15 :=
  Nat.lt_of_lt_of_le (by decide : 12 < 2 ^ 4) (Nat.pow_le_pow_right (by decide) (by omega))

/-- The slack has reached its largest size long before growths are no longer counted. -/
theorem exponent_min_maxGrowths (growths j : Nat) :
    min (min growths maxGrowths + j + 4) 15 = min (growths + j + 4) 15 := by
  unfold maxGrowths
  omega

/-- The slots gained by `count` growths of the pool for one record each, after `earlier`
other growths. -/
def slotsGained (earlier count : Nat) : Nat :=
  ((List.range count).map fun j => 2 ^ min (earlier + j + 4) 15 - 11).foldr (· + ·) 0

theorem slotsGained_zero (earlier : Nat) : slotsGained earlier 0 = 0 := rfl

/-- The first growth gains its slack and the slot that its record takes. -/
theorem slotsGained_succ (earlier count : Nat) :
    slotsGained earlier (count + 1) = poolSlack earlier + 1 + slotsGained (earlier + 1) count := by
  have hfirst : 2 ^ min (earlier + 0 + 4) 15 - 11 = poolSlack earlier + 1 := by
    have hlt := twelve_lt_two_pow earlier
    show 2 ^ min (earlier + 4) 15 - 11 = 2 ^ min (earlier + 4) 15 - 12 + 1
    omega
  have hshift : (fun j => 2 ^ min (earlier + j + 4) 15 - 11) ∘ Nat.succ =
      fun j => 2 ^ min (earlier + 1 + j + 4) 15 - 11 := by
    funext j
    show 2 ^ min (earlier + (j + 1) + 4) 15 - 11 = _
    rw [Nat.add_right_comm earlier 1 j]
    rfl
  rw [slotsGained, List.range_succ_eq_map, List.map_cons, List.foldr_cons, List.map_map, hfirst, hshift,
    slotsGained]

theorem slotsGained_min_maxGrowths (earlier count : Nat) :
    slotsGained (min earlier maxGrowths) count = slotsGained earlier count := by
  simp only [slotsGained, exponent_min_maxGrowths]

/-- What is reported of a growth of the pool for one record, after `earlier` others. -/
def growthEvent (earlier : Nat) : Event :=
  .grewPool (1 + poolSlack earlier) (min (earlier + 1) maxGrowths)

theorem growthEvent_min_add (earlier j : Nat) :
    growthEvent (min earlier maxGrowths + j) = growthEvent (earlier + j) := by
  have hcount : min (min earlier maxGrowths + j + 1) maxGrowths = min (earlier + j + 1) maxGrowths := by
    omega
  simp only [growthEvent, poolSlack, exponent_min_maxGrowths, hcount]

namespace Layout

/-- What is reported of the growth of a pool that is too short for records in front. -/
def prependEvents (a : Layout) (count : Nat) : List Event :=
  if count ≤ a.pool then []
  else [.grewPool (count + poolSlack a.growths) (min (a.growths + 1) maxGrowths)]

/-- A pool that is too short is replaced; what is left of the new one is its slack. -/
theorem prepend_of_pool_lt {a : Layout} {count : Nat} (hpool : a.pool ≤ a.used)
    (h : a.pool < count) :
    let slack := poolSlack a.growths
    a.prepend count =
      { used := slack + count + (a.used - a.pool)
        pool := slack
        growths := min (a.growths + 1) maxGrowths
        capacity := capacityFor a.capacity (slack + count + (a.used - a.pool)) } := by
  intro slack
  have hused : a.used + (count + slack - a.pool) = slack + count + (a.used - a.pool) := by omega
  have hleft : count + slack - count = slack := by omega
  rw [prepend, if_neg (Nat.not_le.2 h)]
  simp only [takePool, growPool, extend, hused, hleft, slack]

/-- What `count` records that come in front one by one make of the layout `a`: the layout
`b`, and reports of growths, as few as there can be. -/
structure Prepended (a : Layout) (count : Nat) (b : Layout) (events : List Event) : Prop where
  /-- Nothing but growths is reported, and all of them are. -/
  events_eq : events = (List.range events.length).map fun j => growthEvent (a.growths + j)
  /-- The pool and the slots it gains are enough for the records. -/
  enough : count ≤ a.pool + slotsGained a.growths events.length
  /-- With fewer growths they are not. -/
  least : ∀ g < events.length, a.pool + slotsGained a.growths g < count
  /-- The rest of these slots is left. -/
  pool_eq : b.pool = a.pool + slotsGained a.growths events.length - count
  /-- The growths are counted, as far as they can be. -/
  growths_eq : a.growths + events.length ≤ maxGrowths → b.growths = a.growths + events.length

namespace Prepended

variable {a b : Layout} {count : Nat} {events : List Event}

theorem refl (a : Layout) : a.Prepended 0 a [] :=
  ⟨rfl, Nat.zero_le _, fun _ h => absurd h (Nat.not_lt_zero _), rfl, fun _ => rfl⟩

/-- One more record before the others, in a slot of the pool. -/
theorem cons_takePool (h : 1 ≤ a.pool) (hrest : (a.takePool 1).Prepended count b events) :
    a.Prepended (count + 1) b events := by
  obtain ⟨hevents, henough, hleast, hpool, hgrowths⟩ := hrest
  simp only [takePool] at hevents henough hleast hpool hgrowths
  refine ⟨hevents, by omega, fun g hg => ?_, by omega, hgrowths⟩
  have := hleast g hg
  omega

/-- One more record before the others, for which an empty pool grows. -/
theorem cons_growPool (h : a.pool = 0)
    (hrest : ((a.growPool 1).takePool 1).Prepended count b events) :
    a.Prepended (count + 1) b (growthEvent a.growths :: events) := by
  obtain ⟨hevents, henough, hleast, hpool, hgrowths⟩ := hrest
  have hslack : (1 + poolSlack a.growths) - 1 = poolSlack a.growths := by omega
  have hgained (g : Nat) : slotsGained a.growths (g + 1) =
      poolSlack a.growths + 1 + slotsGained (min (a.growths + 1) maxGrowths) g := by
    rw [slotsGained_succ, slotsGained_min_maxGrowths]
  simp only [takePool, growPool, hslack] at hevents henough hleast hpool hgrowths
  refine ⟨?_, ?_, fun g hg => ?_, ?_, fun hcounted => ?_⟩
  · have hshift (j : Nat) : growthEvent (min (a.growths + 1) maxGrowths + j) =
        growthEvent (a.growths + j.succ) := by
      rw [growthEvent_min_add, Nat.add_assoc, Nat.add_comm 1 j]
    have hlater : events = (List.range events.length).map
        ((fun j => growthEvent (a.growths + j)) ∘ Nat.succ) :=
      hevents.trans (List.map_congr_left fun j _ => hshift j)
    rw [List.length_cons, List.range_succ_eq_map, List.map_cons, List.map_map, Nat.add_zero,
      ← hlater]
  · rw [List.length_cons, hgained]
    omega
  · cases g with
    | zero => rw [slotsGained_zero]; omega
    | succ g =>
      have := hleast g (Nat.lt_of_succ_lt_succ hg)
      rw [hgained]
      omega
  · rw [List.length_cons, hgained]
    omega
  · -- the number up to which growths are counted stays closed
    generalize maxGrowths = top at hgrowths hcounted
    rw [List.length_cons] at hcounted ⊢
    have := hgrowths (by omega)
    omega

/-- One more record before the others. -/
theorem cons (hrest : (a.prepend 1).Prepended count b events) :
    a.Prepended (count + 1) b (a.prependEvents 1 ++ events) := by
  unfold prepend at hrest
  unfold prependEvents
  split at hrest
  next h =>
    rw [if_pos h]
    exact cons_takePool h hrest
  next h =>
    rw [if_neg h]
    exact cons_growPool (by omega) hrest

end Prepended

end Layout

/-! ## Stores -/

variable {R : Type} [PlotRecord R]

theorem Store.events_prepend (s : Store R) (records : List R) :
    (s.prepend records).events = s.layout.prependEvents records.length := by
  rw [prepend, Layout.prependEvents, apply_ite Logged.events]
  rfl

theorem Store.policy_prepend (s : Store R) (records : List R) :
    (s.prepend records).value.policy = s.policy := by
  rw [prepend]
  split <;> rfl

namespace Operation

/-- The operation adds records below all others: a record whose key is below that of the
first one, or a batch declared sorted whose last key is. -/
def isPrepend (op : Operation R) (s : Store R) : Bool :=
  let below (record : R) := s.first?.any fun first => keyLess (sortKey record) (sortKey first)
  match op with
  | add record => below record
  | addBatch records true => records.getLast?.any below
  | _ => false

/-- In front of records in key order, records below all others go into the pool. -/
theorem apply_of_isPrepend {op : Operation R} {s : Store R} (hs : InKeyOrder s.toList)
    (h : op.isPrepend s = true) : op.apply s = .ofLogged (s.prepend op.piece) := by
  cases op with
  | add record =>
    obtain ⟨first, hfirst, hbelow⟩ : ∃ first, s.first? = some first ∧
        keyLess (sortKey record) (sortKey first) = true := by
      simpa [isPrepend, Option.any_eq_true] using h
    have hhead := s.first?_eq.symm.trans hfirst
    have hne : s.toList ≠ [] := fun hnil => by simp [hnil] at hhead
    have hlast : s.last? = some (s.toList.getLast hne) :=
      s.last?_eq.trans (List.getLast?_eq_some_getLast hne)
    have hbelowLast : keyLess (sortKey record) (sortKey (s.toList.getLast hne)) = true := by
      have hle : place first ≤ place (s.toList.getLast hne) :=
        hs.head_place_le hhead _ (List.getLast_mem hne)
      exact keyLess_iff.2 (Int.lt_of_lt_of_le (keyLess_iff.1 hbelow) hle)
    have hadd : s.add record = s.prepend [record] := by
      rw [Store.add, hfirst, hlast]
      simp only [hbelow, hbelowLast, Bool.not_true, Bool.false_eq_true, if_false, if_true]
    show Outcome.ofLogged (s.add record) = _
    rw [hadd]
    rfl
  | addBatch records sorted =>
    cases sorted with
    | false => cases h
    | true =>
      obtain ⟨last, hlast, first, hfirst, hbelow⟩ : ∃ last, records.getLast? = some last ∧
          ∃ first, s.first? = some first ∧ keyLess (sortKey last) (sortKey first) = true := by
        simpa [isPrepend, Option.any_eq_true] using h
      have hadd : s.addBatch records true = s.prepend records := by
        rw [Store.addBatch, hlast, hfirst]
        simp only [hbelow, Bool.and_self, if_true]
      show Outcome.ofLogged (s.addBatch records true) = _
      rw [hadd]
      rfl
  | _ => cases h

/-- One record, alone or as a batch, is an insertion. -/
theorem inserts_of_piece_length {op : Operation R} {s : Store R} (h : op.piece.length = 1) :
    op.Inserts s := by
  cases op with
  | add record => trivial
  | addBatch records sorted =>
    obtain ⟨record, rfl⟩ := List.length_eq_one_iff.1 h
    exact fun _ => List.pairwise_singleton _ _
  | _ => cases h

/-- The operation adds one record below all others. -/
def PrependsOne (op : Operation R) (s : Store R) : Prop :=
  op.isPrepend s = true ∧ op.piece.length = 1

instance (op : Operation R) (s : Store R) : Decidable (op.PrependsOne s) :=
  inferInstanceAs (Decidable (_ ∧ _))

/-- One record below all others leaves the store in order, and what it costs depends on the
layout alone. -/
theorem apply_of_prependsOne {op : Operation R} {s : Store R} (hs : InKeyOrder s.toList)
    (h : op.PrependsOne s) :
    InKeyOrder (op.apply s).state.toList ∧
      (op.apply s).state.layout = s.layout.prepend 1 ∧
      (op.apply s).events = s.layout.prependEvents 1 := by
  obtain ⟨hprepend, hone⟩ := h
  refine ⟨?_, ?_, ?_⟩
  · rw [(inserts_of_piece_length hone).toList_apply hs]
    exact inKeyOrder_sortByKey _
  · rw [apply_of_isPrepend hs hprepend, ← hone]
    exact s.layout_prepend op.piece
  · rw [apply_of_isPrepend hs hprepend, ← hone]
    exact s.events_prepend op.piece

/-- A run of single records in front. -/
theorem prepended_run {ops : List (Operation R)} {s : Store R} (hs : InKeyOrder s.toList)
    (h : Throughout PrependsOne ops s) :
    s.layout.Prepended ops.length (run ops s).state.layout (run ops s).events := by
  induction ops generalizing s with
  | nil => exact .refl _
  | cons op ops ih =>
    obtain ⟨hop, hops⟩ := h
    obtain ⟨horder, hlayout, hevents⟩ := apply_of_prependsOne hs hop
    have hrest := ih horder hops
    rw [hlayout] at hrest
    rw [run_cons, List.length_cons]
    show s.layout.Prepended _ _ ((op.apply s).events ++ _)
    rw [hevents]
    exact hrest.cons

end Operation

/-- Records below all others go in front of them, in the order they are given. As long as
the pool has room for them it gives them slots, and nothing else changes and nothing is
reported; else it is replaced by a pool whose slack is left over, the growth is counted,
and the growth is all that is reported. Of a run of such records one by one, the growths
are therefore as few as the pool and the slots gained allow, and the rest of those slots is
the pool in the end. -/
theorem prepends_account_for_pool {s : Store R} (hs : InKeyOrder s.toList) :
    (∀ op : Operation R, op.isPrepend s = true →
      let after := op.apply s
      let n := op.piece.length
      let slack := 2 ^ min (s.buffer.growths + 4) 15 - 12
      let growths := min (s.buffer.growths + 1) (2 ^ 32 - 1)
      after.state.toList = op.piece ++ s.toList ∧
        after.state.policy = s.policy ∧ after.fault = none ∧
        (n ≤ s.buffer.pool →
          after.state.layout = { s.layout with pool := s.buffer.pool - n } ∧ after.events = []) ∧
        (s.buffer.pool < n →
          after.state.layout =
              { used := slack + n + s.size
                pool := slack
                growths := growths
                capacity := capacityFor s.buffer.capacity (slack + n + s.size) } ∧
            ∃ event, after.events = [event] ∧ event.level = .trace ∧
              event.message =
                s!"grew pre-allocation to {n + slack} (iteration {growths})")) ∧
      ∀ ops : List (Operation R), Throughout Operation.PrependsOne ops s →
        s.layout.Prepended ops.length (Operation.run ops s).state.layout
          (Operation.run ops s).events := by
  refine ⟨fun op h => ?_, fun ops h => Operation.prepended_run hs h⟩
  intro after n slack growths
  have hafter : after = .ofLogged (s.prepend op.piece) := Operation.apply_of_isPrepend hs h
  have hlayout : after.state.layout = s.layout.prepend n := by
    rw [hafter]
    exact s.layout_prepend op.piece
  have hevents : after.events = s.layout.prependEvents n := by
    rw [hafter]
    exact s.events_prepend op.piece
  refine ⟨?_, ?_, ?_, fun hroom => ⟨?_, ?_⟩, fun hshort => ⟨?_, ?_⟩⟩
  · rw [hafter]
    exact s.toList_prepend op.piece
  · rw [hafter]
    exact s.policy_prepend op.piece
  · rw [hafter]
    rfl
  · rw [hlayout, Layout.prepend, if_pos (show n ≤ s.layout.pool from hroom)]
    rfl
  · rw [hevents, Layout.prependEvents, if_pos (show n ≤ s.layout.pool from hroom)]
  · rw [hlayout, Layout.prepend_of_pool_lt s.layout_pool_le hshort]
    rfl
  · rw [hevents, Layout.prependEvents, if_neg (show ¬n ≤ s.layout.pool from Nat.not_le.2 hshort)]
    exact ⟨_, rfl, rfl, rfl⟩

/-- Two samples behind a pool of one slot. -/
def frontPair : Store Sample where
  buffer :=
    { slots := #[default, ⟨.ofNat 8, ⟨1⟩⟩, ⟨.ofNat 9, ⟨2⟩⟩], pool := 1, capacity := 3 }

/-- Seven samples, each below the one before. -/
def countdown : List (Operation Sample) := [7, 6, 5, 4, 3, 2, 1].map fun n => .add ⟨.ofNat n, 0⟩

/-- A batch of two leaves the slack of the first growth; for the seven samples the pool
grows twice, to 5 slots and then to 21. -/
theorem frontPair_accounts_for_pool :
    let batch : Operation Sample := .addBatch [⟨.ofNat 1, ⟨3⟩⟩, ⟨.ofNat 1, ⟨4⟩⟩] true
    InKeyOrder frontPair.toList ∧ batch.isPrepend frontPair = true ∧
      frontPair.buffer.pool < batch.piece.length ∧
      Throughout Operation.PrependsOne countdown frontPair ∧
      (batch.apply frontPair).state.layout = ⟨8, 4, 1, 8⟩ ∧
      frontPair.layout.Prepended 7 (Operation.run countdown frontPair).state.layout
        [growthEvent 0, growthEvent 1] :=
  have hs : InKeyOrder frontPair.toList := by decide
  have hbatch : Operation.isPrepend
      (.addBatch [⟨.ofNat 1, ⟨3⟩⟩, ⟨.ofNat 1, ⟨4⟩⟩] true) frontPair = true := by decide
  have hops : Throughout Operation.PrependsOne countdown frontPair := by decide
  have hresult := prepends_account_for_pool hs
  have hshort := ((hresult.1 _ hbatch).2.2.2.2 (by decide)).1
  have hevents : (Operation.run countdown frontPair).events = [growthEvent 0, growthEvent 1] := by
    decide
  ⟨hs, hbatch, by decide, hops, hshort, hevents ▸ hresult.2 countdown hops⟩

end PlotSeries
