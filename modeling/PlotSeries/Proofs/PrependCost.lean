import PlotSeries.Proofs.PoolGrowth
import PlotSeries.Proofs.Rounding
import PlotSeries.Record.Kinds

/-!
# What prepending costs

A growth of the pool moves every live record (`Operation.moved`). How many records a run
moves in all (`movedIn`) is counted here for records that come in front one by one.

* `Operation.movedIn_prepends`: each growth finds the slots that the run started with and
  those of the growths before it full of records, so the number of growths determines how
  many records are moved (`recordsMoved`), by induction on the records.
* `exists_grownFor_of_descending`: a new store takes records in descending order with as
  few growths as the slots they gain allow (`GrownFor`).
* `recordsMoved_add_twelve`: from the thirteenth growth on each gains the same number of
  slots, so the records moved are a quadratic function of the number of growths.

While the slack doubles, a record is moved twice at most on average
(`GrownFor.moved_le_two_mul`). In the long run the average has no bound: the number of
records moved is that of the records squared by 65514, give or take twice the records
(`GrownFor.moved_le_square`, `GrownFor.square_le_moved`).
-/

namespace PlotSeries

/-! ## Moved records -/

/-- A growth of the pool is reported. -/
def Event.isGrowth : Event → Bool
  | grewPool .. => true
  | _ => false

section Runs

variable {R : Type} [PlotRecord R]

/-- The records that an operation moves to make the pool larger: all that are live, for each
growth. -/
def Operation.moved (op : Operation R) (s : Store R) : Nat :=
  ((op.apply s).events.filter Event.isGrowth).length * s.size

/-- The records moved by the growths of a whole run. -/
def movedIn : List (Operation R) → Store R → Nat
  | [], _ => 0
  | op :: ops, s => op.moved s + movedIn ops (op.apply s).state

end Runs

/-- The records moved by `count` growths for one record each, after `earlier` others, when
`held` slots were in use before the first. Each finds no slot of the pool left. -/
def recordsMoved (earlier held : Nat) : Nat → Nat
  | 0 => 0
  | count + 1 => recordsMoved earlier held count + (held + slotsGained earlier count)

/-- The growths after the first find the slots that it gained in use as well. -/
theorem recordsMoved_succ (earlier held count : Nat) :
    recordsMoved earlier held (count + 1) =
      held + recordsMoved (earlier + 1) (held + poolSlack earlier + 1) count := by
  induction count with
  | zero => simp [recordsMoved, slotsGained_zero]
  | succ count ih =>
    rw [recordsMoved, ih, recordsMoved, slotsGained_succ]
    omega

theorem recordsMoved_min_maxGrowths (earlier held count : Nat) :
    recordsMoved (min earlier maxGrowths) held count = recordsMoved earlier held count := by
  induction count with
  | zero => rfl
  | succ count ih => rw [recordsMoved, recordsMoved, ih, slotsGained_min_maxGrowths]

/-! ## Runs of records in front -/

variable {R : Type} [PlotRecord R]

namespace Operation

/-- A record in front moves all others if there is no slot for it in the pool. -/
theorem moved_of_prependsOne {op : Operation R} {s : Store R} (hs : InKeyOrder s.toList)
    (h : op.PrependsOne s) : op.moved s = if 1 ≤ s.layout.pool then 0 else s.size := by
  obtain ⟨-, -, hevents⟩ := apply_of_prependsOne hs h
  rw [moved, hevents, Layout.prependEvents]
  split
  · exact Nat.zero_mul _
  · exact Nat.one_mul _

/-- A run of single records in front moves what its growths find in use. -/
theorem movedIn_prepends {ops : List (Operation R)} {s : Store R} (hs : InKeyOrder s.toList)
    (h : Throughout PrependsOne ops s) :
    movedIn ops s = recordsMoved s.layout.growths s.layout.used (run ops s).events.length := by
  induction ops generalizing s with
  | nil => rfl
  | cons op ops ih =>
    obtain ⟨hop, hops⟩ := h
    obtain ⟨horder, hlayout, hevents⟩ := apply_of_prependsOne hs hop
    have hmoved := moved_of_prependsOne hs hop
    have hrest := ih horder hops
    have hlength : (run (op :: ops) s).events.length =
        (s.layout.prependEvents 1).length + (run ops (op.apply s).state).events.length := by
      rw [run_cons, ← hevents]
      exact List.length_append
    rw [movedIn, hmoved, hrest, hlength, hlayout, Layout.prepend, Layout.prependEvents]
    split
    next => simp [Layout.takePool]
    next hshort =>
      have hpool : s.layout.pool = 0 := by omega
      have hused : s.layout.used + (1 + poolSlack s.layout.growths - 0) =
          s.layout.used + poolSlack s.layout.growths + 1 := by omega
      have hsize : s.size = s.layout.used := by rw [s.size_eq_layout, hpool, Nat.sub_zero]
      simp only [Layout.takePool, Layout.growPool, Layout.extend, hpool, hused,
        recordsMoved_min_maxGrowths, hsize, List.length_cons, List.length_nil, Nat.zero_add]
      rw [Nat.add_comm 1, recordsMoved_succ]

/-- Records that go down from the first one of a store come in front of it one by one. -/
theorem throughout_prependsOne {records : List R} {s : Store R} {first : R}
    (hs : InKeyOrder s.toList) (hfirst : s.first? = some first)
    (hdown : (first :: records).Pairwise fun a b => keyLess (sortKey b) (sortKey a) = true) :
    Throughout PrependsOne (records.map add) s := by
  induction records generalizing s first with
  | nil => trivial
  | cons record records ih =>
    obtain ⟨hbelow, hdown⟩ := List.pairwise_cons.1 hdown
    have hop : (add record).PrependsOne s :=
      ⟨by simpa [isPrepend, hfirst] using hbelow record List.mem_cons_self, rfl⟩
    have hlist : ((add record).apply s).state.toList = record :: s.toList := by
      rw [apply_of_isPrepend hs hop.1]
      exact s.toList_prepend [record]
    refine ⟨hop, ih (apply_of_prependsOne hs hop).1 ?_ hdown⟩
    rw [Store.first?_eq, hlist]
    rfl

end Operation

/-! ## The growths of a new store -/

/-- The pool has grown `growths` times for `count` records: the slots gained are enough for
all but the first record, which comes behind an empty pool, and with fewer they were not. -/
structure GrownFor (count growths : Nat) : Prop where
  enough : count ≤ slotsGained 0 growths + 1
  least : ∀ g < growths, slotsGained 0 g + 1 < count

/-- A new store takes records in descending order with as few growths as their slots allow,
and these growths determine how many records are moved. -/
theorem exists_grownFor_of_descending (policy : SqueezePolicy) {records : List R}
    (hdown : records.Pairwise fun a b => keyLess (sortKey b) (sortKey a) = true) :
    ∃ growths, GrownFor records.length growths ∧
      movedIn (records.map .add) ({ policy } : Store R) = recordsMoved 0 1 growths := by
  cases records with
  | nil => exact ⟨0, ⟨Nat.zero_le _, fun g hg => absurd hg (Nat.not_lt_zero g)⟩, rfl⟩
  | cons first records =>
    let start : Store R := { buffer := Buffer.empty.push first, policy }
    have hlist : start.toList = [first] := Buffer.toList_push _ _
    have horder : InKeyOrder start.toList := by
      rw [hlist]
      exact List.pairwise_singleton _ _
    have hfirst : start.first? = some first := by
      rw [Store.first?_eq, hlist]
      rfl
    have hlayout : start.layout = ⟨1, 0, 0, 4⟩ := Buffer.layout_push _ _
    have hops := Operation.throughout_prependsOne horder hfirst hdown
    have hrun := Operation.prepended_run horder hops
    have hmoved := Operation.movedIn_prepends horder hops
    have hpush : (Operation.add first).moved ({ policy } : Store R) = 0 := Nat.zero_mul _
    rw [hlayout] at hrun hmoved
    have henough := hrun.enough
    have hleast := hrun.least
    simp only [List.length_map, Nat.zero_add] at henough hleast
    refine ⟨(Operation.run (records.map .add) start).events.length, ⟨?_, ?_⟩, ?_⟩
    · exact Nat.succ_le_succ henough
    · exact fun g hg => Nat.succ_lt_succ (hleast g hg)
    · rw [List.map_cons, movedIn, hpush, Nat.zero_add]
      exact hmoved

theorem slotsGained_succ_last (earlier count : Nat) :
    slotsGained earlier (count + 1) =
      slotsGained earlier count + (2 ^ min (earlier + count + 4) 15 - 11) := by
  show List.sum _ = List.sum _ + _
  rw [List.range_succ, List.map_append, List.sum_append, List.map_singleton, List.sum_singleton]

/-- From the thirteenth on, growths gain 32757 slots each. -/
theorem slotsGained_add_twelve (k : Nat) : slotsGained 0 (12 + k) = 65388 + 32757 * k := by
  induction k with
  | zero => decide
  | succ k ih =>
    have hexponent : min (0 + (12 + k) + 4) 15 = 15 := by omega
    rw [← Nat.add_assoc, slotsGained_succ_last, ih, hexponent]
    omega

/-- From the thirteenth growth on, the records moved are quadratic in the number of growths. -/
theorem recordsMoved_add_twelve (k : Nat) :
    2 * recordsMoved 0 1 (12 + k) + 32757 * k = 129228 + 130778 * k + 32757 * (k * k) := by
  induction k with
  | zero => decide
  | succ k ih =>
    rw [← Nat.add_assoc, recordsMoved, slotsGained_add_twelve]
    grind

namespace GrownFor

variable {n g : Nat}

/-- As long as the slack doubles, records are moved twice at most. -/
theorem moved_le_two_mul (h : GrownFor n g) (hg : g ≤ 12) :
    recordsMoved 0 1 g ≤ 2 * n ∧ n ≤ 65389 := by
  -- a growth moves the slots gained by those before it, which it about doubles
  have hslots : ∀ g < 13, slotsGained 0 g ≤ 65388 := by decide +kernel
  have htwice : ∀ g < 12, recordsMoved 0 1 (g + 1) ≤ 2 * (slotsGained 0 g + 2) := by
    decide +kernel
  have henough := h.enough
  have hgained := hslots g (by omega)
  refine ⟨?_, by omega⟩
  cases g with
  | zero => exact Nat.zero_le _
  | succ g =>
    have hmoved := htwice g hg
    have hleast := h.least g (Nat.lt_succ_self g)
    omega

/-- Later on every growth makes the same number of slots. -/
theorem exists_of_twelve_lt (h : GrownFor n g) (hg : 12 < g) :
    ∃ k, 1 ≤ k ∧ g = 12 + k ∧ 32633 + 32757 * k ≤ n ∧ n ≤ 65389 + 32757 * k ∧
      2 * recordsMoved 0 1 g + 32757 * k = 129228 + 130778 * k + 32757 * (k * k) := by
  obtain ⟨k, rfl⟩ : ∃ k, g = 12 + (k + 1) := ⟨g - 13, by omega⟩
  have henough := h.enough
  have hleast := h.least (12 + k) (by omega)
  rw [slotsGained_add_twelve] at henough hleast
  have hlow : 32633 + 32757 * (k + 1) ≤ n := by grind
  exact ⟨k + 1, Nat.le_add_left 1 k, rfl, hlow, by grind, recordsMoved_add_twelve (k + 1)⟩

/-- The eighteenth growth takes the average above four; the records that follow bring it down
to four again, until the nineteenth. -/
theorem moved_le_four_mul_iff (h : GrownFor n g) :
    recordsMoved 0 1 g ≤ 4 * n ↔ n < 229175 ∨ (237076 ≤ n ∧ n < 261932) := by
  rcases Nat.lt_or_ge 12 g with hg | hg
  · obtain ⟨k, hk, rfl, hlow, hhigh, hmoved⟩ := h.exists_of_twelve_lt hg
    generalize recordsMoved 0 1 (12 + k) = moved at hmoved ⊢
    -- only between the eighteenth growth and the nineteenth does it depend on `n`
    rcases Nat.lt_trichotomy k 6 with hlt | rfl | hgt
    · have hsquare : k * k ≤ 5 * k := Nat.mul_le_mul_right k (by omega)
      have hmoved : moved ≤ 4 * n := by grind
      exact iff_of_true hmoved (.inl (by omega))
    · omega
    · have hsquare : 7 * k ≤ k * k := Nat.mul_le_mul_right k hgt
      have hmoved : ¬moved ≤ 4 * n := by grind
      exact iff_of_false hmoved (by omega)
  · obtain ⟨hmoved, hfew⟩ := h.moved_le_two_mul hg
    exact iff_of_true (by omega) (.inl (by omega))

/-- The records moved are at most the square of the records by 65514 and twice the records. -/
theorem moved_le_square (h : GrownFor n g) :
    65514 * recordsMoved 0 1 g ≤ n * n + 131028 * n := by
  rcases Nat.lt_or_ge 12 g with hg | hg
  · obtain ⟨k, hk, rfl, hlow, hhigh, hmoved⟩ := h.exists_of_twelve_lt hg
    generalize recordsMoved 0 1 (12 + k) = moved at hmoved ⊢
    have hsquare : (32633 + 32757 * k) * (32633 + 32757 * k) ≤ n * n := Nat.mul_le_mul hlow hlow
    grind
  · have hmoved := (h.moved_le_two_mul hg).1
    omega

/-- They are at least the square of the records by 65514 less the records. -/
theorem square_le_moved (h : GrownFor n g) :
    n * n ≤ 65514 * recordsMoved 0 1 g + 65514 * n := by
  rcases Nat.lt_or_ge 12 g with hg | hg
  · obtain ⟨k, hk, rfl, hlow, hhigh, hmoved⟩ := h.exists_of_twelve_lt hg
    generalize recordsMoved 0 1 (12 + k) = moved at hmoved ⊢
    have hsquare : n * n ≤ (65514 + 32757 * k) * n := Nat.mul_le_mul_right n (by omega)
    have hrest : k * n ≤ k * (65389 + 32757 * k) := Nat.mul_le_mul_left k hhigh
    grind
  · have hfew := (h.moved_le_two_mul hg).2
    have hsquare : n * n ≤ 65514 * n := Nat.mul_le_mul_right n (by omega)
    omega

end GrownFor

/-! ## Records in descending order -/

/-- Samples at `count`, …, 2, 1. -/
def descending (count : Nat) : List Sample :=
  (List.range count).map fun i => ⟨.ofNat (count - i), 0⟩

theorem pairwise_descending {count : Nat} (h : count < 2 ^ 53) :
    (descending count).Pairwise fun a b => keyLess (sortKey b) (sortKey a) = true := by
  refine List.pairwise_map.2 (List.pairwise_lt_range.imp_of_mem ?_)
  intro i j hi hj hij
  have hj := List.mem_range.1 hj
  have hi : count - i < 2 ^ 53 := by omega
  have hlog := log2_le_of_lt hi
  have hlower : Binary64.nearest false (count - j) 0 < Binary64.nearest false (count - i) 0 := by
    have hlog' := log2_le_of_lt (m := count - j) (k := 53) (by omega)
    rw [Binary64.nearest_lt_nearest_iff (Binary64.isShort_of_lt (by omega))
      (Binary64.isShort_of_lt hi) (by decide) (by omega) (by omega)]
    omega
  exact keyLess_iff.2 (Binary64.lt_def.1 hlower).2.2

/-- Records in descending order that a new store takes one by one: at most four for each of
them are moved until the pool grows for the eighteenth time, and again shortly before the
nineteenth, but never for more records. In the long run the number of records moved is that
of the records squared by 65514, give or take twice the records. -/
theorem prepends_move_quadratically (policy : SqueezePolicy) {records : List R}
    (hdown : records.Pairwise fun a b => keyLess (sortKey b) (sortKey a) = true) :
    let n := records.length
    let moved := movedIn (records.map .add) ({ policy } : Store R)
    (moved ≤ 4 * n ↔ n < 229175 ∨ (237076 ≤ n ∧ n < 261932)) ∧
      65514 * moved ≤ n * n + 131028 * n ∧ n * n ≤ 65514 * moved + 65514 * n := by
  intro n moved
  obtain ⟨growths, hgrown, hmoved⟩ := exists_grownFor_of_descending policy hdown
  rw [show moved = recordsMoved 0 1 growths from hmoved]
  exact ⟨hgrown.moved_le_four_mul_iff, hgrown.moved_le_square, hgrown.square_le_moved⟩

/-- The pool grows twice for eight samples, and one and then six of them are moved. -/
theorem eight_descending_moved :
    let moved := movedIn ((descending 8).map .add) ({ } : Store Sample)
    moved = 7 ∧ (moved ≤ 4 * 8 ↔ 8 < 229175 ∨ (237076 ≤ 8 ∧ 8 < 261932)) ∧
      65514 * moved ≤ 8 * 8 + 131028 * 8 ∧ 8 * 8 ≤ 65514 * moved + 65514 * 8 :=
  have hdown : (descending 8).Pairwise fun a b => keyLess (sortKey b) (sortKey a) = true :=
    pairwise_descending (by decide)
  have hmoved : movedIn ((descending 8).map .add) ({ } : Store Sample) = 7 := by decide
  ⟨hmoved, prepends_move_quadratically {} hdown⟩

/-- More than four records are moved for each of 229175 samples. -/
theorem long_descent_moves_more :
    let samples := descending 229175
    samples.length = 229175 ∧
      (samples.Pairwise fun a b => keyLess (sortKey b) (sortKey a) = true) ∧
      ¬movedIn (samples.map .add) ({ } : Store Sample) ≤ 4 * samples.length := by
  intro samples
  have hlength : samples.length = 229175 := by simp [samples, descending]
  have hdown : samples.Pairwise fun a b => keyLess (sortKey b) (sortKey a) = true :=
    pairwise_descending (by decide)
  obtain ⟨growths, hgrown, hmoved⟩ := exists_grownFor_of_descending {} hdown
  refine ⟨hlength, hdown, ?_⟩
  rw [hmoved, hgrown.moved_le_four_mul_iff, hlength]
  decide

end PlotSeries
