import PlotSeries.Run

/-!
# Key order and numbers

The key order is that of one integer per key, `Binary64.signedMagnitude`, so its
comparison is lawful in the sense of the standard library (`Std.TransCmp`). What
the order of records and its relation to the comparisons of numbers look like
through the integers:

* `recordLe_iff`, `recordLe_trans`, `recordLe_total`: records are compared by
  `place`, the integer of their sort key, so their order is total and transitive.
* `isNaN_eq_false_iff`: the integers of numbers lie between those of the two
  infinities; NaNs lie outside. So a key between two numbers is a number
  (`le_and_le_iff`), and a key in the place of a number equals it (`numEq_iff_of_number`).
* `le_trans`, `numEq_of_le_of_le`: numbers are ordered up to the sign of a zero.
-/

namespace PlotSeries

/-- Keys are compared by their integers. -/
theorem compareKeys_eq_compareOn : compareKeys = compareOn Binary64.signedMagnitude := by
  funext a b
  exact compareKeys_eq a b

instance : Std.TransCmp compareKeys := by
  rw [compareKeys_eq_compareOn]
  infer_instance

theorem keyLess_eq_false_iff {a b : Binary64} :
    keyLess a b = false ↔ b.signedMagnitude ≤ a.signedMagnitude := by
  rw [← Bool.not_eq_true, keyLess_iff, Int.not_lt]

/-! ## Numbers among the keys -/

namespace Binary64

theorem magnitude_eq_natAbs (x : Binary64) : x.magnitude = x.signedMagnitude.natAbs := by
  unfold signedMagnitude
  split <;> simp

/-- The integers of numbers lie between those of the infinities. -/
theorem isNaN_eq_false_iff {x : Binary64} :
    x.isNaN = false ↔ x.signedMagnitude.natAbs ≤ infinityMagnitude := by
  rw [isNaN, magnitude_eq_natAbs]
  simp

/-- A key that stands between two numbers in the key order is a number. -/
theorem isNaN_eq_false_of_between {a b x : Binary64} (ha : a.isNaN = false) (hb : b.isNaN = false)
    (hax : a.signedMagnitude ≤ x.signedMagnitude) (hxb : x.signedMagnitude ≤ b.signedMagnitude) :
    x.isNaN = false := by
  rw [isNaN_eq_false_iff] at *
  omega

/-- Between two numbers, the key order is that of numbers. -/
theorem le_and_le_iff {a b x : Binary64} (ha : a.isNaN = false) (hb : b.isNaN = false) :
    (a ≤ x ∧ x ≤ b) ↔
      a.signedMagnitude ≤ x.signedMagnitude ∧ x.signedMagnitude ≤ b.signedMagnitude := by
  constructor
  · rintro ⟨⟨-, -, hax⟩, -, -, hxb⟩
    exact ⟨hax, hxb⟩
  · rintro ⟨hax, hxb⟩
    have hx := isNaN_eq_false_of_between ha hb hax hxb
    exact ⟨⟨ha, hx, hax⟩, hx, hb, hxb⟩

/-- A key equals a number exactly when it stands in its place. -/
theorem numEq_iff_of_number {a x : Binary64} (ha : a.isNaN = false) :
    x.numEq a = true ↔ x.signedMagnitude = a.signedMagnitude := by
  rw [numEq_iff]
  constructor
  · rintro ⟨-, -, h⟩
    exact h
  · intro h
    exact ⟨isNaN_eq_false_of_between ha ha (Int.le_of_eq h.symm) (Int.le_of_eq h), ha, h⟩

theorem numEq_refl {x : Binary64} (hx : x.isNaN = false) : x.numEq x = true :=
  numEq_iff.2 ⟨hx, hx, rfl⟩

theorem le_refl {x : Binary64} (hx : x.isNaN = false) : x ≤ x := ⟨hx, hx, Int.le_refl _⟩

theorem le_trans {x y z : Binary64} (hxy : x ≤ y) (hyz : y ≤ z) : x ≤ z :=
  ⟨hxy.1, hyz.2.1, Int.le_trans hxy.2.2 hyz.2.2⟩

theorem le_of_not_lt {x y : Binary64} (hx : x.isNaN = false) (hy : y.isNaN = false)
    (h : ¬y < x) : x ≤ y :=
  ⟨hx, hy, Int.not_lt.1 fun hlt => h ⟨hy, hx, hlt⟩⟩

theorem le_of_numEq {x y : Binary64} (h : x.numEq y = true) : x ≤ y ∧ y ≤ x := by
  obtain ⟨hx, hy, heq⟩ := numEq_iff.1 h
  exact ⟨⟨hx, hy, Int.le_of_eq heq⟩, hy, hx, Int.le_of_eq heq.symm⟩

theorem numEq_of_le_of_le {x y : Binary64} (hxy : x ≤ y) (hyx : y ≤ x) : x.numEq y = true :=
  numEq_iff.2 ⟨hxy.1, hxy.2.1, Int.le_antisymm hxy.2.2 hyx.2.2⟩

end Binary64

/-! ## The order of records -/

variable {R : Type} [PlotRecord R]

/-- The place of a record in the key order; records in one place have equal keys. -/
def place (r : R) : Int := (sortKey r).signedMagnitude

theorem recordLe_iff {a b : R} : recordLe a b = true ↔ place a ≤ place b := keyLe_iff

theorem keyLess_sortKey_iff {r : R} {key : Binary64} :
    keyLess (sortKey r) key = true ↔ place r < key.signedMagnitude := keyLess_iff

theorem keyLess_key_iff {r : R} {key : Binary64} :
    keyLess key (sortKey r) = true ↔ key.signedMagnitude < place r := keyLess_iff

theorem not_keyLess_key_iff {r : R} {key : Binary64} :
    (!keyLess key (sortKey r)) = true ↔ place r ≤ key.signedMagnitude := keyLe_iff

theorem recordLe_trans (a b c : R) :
    recordLe a b = true → recordLe b c = true → recordLe a c = true := by
  rw [recordLe_iff, recordLe_iff, recordLe_iff]
  exact Int.le_trans

theorem recordLe_total (a b : R) : (recordLe a b || recordLe b a) = true := by
  rw [Bool.or_eq_true, recordLe_iff, recordLe_iff]
  exact Int.le_total _ _

end PlotSeries
