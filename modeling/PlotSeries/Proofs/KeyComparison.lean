import PlotSeries.Proofs.Checked.Merge
import PlotSeries.Proofs.NumericOrder

/-!
# Comparing keys

The comparison of keys glues the two zeros together in the IEEE total order. It is still a
total preorder of all words, because it compares one integer per key, and what a sort needs of
a comparison follows from that by the standard library.

Keys are equal in it only if they are equal numbers or the same word (`compareKeys_eq_iff`): two
keys in one place have the same magnitude and, unless they are zeros, the same sign.
-/

namespace PlotSeries

theorem keyLess_iff_compareKeys {a b : Binary64} : keyLess a b = true ↔ compareKeys a b = .lt :=
  Ordering.isLT_iff_eq_lt

theorem keyLe_iff_compareKeys {a b : Binary64} :
    keyLe a b = true ↔ (compareKeys a b).isLE = true := by
  have hswap : compareKeys b a = (compareKeys a b).swap := Std.OrientedCmp.eq_swap
  rw [keyLe, keyLess, hswap]
  cases compareKeys a b <;> decide

/-- A key in the place of a key that is not a zero is the same word. -/
theorem Binary64.eq_of_signedMagnitude {x y : Binary64} (hx : x.magnitude ≠ 0)
    (h : x.signedMagnitude = y.signedMagnitude) : x = y := by
  have hmagnitude : x.magnitude = y.magnitude := by
    rw [magnitude_eq_natAbs, magnitude_eq_natAbs, h]
  refine eq_of_sign_magnitude ?_ hmagnitude
  unfold signedMagnitude at h
  cases hxs : x.isNegative <;> cases hys : y.isNegative <;> simp [hxs, hys] at h ⊢ <;> omega

theorem compareKeys_eq_iff {a b : Binary64} :
    compareKeys a b = .eq ↔ a.numEq b = true ∨ a.bits = b.bits := by
  rw [compareKeys_eq, Int.compare_eq_eq]
  constructor
  · intro h
    cases ha : a.isNaN with
    | false =>
      have hb := Binary64.isNaN_eq_false_of_between ha ha (Int.le_of_eq h) (Int.le_of_eq h.symm)
      exact .inl (Binary64.numEq_iff.2 ⟨ha, hb, h⟩)
    | true =>
      have hpos : a.magnitude ≠ 0 := by
        rw [Binary64.isNaN, decide_eq_true_iff] at ha
        omega
      exact .inr (congrArg Binary64.bits (Binary64.eq_of_signedMagnitude hpos h))
  · rintro (h | h)
    · exact (Binary64.numEq_iff.1 h).2.2
    · have hab : a = b := by
        cases a
        cases b
        exact congrArg Binary64.mk h
      rw [hab]

/-- The comparison of keys is a total preorder of all words, and equality in it goes well with
it on both sides. Numbers are compared as IEEE does, and finite ones by what they stand for; only
equal numbers, as the two zeros are, and the same words are equal. The keys below −∞ are the NaNs
with their sign bit set, and those above +∞ the other NaNs. So a sort of any records finds the
comparison consistent. -/
theorem compareKeys_total_preorder :
    ((∀ a b, compareKeys b a = (compareKeys a b).swap) ∧
      (∀ a b c, keyLess a b = true → keyLess b c = true → keyLess a c = true) ∧
      (∀ a b c, keyLe a b = true → keyLe b c = true → keyLe a c = true) ∧
      (∀ a b, keyLe a b = true ∨ keyLe b a = true) ∧
      (Equivalence fun a b => compareKeys a b = .eq) ∧
      ∀ a a' b b', compareKeys a a' = .eq → compareKeys b b' = .eq →
        keyLess a b = keyLess a' b') ∧
    ((∀ a b : Binary64, a.isNaN = false → b.isNaN = false →
        (keyLess a b = true ↔ a < b) ∧ (compareKeys a b = .eq ↔ a.numEq b = true)) ∧
      (∀ a b : Binary64, a.isFinite = true → b.isFinite = true →
        compareKeys a b = compare a.units b.units) ∧
      ∀ a b : Binary64, compareKeys a b = .eq ↔ a.numEq b = true ∨ a.bits = b.bits) ∧
    ((∀ a : Binary64, a.isFinite = true →
        keyLess (.infinity true) a = true ∧ keyLess a (.infinity false) = true) ∧
      ∀ a : Binary64,
        (keyLess a (.infinity true) = true ↔ a.isNaN = true ∧ a.isNegative = true) ∧
        (keyLess (.infinity false) a = true ↔ a.isNaN = true ∧ a.isNegative = false)) ∧
    ∀ (R : Type) [PlotRecord R] (row : List R),
      Checked.Consistent row ∧ Checked.sortRow.run row = .ok ⟨⟩ (sortByKey row) := by
  refine ⟨⟨fun a b => Std.OrientedCmp.eq_swap, fun a b c hab hbc => ?_, fun a b c hab hbc => ?_,
    fun a b => ?_, ?_, fun a a' b b' ha hb => ?_⟩, ⟨fun a b ha hb => ⟨?_, ?_⟩,
    fun a b _ _ => Binary64.compareKeys_eq_compare_units a b, fun a b => compareKeys_eq_iff⟩,
    ⟨fun a => Binary64.between_infinities, fun a => ⟨Binary64.keyLess_negative_infinity_iff,
      Binary64.keyLess_infinity_iff⟩⟩,
    fun R _ row => ⟨Checked.consistent row, Checked.sortRow_eq row⟩⟩
  · rw [keyLess_iff_compareKeys] at hab hbc ⊢
    exact Std.TransCmp.lt_trans hab hbc
  · rw [keyLe_iff_compareKeys] at hab hbc ⊢
    exact Std.TransCmp.isLE_trans hab hbc
  · rw [keyLe_iff, keyLe_iff]
    exact Int.le_total _ _
  · exact ⟨fun a => Std.ReflCmp.compare_self, Std.OrientedCmp.eq_symm, Std.TransCmp.eq_trans⟩
  · rw [keyLess, keyLess, Std.TransCmp.congr_left ha, Std.TransCmp.congr_right hb]
  · rw [keyLess_iff, Binary64.lt_def]
    exact ⟨fun h => ⟨ha, hb, h⟩, fun h => h.2.2⟩
  · rw [compareKeys_eq, Int.compare_eq_eq, Binary64.numEq_iff]
    exact ⟨fun h => ⟨ha, hb, h⟩, fun h => h.2.2⟩

/-- A NaN with its sign bit set comes before −∞ and so before −1, both zeros follow −1, 1 and 3
compare as the numbers of units they are, and a NaN with a clear sign bit comes last. -/
theorem specialKeys_compared :
    keyLess ⟨0xFFF8000000000000⟩ (.infinity true) = true ∧
      keyLess ⟨0xFFF8000000000000⟩ (.ofInt (-1)) = true ∧
      compareKeys (.nearest true 0 0) .zero = .eq ∧
      keyLess (.ofInt (-1)) (.nearest true 0 0) = keyLess (.ofInt (-1)) .zero ∧
      (keyLess (.ofInt (-1)) .zero = true ↔ Binary64.ofInt (-1) < .zero) ∧
      compareKeys (.ofNat 1) (.ofNat 3) = compare (2 ^ 1074 : Int) (3 * 2 ^ 1074) ∧
      keyLess (.infinity false) .nan = true := by
  obtain ⟨⟨-, htrans, -, -, -, hcongr⟩, ⟨hnumbers, hfinite, hequal⟩, ⟨hbetween, hbeyond⟩, -⟩ :=
    compareKeys_total_preorder
  have hnegative : keyLess ⟨0xFFF8000000000000⟩ (.infinity true) = true :=
    (hbeyond _).1.2 ⟨by decide, by decide⟩
  have hone : keyLess (.infinity true) (.ofInt (-1)) = true := (hbetween _ (by decide)).1
  have hzeros : compareKeys (.nearest true 0 0) .zero = .eq := (hequal _ _).2 (.inl (by decide))
  have hunits : (Binary64.ofNat 1).units = 2 ^ 1074 ∧ (Binary64.ofNat 3).units = 3 * 2 ^ 1074 := by
    decide +kernel
  refine ⟨hnegative, htrans _ _ _ hnegative hone, hzeros,
    hcongr _ _ _ _ ((hequal _ _).2 (.inr rfl)) hzeros, (hnumbers _ _ (by decide) (by decide)).1, ?_,
    (hbeyond _).2.2 ⟨by decide, by decide⟩⟩
  rw [hfinite _ _ (by decide) (by decide), hunits.1, hunits.2]

end PlotSeries
