import PlotSeries.Proofs.KeyExtents
import PlotSeries.Proofs.KeyWindows

/-!
# How far the values of a store extend

The extent of the values in a window of keys goes from the least lower bound that a sign
domain accepts to the greatest upper bound that it accepts. Both come from taking up
bounds one by one, keeping the one that no other beats (`IsBest`,
`IsBest.foldl_keepBetter`); they may belong to different records.

* `Extent.Envelops` states both bounds over all extents; `Store.envelops_valueExtent`: the
  extent of a window envelops those of the records looked at, which in key order are all
  that are drawn in the window (`Store.recordsIn_eq_filter`).
* `SignDomain.accepts_crosswise`: of two extents in order, one with an accepted lower and
  one with an accepted upper bound, one has both. So the extent of a window is in order
  if those of its records are (`valueExtent_of_inKeyOrder`).
-/

namespace PlotSeries

/-! ## The best of some values -/

section Best

variable {α : Type} (accepts : α → Bool) (beats : α → α → Bool)

/-- The value taken up if it is accepted and beats the best so far, else that. -/
def keepBetter (best : Option α) (a : α) : Option α :=
  if accepts a && best.all (beats a) then some a else best

/-- The best of the accepted values, which there is unless none is accepted. -/
structure IsBest (values : List α) (best : Option α) : Prop where
  mem : ∀ b ∈ best, b ∈ values ∧ accepts b = true
  unbeaten : ∀ a ∈ values, accepts a = true → ∃ b ∈ best, beats a b = false

namespace IsBest

variable {accepts beats} {values : List α} {best : Option α} {a : α}

theorem nil : IsBest accepts beats [] none where
  mem _ h := nomatch h
  unbeaten _ h := nomatch h

theorem isSome_iff (h : IsBest accepts beats values best) :
    best.isSome = true ↔ ∃ a ∈ values, accepts a = true := by
  rw [Option.isSome_iff_exists]
  constructor
  · rintro ⟨b, hb⟩
    exact ⟨b, h.mem b hb⟩
  · rintro ⟨a, ha, haccepts⟩
    obtain ⟨b, hb, -⟩ := h.unbeaten a ha haccepts
    exact ⟨b, hb⟩

/-- A value that is not accepted or does not beat the best changes nothing. -/
theorem keep (h : IsBest accepts beats values best)
    (ha : accepts a = true → ∃ b ∈ best, beats a b = false) :
    IsBest accepts beats (values ++ [a]) best where
  mem b hb := ⟨List.mem_append_left _ (h.mem b hb).1, (h.mem b hb).2⟩
  unbeaten x hx haccepts := by
    rcases List.mem_append.1 hx with hx | hx
    · exact h.unbeaten x hx haccepts
    · obtain rfl := List.mem_singleton.1 hx
      exact ha haccepts

variable (htrans : ∀ a b c, beats a b = true → beats b c = true → beats a c = true)
  (hirrefl : ∀ a, beats a a = false)
include htrans hirrefl

/-- An accepted value that beats the best, if there is one, takes its place. -/
theorem replace (h : IsBest accepts beats values best) (ha : accepts a = true)
    (hbeats : ∀ b ∈ best, beats a b = true) :
    IsBest accepts beats (values ++ [a]) (some a) where
  mem b hb := by
    obtain rfl := Option.mem_some_iff.1 hb
    exact ⟨List.mem_append_right _ (List.mem_singleton_self _), ha⟩
  unbeaten x hx haccepts := by
    refine ⟨a, rfl, ?_⟩
    rcases List.mem_append.1 hx with hx | hx
    · obtain ⟨b, hb, hxb⟩ := h.unbeaten x hx haccepts
      exact Bool.eq_false_iff.2 fun hxa => Bool.eq_false_iff.1 hxb (htrans x a b hxa (hbeats b hb))
    · obtain rfl := List.mem_singleton.1 hx
      exact hirrefl x

theorem keepBetter (h : IsBest accepts beats values best) (a : α) :
    IsBest accepts beats (values ++ [a]) (keepBetter accepts beats best a) := by
  unfold PlotSeries.keepBetter
  split
  next htaken =>
    obtain ⟨ha, hall⟩ := Bool.and_eq_true_iff.1 htaken
    exact h.replace htrans hirrefl ha fun b hb => (Option.all_eq_true _ _).1 hall b hb
  next hkept =>
    refine h.keep fun ha => ?_
    cases best with
    | none => exact absurd ha (by simpa using hkept)
    | some b => exact ⟨b, rfl, by simpa [ha] using hkept⟩

theorem foldl_keepBetter (values : List α) :
    IsBest accepts beats values (values.foldl (PlotSeries.keepBetter accepts beats) none) :=
  foldl_takenUp (P := IsBest accepts beats) nil
    (fun a h => h.keepBetter htrans hirrefl a) values

end IsBest

end Best

/-! ## The bounds of a window -/

namespace Store

variable {domain : SignDomain} {values : List Binary64}

theorem isBest_leastAccepted (domain : SignDomain) (values : List Binary64) :
    IsBest domain.accepts (fun a b => decide (a < b)) values (leastAccepted domain values) := by
  refine IsBest.foldl_keepBetter (fun a b c hab hbc => ?_) (fun a => ?_) values
  · rw [decide_eq_true_iff] at hab hbc ⊢
    exact ⟨hab.1, hbc.2.1, Int.lt_trans hab.2.2 hbc.2.2⟩
  · exact decide_eq_false fun h => Int.lt_irrefl _ h.2.2

theorem isBest_greatestAccepted (domain : SignDomain) (values : List Binary64) :
    IsBest domain.accepts (fun a b => decide (b < a)) values (greatestAccepted domain values) := by
  refine IsBest.foldl_keepBetter (fun a b c hab hbc => ?_) (fun a => ?_) values
  · rw [decide_eq_true_iff] at hab hbc ⊢
    exact ⟨hbc.1, hab.2.1, Int.lt_trans hbc.2.2 hab.2.2⟩
  · exact decide_eq_false fun h => Int.lt_irrefl _ h.2.2

/-- No accepted value is less than the least one. -/
theorem leastAccepted_le {least : Binary64} (h : least ∈ leastAccepted domain values) :
    ∀ value ∈ values, domain.accepts value = true → least ≤ value := by
  intro value hvalue haccepts
  have hbest := isBest_leastAccepted domain values
  obtain ⟨b, hb, hnot⟩ := hbest.unbeaten value hvalue haccepts
  obtain rfl := Option.mem_unique h hb
  exact Binary64.le_of_not_lt (SignDomain.isNaN_of_accepts (hbest.mem _ h).2)
    (SignDomain.isNaN_of_accepts haccepts) (of_decide_eq_false hnot)

/-- No accepted value is greater than the greatest one. -/
theorem le_greatestAccepted {greatest : Binary64} (h : greatest ∈ greatestAccepted domain values) :
    ∀ value ∈ values, domain.accepts value = true → value ≤ greatest := by
  intro value hvalue haccepts
  have hbest := isBest_greatestAccepted domain values
  obtain ⟨b, hb, hnot⟩ := hbest.unbeaten value hvalue haccepts
  obtain rfl := Option.mem_unique h hb
  exact Binary64.le_of_not_lt (SignDomain.isNaN_of_accepts haccepts)
    (SignDomain.isNaN_of_accepts (hbest.mem _ h).2) (of_decide_eq_false hnot)

end Store

/-- The extent goes from the least accepted lower bound of some extents to their greatest
accepted upper bound. -/
structure Extent.Envelops (domain : SignDomain) (e : Extent) (extents : List Extent) : Prop where
  lower_mem : ∃ f ∈ extents, f.lower = e.lower
  upper_mem : ∃ f ∈ extents, f.upper = e.upper
  accepts_lower : domain.accepts e.lower = true
  accepts_upper : domain.accepts e.upper = true
  lower_le : ∀ f ∈ extents, domain.accepts f.lower = true → e.lower ≤ f.lower
  le_upper : ∀ f ∈ extents, domain.accepts f.upper = true → f.upper ≤ e.upper

/-- Of two extents in order, one with an accepted lower bound and one with an accepted upper
bound, one has both bounds accepted. -/
theorem SignDomain.accepts_crosswise {domain : SignDomain} {e f : Extent} (he : e.lower ≤ e.upper)
    (hf : f.lower ≤ f.upper) (hlower : domain.accepts e.lower = true)
    (hupper : domain.accepts f.upper = true) :
    domain.accepts e.upper = true ∨ domain.accepts f.lower = true := by
  cases domain with
  | both =>
    refine .inl ?_
    simpa [accepts] using he.2.1
  | negative =>
    have hlt : f.upper < 0 := of_decide_eq_true hupper
    exact .inr (decide_eq_true ⟨hf.1, hlt.2.1, Int.lt_of_le_of_lt hf.2.2 hlt.2.2⟩)
  | positive =>
    have hlt : 0 < e.lower := of_decide_eq_true hlower
    exact .inl (decide_eq_true ⟨hlt.1, he.2.1, Int.lt_of_lt_of_le hlt.2.2 he.2.2⟩)

/-- What envelops extents in order is in order. -/
theorem Extent.Envelops.lower_le_upper {domain : SignDomain} {e : Extent} {extents : List Extent}
    (h : e.Envelops domain extents) (hordered : ∀ f ∈ extents, f.lower ≤ f.upper) :
    e.lower ≤ e.upper := by
  obtain ⟨low, hlow, hlower⟩ := h.lower_mem
  obtain ⟨high, hhigh, hupper⟩ := h.upper_mem
  have hthrough {f : Extent} (hf : f ∈ extents) (hfl : domain.accepts f.lower = true)
      (hfu : domain.accepts f.upper = true) : e.lower ≤ e.upper :=
    Binary64.le_trans (h.lower_le f hf hfl)
      (Binary64.le_trans (hordered f hf) (h.le_upper f hf hfu))
  have hlowAccepted : domain.accepts low.lower = true := hlower ▸ h.accepts_lower
  have hhighAccepted : domain.accepts high.upper = true := hupper ▸ h.accepts_upper
  rcases SignDomain.accepts_crosswise (hordered low hlow) (hordered high hhigh) hlowAccepted
    hhighAccepted with hlowBoth | hhighBoth
  · exact hthrough hlow hlowAccepted hlowBoth
  · exact hthrough hhigh hhighBoth hhighAccepted

variable {R : Type} [PlotRecord R]

namespace Store

variable (s : Store R) (domain : SignDomain) (keys : Option Extent)

/-- The extents of the records in a window. -/
def extentsIn : List Extent := (s.recordsIn keys).map PlotRecord.valueExtent

theorem isSome_valueExtent_iff :
    (s.valueExtent domain keys).isSome = true ↔
      (∃ r ∈ s.recordsIn keys, domain.accepts (PlotRecord.valueExtent r).lower = true) ∧
        ∃ r ∈ s.recordsIn keys, domain.accepts (PlotRecord.valueExtent r).upper = true := by
  have hmap (bound : Extent → Binary64) :
      (∃ value ∈ (s.extentsIn keys).map bound, domain.accepts value = true) ↔
        ∃ r ∈ s.recordsIn keys, domain.accepts (bound (PlotRecord.valueExtent r)) = true := by
    rw [extentsIn, List.map_map]
    constructor
    · rintro ⟨_, hvalue, haccepts⟩
      obtain ⟨r, hr, rfl⟩ := List.mem_map.1 hvalue
      exact ⟨r, hr, haccepts⟩
    · rintro ⟨r, hr, haccepts⟩
      exact ⟨_, List.mem_map_of_mem hr, haccepts⟩
  rw [← hmap Extent.lower, ← hmap Extent.upper, ← (isBest_leastAccepted domain _).isSome_iff,
    ← (isBest_greatestAccepted domain _).isSome_iff, valueExtent, ← extentsIn]
  cases leastAccepted domain ((s.extentsIn keys).map Extent.lower) <;>
    cases greatestAccepted domain ((s.extentsIn keys).map Extent.upper) <;> simp

theorem envelops_valueExtent {e : Extent} (h : s.valueExtent domain keys = some e) :
    e.Envelops domain (s.extentsIn keys) := by
  rw [valueExtent, ← extentsIn] at h
  split at h
  next lower upper hlower hupper =>
    obtain rfl := Option.some.inj h
    have hleast := (isBest_leastAccepted domain ((s.extentsIn keys).map Extent.lower)).mem lower hlower
    have hgreatest :=
      (isBest_greatestAccepted domain ((s.extentsIn keys).map Extent.upper)).mem upper hupper
    exact {
      lower_mem := List.mem_map.1 hleast.1
      upper_mem := List.mem_map.1 hgreatest.1
      accepts_lower := hleast.2
      accepts_upper := hgreatest.2
      lower_le := fun f hf => leastAccepted_le hlower f.lower (List.mem_map_of_mem hf)
      le_upper := fun f hf => le_greatestAccepted hupper f.upper (List.mem_map_of_mem hf) }
  next => cases h

end Store

/-- Of a store in key order, the records looked at for a window of keys are all that are
drawn in it. The extent of their values exists exactly if the domain accepts the lower
bound of one of them and the upper bound of one of them, and then goes from the least
accepted lower to the greatest accepted upper bound. It is in order if the extent of each
of these records is. -/
theorem valueExtent_of_inKeyOrder {s : Store R} (hs : InKeyOrder s.toList) (domain : SignDomain)
    (keys : Option Extent) :
    let drawn := s.toList.filter (Store.drawnIn keys)
    s.recordsIn keys = drawn ∧
      ((s.valueExtent domain keys).isSome = true ↔
        (∃ r ∈ drawn, domain.accepts (PlotRecord.valueExtent r).lower = true) ∧
          ∃ r ∈ drawn, domain.accepts (PlotRecord.valueExtent r).upper = true) ∧
      (∀ e ∈ s.valueExtent domain keys,
        e.Envelops domain (drawn.map PlotRecord.valueExtent)) ∧
      ((∀ r ∈ drawn, (PlotRecord.valueExtent r).lower ≤ (PlotRecord.valueExtent r).upper) →
        ∀ e ∈ s.valueExtent domain keys, e.lower ≤ e.upper) := by
  intro drawn
  have hrecords : s.recordsIn keys = drawn := Store.recordsIn_eq_filter hs keys
  have henvelops (e : Extent) (he : e ∈ s.valueExtent domain keys) :
      e.Envelops domain (drawn.map PlotRecord.valueExtent) :=
    hrecords ▸ s.envelops_valueExtent domain keys he
  refine ⟨hrecords, hrecords ▸ s.isSome_valueExtent_iff domain keys, henvelops,
    fun hordered e he => (henvelops e he).lower_le_upper fun f hf => ?_⟩
  obtain ⟨r, hr, rfl⟩ := List.mem_map.1 hf
  exact hordered r hr

/-- Candles at both zeros and at keys that are no numbers, the first of them inverted. -/
def zeroCandles : Store Candle where
  buffer := .ofList [⟨⟨0xFFF8000000000000⟩, 0, 0, .ofNat 9, 0⟩,
    ⟨.nearest true 0 0, 0, .ofNat 2, .nearest true 1 0, 0⟩, ⟨0, 0, .ofNat 5, .ofNat 3, 0⟩,
    ⟨.ofNat 4, 0, .ofNat 8, .ofNat 1, 0⟩, ⟨.nan, 0, 0, .ofNat 9, 0⟩] 0

/-- In a window from positive zero to negative zero, the candles at the two zeros are drawn;
on the positive side their values extend from 3 to 5. -/
theorem zeroCandles_valueExtent :
    InKeyOrder zeroCandles.toList ∧
      (∀ r ∈ zeroCandles.toList.filter (Store.drawnIn (some ⟨0, .nearest true 0 0⟩)),
        (PlotRecord.valueExtent r).lower ≤ (PlotRecord.valueExtent r).upper) ∧
      zeroCandles.valueExtent .positive (some ⟨0, .nearest true 0 0⟩) =
        some ⟨.ofNat 3, .ofNat 5⟩ ∧
      Extent.Envelops .positive ⟨.ofNat 3, .ofNat 5⟩
        ((zeroCandles.toList.filter (Store.drawnIn (some ⟨0, .nearest true 0 0⟩))).map
          PlotRecord.valueExtent) ∧
      Binary64.ofNat 3 ≤ Binary64.ofNat 5 := by
  have hs : InKeyOrder zeroCandles.toList := by decide
  have hordered : ∀ r ∈ zeroCandles.toList.filter (Store.drawnIn (some ⟨0, .nearest true 0 0⟩)),
      (PlotRecord.valueExtent r).lower ≤ (PlotRecord.valueExtent r).upper := by decide
  have hextent : zeroCandles.valueExtent .positive (some ⟨0, .nearest true 0 0⟩) =
      some ⟨.ofNat 3, .ofNat 5⟩ := by decide +kernel
  obtain ⟨-, -, henvelops, hresult⟩ :=
    valueExtent_of_inKeyOrder hs .positive (some ⟨0, .nearest true 0 0⟩)
  rw [hextent] at henvelops hresult
  exact ⟨hs, hordered, hextent, henvelops _ rfl, hresult hordered ⟨.ofNat 3, .ofNat 5⟩ rfl⟩

end PlotSeries
